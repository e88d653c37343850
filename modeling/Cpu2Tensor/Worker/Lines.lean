import Cpu2Tensor.Library.Delimited
import Cpu2Tensor.Worker.Kernel

/-!
# Line framing of the kernel worker's channels

Both local channels of `run_kernel` end their messages with a newline.  `Lines` is the bounded
buffer between a channel and the loop that takes complete lines out of it.
-/

namespace Cpu2Tensor.KernelProtocol
open Library

def lineCapacity : Nat := 8192

def newline : UInt8 := 10

structure Lines where
  bytes : Bytes := List.replicate lineCapacity 0
  used : Nat := 0
  eof : Bool := false

def lineTooLong : String := "Kernel control line is too long"

def channelFailed : String := "Kernel control channel failed"

/-- One `read` into the free part of the buffer; `read` says what the channel answers for a limit.
A full buffer is refused before the channel is asked. -/
def Lines.readFrom (l : Lines) (read : (limit : Nat) → ReadAnswer limit) : Except String Lines :=
  if l.used = lineCapacity-1 then .error lineTooLong
  else match read (lineCapacity-1-l.used) with
    | .data bytes _ =>
      let used := l.used+bytes.length
      .ok { l with bytes := patch (patch l.bytes l.used bytes) used [0], used }
    | .finished => .ok { l with eof := true }
    | .interrupted => .ok l
    | .closed => .error channelFailed
    | .failed => .error channelFailed

/-- The size of the first complete line with its newline, or zero. -/
def Lines.lineSize (l : Lines) : Nat :=
  match (l.bytes.take l.used).findIdx? (· == newline) with
  | none => 0
  | some last => last+1

def Lines.consume (l : Lines) (size : Nat) : Lines :=
  let used := l.used-size
  { l with bytes := patch (patch l.bytes 0 ((l.bytes.drop size).take used)) used [0], used }

/-- The bytes that wait in the buffer. -/
def Lines.text (l : Lines) : Bytes := l.bytes.take l.used

theorem Lines.lineSize_le_used (l : Lines) : l.lineSize ≤ l.used := by
  rw [lineSize]
  split
  · exact Nat.zero_le _
  · rename_i last hlast
    have hlt := (List.findIdx?_eq_some_iff_findIdx_eq.mp hlast).1
    exact hlt.trans_le (List.length_take_le _ _)

/-- The loop of `run_kernel` over the complete lines of the buffer: the lines it finds, and what
is left. -/
def Lines.takeLines (l : Lines) : List Bytes × Lines :=
  if _ : l.lineSize = 0 then ([],l)
  else
    let rest := (l.consume l.lineSize).takeLines
    (l.bytes.take l.lineSize :: rest.1,rest.2)
termination_by l.used
decreasing_by
  have hle := l.lineSize_le_used
  simp only [consume]
  omega

structure Lines.Valid (l : Lines) : Prop where
  sized : l.bytes.length = lineCapacity
  bounded : l.used ≤ lineCapacity-1

variable {l : Lines} {r : Reader} {stream : Bytes}

theorem Lines.Valid.used_lt (h : l.Valid) : l.used < l.bytes.length := by
  have hbounded := h.bounded
  rw [h.sized]
  simp only [lineCapacity] at hbounded ⊢
  omega

theorem Lines.Valid.text_length (h : l.Valid) : l.text.length = l.used :=
  List.length_take_of_le h.used_lt.le

theorem Lines.valid_new : ({} : Lines).Valid where
  sized := List.length_replicate
  bounded := Nat.zero_le _

/-- What a read that does not fail does to the buffer. -/
structure Lines.Received (l : Lines) (bytes : Bytes) (l' : Lines) : Prop where
  valid : l'.Valid
  text : l'.text = l.text ++ bytes

theorem Lines.Valid.received (h : l.Valid) {bytes : Bytes} {eof : Bool}
    (hlen : bytes.length ≤ lineCapacity-1-l.used) :
    l.Received bytes ⟨patch (patch l.bytes l.used bytes) (l.used+bytes.length) [0],
      l.used+bytes.length,eof⟩ := by
  have hused := h.used_lt
  have hfits : l.used+bytes.length < l.bytes.length := by
    have hsized := h.sized
    simp only [lineCapacity] at hlen hsized
    omega
  have hfirst := patch_length l.bytes bytes l.used hfits.le
  refine ⟨⟨?_,?_⟩,?_⟩
  · rw [patch_length _ _ _ (by rw [hfirst]; exact hfits),hfirst,h.sized]
  · have hbounded := h.bounded
    show l.used+bytes.length ≤ lineCapacity-1
    omega
  · simp only [Lines.text]
    rw [take_patch_before _ _ le_rfl (by rw [hfirst]; exact hfits.le),take_patch _ _ hused.le]

theorem Lines.Valid.consume {l : Lines} (h : l.Valid) {size : Nat} (hs : size ≤ l.used) :
    (l.consume size).Valid ∧ (l.consume size).text = l.text.drop size := by
  have hused := h.used_lt
  have hmoved : ((l.bytes.drop size).take (l.used-size)).length = l.used-size := by
    rw [List.length_take,List.length_drop]
    omega
  have hfirst := patch_length l.bytes ((l.bytes.drop size).take (l.used-size)) 0 (by omega)
  refine ⟨⟨?_,?_⟩,?_⟩
  · show (patch (patch l.bytes 0 _) (l.used-size) [0]).length = lineCapacity
    have hroom : l.used-size+[(0 : UInt8)].length ≤ l.bytes.length := by
      rw [List.length_singleton]
      omega
    rw [patch_length _ _ _ (hfirst ▸ hroom),hfirst,h.sized]
  · exact (Nat.sub_le _ _).trans h.bounded
  · have htake := take_patch l.bytes ((l.bytes.drop size).take (l.used-size)) (Nat.zero_le _)
    rw [hmoved,Nat.zero_add,List.take_zero,List.nil_append] at htake
    simp only [Lines.text,Lines.consume]
    rw [take_patch_before _ _ le_rfl (by omega),htake,List.drop_take]

theorem Lines.lineSize_eq_zero_iff (l : Lines) : l.lineSize = 0 ↔ newline ∉ l.text := by
  rw [lineSize]
  split
  · rename_i hnone
    simp only [true_iff]
    intro hmem
    simpa using List.findIdx?_eq_none_iff.mp hnone newline hmem
  · rename_i last hlast
    simp only [Nat.succ_ne_zero,false_iff,not_not]
    have hget := List.findIdx?_eq_some_iff_getElem.mp hlast
    obtain ⟨hlt,heq,_⟩ := hget
    rw [beq_iff_eq] at heq
    exact heq ▸ List.getElem_mem hlt

theorem Lines.Valid.first_line (h : l.Valid) (hline : l.lineSize ≠ 0) :
    ∃ body, newline ∉ body ∧ l.bytes.take l.lineSize = body ++ [newline] ∧
      l.text = body ++ [newline] ++ (l.consume l.lineSize).text := by
  have hconsume := (h.consume l.lineSize_le_used).2
  have hle := l.lineSize_le_used
  cases hfind : (l.bytes.take l.used).findIdx? (· == newline) with
  | none => exact absurd (by rw [lineSize,hfind]) hline
  | some last =>
    have hsize : l.lineSize = last+1 := by rw [lineSize,hfind]
    obtain ⟨hlt,heq,hbefore⟩ := List.findIdx?_eq_some_iff_getElem.mp hfind
    have htext : l.bytes.take l.lineSize = l.text.take (last+1) := by
      rw [text,List.take_take,hsize,Nat.min_eq_left (by omega)]
    have hline : l.text.take (last+1) = l.text.take last ++ [newline] := by
      rw [text,List.take_succ_eq_append_getElem hlt,eq_of_beq heq]
    refine ⟨l.text.take last,?_,htext.trans hline,?_⟩
    · intro hmem
      obtain ⟨i,hi,hget⟩ := List.mem_take_iff_getElem.mp hmem
      have hnot := hbefore i (by omega)
      simp only [text] at hget
      simp [hget] at hnot
    · rw [← hline,hconsume,hsize,List.take_append_drop]

/-- The loop takes out the complete lines of the buffer and leaves the rest. -/
theorem Lines.takeLines_delimited (l : Lines) (h : l.Valid) :
    l.takeLines.2.Valid ∧ l.takeLines.2.eof = l.eof ∧
      Delimited newline l.text l.takeLines.1 l.takeLines.2.text := by
  induction l using Lines.takeLines.induct with
  | case1 l hline =>
    rw [takeLines,dif_pos hline]
    exact ⟨h,rfl,delimited_of_notMem (l.lineSize_eq_zero_iff.mp hline)⟩
  | case2 l hline ih =>
    rw [takeLines,dif_neg hline]
    obtain ⟨hvalid,heof,hdelimited⟩ := ih (h.consume l.lineSize_le_used).1
    obtain ⟨body,hbody,hbytes,htext⟩ := h.first_line hline
    refine ⟨hvalid,heof,?_⟩
    rw [htext,hbytes]
    exact hdelimited.cons body hbody

/-- The buffers that reads and the consumption of lines lead to. -/
inductive Lines.Reached : Lines → Prop
  | new : Reached {}
  | read {l l' : Lines} (h : Reached l) (answer : (limit : Nat) → ReadAnswer limit)
      (hread : l.readFrom answer = .ok l') : Reached l'
  | consume {l : Lines} (h : Reached l) : Reached (l.consume l.lineSize)

theorem Lines.Valid.readFrom {l' : Lines} (h : l.Valid)
    {answer : (limit : Nat) → ReadAnswer limit} (hread : l.readFrom answer = .ok l') :
    l'.Valid := by
  rw [Lines.readFrom] at hread
  split at hread
  · cases hread
  · split at hread
    · rename_i bytes hbounds _
      cases hread
      exact (h.received hbounds.2).valid
    · cases hread
      exact ⟨h.sized,h.bounded⟩
    · cases hread
      exact h
    · cases hread
    · cases hread

theorem Lines.Reached.valid (h : l.Reached) : l.Valid := by
  induction h with
  | new => exact Lines.valid_new
  | read _ _ hread ih => exact ih.readFrom hread
  | @consume l _ ih => exact (ih.consume l.lineSize_le_used).1

/-- How a `read` finds the channel: some bytes can be had, `count+1` of them at most, or the
stream has ended; or no byte yet; or an error. -/
inductive Arrival
  | ready (count : Nat)
  | interrupted
  | failed
  deriving DecidableEq, Repr

def Arrival.isReady : Arrival → Bool
  | .ready _ => true
  | _ => false

/-- What `read` returns when this is left of the stream. -/
def Arrival.answer (rest : Bytes) (limit : Nat) : Arrival → ReadAnswer limit
  | .ready count =>
    if h : 0 < (rest.take (min (count+1) limit)).length then
      .data (rest.take (min (count+1) limit))
        ⟨h,(List.length_take_le _ _).trans (Nat.min_le_right _ _)⟩
    else .finished
  | .interrupted => .interrupted
  | .failed => .failed

/-- A channel with its buffer: what is left of the stream, the lines taken out so far, and the
error that ended the run. -/
structure Reader where
  lines : Lines := {}
  rest : Bytes
  extracted : List Bytes := []
  error : Option String := none

/-- One pass of the loop of `run_kernel` over the channel.  It does not read past the end of the
stream, and an error ends the run. -/
def Reader.pass (r : Reader) (arrival : Arrival) : Reader :=
  if r.error.isSome || r.lines.eof then r
  else match r.lines.readFrom fun limit => arrival.answer r.rest limit with
    | .error message => { r with error := some message }
    | .ok lines =>
      { r with
        lines := lines.takeLines.2
        rest := r.rest.drop (lines.used-r.lines.used)
        extracted := r.extracted ++ lines.takeLines.1 }

def readLines (stream : Bytes) (arrivals : List Arrival) : Reader :=
  arrivals.foldl Reader.pass { rest := stream }

/-- The channel is still read. -/
structure Reader.Open (r : Reader) : Prop where
  sound : r.error = none
  more : r.lines.eof = false

theorem Reader.open_or_done (r : Reader) :
    r.Open ∨ (r.error.isSome || r.lines.eof) = true := by
  cases herror : r.error with
  | some message => exact Or.inr (by simp)
  | none =>
    cases heof : r.lines.eof with
    | true => exact Or.inr (by simp)
    | false => exact Or.inl ⟨herror,heof⟩

/-- What one pass can do. -/
inductive Reader.Passed (r : Reader) (arrival : Arrival) : Reader → Prop
  | idle (h : (r.error.isSome || r.lines.eof) = true) : Passed r arrival r
  | full (hopen : r.Open) (h : r.lines.used = lineCapacity-1) :
      Passed r arrival { r with error := some lineTooLong }
  | failed (hopen : r.Open) (h : arrival = .failed) :
      Passed r arrival { r with error := some channelFailed }
  | received (hopen : r.Open) (hroom : r.lines.used ≠ lineCapacity-1) (bytes rest : Bytes)
      (l : Lines) (hreceived : r.lines.Received bytes l) (hrest : bytes ++ rest = r.rest)
      (hready : arrival.isReady = true → bytes ≠ [] ∨ l.eof = true)
      (heof : l.eof = true → bytes = [] ∧ r.rest = []) :
      Passed r arrival
        { r with lines := l.takeLines.2, rest, extracted := r.extracted ++ l.takeLines.1 }

theorem Lines.Valid.received_nothing (h : l.Valid) (eof : Bool) : l.Received [] { l with eof } :=
  ⟨⟨h.sized,h.bounded⟩,by rw [List.append_nil]; rfl⟩

theorem Reader.pass_passed (h : r.lines.Valid) (arrival : Arrival) :
    r.Passed arrival (r.pass arrival) := by
  rcases r.open_or_done with hopen | hdone
  · have hnot : (r.error.isSome || r.lines.eof) = false := by rw [hopen.sound,hopen.more]; rfl
    by_cases hroom : r.lines.used = lineCapacity-1
    · have hpass : r.pass arrival = { r with error := some lineTooLong } := by
        simp [pass,hnot,Lines.readFrom,hroom]
      rw [hpass]
      exact .full hopen hroom
    · cases arrival with
      | failed =>
        have hpass : r.pass .failed = { r with error := some channelFailed } := by
          simp [pass,hnot,Lines.readFrom,hroom,Arrival.answer]
        rw [hpass]
        exact .failed hopen rfl
      | interrupted =>
        have hpass : r.pass .interrupted =
            { r with lines := r.lines.takeLines.2, rest := r.rest
                     extracted := r.extracted ++ r.lines.takeLines.1 } := by
          simp [pass,hnot,Lines.readFrom,hroom,Arrival.answer]
        rw [hpass]
        refine .received hopen hroom [] r.rest r.lines (h.received_nothing _) rfl nofun ?_
        intro heof
        rw [hopen.more] at heof
        cases heof
      | ready count =>
        set bytes := r.rest.take (min (count+1) (lineCapacity-1-r.lines.used)) with hbytes
        have hlen : bytes.length ≤ lineCapacity-1-r.lines.used :=
          (List.length_take_le _ _).trans (Nat.min_le_right _ _)
        by_cases hsome : 0 < bytes.length
        · have hpass : r.pass (.ready count) =
              { r with
                lines := (Lines.mk (patch (patch r.lines.bytes r.lines.used bytes)
                  (r.lines.used+bytes.length) [0]) (r.lines.used+bytes.length)
                  r.lines.eof).takeLines.2
                rest := r.rest.drop bytes.length
                extracted := r.extracted ++ (Lines.mk (patch (patch r.lines.bytes r.lines.used
                  bytes) (r.lines.used+bytes.length) [0]) (r.lines.used+bytes.length)
                  r.lines.eof).takeLines.1 } := by
            simp [pass,hnot,Lines.readFrom,hroom,Arrival.answer,← hbytes,hsome]
          rw [hpass]
          refine .received hopen hroom bytes _ _ (h.received hlen) ?_ ?_ ?_
          · rw [hbytes,List.length_take,List.take_eq_take_min]
            exact List.take_append_drop ..
          · intro _
            exact Or.inl (List.ne_nil_of_length_pos hsome)
          · intro heof
            rw [show _ = r.lines.eof from rfl,hopen.more] at heof
            cases heof
        · have hnil : bytes = [] := List.eq_nil_of_length_eq_zero (by omega)
          have hend : r.rest = [] := by
            have hbounded := h.bounded
            rw [hbytes,List.take_eq_nil_iff] at hnil
            rcases hnil with hzero | hend
            · omega
            · exact hend
          have hpass : r.pass (.ready count) =
              { r with
                lines := ({ r.lines with eof := true } : Lines).takeLines.2, rest := r.rest
                extracted := r.extracted ++
                  ({ r.lines with eof := true } : Lines).takeLines.1 } := by
            simp [pass,hnot,Lines.readFrom,hroom,Arrival.answer,← hbytes,hnil]
          rw [hpass]
          exact .received hopen hroom [] r.rest _ (h.received_nothing true) rfl
            (fun _ => Or.inr rfl) (fun _ => ⟨rfl,hend⟩)
  · have hpass : r.pass arrival = r := by rw [pass,if_pos hdone]
    rw [hpass]
    exact .idle hdone

/-- The lines taken out and the buffer are those of the part of the stream that has been read. -/
structure Reader.Sound (stream : Bytes) (r : Reader) : Prop where
  valid : r.lines.Valid
  delimited : ∃ taken, taken ++ r.rest = stream ∧ Delimited newline taken r.extracted r.lines.text
  short : ∀ line ∈ r.extracted, line.length ≤ lineCapacity-1
  ended : r.lines.eof = true → r.rest = [] ∧ r.lines.used < lineCapacity-1
  full : r.error = some lineTooLong → r.lines.used = lineCapacity-1

theorem Reader.sound_start (stream : Bytes) : Reader.Sound stream { rest := stream } where
  valid := Lines.valid_new
  delimited := ⟨[],rfl,delimited_of_notMem (by simp)⟩
  short := by simp
  ended := nofun
  full := nofun

theorem Lines.Valid.takeLines_le (h : l.Valid) :
    (∀ line ∈ l.takeLines.1, line.length ≤ lineCapacity-1) ∧ l.takeLines.2.used ≤ l.used := by
  obtain ⟨hvalid,_,hdelimited⟩ := l.takeLines_delimited h
  have hwhole := congrArg List.length hdelimited.whole
  rw [List.length_append,hvalid.text_length,h.text_length] at hwhole
  have hbounded := h.bounded
  refine ⟨?_,by omega⟩
  intro line hline
  have hline := (List.sublist_flatten_of_mem hline).length_le
  omega

theorem Reader.Sound.pass (h : r.Sound stream) (arrival : Arrival) :
    (r.pass arrival).Sound stream := by
  have hpassed := r.pass_passed h.valid arrival
  generalize r.pass arrival = r' at hpassed
  cases hpassed with
  | idle _ => exact h
  | full hopen hfull => exact ⟨h.valid,h.delimited,h.short,h.ended,fun _ => hfull⟩
  | failed hopen _ =>
    exact ⟨h.valid,h.delimited,h.short,h.ended,
      fun herror => absurd (Option.some.inj herror) (by decide)⟩
  | received hopen hroom bytes rest l hreceived hrest _ heof =>
    obtain ⟨hvalid,hsame,hdelimited⟩ := l.takeLines_delimited hreceived.valid
    obtain ⟨hshort,hless⟩ := hreceived.valid.takeLines_le
    refine ⟨hvalid,?_,?_,?_,?_⟩
    · obtain ⟨taken,hstream,htaken⟩ := h.delimited
      rw [hreceived.text] at hdelimited
      exact ⟨taken ++ bytes,by rw [List.append_assoc,hrest,hstream],htaken.append hdelimited⟩
    · intro line hline
      rcases List.mem_append.mp hline with hline | hline
      · exact h.short line hline
      · exact hshort line hline
    · intro hend
      obtain ⟨hnil,hdone⟩ := heof (hsame ▸ hend)
      subst hnil
      have hused : l.used = r.lines.used := by
        rw [← hreceived.valid.text_length,hreceived.text,List.append_nil,h.valid.text_length]
      have hbounded := h.valid.bounded
      exact ⟨hrest.trans hdone,lt_of_le_of_lt hless (by omega)⟩
    · intro herror
      rw [hopen.sound] at herror
      cases herror

theorem Reader.Sound.foldl (h : r.Sound stream) (arrivals : List Arrival) :
    (arrivals.foldl Reader.pass r).Sound stream := by
  induction arrivals generalizing r with
  | nil => exact h
  | cons arrival arrivals ih => exact ih (h.pass arrival)

theorem readLines_sound (stream : Bytes) (arrivals : List Arrival) :
    (readLines stream arrivals).Sound stream :=
  (Reader.sound_start stream).foldl arrivals

/-- A run that has come to its end, by the end of the stream or by a line that is too long. -/
def Reader.Settled (r : Reader) : Prop :=
  r.error = some lineTooLong ∨ (r.error = none ∧ r.lines.eof = true)

theorem Reader.Settled.pass (h : r.Settled) (arrival : Arrival) : r.pass arrival = r := by
  have hdone : (r.error.isSome || r.lines.eof) = true := by
    rcases h with h | h
    · rw [h]
      rfl
    · rw [h.2,Bool.or_true]
  rw [Reader.pass,if_pos hdone]

theorem Reader.Settled.foldl (h : r.Settled) (arrivals : List Arrival) :
    arrivals.foldl Reader.pass r = r := by
  induction arrivals with
  | nil => rfl
  | cons arrival arrivals ih => rw [List.foldl_cons,h.pass,ih]

/-- Each read that finds the channel ready takes a byte, or settles the run. -/
theorem Reader.Sound.progress (h : r.Sound stream) (hnone : r.error = none) {arrival : Arrival}
    (harrival : arrival ≠ .failed) :
    (r.pass arrival).Settled ∨ ((r.pass arrival).error = none ∧
      (r.pass arrival).rest.length + [arrival].countP Arrival.isReady ≤ r.rest.length) := by
  have hpassed := r.pass_passed h.valid arrival
  generalize r.pass arrival = r' at hpassed
  cases hpassed with
  | idle hdone =>
    rw [hnone,Option.isSome_none,Bool.false_or] at hdone
    exact Or.inl (Or.inr ⟨hnone,hdone⟩)
  | full hopen _ => exact Or.inl (Or.inl rfl)
  | failed hopen hfailed => exact absurd hfailed harrival
  | received hopen hroom bytes rest l hreceived hrest hready heof =>
    obtain ⟨_,hsame,_⟩ := l.takeLines_delimited hreceived.valid
    by_cases hend : l.eof = true
    · exact Or.inl (Or.inr ⟨hnone,hsame.trans hend⟩)
    · refine Or.inr ⟨hnone,?_⟩
      have hlen := congrArg List.length hrest
      rw [List.length_append] at hlen
      cases hcase : arrival.isReady with
      | false => simp [hcase]; omega
      | true =>
        have hpos : 0 < bytes.length :=
          List.length_pos_of_ne_nil ((hready hcase).resolve_right hend)
        simp [hcase]
        omega

theorem Reader.Sound.settles (h : r.Sound stream) (hnone : r.error = none)
    {arrivals : List Arrival} (harrivals : .failed ∉ arrivals)
    (hmany : r.rest.length < arrivals.countP Arrival.isReady) :
    (arrivals.foldl Reader.pass r).Settled := by
  induction arrivals generalizing r with
  | nil => simp at hmany
  | cons arrival arrivals ih =>
    rw [List.mem_cons,not_or] at harrivals
    rw [List.foldl_cons]
    rcases h.progress hnone (Ne.symm harrivals.1) with hsettled | ⟨hnone',hless⟩
    · rw [hsettled.foldl]
      exact hsettled
    · have hcount : (arrival :: arrivals).countP Arrival.isReady =
          [arrival].countP Arrival.isReady + arrivals.countP Arrival.isReady := by
        rw [← List.countP_append,List.singleton_append]
      exact ih (h.pass arrival) hnone' harrivals.2 (by omega)

theorem Reader.Sound.exceeds (h : r.Sound stream) (herror : r.error = some lineTooLong) :
    Exceeds newline (lineCapacity-1) stream := by
  obtain ⟨taken,hstream,hdelimited⟩ := h.delimited
  rw [← hstream]
  apply hdelimited.exceeds
  rw [h.valid.text_length,h.full herror]

theorem Reader.Sound.fits (h : r.Sound stream) (heof : r.lines.eof = true) :
    frame newline stream = (r.extracted,r.lines.text) ∧
      ¬ Exceeds newline (lineCapacity-1) stream := by
  obtain ⟨taken,hstream,hdelimited⟩ := h.delimited
  obtain ⟨hrest,hused⟩ := h.ended heof
  rw [hrest,List.append_nil] at hstream
  subst hstream
  refine ⟨hdelimited.eq_frame,hdelimited.not_exceeds h.short ?_⟩
  rw [h.valid.text_length]
  exact hused

/-- However a stream is read, the lines taken out are the lines of what has been read, in order
and unaltered, and the buffer holds the unended rest.  A run that reads on to the end gives all
lines of the stream, or reports that a line is too long; the latter exactly when a line of the
stream, or the line that its rest can only become, does not fit the buffer with its newline.  The
buffer never holds more than `lineCapacity-1` bytes. -/
theorem readLines_delimited (stream : Bytes) (arrivals : List Arrival) :
    (∃ taken, taken ++ (readLines stream arrivals).rest = stream ∧
      Delimited newline taken (readLines stream arrivals).extracted
        (readLines stream arrivals).lines.text) ∧
    ((readLines stream arrivals).error = some lineTooLong →
      Exceeds newline (lineCapacity-1) stream) ∧
    (.failed ∉ arrivals → stream.length < arrivals.countP Arrival.isReady →
      ((readLines stream arrivals).error = some lineTooLong ↔
        Exceeds newline (lineCapacity-1) stream) ∧
      (¬ Exceeds newline (lineCapacity-1) stream →
        (readLines stream arrivals).error = none ∧ (readLines stream arrivals).lines.eof = true ∧
        (readLines stream arrivals).extracted = (frame newline stream).1 ∧
        (readLines stream arrivals).lines.text = (frame newline stream).2)) ∧
    ∀ l : Lines, l.Reached → l.used ≤ lineCapacity-1 := by
  have hsound := readLines_sound stream arrivals
  refine ⟨hsound.delimited,hsound.exceeds,?_,fun l hl => hl.valid.bounded⟩
  intro harrivals hmany
  have hsettled : (readLines stream arrivals).Settled :=
    (Reader.sound_start stream).settles rfl harrivals hmany
  rcases hsettled with herror | ⟨herror,heof⟩
  · have hexceeds := hsound.exceeds herror
    exact ⟨iff_of_true herror hexceeds,fun hnot => absurd hexceeds hnot⟩
  · obtain ⟨hframe,hfits⟩ := hsound.fits heof
    refine ⟨iff_of_false (by rw [herror]; nofun) hfits,fun _ => ⟨herror,heof,?_,?_⟩⟩
    · rw [hframe]
    · rw [hframe]

/-- Two lines and the start of a third, in pieces that end inside a line and after one. -/
theorem readLines_delimited_fragments :
    (readLines [67,10,68,13,10,69] [.ready 2,.interrupted,.ready 0,.ready 0,.ready 7,.ready 0,
      .ready 0,.ready 0]).extracted = [[67,10],[68,13,10]] ∧
    (readLines [67,10,68,13,10,69] [.ready 2,.interrupted,.ready 0,.ready 0,.ready 7,.ready 0,
      .ready 0,.ready 0]).lines.text = [69] := by
  have h := (readLines_delimited [67,10,68,13,10,69] [.ready 2,.interrupted,.ready 0,.ready 0,
    .ready 7,.ready 0,.ready 0,.ready 0]).2.2.1 (by decide) (by decide)
  exact (h.2 (by decide)).2.2

end Cpu2Tensor.KernelProtocol
