import Cpu2Tensor.Client.Pool

/-!
# Frames of a byte stream

Without transport faults the frames that are received, read ahead or not, are those of the byte
stream; a schedule decides only how many of them are read ahead.
-/

namespace Cpu2Tensor.Client
open Library

/-- Nothing but the end of the connection interrupts the bytes. -/
structure Schedule.Clean (schedule : Schedule) : Prop where
  recv : ∀ time, ∃ limit, schedule.recv time = .bytes limit
  peek : ∀ time, ∃ seen, schedule.peek time = .bytes seen

def nextFrame (rest : Bytes) : Except Stop (Bytes × Bytes) :=
  if rest.length < headerBytes then .error (.cleanEnd (rest ≠ []))
  else
    match headerSize (rest.take headerBytes) with
    | .error stop => .error stop
    | .ok size =>
      if rest.length < headerBytes+size then .error (.cleanEnd true)
      else .ok (rest.take (headerBytes+size),rest.drop (headerBytes+size))

variable {schedule : Schedule}

theorem recvInto_clean (hclean : schedule.Clean) {size : Nat} (hsize : 0 < size) (c : Connection) :
    ∃ count, 0 < count ∧ count ≤ size ∧ recvInto schedule size c =
      .ok (c.rest.take count,{ c with rest := c.rest.drop count, time := c.time+1 }) := by
  obtain ⟨limit,hlimit⟩ := hclean.recv c.time
  refine ⟨max 1 (min limit size),by omega,by omega,?_⟩
  rw [recvInto,hlimit]

theorem receiveLoop_enough (hclean : schedule.Clean) {size fuel : Nat} {started : Bool} {data : Bytes}
    {c : Connection} (hfuel : size-data.length ≤ fuel) (hdata : data.length ≤ size)
    (hrest : size-data.length ≤ c.rest.length) :
    ∃ time, receiveLoop schedule size started fuel data c =
      .ok (data ++ c.rest.take (size-data.length),
        { c with rest := c.rest.drop (size-data.length), time }) := by
  induction fuel generalizing data c with
  | zero =>
    have hzero : size-data.length = 0 := Nat.le_zero.mp hfuel
    refine ⟨c.time,?_⟩
    rw [receiveLoop,if_neg (by omega),hzero,List.take_zero,List.append_nil,List.drop_zero]
  | succ fuel ih =>
    by_cases hshort : data.length < size
    · obtain ⟨count,hpositive,hle,hrecv⟩ := recvInto_clean hclean (Nat.sub_pos_of_lt hshort) c
      have hlength : (c.rest.take count).length = count := by
        rw [List.length_take]
        omega
      have hpart : c.rest.take count ≠ [] := by
        intro hnil
        rw [hnil,List.length_nil] at hlength
        omega
      have hnext : (data ++ c.rest.take count).length = data.length+count := by
        rw [List.length_append,hlength]
      obtain ⟨time,hloop⟩ := @ih (data ++ c.rest.take count)
        { c with rest := c.rest.drop count, time := c.time+1 } (by omega) (by omega) (by
          rw [List.length_drop,hnext]
          omega)
      refine ⟨time,?_⟩
      rw [receiveLoop,if_pos hshort,hrecv]
      dsimp only
      rw [if_neg hpart,hloop,hnext]
      have hsum : size-data.length = count+(size-(data.length+count)) := by omega
      rw [hsum,List.take_add,List.append_assoc,List.drop_drop]
    · have hzero : size-data.length = 0 := by omega
      refine ⟨c.time,?_⟩
      rw [receiveLoop,if_neg hshort,hzero,List.take_zero,List.append_nil,List.drop_zero]

theorem receiveLoop_short (hclean : schedule.Clean) {size fuel : Nat} {started : Bool} {data : Bytes}
    {c : Connection} (hfuel : size-data.length ≤ fuel) (hrest : c.rest.length < size-data.length) :
    receiveLoop schedule size started fuel data c =
      .error (.cleanEnd (started || decide (data ++ c.rest ≠ []))) := by
  induction fuel generalizing data c with
  | zero => omega
  | succ fuel ih =>
    have hshort : data.length < size := by omega
    obtain ⟨count,hpositive,_,hrecv⟩ := recvInto_clean hclean (Nat.sub_pos_of_lt hshort) c
    rw [receiveLoop,if_pos hshort,hrecv]
    dsimp only
    by_cases hnil : c.rest = []
    · rw [hnil,List.take_nil,if_pos rfl,List.append_nil]
    · have hpart : c.rest.take count ≠ [] := by
        rw [ne_eq,List.take_eq_nil_iff,not_or]
        exact ⟨by omega,hnil⟩
      have hlength := List.length_pos_iff.mpr hpart
      have hsum : (c.rest.take count).length+(c.rest.drop count).length = c.rest.length := by
        rw [← List.length_append,List.take_append_drop]
      rw [if_neg hpart,ih]
      · simp only [List.append_assoc,List.take_append_drop]
      · rw [List.length_append]
        omega
      · rw [List.length_append]
        dsimp only
        omega

theorem receive_enough (hclean : schedule.Clean) {size : Nat} (started : Bool) {c : Connection}
    (hrest : size ≤ c.rest.length) : ∃ time, receive schedule size started c =
      .ok (c.rest.take size,{ c with rest := c.rest.drop size, time }) := by
  obtain ⟨time,hloop⟩ := @receiveLoop_enough schedule hclean size size started [] c le_rfl
    (Nat.zero_le _) hrest
  exact ⟨time,hloop⟩

theorem receive_short (hclean : schedule.Clean) {size : Nat} (started : Bool) {c : Connection}
    (hrest : c.rest.length < size) :
    receive schedule size started c =
      .error (.cleanEnd (started || decide (c.rest ≠ []))) :=
  @receiveLoop_short schedule hclean size size started [] c le_rfl hrest

theorem receiveFrame_clean (hclean : schedule.Clean) (c : Connection) :
    match nextFrame c.rest with
    | .error stop => receiveFrame schedule c = .error stop
    | .ok (frame,rest) => ∃ time, receiveFrame schedule c =
        .ok (frame,{ rest, time, observed := c.observed ++ [frame] }) := by
  unfold nextFrame
  by_cases hheader : c.rest.length < headerBytes
  · rw [if_pos hheader]
    dsimp only
    unfold receiveFrame
    rw [receive_short hclean false hheader,Bool.false_or]
    rfl
  · rw [if_neg hheader]
    obtain ⟨time,hreceive⟩ := receive_enough hclean false (Nat.le_of_not_lt hheader)
    cases hsize : headerSize (c.rest.take headerBytes) with
    | error stop =>
      dsimp only
      unfold receiveFrame
      rw [hreceive]
      change (headerSize (c.rest.take headerBytes) >>= _) = _
      rw [hsize]
      rfl
    | ok size =>
      dsimp only
      by_cases hpayload : c.rest.length < headerBytes+size
      · rw [if_pos hpayload]
        dsimp only
        unfold receiveFrame
        rw [hreceive]
        change (headerSize (c.rest.take headerBytes) >>= _) = _
        rw [hsize]
        change (receive schedule size true _ >>= _) = _
        rw [receive_short hclean true (by
          change (c.rest.drop headerBytes).length < size
          rw [List.length_drop]
          omega)]
        rfl
      · rw [if_neg hpayload]
        dsimp only
        have hrest : size ≤ (c.rest.drop headerBytes).length := by
          rw [List.length_drop]
          omega
        obtain ⟨later,hreceive'⟩ := @receive_enough schedule hclean size true
          { c with rest := c.rest.drop headerBytes, time } hrest
        refine ⟨later,?_⟩
        unfold receiveFrame
        rw [hreceive]
        change (headerSize (c.rest.take headerBytes) >>= _) = _
        rw [hsize]
        change (receive schedule size true _ >>= _) = _
        rw [hreceive']
        simp only [List.take_add,List.drop_drop]
        rfl

/-- A look ahead that fails or finds a frame says what the next receive does. -/
theorem completeFrameIsReady_clean (hclean : schedule.Clean) (c : Connection) :
    match completeFrameIsReady schedule c with
    | .error stop => nextFrame c.rest = .error stop
    | .ok true => ∃ frame rest, nextFrame c.rest = .ok (frame,rest)
    | .ok false => True := by
  obtain ⟨seen,hseen⟩ := hclean.peek c.time
  obtain ⟨later,hlater⟩ := hclean.peek (c.time+1)
  unfold completeFrameIsReady
  rw [hseen,hlater]
  dsimp only
  by_cases hheader : (c.rest.take (min seen headerBytes)).length < headerBytes
  · rw [if_pos hheader]
    trivial
  · rw [if_neg hheader]
    have hlength : headerBytes ≤ seen ∧ headerBytes ≤ c.rest.length := by
      rw [List.length_take] at hheader
      omega
    rw [min_eq_right hlength.1]
    unfold nextFrame
    rw [if_neg (by omega)]
    cases headerSize (c.rest.take headerBytes) with
    | error stop => rfl
    | ok size =>
      dsimp only
      by_cases hready : (c.rest.take (min later (headerBytes+size))).length = headerBytes+size
      · rw [decide_eq_true hready]
        dsimp only
        rw [List.length_take] at hready
        rw [if_neg (by omega)]
        exact ⟨_,_,rfl⟩
      · rw [decide_eq_false hready]
        trivial

/-- The frames of a byte stream, each with what follows it, and what ends them. -/
inductive Arrives : Bytes → List (Bytes × Bytes) → Stop → Prop
  | stop {rest : Bytes} {stop : Stop} : nextFrame rest = .error stop → Arrives rest [] stop
  | frame {bytes frame rest : Bytes} {entries : List (Bytes × Bytes)} {stop : Stop} :
    nextFrame bytes = .ok (frame,rest) → Arrives rest entries stop →
    Arrives bytes ((frame,rest)::entries) stop

theorem nextFrame_length {bytes frame rest : Bytes} (h : nextFrame bytes = .ok (frame,rest)) :
    bytes = frame ++ rest ∧ headerBytes ≤ frame.length := by
  unfold nextFrame at h
  split_ifs at h with hheader
  split at h
  · cases h
  · split_ifs at h with hpayload
    obtain ⟨rfl,rfl⟩ := Prod.mk.inj (Except.ok.inj h)
    refine ⟨(List.take_append_drop _ _).symm,?_⟩
    rw [List.length_take]
    omega

theorem exists_arrives (bytes : Bytes) : ∃ entries stop, Arrives bytes entries stop := by
  induction hlength : bytes.length using Nat.strong_induction_on generalizing bytes with
  | h length ih =>
    cases hnext : nextFrame bytes with
    | error stop => exact ⟨[],stop,.stop hnext⟩
    | ok next =>
      obtain ⟨frame,rest⟩ := next
      obtain ⟨hbytes,hframe⟩ := nextFrame_length hnext
      have hsum := congrArg List.length hbytes
      rw [List.length_append] at hsum
      have hpositive : 0 < headerBytes := by decide
      obtain ⟨entries,stop,hrest⟩ := ih rest.length (by omega) rest rfl
      exact ⟨_,stop,.frame hnext hrest⟩

theorem Arrives.length_le {bytes : Bytes} {entries : List (Bytes × Bytes)} {stop : Stop}
    (h : Arrives bytes entries stop) : entries.length ≤ bytes.length := by
  induction h with
  | stop _ => exact Nat.zero_le _
  | frame hnext _ ih =>
    obtain ⟨rfl,hframe⟩ := nextFrame_length hnext
    have hpositive : 0 < headerBytes := by decide
    rw [List.length_cons,List.length_append]
    omega

/-- The stop of a byte stream is not a fault of the transport, and it is never a return. -/
def Stop.isArrival : Stop → Prop
  | .cleanEnd _ => True
  | .raised (.other _) => True
  | _ => False

theorem Arrives.isArrival {bytes : Bytes} {entries : List (Bytes × Bytes)} {stop : Stop}
    (h : Arrives bytes entries stop) : stop.isArrival := by
  induction h with
  | stop hnext =>
    unfold nextFrame at hnext
    split_ifs at hnext with hheader
    · obtain rfl := Except.error.inj hnext
      trivial
    · split at hnext
      · next stop' hsize =>
        obtain rfl := Except.error.inj hnext
        unfold headerSize at hsize
        split at hsize
        · obtain rfl := Except.error.inj hsize
          trivial
        · cases hsize
      · split_ifs at hnext
        obtain rfl := Except.error.inj hnext
        trivial
  | frame _ _ ih => exact ih

structure AheadOf (bytes : Bytes) (entries : List (Bytes × Bytes)) (stop : Stop) (limit : Nat)
    (observed : List Bytes) (ahead : Ahead) : Prop where
  split : ∃ taken later, entries = taken ++ later ∧
    taken.map Prod.fst = ahead.frames ++ ahead.pending.toList ∧
    Arrives ahead.connection.rest later stop ∧
    (∀ entry, taken.getLast? = some entry → entry.2 = ahead.connection.rest) ∧
    (taken = [] → ahead.connection.rest = bytes) ∧
    (∀ stopped, ahead.deferred = some stopped → later = [] ∧ stop = stopped)
  mixed : ∀ frame ∈ ahead.frames, kindField frame = Kind.mixed.code
  pending : ∀ frame, ahead.pending = some frame → kindField frame ≠ Kind.mixed.code
  deferred : ahead.deferred ≠ none → ahead.pending = none
  limit : ahead.frames.length ≤ limit
  observed : ahead.connection.observed = observed ++ ahead.frames ++ ahead.pending.toList

theorem aheadOf_none {c : Connection} {entries : List (Bytes × Bytes)} {stop : Stop}
    (h : Arrives c.rest entries stop) (time limit : Nat) :
    AheadOf c.rest entries stop limit c.observed { connection := { c with time } } :=
  ⟨⟨[],entries,rfl,rfl,h,by simp,fun _ => rfl,by simp⟩,by simp,by simp,by simp,Nat.zero_le _,by simp⟩

theorem AheadOf.cons {frame rest : Bytes} {entries : List (Bytes × Bytes)} {stop : Stop} {limit : Nat}
    {observed : List Bytes} {ahead : Ahead} (hkind : kindField frame = Kind.mixed.code)
    (h : AheadOf rest entries stop limit (observed ++ [frame]) ahead) (bytes : Bytes) :
    AheadOf bytes ((frame,rest)::entries) stop (limit+1) observed
      { ahead with frames := frame::ahead.frames } := by
  obtain ⟨taken,later,hentries,htaken,hlater,hlast,hempty,hdeferred⟩ := h.split
  refine ⟨⟨(frame,rest)::taken,later,?_,?_,hlater,?_,by simp,hdeferred⟩,?_,h.pending,h.deferred,?_,?_⟩
  · rw [hentries,List.cons_append]
  · rw [List.map_cons,htaken]
    rfl
  · intro entry hentry
    cases taken with
    | nil =>
      obtain rfl := Option.some.inj hentry
      exact (hempty rfl).symm
    | cons next taken =>
      rw [List.getLast?_cons_cons] at hentry
      exact hlast entry hentry
  · exact List.forall_mem_cons.mpr ⟨hkind,h.mixed⟩
  · exact Nat.succ_le_succ h.limit
  · simp only [h.observed,List.append_assoc,List.cons_append,List.nil_append]

theorem readAhead_clean (hclean : schedule.Clean) (limit : Nat) {c : Connection}
    {entries : List (Bytes × Bytes)} {stop : Stop} (h : Arrives c.rest entries stop) :
    AheadOf c.rest entries stop limit c.observed (readAhead schedule limit c) := by
  induction limit generalizing c entries with
  | zero => exact aheadOf_none h c.time 0
  | succ limit ih =>
    have hready := completeFrameIsReady_clean hclean c
    have hreceive := receiveFrame_clean hclean { c with time := c.time+2 }
    dsimp only at hreceive
    rw [readAhead]
    cases hanswer : completeFrameIsReady schedule c with
    | error stopped =>
      rw [hanswer] at hready
      cases h with
      | stop hnext =>
        obtain rfl := Except.error.inj (hnext.symm.trans hready)
        exact ⟨⟨[],[],rfl,rfl,.stop hnext,by simp,fun _ => rfl,by simp⟩,by simp,by simp,by simp,
          Nat.zero_le _,by simp⟩
      | frame hnext _ =>
        dsimp only at hready
        rw [hready] at hnext
        cases hnext
    | ok answer =>
      rw [hanswer] at hready
      cases answer with
      | false => exact aheadOf_none h (c.time+2) _
      | true =>
        dsimp only at hready ⊢
        obtain ⟨frame,rest,hnext⟩ := hready
        rw [hnext] at hreceive
        obtain ⟨time,hreceive⟩ := hreceive
        rw [hreceive]
        dsimp only
        cases h with
        | stop hstop =>
          rw [hnext] at hstop
          cases hstop
        | frame hother hrest =>
          obtain ⟨rfl,rfl⟩ := Prod.mk.inj (Except.ok.inj (hnext.symm.trans hother))
          by_cases hkind : kindField frame = Kind.mixed.code
          · rw [if_neg (not_not.mpr hkind)]
            exact (@ih { rest, time, observed := c.observed ++ [frame] } _ hrest).cons hkind _
          · rw [if_pos hkind]
            refine ⟨⟨[_],_,rfl,rfl,hrest,?_,by simp,by simp⟩,by simp,?_,by simp,Nat.zero_le _,?_⟩
            · intro entry hentry
              obtain rfl := Option.some.inj hentry
              rfl
            · intro other hother
              obtain rfl := Option.some.inj hother
              exact hkind
            · simp

end Cpu2Tensor.Client
