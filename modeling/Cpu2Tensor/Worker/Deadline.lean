import Cpu2Tensor.Worker.Kernel

/-!
# The deadline report of the kernel worker

What the client's socket receives is a sequence of whole frames, the last of which may be cut off
or may be the deadline report, unless the deadline passes while a frame is partly sent.
-/

namespace Cpu2Tensor
open Library

def handedBy : Sigma KernelAnswer → Bytes
  | ⟨.send .client bytes sent,.taken count _⟩ => (bytes.drop sent).take count
  | ⟨.sendReport bytes,.taken count _⟩ => bytes.take count
  | _ => []

def handed (log : KernelLog) : Bytes := log.flatMap handedBy

/-- Part of a frame, but not all of it, has been taken by the socket after this call. -/
def partAfter (part : Bool) : Sigma KernelAnswer → Bool
  | ⟨.send .client bytes sent,.taken count _⟩ => sent+count < bytes.length
  | _ => part

def partlySent (log : KernelLog) : Bool := log.foldl partAfter false

def WholeFrame (bytes : Bytes) : Prop :=
  ∃ h, decodeHeader (bytes.take headerBytes) = .ok h ∧ bytes.length = headerBytes+payloadSize h

def TerminalReport (bytes : Bytes) : Prop :=
  ∃ h, decodeHeader bytes = .ok h ∧ h.kind = .terminalReport

/-- Whole frames that the worker passed to the socket in this run. -/
def Forwarded (log : KernelLog) (frames : List Bytes) : Prop :=
  ∀ frame ∈ frames, WholeFrame frame ∧
    ∃ sent answer, (⟨.send .client frame sent,answer⟩ : Sigma KernelAnswer) ∈ log

/-- The socket gets whole frames, and a report only between them. -/
structure HandsWholeFrames (log : KernelLog) : Prop where
  bytes : ∃ frames report, Forwarded log frames ∧ (report = [] ∨ TerminalReport report) ∧
    handed log <+: frames.flatten ++ report
  reports : ∀ before report answer after,
    log = before ++ (⟨.sendReport report,answer⟩ : Sigma KernelAnswer) :: after →
      ∃ frames, Forwarded before frames ∧ handed before = frames.flatten

/-- No write to the client fails in the middle of a frame with the clock then at or past the
deadline, which is `maximum_ms` after the reading taken at the start. -/
def NoFrameCutAtDeadline (o : KernelOptions) (log : KernelLog) : Prop :=
  ∀ before (time : Int) after,
    log = before ++ (⟨.now .afterSend,time⟩ : Sigma KernelAnswer) :: after →
      partlySent before = true →
        ∀ start : Int, (⟨.now .startMaximum,start⟩ : Sigma KernelAnswer) ∈ before →
          time < start+o.maximumMs

variable {log : KernelLog} {frame : Bytes} {frames : List Bytes} {o : KernelOptions} {sent : Nat}

theorem NoFrameCutAtDeadline.of_extends {more : KernelLog} (hextends : log <+: more)
    (hmore : NoFrameCutAtDeadline o more) : NoFrameCutAtDeadline o log := by
  obtain ⟨rest,rfl⟩ := hextends
  intro before time after hlog
  apply hmore before time (after ++ rest)
  rw [hlog]
  simp

@[simp] theorem handed_snoc (log : KernelLog) (entry : Sigma KernelAnswer) :
    handed (log ++ [entry]) = handed log ++ handedBy entry := by
  simp [handed]

@[simp] theorem partlySent_snoc (log : KernelLog) (entry : Sigma KernelAnswer) :
    partlySent (log ++ [entry]) = partAfter (partlySent log) entry := by
  simp [partlySent]

theorem Forwarded.extend (hf : Forwarded log frames) (entry : Sigma KernelAnswer) :
    Forwarded (log ++ [entry]) frames := by
  intro frame hframe
  obtain ⟨hwhole,sent,answer,hmem⟩ := hf frame hframe
  exact ⟨hwhole,sent,answer,List.mem_append_left _ hmem⟩

/-- The flags that the worker tracks obey the dependencies that a decoder checks. -/
def KernelTerminalProgress.Sound (progress : KernelTerminalProgress) : Prop :=
  (progress.dataSent = true → progress.helloSent = true) ∧
    (progress.startObserved = true → progress.startConfigured = true) ∧
    progress.stopObserved = false

private theorem report_unfaulted : ∀ hello data startConfigured startObserved stopConfigured : Bool,
    (data = true → hello = true) → (startObserved = true → startConfigured = true) →
      headerFault (reportHeader
        ⟨hello,data,startConfigured,startObserved,stopConfigured,false,wireVersion⟩) = none := by
  decide +kernel

theorem reportHeader_decodes {progress : KernelTerminalProgress} (hp : progress.Sound) :
    decodeHeader (encodeHeader (reportHeader progress)) = .ok (reportHeader progress) := by
  have hfault : headerFault (reportHeader progress) = none := by
    obtain ⟨hello,data,startConfigured,startObserved,stopConfigured,stopObserved,version⟩ := progress
    obtain ⟨hdata,hstart,rfl⟩ := hp
    exact report_unfaulted _ _ _ _ _ hdata hstart
  rw [decodeHeader_encodeHeader,hfault]

structure Settled (log : KernelLog) : Prop where
  frames : ∃ frames, Forwarded log frames ∧ handed log = frames.flatten
  whole : partlySent log = false
  unreported : ∀ report answer, (⟨.sendReport report,answer⟩ : Sigma KernelAnswer) ∉ log

/-- So far `sent` bytes of a frame have been taken after whole frames. -/
structure Sending (frame : Bytes) (sent : Nat) (log : KernelLog) : Prop where
  frames : ∃ frames, Forwarded log frames ∧ handed log = frames.flatten ++ frame.take sent
  part : partlySent log = true ↔ 0 < sent ∧ sent < frame.length
  offered : 0 < sent → ∃ place answer,
    (⟨.send .client frame place,answer⟩ : Sigma KernelAnswer) ∈ log
  unreported : ∀ report answer, (⟨.sendReport report,answer⟩ : Sigma KernelAnswer) ∉ log

private theorem reports_none
    (hn : ∀ report answer, (⟨.sendReport report,answer⟩ : Sigma KernelAnswer) ∉ log) :
    ∀ before report answer after,
      log = before ++ (⟨.sendReport report,answer⟩ : Sigma KernelAnswer) :: after →
        ∃ frames, Forwarded before frames ∧ handed before = frames.flatten := by
  intro before report answer after hlog
  apply absurd _ (hn report answer)
  rw [hlog]
  simp

theorem Settled.sending (hs : Settled log) (frame : Bytes) : Sending frame 0 log := by
  obtain ⟨⟨frames,hframes,hhanded⟩,hwhole,hnone⟩ := hs
  refine ⟨⟨frames,hframes,by simpa using hhanded⟩,?_,?_,hnone⟩
  · simp [hwhole]
  · intro hpos
    exact absurd hpos (by simp)

theorem Settled.hands (hs : Settled log) : HandsWholeFrames log := by
  obtain ⟨⟨frames,hframes,hhanded⟩,_,hnone⟩ := hs
  refine ⟨⟨frames,[],hframes,.inl rfl,?_⟩,reports_none hnone⟩
  rw [hhanded,List.append_nil]

theorem Sending.hands (hs : Sending frame sent log) (hwhole : WholeFrame frame) :
    HandsWholeFrames log := by
  obtain ⟨⟨frames,hframes,hhanded⟩,_,hoffered,hnone⟩ := hs
  refine ⟨?_,reports_none hnone⟩
  obtain rfl | hpos := Nat.eq_zero_or_pos sent
  · refine ⟨frames,[],hframes,.inl rfl,?_⟩
    rw [hhanded]
    simp
  · refine ⟨frames ++ [frame],[],?_,.inl rfl,?_⟩
    · intro other hother
      rcases List.mem_append.mp hother with hmem | hmem
      · exact hframes other hmem
      · rw [List.mem_singleton.mp hmem]
        exact ⟨hwhole,hoffered hpos⟩
    · rw [hhanded,List.flatten_append,List.append_nil,List.flatten_singleton]
      exact List.prefix_append_right_inj _ |>.mpr (List.take_prefix _ _)

/-- A frame of which nothing or everything was taken leaves the worker between frames. -/
theorem Sending.settled (hs : Sending frame sent log) (hwhole : WholeFrame frame)
    (hend : sent = 0 ∨ frame.length ≤ sent) : Settled log := by
  obtain ⟨⟨frames,hframes,hhanded⟩,hpart,hoffered,hnone⟩ := hs
  have hfalse : partlySent log = false := by
    rw [Bool.eq_false_iff,Ne,hpart]
    omega
  refine ⟨?_,hfalse,hnone⟩
  obtain rfl | hpos := Nat.eq_zero_or_pos sent
  · exact ⟨frames,hframes,by simpa using hhanded⟩
  · refine ⟨frames ++ [frame],?_,?_⟩
    · intro other hother
      rcases List.mem_append.mp hother with hmem | hmem
      · exact hframes other hmem
      · rw [List.mem_singleton.mp hmem]
        exact ⟨hwhole,hoffered hpos⟩
    · rw [hhanded,List.take_of_length_le (by omega)]
      simp

def Quiet : KernelCall → Bool
  | .send .client _ _ => false
  | .sendReport _ => false
  | _ => true

section Quiet

variable {log : KernelLog} {q : KernelCall} (hq : Quiet q = true) (answer : KernelAnswer q)
include hq

private theorem handedBy_quiet : handedBy ⟨q,answer⟩ = [] := by
  unfold handedBy
  split
  · next heq =>
    obtain rfl := congrArg Sigma.fst heq
    exact absurd hq (by simp [Quiet])
  · next heq =>
    obtain rfl := congrArg Sigma.fst heq
    exact absurd hq (by simp [Quiet])
  · rfl

private theorem partAfter_quiet (part : Bool) : partAfter part ⟨q,answer⟩ = part := by
  unfold partAfter
  split
  · next heq =>
    obtain rfl := congrArg Sigma.fst heq
    exact absurd hq (by simp [Quiet])
  · rfl

private theorem unreported_quiet
    (hn : ∀ report answer, (⟨.sendReport report,answer⟩ : Sigma KernelAnswer) ∉ log) :
    ∀ report other, (⟨.sendReport report,other⟩ : Sigma KernelAnswer) ∉ log ++ [⟨q,answer⟩] := by
  intro report other hmem
  rcases List.mem_append.mp hmem with hmem | hmem
  · exact hn report other hmem
  · have hfst := congrArg Sigma.fst (List.mem_singleton.mp hmem)
    simp only at hfst
    subst hfst
    exact absurd hq (by simp [Quiet])

theorem Settled.quiet (hs : Settled log) : Settled (log ++ [⟨q,answer⟩]) := by
  obtain ⟨⟨frames,hframes,hhanded⟩,hwhole,hnone⟩ := hs
  refine ⟨⟨frames,hframes.extend _,?_⟩,?_,unreported_quiet hq answer hnone⟩
  · rw [handed_snoc,handedBy_quiet hq,List.append_nil,hhanded]
  · rw [partlySent_snoc,partAfter_quiet hq,hwhole]

theorem Sending.quiet {frame : Bytes} {sent : Nat} (hs : Sending frame sent log) :
    Sending frame sent (log ++ [⟨q,answer⟩]) := by
  obtain ⟨⟨frames,hframes,hhanded⟩,hpart,hoffered,hnone⟩ := hs
  refine ⟨⟨frames,hframes.extend _,?_⟩,?_,?_,unreported_quiet hq answer hnone⟩
  · rw [handed_snoc,handedBy_quiet hq,List.append_nil,hhanded]
  · rw [partlySent_snoc,partAfter_quiet hq,hpart]
  · intro hpos
    obtain ⟨place,other,hmem⟩ := hoffered hpos
    exact ⟨place,other,List.mem_append_left _ hmem⟩

theorem HandsWholeFrames.quiet (hh : HandsWholeFrames log) :
    HandsWholeFrames (log ++ [⟨q,answer⟩]) := by
  obtain ⟨⟨frames,report,hframes,hreport,hhanded⟩,hreports⟩ := hh
  refine ⟨⟨frames,report,hframes.extend _,hreport,?_⟩,?_⟩
  · rw [handed_snoc,handedBy_quiet hq,List.append_nil]
    exact hhanded
  · intro before bytes other after hlog
    obtain rfl | ⟨rest,last,rfl⟩ := List.eq_nil_or_concat' after
    · have hlast := congrArg Sigma.fst (List.cons.inj (List.append_inj' hlog rfl).2).1
      simp only at hlast
      subst hlast
      exact absurd hq (by simp [Quiet])
    · rw [← List.cons_append,← List.append_assoc] at hlog
      exact hreports before bytes other rest (List.append_inj' hlog rfl).1

end Quiet

/-- The reading from which the worker took its deadline is in the log. -/
def DeadlineKnown (o : KernelOptions) (maximum : Int) (log : KernelLog) : Prop :=
  maximum ≠ 0 → (⟨.now .startMaximum,maximum-o.maximumMs⟩ : Sigma KernelAnswer) ∈ log

theorem DeadlineKnown.extend {maximum : Int} (hd : DeadlineKnown o maximum log)
    (entry : Sigma KernelAnswer) :
    DeadlineKnown o maximum (log ++ [entry]) := fun hm => List.mem_append_left _ (hd hm)

def Resting (o : KernelOptions) (maximum : Int) (log : KernelLog) : Prop :=
  Settled log ∧ DeadlineKnown o maximum log

/-- Every run of `x` that meets the condition hands out whole frames; if it goes on, `post`. -/
structure Safe (o : KernelOptions) {α : Type} (x : Worker α) (post : α → KernelLog → Prop)
    (log : KernelLog) : Prop where
  wp : Dialogue.wp (Program.logProtocol (NoFrameCutAtDeadline o)) x post
    (fun _ log => HandsWholeFrames log) log

section Rules

variable {o : KernelOptions} {maximum : Int} {α β : Type} {log : KernelLog} {message : String}
  {post : α → KernelLog → Prop}

theorem safe_pure {a : α} (h : post a log) : Safe o (pure a) post log := ⟨h⟩

variable {bad : Prop} {q : KernelCall} {x : Worker α}

theorem safe_bind {f : α → Worker β} {middle : α → KernelLog → Prop} {post : β → KernelLog → Prop}
    (hx : Safe o x middle log) (hf : ∀ a log, middle a log → Safe o (f a) post log) :
    Safe o (x >>= f) post log :=
  ⟨(Dialogue.wp_bind x f post).mpr (Dialogue.wp_mono hx.wp (fun a log h => (hf a log h).wp)
    fun _ _ h => h)⟩

theorem safe_mono {post' : α → KernelLog → Prop} (hx : Safe o x post log)
    (himp : ∀ a log, post a log → post' a log) : Safe o x post' log :=
  ⟨Dialogue.wp_mono hx.wp himp fun _ _ h => h⟩

theorem safe_leave {result : Except String Bool} (h : HandsWholeFrames log) :
    Safe o (leave result) post log := ⟨h⟩

theorem safe_failWith (h : HandsWholeFrames log) : Safe o (failWith message) post log := ⟨h⟩

theorem safe_unfinished (h : HandsWholeFrames log) :
    Safe o (throw .unfinished : Worker α) post log := ⟨h⟩

theorem safe_call {post : KernelAnswer q → KernelLog → Prop}
    (h : ∀ answer, NoFrameCutAtDeadline o (log ++ [⟨q,answer⟩]) → post answer (log ++ [⟨q,answer⟩])) :
    Safe o (call q) post log := by
  refine ⟨trivial,?_⟩
  rintro answer _ ⟨rfl,hclean⟩
  exact h answer hclean

theorem safe_stopIf [Decidable bad] {post : Unit → KernelLog → Prop} (hlog : HandsWholeFrames log)
    (h : ¬bad → post () log) : Safe o (stopIf bad message) post log := by
  unfold stopIf
  split
  · exact safe_failWith hlog
  · next hgood => exact safe_pure (h hgood)

theorem Resting.hands (hr : Resting o maximum log) : HandsWholeFrames log := hr.1.hands

theorem Resting.quiet (hr : Resting o maximum log) (hq : Quiet q = true) (answer : KernelAnswer q) :
    Resting o maximum (log ++ [⟨q,answer⟩]) :=
  ⟨hr.1.quiet hq answer,hr.2.extend _⟩

theorem Resting.call (hr : Resting o maximum log) {q : KernelCall} (hq : Quiet q = true) :
    Safe o (Cpu2Tensor.call q) (fun _ log => Resting o maximum log) log :=
  safe_call fun answer _ => hr.quiet hq answer

theorem Resting.now (hr : Resting o maximum log) (site : ClockSite) :
    Safe o (Cpu2Tensor.now site) (fun _ log => Resting o maximum log) log :=
  hr.call rfl

theorem Resting.stopIf (hr : Resting o maximum log) [Decidable bad] :
    Safe o (Cpu2Tensor.stopIf bad message) (fun _ log => ¬bad ∧ Resting o maximum log) log :=
  safe_stopIf hr.hands fun hgood => ⟨hgood,hr⟩

end Rules

section Writes

variable {o : KernelOptions} {maximum : Int} {log : KernelLog}

/-- The report, sent between frames, is the last thing the socket gets. -/
theorem reportDeadline_safe {progress : KernelTerminalProgress} (hp : progress.Sound)
    (hs : Settled log) :
    Safe o (reportDeadline progress) (fun _ log => HandsWholeFrames log) log := by
  have hreport : Safe o (call (.sendReport (encodeHeader (reportHeader progress))))
      (fun _ log => HandsWholeFrames log) log := by
    apply safe_call
    intro answer _
    obtain ⟨⟨frames,hframes,hhanded⟩,_,hnone⟩ := hs
    refine ⟨⟨frames,encodeHeader (reportHeader progress),hframes.extend _,
      .inr ⟨_,reportHeader_decodes hp,rfl⟩,?_⟩,?_⟩
    · rw [handed_snoc,hhanded]
      apply (List.prefix_append_right_inj _).mpr
      cases answer with
      | taken count _ => exact List.take_prefix _ _
      | _ => exact List.nil_prefix
    · intro before report other after hlog
      obtain rfl | ⟨rest,last,rfl⟩ := List.eq_nil_or_concat' after
      · obtain ⟨rfl,_⟩ := List.append_inj' hlog rfl
        exact ⟨frames,hframes,hhanded⟩
      · rw [← List.cons_append,← List.append_assoc] at hlog
        obtain ⟨rfl,_⟩ := List.append_inj' hlog rfl
        exact absurd (by simp) (hnone report other)
  unfold reportDeadline
  split
  · exact safe_bind hreport fun _ _ h => safe_pure h
  · exact safe_pure hs.hands

variable {frame : Bytes} {sent : Nat}

private theorem Sending.taken (hs : Sending frame sent log) (count : Nat)
    (bounds : 0 < count ∧ count ≤ frame.length-sent) :
    Sending frame (sent+count) (log ++ [⟨.send .client frame sent,.taken count bounds⟩]) := by
  obtain ⟨⟨frames,hframes,hhanded⟩,_,_,hnone⟩ := hs
  refine ⟨⟨frames,hframes.extend _,?_⟩,?_,?_,?_⟩
  · rw [handed_snoc,hhanded,List.append_assoc]
    simp only [handedBy]
    rw [List.take_add]
  · simp only [partlySent_snoc,partAfter,decide_eq_true_eq]
    omega
  · intro _
    exact ⟨sent,.taken count bounds,by simp⟩
  · intro report other hmem
    rcases List.mem_append.mp hmem with hmem | hmem
    · exact hnone report other hmem
    · have hfst := congrArg Sigma.fst (List.mem_singleton.mp hmem)
      simp at hfst

private theorem Sending.untaken (hs : Sending frame sent log)
    (answer : SendAnswer (frame.length-sent)) (hn : ∀ count bounds, answer ≠ .taken count bounds) :
    Sending frame sent (log ++ [⟨.send .client frame sent,answer⟩]) := by
  obtain ⟨⟨frames,hframes,hhanded⟩,hpart,hoffered,hnone⟩ := hs
  have hnothing : handedBy ⟨.send .client frame sent,answer⟩ = [] := by
    cases answer with
    | taken count bounds => exact absurd rfl (hn count bounds)
    | _ => rfl
  have hsame : ∀ part, partAfter part ⟨.send .client frame sent,answer⟩ = part := by
    intro part
    cases answer with
    | taken count bounds => exact absurd rfl (hn count bounds)
    | _ => rfl
  refine ⟨⟨frames,hframes.extend _,?_⟩,?_,?_,?_⟩
  · rw [handed_snoc,hnothing,List.append_nil,hhanded]
  · rw [partlySent_snoc,hsame,hpart]
  · intro hpos
    obtain ⟨place,other,hmem⟩ := hoffered hpos
    exact ⟨place,other,List.mem_append_left _ hmem⟩
  · intro report other hmem
    rcases List.mem_append.mp hmem with hmem | hmem
    · exact hnone report other hmem
    · have hfst := congrArg Sigma.fst (List.mem_singleton.mp hmem)
      simp at hfst

def Stopped (o : KernelOptions) (maximum : Int) (frame : Bytes) (log : KernelLog) : Prop :=
  ∃ sent, sent < frame.length ∧ Sending frame sent log ∧ DeadlineKnown o maximum log

def AfterWrite (o : KernelOptions) (maximum : Int) (frame : Bytes) :
    Except String Bool → KernelLog → Prop
  | .ok false, log => Resting o maximum log
  | _, log => Stopped o maximum frame log

theorem sendLoop_client (hwhole : WholeFrame frame) (deadline : Int) (fuel : Nat)
    (hs : Sending frame sent log) (hd : DeadlineKnown o maximum log) :
    Safe o (sendLoop .client frame deadline fuel sent) (AfterWrite o maximum frame) log := by
  induction fuel generalizing sent log with
  | zero => exact safe_unfinished (hs.hands hwhole)
  | succ fuel ih =>
    rw [sendLoop]
    split
    · next hdone => exact safe_pure ⟨hs.settled hwhole (.inr hdone),hd⟩
    · next hmore =>
      have hlt : sent < frame.length := by omega
      have hsend : Safe o (call (.send .client frame sent)) (fun answer after =>
          after = log ++ [⟨.send .client frame sent,answer⟩]) log :=
        safe_call fun _ _ => rfl
      apply safe_bind hsend
      rintro answer _ rfl
      have hd' := hd.extend ⟨.send .client frame sent,answer⟩
      cases answer with
      | taken count bounds => exact ih (hs.taken count bounds) hd'
      | nothing => exact safe_pure ⟨sent,hlt,hs.untaken _ (by simp),hd'⟩
      | interrupted => exact ih (hs.untaken _ (by simp)) hd'
      | closed => exact safe_pure ⟨sent,hlt,hs.untaken _ (by simp),hd'⟩
      | failed => exact safe_pure ⟨sent,hlt,hs.untaken _ (by simp),hd'⟩
      | again =>
        have hs' := hs.untaken SendAnswer.again (by simp)
        generalize log ++ [⟨.send .client frame sent,SendAnswer.again⟩] = retry at hs' hd'
        have hclock : Safe o (now .sendRetry) (fun _ after =>
            Sending frame sent after ∧ DeadlineKnown o maximum after) retry :=
          safe_call fun _ _ => ⟨hs'.quiet rfl _,hd'.extend _⟩
        apply safe_bind hclock
        rintro time after ⟨hs',hd'⟩
        dsimp only
        split
        · exact safe_pure ⟨sent,hlt,hs',hd'⟩
        · have hpoll : Safe o (call (.pollSend .client (deadline-time))) (fun _ after =>
              Sending frame sent after ∧ DeadlineKnown o maximum after) after :=
            safe_call fun _ _ => ⟨hs'.quiet rfl _,hd'.extend _⟩
          apply safe_bind hpoll
          rintro answer after ⟨hs',hd'⟩
          cases answer with
          | ready | timedOut | interrupted => exact ih hs' hd'
          | closed | failed => exact safe_pure ⟨sent,hlt,hs',hd'⟩

variable {channel : Channel} {k : KernelState}

theorem sendLoop_quiet (hc : channel ≠ .client) (bytes : Bytes) (deadline : Int) (fuel sent : Nat)
    (hr : Resting o maximum log) :
    Safe o (sendLoop channel bytes deadline fuel sent) (fun _ log => Resting o maximum log) log := by
  induction fuel generalizing sent log with
  | zero => exact safe_unfinished hr.hands
  | succ fuel ih =>
    have hquiet : Quiet (.send channel bytes sent) = true := by
      cases channel with
      | client => exact absurd rfl hc
      | qmp | serial => rfl
    rw [sendLoop]
    split
    · exact safe_pure hr
    · apply safe_bind (hr.call hquiet)
      intro answer after hr
      cases answer with
      | taken count bounds => exact ih _ hr
      | interrupted => exact ih _ hr
      | nothing | closed | failed => exact safe_pure hr
      | again =>
        apply safe_bind (hr.now .sendRetry)
        intro time after hr
        dsimp only
        split
        · exact safe_pure hr
        · apply safe_bind (hr.call (q := .pollSend channel _) rfl)
          intro answer after hr
          cases answer with
          | ready | timedOut | interrupted => exact ih _ hr
          | closed | failed => exact safe_pure hr

theorem sendBytes_client (hwhole : WholeFrame frame) (fuel : Nat) (timeout : Int)
    (hr : Resting o maximum log) :
    Safe o (sendBytes fuel .client frame timeout) (AfterWrite o maximum frame) log := by
  apply safe_bind (hr.now .sendStart)
  intro start after hr
  exact sendLoop_client hwhole _ fuel (hr.1.sending frame) hr.2

theorem sendBytes_quiet (hc : channel ≠ .client) (fuel : Nat) (bytes : Bytes) (timeout : Int)
    (hr : Resting o maximum log) :
    Safe o (sendBytes fuel channel bytes timeout) (fun _ log => Resting o maximum log) log := by
  apply safe_bind (hr.now .sendStart)
  intro start after hr
  exact sendLoop_quiet hc bytes _ fuel 0 hr

theorem qmpCommand_quiet (fuel : Nat) (name : String) (id : Nat) (timeout : Int)
    (hr : Resting o maximum log) :
    Safe o (qmpCommand fuel name id timeout) (fun _ log => Resting o maximum log) log := by
  apply safe_bind (sendBytes_quiet (by decide) fuel _ timeout hr)
  intro result after hr
  cases result with
  | error message => exact safe_pure hr
  | ok closed => cases closed <;> exact safe_pure hr

private theorem Stopped.settled {time : Int} (hwhole : WholeFrame frame)
    (hs : Stopped o maximum frame log) (hmaximum : maximum ≠ 0) (htime : maximum ≤ time)
    (hclean : NoFrameCutAtDeadline o (log ++ [⟨.now .afterSend,time⟩])) : Settled log := by
  obtain ⟨sent,hlt,hsending,hd⟩ := hs
  apply hsending.settled hwhole
  by_contra hinside
  have hpart : partlySent log = true := hsending.part.mpr (by omega)
  have hbefore := hclean log time [] rfl hpart _ (hd hmaximum)
  omega

/-- A write under the deadline either goes through or turns into an error, after the report if
the deadline has passed. -/
theorem withinDeadline_safe {α : Type} {timeout : Int} {write : Int → Worker (Except String α)}
    {after : Except String α → KernelLog → Prop} (hp : k.progress.Sound)
    (hwrite : ∀ timeout log, Resting o k.maximumDeadline log → Safe o (write timeout) after log)
    (hhands : ∀ result log, after result log → HandsWholeFrames log)
    (hsettled : ∀ message log time, after (.error message) log → k.maximumDeadline ≠ 0 →
      k.maximumDeadline ≤ time → NoFrameCutAtDeadline o (log ++ [⟨.now .afterSend,time⟩]) →
        Settled log) (hr : Resting o k.maximumDeadline log) :
    Safe o (withinDeadline k timeout write) (fun result log =>
      (∀ value, result = .ok value → after result log) ∧ HandsWholeFrames log) log := by
  have hdone : ∀ result log, after result log →
      (∀ value, result = .ok value → after result log) ∧ HandsWholeFrames log :=
    fun result log h => ⟨fun _ _ => h,hhands result log h⟩
  have hreport : ∀ log, Settled log → Safe o
      (do reportDeadline k.progress; return (.error deadlineMessage : Except String α))
      (fun result log => (∀ value, result = .ok value → after result log) ∧
        HandsWholeFrames log) log := by
    intro log hs
    apply safe_bind (reportDeadline_safe hp hs)
    intro _ log hlog
    exact safe_pure ⟨by simp,hlog⟩
  unfold withinDeadline
  split
  · exact safe_mono (hwrite timeout log hr) hdone
  · next hmaximum =>
    apply safe_bind (hr.now .beforeSend)
    intro before log hr
    dsimp only
    split
    · exact hreport log hr.1
    · apply safe_bind (hwrite _ log hr)
      intro result log hafter
      cases result with
      | ok value => exact safe_pure (hdone _ _ hafter)
      | error message =>
        have hclock : Safe o (now .afterSend) (fun time log =>
            (k.maximumDeadline ≤ time → Settled log) ∧ HandsWholeFrames log) log := by
          apply safe_call
          intro time hclean
          refine ⟨fun htime => ?_,(hhands _ _ hafter).quiet rfl _⟩
          exact (hsettled message log time hafter hmaximum htime hclean).quiet rfl _
        apply safe_bind hclock
        rintro time log ⟨hs,hlog⟩
        split
        · next htime => exact hreport log (hs htime)
        · exact safe_pure ⟨by simp,hlog⟩

theorem sendClient_safe (hp : k.progress.Sound) (hwhole : WholeFrame frame) (fuel : Nat)
    (timeout : Int) (hr : Resting o k.maximumDeadline log) :
    Safe o (sendClient fuel k frame timeout) (fun result log =>
      (result = .ok false → Resting o k.maximumDeadline log) ∧ HandsWholeFrames log) log := by
  refine safe_mono (withinDeadline_safe hp (fun timeout log => sendBytes_client hwhole fuel timeout)
    ?_ ?_ hr) ?_
  · intro result log hafter
    match result, hafter with
    | .ok false, hr => exact hr.hands
    | .ok true, ⟨_,_,hs,_⟩ => exact hs.hands hwhole
    | .error _, ⟨_,_,hs,_⟩ => exact hs.hands hwhole
  · intro message log time hstopped hmaximum htime hclean
    exact Stopped.settled hwhole hstopped hmaximum htime hclean
  · rintro result log ⟨hafter,hlog⟩
    refine ⟨?_,hlog⟩
    rintro rfl
    exact hafter false rfl

theorem sendQmp_safe {k : KernelState} (hp : k.progress.Sound) (fuel : Nat) (name : String)
    (id : Nat) (hr : Resting o k.maximumDeadline log) :
    Safe o (sendQmp fuel o k name id) (fun result log =>
      (result = .ok () → Resting o k.maximumDeadline log) ∧ HandsWholeFrames log) log := by
  have hsend : Safe o (sendQmp fuel o k name id) _ log :=
    withinDeadline_safe hp (fun timeout log => qmpCommand_quiet fuel name id timeout)
      (fun _ _ hr => hr.hands) (fun _ _ _ hr _ _ _ => hr.1) hr
  apply safe_mono hsend
  rintro result log ⟨hafter,hlog⟩
  exact ⟨hafter (),hlog⟩

end Writes

/-- The header of the frame that is being read is known once more than a header is needed. -/
def KernelState.HeaderKnown (k : KernelState) : Prop :=
  k.frameNeeded = headerBytes ∨ headerBytes ≤ k.frame.length ∧
    ∃ h, decodeHeader (k.frame.take headerBytes) = .ok h ∧
      k.frameNeeded = headerBytes+payloadSize h

/-- What every pass of the loop keeps true of the worker's variables. -/
structure KernelState.Sound (k : KernelState) : Prop where
  progress : k.progress.Sound
  greeted : k.hello = true → k.progress.helloSent = true
  header : k.HeaderKnown

def Keeps (o : KernelOptions) (maximum : Int) (k : KernelState) (log : KernelLog) : Prop :=
  k.Sound ∧ k.maximumDeadline = maximum ∧ Resting o maximum log

def Steady (o : KernelOptions) (maximum : Int) (step : KernelState → Worker KernelState) : Prop :=
  ∀ k log, Keeps o maximum k log → Safe o (step k) (Keeps o maximum) log

section Steps

variable {o : KernelOptions} {maximum : Int} {fuel : Nat}

theorem steady_onlyIf {condition : KernelState → Prop} [DecidablePred condition]
    {step : KernelState → Worker KernelState} (hs : Steady o maximum step) :
    Steady o maximum (fun k => onlyIf (condition k) step k) := by
  intro k log hk
  change Safe o (if condition k then step k else pure k) _ _
  split
  · exact hs k log hk
  · exact safe_pure hk

theorem restartDeadline_steady : Steady o maximum (restartDeadline o) := by
  rintro k log ⟨hs,hm,hr⟩
  apply safe_bind (hr.now .control)
  intro time log hr
  exact safe_pure ⟨⟨hs.progress,hs.greeted,hs.header⟩,hm,hr⟩

theorem issue_steady (command : Command) (name : String) :
    Steady o maximum (fun k => issue fuel o k command name) := by
  rintro k log ⟨hs,rfl,hr⟩
  apply safe_bind (hr.now .control)
  intro time log hr
  apply safe_bind (sendQmp_safe (k := { k with
    pending := k.nextId, nextId := k.nextId+1, command,
    controlDeadline := time+o.timeoutMs }) hs.progress fuel name k.nextId hr)
  rintro result log ⟨hsent,hlog⟩
  cases result with
  | error message => exact safe_failWith hlog
  | ok value => exact safe_pure ⟨⟨hs.progress,hs.greeted,hs.header⟩,rfl,hsent rfl⟩

variable {h : Header} {k : KernelState} {log : KernelLog} {post : Unit → KernelLog → Prop}

theorem forward_safe {frame : Bytes} (hp : k.progress.Sound) (hwhole : WholeFrame frame)
    (timeout : Int) (hr : Resting o k.maximumDeadline log) :
    Safe o (forward fuel k frame timeout) (fun _ log => Resting o k.maximumDeadline log) log := by
  apply safe_bind (sendClient_safe hp hwhole fuel timeout hr)
  rintro result log ⟨hsent,hlog⟩
  match result with
  | .ok false => exact safe_pure (hsent rfl)
  | .ok true => exact safe_leave hlog
  | .error message => exact safe_leave hlog

theorem actionLoop_quiet (deadline : Int) (passes : Nat) (bytes : Bytes) (needed : Nat)
    (hr : Resting o maximum log) :
    Safe o (actionLoop deadline passes bytes needed) (fun _ log => Resting o maximum log) log := by
  induction passes generalizing bytes needed log with
  | zero => exact safe_unfinished hr.hands
  | succ passes ih =>
    rw [actionLoop]
    split
    · exact safe_pure hr
    · apply safe_bind (hr.now .action)
      intro time log hr
      dsimp only
      split
      · exact safe_pure hr
      · apply safe_bind (hr.call (q := .pollAction _) rfl)
        intro answer log hr
        cases answer with
        | interrupted => exact ih _ _ hr
        | timedOut | closed | failed => exact safe_pure hr
        | ready =>
          apply safe_bind (hr.call (q := .receiveAction _) rfl)
          intro answer log hr
          cases answer with
          | interrupted => exact ih _ _ hr
          | finished | closed | failed => exact safe_pure hr
          | data more bounds =>
            dsimp only
            split
            · split
              · exact safe_pure hr
              · exact ih _ _ hr
            · exact ih _ _ hr

theorem action_quiet (timeout : Int) (hr : Resting o maximum log) :
    Safe o (action fuel timeout) (fun _ log => Resting o maximum log) log := by
  apply safe_bind (hr.now .action)
  intro time log hr
  apply safe_bind (actionLoop_quiet _ fuel [] 4 hr)
  intro result log hr
  cases result with
  | error result => exact safe_pure hr
  | ok bytes =>
    dsimp only
    split
    · exact safe_pure hr
    · split
      · exact safe_pure hr
      · apply safe_bind (sendBytes_quiet (by decide) fuel _ timeout hr)
        intro result log hr
        match result with
        | .error message => exact safe_pure hr
        | .ok true => exact safe_pure hr
        | .ok false => exact safe_pure hr

theorem answerRequest_steady : Steady o maximum (answerRequest fuel o) := by
  rintro k log ⟨hs,hm,hr⟩
  apply safe_bind (action_quiet o.timeoutMs hr)
  intro result log hr
  match result with
  | .ok false =>
    exact safe_bind (issue_steady .resume "cont" _ log
      ⟨⟨hs.progress,hs.greeted,hs.header⟩,hm,hr⟩) restartDeadline_steady
  | .ok true => exact safe_leave hr.hands
  | .error message => exact safe_leave hr.hands

theorem readTrace_steady : Steady o maximum (readTrace o) := by
  rintro k log ⟨hs,hm,hr⟩
  apply safe_bind (hr.call (q := .readTrace _) rfl)
  intro answer log hr
  cases answer with
  | data bytes bounds =>
    apply restartDeadline_steady _ log
    refine ⟨⟨hs.progress,hs.greeted,?_⟩,hm,hr⟩
    obtain hneeded | ⟨hlen,h,hdecode,hneeded⟩ := hs.header
    · exact .inl hneeded
    · refine .inr ⟨by simp only [List.length_append]; omega,h,?_,hneeded⟩
      simp only [List.take_append_of_le_length hlen,hdecode]
  | finished => exact safe_pure ⟨⟨hs.progress,hs.greeted,hs.header⟩,hm,hr⟩
  | interrupted => exact safe_pure ⟨hs,hm,hr⟩
  | closed | failed => exact safe_failWith hr.hands

theorem completeHeader_safe (hk : Keeps o maximum k log) :
    Safe o (completeHeader k) (fun k log => Keeps o maximum k log ∧
      (k.frame.length = k.frameNeeded → WholeFrame k.frame)) log := by
  obtain ⟨hs,hm,hr⟩ := hk
  unfold completeHeader
  split
  · next hcomplete =>
    cases hdecode : decodeHeader k.frame with
    | error message => exact safe_failWith hr.hands
    | ok h =>
      have htake : k.frame.take headerBytes = k.frame := List.take_of_length_le hcomplete.1.le
      have hknown : decodeHeader (k.frame.take headerBytes) = .ok h := by rw [htake,hdecode]
      refine safe_pure ⟨⟨⟨hs.progress,hs.greeted,.inr ⟨hcomplete.1.ge,h,hknown,?_⟩⟩,hm,hr⟩,?_⟩
      · simp only [hcomplete.2]
      · intro hlen
        exact ⟨h,hknown,by simpa [hcomplete.2] using hlen⟩
  · next hcomplete =>
    refine safe_pure ⟨⟨hs,hm,hr⟩,?_⟩
    intro hlen
    obtain hneeded | ⟨_,h,hdecode,hneeded⟩ := hs.header
    · exact absurd ⟨hlen.trans hneeded,hneeded⟩ hcomplete
    · exact ⟨h,hdecode,hlen.trans hneeded⟩

theorem validate_safe {k : KernelState} {log : KernelLog} (h : Header)
    (hr : Resting o maximum log) :
    Safe o (validate k h) (fun next log => (∃ stream, next = { k with stream }) ∧
      Resting o maximum log) log := by
  unfold validate
  split
  · exact safe_pure ⟨⟨_,rfl⟩,hr⟩
  · exact safe_failWith hr.hands
  · exact safe_unfinished hr.hands

theorem negotiate_safe {k : KernelState} {log : KernelLog} (h : Header)
    (hr : Resting o maximum log) :
    Safe o (negotiate o k h) (fun next log =>
      (k.hello = true ∧ next = k ∨ h.kind = .hello ∧ next = { k with hello := true }) ∧
        Resting o maximum log) log := by
  unfold negotiate
  split
  · next hhello => exact safe_pure ⟨.inl ⟨hhello,rfl⟩,hr⟩
  · split
    · exact safe_failWith hr.hands
    · next hkind => exact safe_pure ⟨.inr ⟨not_not.mp (not_or.mp hkind).1,rfl⟩,hr⟩

theorem KernelTerminalProgress.Sound.after {progress : KernelTerminalProgress}
    (hp : progress.Sound) (hgreeted : progress.helloSent = true ∨ h.kind = .hello) :
    (progress.after h).Sound ∧ (progress.after h).helloSent = true := by
  obtain ⟨hdata,hstart,hstop⟩ := hp
  unfold KernelTerminalProgress.after
  by_cases hkind : h.kind = .hello
  · have hno : observationFrame .hello = false := rfl
    rw [hkind,hno]
    exact ⟨⟨fun _ => rfl,hstart,hstop⟩,rfl⟩
  · have hsent : progress.helloSent = true := hgreeted.resolve_right hkind
    simp only [if_neg hkind]
    split
    · refine ⟨⟨fun _ => hsent,?_,hstop⟩,hsent⟩
      intro hobserved
      rcases Bool.or_eq_true_iff.mp hobserved with hbefore | hnow
      · exact hstart hbefore
      · exact (Bool.and_eq_true_iff.mp hnow).1
    · exact ⟨⟨hdata,hstart,hstop⟩,hsent⟩

theorem forwardFrame_safe (remaining : Int) (hs : k.progress.Sound) (hheader : k.HeaderKnown)
    (hm : k.maximumDeadline = maximum) (hr : Resting o maximum log) (hwhole : WholeFrame k.frame)
    (hgreeted : k.progress.helloSent = true ∨ h.kind = .hello) :
    Safe o (forwardFrame fuel o remaining k h) (Keeps o maximum) log := by
  subst hm
  apply safe_bind hr.stopIf
  rintro _ log ⟨_,hr⟩
  split
  · apply safe_bind (sendClient_safe hs hwhole fuel remaining hr)
    rintro _ log ⟨_,hlog⟩
    exact safe_failWith hlog
  · apply safe_bind (forward_safe hs hwhole remaining hr)
    intro _ log hr
    obtain ⟨hsound,hsent⟩ := hs.after hgreeted
    have hkeeps : Keeps o k.maximumDeadline { k with progress := k.progress.after h } log :=
      ⟨⟨hsound,fun _ => hsent,hheader⟩,rfl,hr⟩
    dsimp only
    split
    · exact answerRequest_steady _ log hkeeps
    · exact safe_pure hkeeps

theorem keepOrForward_safe (remaining : Int) (hs : k.progress.Sound) (hheader : k.HeaderKnown)
    (hm : k.maximumDeadline = maximum) (hr : Resting o maximum log) (hwhole : WholeFrame k.frame)
    (hgreeted : k.progress.helloSent = true ∨ h.kind = .hello) :
    Safe o (keepOrForward fuel o remaining k h) (Keeps o maximum) log := by
  unfold keepOrForward
  split
  · next hkind =>
    have hsent : k.progress.helloSent = true := by
      apply hgreeted.resolve_right
      rw [hkind]
      exact Kind.noConfusion
    exact safe_pure ⟨⟨hs,fun _ => hsent,hheader⟩,hm,hr⟩
  · exact forwardFrame_safe remaining hs hheader hm hr hwhole hgreeted

theorem frameReady_safe (remaining : Int) (hk : Keeps o maximum k log)
    (hwhole : WholeFrame k.frame) :
    Safe o (frameReady fuel o remaining k) (Keeps o maximum) log := by
  obtain ⟨hs,hm,hr⟩ := hk
  apply safe_bind hr.stopIf
  rintro _ log ⟨_,hr⟩
  split
  · exact safe_failWith hr.hands
  · next h hdecode =>
    apply safe_bind (validate_safe (k := k) h hr)
    rintro _ log ⟨⟨stream,rfl⟩,hr⟩
    apply safe_bind (negotiate_safe (k := { k with stream }) h hr)
    rintro next log ⟨hnext,hr⟩
    have hforward : Safe o (keepOrForward fuel o remaining next h) (Keeps o maximum) log := by
      obtain ⟨hhello,rfl⟩ | ⟨hkind,rfl⟩ := hnext
      · exact keepOrForward_safe remaining hs.progress hs.header hm hr hwhole
          (.inl (hs.greeted hhello))
      · exact keepOrForward_safe remaining hs.progress hs.header hm hr hwhole (.inr hkind)
    apply safe_bind hforward
    rintro next log ⟨hs,hm,hr⟩
    exact safe_pure ⟨⟨hs.progress,hs.greeted,.inl rfl⟩,hm,hr⟩

theorem traceReady_steady (remaining : Int) : Steady o maximum (traceReady fuel o remaining) := by
  intro k log hk
  apply safe_bind (readTrace_steady k log hk)
  intro k log hk
  apply safe_bind (completeHeader_safe hk)
  rintro k log ⟨hk,hwhole⟩
  have hframe : Safe o (onlyIf (k.frame.length = k.frameNeeded) (frameReady fuel o remaining) k)
      (Keeps o maximum) log := by
    unfold onlyIf
    split
    · next hlen => exact frameReady_safe remaining hk (hwhole hlen)
    · exact safe_pure hk
  apply safe_bind hframe
  rintro k log ⟨hs,hm,hr⟩
  apply safe_bind hr.stopIf
  rintro _ log ⟨_,hr⟩
  exact safe_pure ⟨hs,hm,hr⟩

theorem commandCompleted_steady (completed : Command) :
    Steady o maximum (commandCompleted fuel o completed) := by
  rintro k log ⟨hs,hm,hr⟩
  cases completed with
  | capabilities => exact issue_steady .resume "cont" k log ⟨hs,hm,hr⟩
  | stop =>
    apply safe_bind (hr.call (q := .requestDrain) rfl)
    intro answer log hr
    cases answer with
    | error message => exact safe_failWith hr.hands
    | ok value => exact safe_pure ⟨⟨hs.progress,hs.greeted,hs.header⟩,hm,hr⟩
  | none | resume => exact safe_pure ⟨⟨hs.progress,hs.greeted,hs.header⟩,hm,hr⟩

theorem qmpMessage_steady (message : QmpMessage) :
    Steady o maximum (fun k => qmpMessage fuel o k message) := by
  rintro k log ⟨hs,hm,hr⟩
  apply safe_bind hr.stopIf
  rintro _ log ⟨_,hr⟩
  split
  · apply safe_bind hr.stopIf
    rintro _ log ⟨_,hr⟩
    exact issue_steady .capabilities "qmp_capabilities" _ log
      ⟨⟨hs.progress,hs.greeted,hs.header⟩,hm,hr⟩
  · split
    · apply safe_bind hr.stopIf
      rintro _ log ⟨_,hr⟩
      exact commandCompleted_steady _ _ log ⟨⟨hs.progress,hs.greeted,hs.header⟩,hm,hr⟩
    · split
      · exact safe_failWith hr.hands
      · exact safe_pure ⟨hs,hm,hr⟩

theorem qmpMessages_steady (messages : List QmpMessage) :
    Steady o maximum (qmpMessages fuel o messages) := by
  induction messages with
  | nil => exact fun _ _ hk => safe_pure hk
  | cons message messages ih =>
    intro k log hk
    apply safe_bind (qmpMessage_steady message k log hk)
    intro k log hk
    exact safe_bind (restartDeadline_steady k log hk) ih

theorem qmpReady_steady : Steady o maximum (qmpReady fuel o) := by
  rintro k log ⟨hs,hm,hr⟩
  apply safe_bind (hr.call (q := .readQmp) rfl)
  intro answer log hr
  cases answer with
  | error message => exact safe_failWith hr.hands
  | ok lines =>
    exact qmpMessages_steady lines.lines _ log ⟨⟨hs.progress,hs.greeted,hs.header⟩,hm,hr⟩

theorem consoleReady_steady : Steady o maximum consoleReady := by
  rintro k log ⟨hs,hm,hr⟩
  apply safe_bind (hr.call (q := .readConsole) rfl)
  intro answer log hr
  cases answer with
  | data bytes bounds => exact safe_pure ⟨hs,hm,hr⟩
  | interrupted => exact safe_pure ⟨hs,hm,hr⟩
  | finished => exact safe_pure ⟨⟨hs.progress,hs.greeted,hs.header⟩,hm,hr⟩
  | closed | failed => exact safe_failWith hr.hands

theorem guestEvent_steady (line : GuestLine) :
    Steady o maximum (fun k => guestEvent o k line) := by
  rintro k log ⟨hs,hm,hr⟩
  change Safe o (guestEvent o k line) _ _
  unfold guestEvent
  split_ifs
  all_goals first
    | exact safe_failWith hr.hands
    | exact safe_pure ⟨⟨hs.progress,hs.greeted,hs.header⟩,hm,hr⟩

theorem wholeFrame_guestEvent {line : GuestLine}
    (hsize : ¬(line.jsonSize = 0 ∨ line.jsonSize > eventCapacity)) :
    WholeFrame (encodeHeader (guestEventHeader line.jsonSize) ++
      line.payload.take line.jsonSize) := by
  have hdetail : (UInt64.ofNat line.jsonSize).toNat = line.jsonSize := by
    apply UInt64.toNat_ofNat_of_lt'
    simp only [eventCapacity,UInt64.size] at hsize ⊢
    omega
  have hfault : headerFault (guestEventHeader line.jsonSize) = none := by
    simp only [headerFault,guestEventHeader,fieldFault,hdetail,check_eq_none]
    simp only [eventCapacity] at hsize
    refine ⟨by decide,by decide,?_,trivial⟩
    simp
    omega
  refine ⟨guestEventHeader line.jsonSize,?_,?_⟩
  · rw [List.take_append_of_le_length (by simp),
      List.take_of_length_le (encodeHeader_length _).le,decodeHeader_encodeHeader,hfault]
  · have hbound := line.bounded
    simp only [List.length_append,encodeHeader_length,List.length_take,payloadSize,
      guestEventHeader,hdetail]
    omega

theorem serialLine_steady (line : GuestLine) :
    Steady o maximum (fun k => serialLine fuel o k line) := by
  rintro k log ⟨hs,hm,hr⟩
  apply safe_bind hr.stopIf
  rintro _ log ⟨_,hr⟩
  apply safe_bind hr.stopIf
  rintro _ log ⟨hsize,hr⟩
  apply safe_bind hr.stopIf
  rintro _ log ⟨_,hr⟩
  apply safe_bind hr.stopIf
  rintro _ log ⟨_,hr⟩
  apply safe_bind hr.stopIf
  rintro _ log ⟨_,hr⟩
  apply safe_bind (guestEvent_steady line k log ⟨hs,hm,hr⟩)
  rintro k log ⟨hs,rfl,hr⟩
  have hforward : Safe o (forwardEvent fuel o k line)
      (fun _ log => Resting o k.maximumDeadline log) log := by
    unfold forwardEvent
    split
    · exact forward_safe hs.progress (wholeFrame_guestEvent hsize) o.timeoutMs hr
    · exact safe_pure hr
  apply safe_bind hforward
  intro _ log hr
  exact restartDeadline_steady k log ⟨hs,rfl,hr⟩

theorem serialLines_steady (lines : List GuestLine) :
    Steady o maximum (serialLines fuel o lines) := by
  induction lines with
  | nil => exact fun _ _ hk => safe_pure hk
  | cons line lines ih => exact fun k log hk => safe_bind (serialLine_steady line k log hk) ih

theorem serialReady_steady : Steady o maximum (serialReady fuel o) := by
  rintro k log ⟨hs,hm,hr⟩
  apply safe_bind (hr.call (q := .readSerial) rfl)
  intro answer log hr
  cases answer with
  | error message => exact safe_failWith hr.hands
  | ok lines =>
    exact serialLines_steady lines.lines _ log ⟨⟨hs.progress,hs.greeted,hs.header⟩,hm,hr⟩

theorem requestStop_steady : Steady o maximum (requestStop fuel o) := by
  intro k log hk
  unfold requestStop
  split
  · exact issue_steady .stop "stop" k log hk
  · exact safe_pure hk

theorem reapChild_steady : Steady o maximum reapChild := by
  rintro k log ⟨hs,hm,hr⟩
  unfold reapChild
  split
  · exact safe_pure ⟨hs,hm,hr⟩
  · apply safe_bind (hr.call (q := .waitChild) rfl)
    intro answer log hr
    cases answer with
    | ended status => exact safe_pure ⟨⟨hs.progress,hs.greeted,hs.header⟩,hm,hr⟩
    | running | interrupted => exact safe_pure ⟨hs,hm,hr⟩
    | failed => exact safe_failWith hr.hands

theorem timeLeft_safe (hk : Keeps o maximum k log) :
    Safe o (timeLeft k) (fun _ log => Resting o maximum log) log := by
  obtain ⟨hs,_,hr⟩ := hk
  apply safe_bind (hr.now .loop)
  intro current log hr
  split
  · apply safe_bind (reportDeadline_safe hs.progress hr.1)
    intro _ log hlog
    exact safe_failWith hlog
  · apply safe_bind hr.stopIf
    rintro _ log ⟨_,hr⟩
    exact safe_pure hr

theorem checkControl_safe (hr : Resting o maximum log) :
    Safe o (checkControl k) (fun _ log => Resting o maximum log) log := by
  unfold checkControl
  split
  · apply safe_bind (hr.now .control)
    intro time log hr
    exact safe_mono hr.stopIf fun _ _ h => h.2
  · exact safe_pure hr

theorem finishRun_safe (remaining : Int) (hk : Keeps o maximum k log) :
    Safe o (finishRun fuel remaining k) post log := by
  obtain ⟨hs,rfl,hr⟩ := hk
  apply safe_bind hr.stopIf
  rintro _ log ⟨_,hr⟩
  apply safe_bind hr.stopIf
  rintro _ log ⟨_,hr⟩
  have hwhole : WholeFrame (encodeHeader { kind := .complete }) := by
    refine ⟨{ kind := .complete },?_,rfl⟩
    rw [List.take_of_length_le (encodeHeader_length _).le,decodeHeader_encodeHeader]
    rfl
  apply safe_bind (forward_safe hs.progress hwhole remaining hr)
  intro _ log hr
  exact safe_leave hr.hands

theorem channelsReady_steady (remaining : Int) (watches : Watches) :
    Steady o maximum (channelsReady fuel o remaining watches) := by
  intro k log hk
  apply safe_bind (steady_onlyIf (traceReady_steady remaining) k log hk)
  intro k log hk
  apply safe_bind (steady_onlyIf qmpReady_steady k log hk)
  intro k log hk
  apply safe_bind (steady_onlyIf consoleReady_steady k log hk)
  intro k log hk
  apply safe_bind (steady_onlyIf serialReady_steady k log hk)
  rintro k log ⟨hs,hm,hr⟩
  apply safe_bind hr.stopIf
  rintro _ log ⟨_,hr⟩
  exact safe_bind (requestStop_steady k log ⟨hs,hm,hr⟩) reapChild_steady

theorem kernelPass_steady : Steady o maximum (kernelPass fuel o) := by
  rintro k log ⟨hs,hm,hr⟩
  apply safe_bind (timeLeft_safe ⟨hs,hm,hr⟩)
  intro remaining log hr
  split
  · apply safe_bind (finishRun_safe remaining ⟨hs,hm,hr⟩)
    exact fun _ _ hk => safe_pure hk
  · apply safe_bind (checkControl_safe hr)
    intro _ log hr
    apply safe_bind (hr.call (q := .pollChannels _) rfl)
    intro answer log hr
    cases answer with
    | interrupted => exact safe_pure ⟨hs,hm,hr⟩
    | failed => exact safe_failWith hr.hands
    | ready watches =>
      dsimp only
      split
      · exact safe_leave hr.hands
      · exact safe_failWith hr.hands
      · exact channelsReady_steady remaining watches k log ⟨hs,hm,hr⟩

theorem kernelLoop_safe (passes : Nat) (hk : Keeps o maximum k log) :
    Safe o (kernelLoop fuel o passes k) post log := by
  induction passes generalizing k log with
  | zero => exact safe_unfinished hk.2.2.hands
  | succ passes ih => exact safe_bind (kernelPass_steady k log hk) fun _ _ hk => ih hk

theorem setup_safe (failures : List String) (hr : Resting o maximum log) :
    Safe o (setup failures) (fun _ log => Resting o maximum log) log := by
  induction failures generalizing log with
  | nil => exact safe_pure hr
  | cons failure failures ih =>
    apply safe_bind (hr.call (q := .setup failure) rfl)
    intro (succeeded : Bool) log hr
    apply safe_bind hr.stopIf
    rintro _ log ⟨_,hr⟩
    exact ih hr

theorem startMaximum_safe (hs : Settled log) :
    Safe o (startMaximum o) (fun maximum log => Resting o maximum log) log := by
  unfold startMaximum
  split
  · exact safe_pure ⟨hs,fun h => absurd rfl h⟩
  · have hclock : Safe o (now .startMaximum) (fun start log =>
        Resting o (start+o.maximumMs) log) log := by
      apply safe_call
      intro (start : Int) _
      refine ⟨hs.quiet rfl _,fun _ => List.mem_append_right _ ?_⟩
      rw [Int.add_sub_cancel]
      exact List.mem_singleton_self _
    apply safe_bind hclock
    intro start log hr
    exact safe_pure hr

theorem kernelStart_safe :
    Safe o (kernelStart o) (fun k log => ∃ maximum, Keeps o maximum k log) [] := by
  have hstart : Resting o 0 [] := by
    refine ⟨⟨⟨[],?_,rfl⟩,rfl,?_⟩,fun h => absurd rfl h⟩
    · simp [Forwarded]
    · simp
  apply safe_bind hstart.stopIf
  rintro _ log ⟨_,hr⟩
  apply safe_bind (setup_safe setupFailures hr)
  intro _ log hr
  apply safe_bind (hr.now .start)
  intro deadline log hr
  apply safe_bind (startMaximum_safe hr.1)
  intro maximum log hr
  refine safe_pure ⟨maximum,⟨⟨?_,?_,rfl⟩,?_,.inl rfl⟩,rfl,hr⟩
  · exact fun h => absurd h (by simp)
  · exact fun h => absurd h (by simp)
  · exact fun h => absurd h (by simp)

theorem runKernel_safe : Safe o (runKernel fuel o) post [] := by
  apply safe_bind kernelStart_safe
  rintro k log ⟨maximum,hk⟩
  exact kernelLoop_safe fuel hk

end Steps

/-- In every run that meets the condition the client's socket gets whole frames, and a report
only between them. -/
theorem runKernel_hands_whole_frames (fuel : Nat) (o : KernelOptions)
    (oracle : KernelLog → (q : KernelCall) → KernelAnswer q)
    (hcut : NoFrameCutAtDeadline o (kernelLog fuel o oracle)) :
    HandsWholeFrames (kernelLog fuel o oracle) := by
  have hsafe : Safe o (runKernel fuel o) (fun _ log => HandsWholeFrames log) [] := runKernel_safe
  have hend := Program.wp_run (fun _ _ => NoFrameCutAtDeadline.of_extends) oracle
    (runKernel fuel o).run [] hsafe.wp hcut
  change HandsWholeFrames ((runKernel fuel o).run.run oracle []).2
  revert hend
  cases ((runKernel fuel o).run.run oracle []).1 <;> exact id

def systemHello : Header := { kind := .hello, detail := 1 ||| featureSystem }

def observing : KernelOptions := { timeoutMs := 1000, maximumMs := 50, interactive := false }

/-- An environment that delivers `systemHello` and whose socket takes the first `taken` bytes of a
write; the clock stands at 50 once the write has to wait. -/
def slowClient (taken : Nat) : KernelLog → (q : KernelCall) → KernelAnswer q
  | _, .setup _ => true
  | _, .now site => if site = .sendRetry ∨ site = .afterSend then (50 : Int) else (0 : Int)
  | _, .send _ bytes sent =>
    if h : sent = 0 ∧ 0 < taken ∧ taken ≤ bytes.length then
      .taken taken ⟨h.2.1,by rw [h.1]; exact h.2.2⟩
    else .again
  | _, .pollSend _ _ => PollAnswer.timedOut
  | _, .sendReport bytes =>
    if h : bytes.length ≠ 0 then .taken bytes.length ⟨Nat.pos_of_ne_zero h,le_rfl⟩ else .again
  | _, .pollChannels _ => WatchAnswer.ready { trace := true }
  | _, .readTrace limit =>
    if h : limit = headerBytes then .data (encodeHeader systemHello) (by simp [h,headerBytes])
    else .finished
  | _, .readQmp => .ok {}
  | _, .readConsole => .interrupted
  | _, .readSerial => .ok {}
  | _, .pollAction _ => PollAnswer.timedOut
  | _, .receiveAction _ => .interrupted
  | _, .requestDrain => .ok ()
  | _, .waitChild => WaitAnswer.running

private theorem partlySent_false (h : log.all (fun entry => !partAfter false entry)) :
    partlySent log = false := by
  induction log using List.reverseRecOn with
  | nil => rfl
  | append_singleton log entry ih =>
    rw [List.all_append,Bool.and_eq_true] at h
    rw [partlySent_snoc,ih h.1]
    simpa using h.2

/-- An environment whose socket takes everything, and whose clock stands at 50 after the first
frame. -/
def willingClient : KernelLog → (q : KernelCall) → KernelAnswer q
  | log, .now _ => if handed log = [] then (0 : Int) else (50 : Int)
  | _, .send _ bytes sent =>
    if h : sent < bytes.length then .taken (bytes.length-sent) ⟨by omega,by omega⟩ else .again
  | log, q => slowClient 0 log q

/-- The Hello is forwarded, then the deadline falls. -/
theorem runKernel_hands_whole_frames_forwarded :
    HandsWholeFrames (kernelLog 8 observing willingClient) ∧
      handed (kernelLog 8 observing willingClient) =
        encodeHeader systemHello ++ encodeHeader (reportHeader { helloSent := true }) := by
  have hall : (kernelLog 8 observing willingClient).all (fun entry => !partAfter false entry) := by
    decide +kernel
  refine ⟨runKernel_hands_whole_frames 8 observing willingClient ?_,by decide +kernel⟩
  intro before time after hlog hpart
  rw [hlog,List.all_append,Bool.and_eq_true] at hall
  rw [partlySent_false hall.1] at hpart
  exact absurd hpart (by decide)

private theorem wholeFrames_length (hf : Forwarded log frames)
    (hlen : frames.flatten.length < headerBytes) : frames = [] := by
  cases frames with
  | nil => rfl
  | cons frame frames =>
    obtain ⟨⟨h,_,hframe⟩,_⟩ := hf frame List.mem_cons_self
    rw [List.flatten_cons,List.length_append,hframe] at hlen
    omega

/-- The socket takes half of the Hello; the deadline passes, and the report follows. -/
theorem runKernel_reports_inside_frame :
    ¬HandsWholeFrames (kernelLog 6 observing (slowClient 16)) ∧
      handed (kernelLog 6 observing (slowClient 16)) =
        (encodeHeader systemHello).take 16 ++ encodeHeader (reportHeader {}) := by
  refine ⟨?_,by decide +kernel⟩
  intro hhands
  have hlast : ((kernelLog 6 observing (slowClient 16)).map Sigma.fst).getLast? =
      some (.sendReport (encodeHeader (reportHeader {}))) := by
    decide +kernel
  have hbefore : (handed (kernelLog 6 observing (slowClient 16)).dropLast).length = 16 := by
    decide +kernel
  obtain ⟨⟨q,answer⟩,hentry,hq⟩ : ∃ entry,
      (kernelLog 6 observing (slowClient 16)).getLast? = some entry ∧
        entry.1 = .sendReport (encodeHeader (reportHeader {})) := by
    simpa using hlast
  simp only at hq
  subst hq
  obtain ⟨frames,hframes,hflatten⟩ := hhands.reports _ _ answer []
    (List.dropLast_append_getLast? _ hentry).symm
  rw [hflatten] at hbefore
  have hnone := wholeFrames_length hframes (by rw [hbefore]; decide)
  rw [hnone] at hbefore
  exact absurd hbefore (by decide)

end Cpu2Tensor
