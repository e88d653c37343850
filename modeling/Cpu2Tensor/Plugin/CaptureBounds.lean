import Cpu2Tensor.Plugin.Calls

/-!
# What a callback does with the capture bounds

Without action windows and context filter: at which calls a block entry touches the capture state,
which of its calls record a block, and when a memory access may have a row.
-/

namespace Cpu2Tensor.Plugin
open Library

def records : Sigma Answer → Bool
  | ⟨.append .blocks _,.ok _⟩ => true
  | ⟨.observeBlock _ _,.ok _⟩ => true
  | _ => false

def Recorded (trail : Trail) : Prop := ∃ entry ∈ trail, records entry = true

def Loaded (state : CaptureState) (trail : Trail) : Prop :=
  (⟨.loadCapture,state⟩ : Sigma Answer) ∈ trail

def Unloaded (trail : Trail) : Prop := ∀ state, ¬ Loaded state trail

def blockEntries (calls : List (Entry × Trail)) : List (UInt64 × Trail) :=
  calls.filterMap fun (entry,trail) => match entry with
    | .block _ pc => some (pc,trail)
    | _ => none

/-- The last block that the source has entered was recorded. -/
def LastRecorded (past : List (Entry × Trail)) : Prop :=
  ∃ block, (blockEntries past).getLast? = some block ∧ Recorded block.2

def BlockAsks (o : Options) (pc : UInt64) (trail : Trail) : Call → Prop
  | .loadCapture => o.stopPc ≠ some pc
  | .swapCapture .waiting .running => o.startPc = some pc ∧ Unloaded trail
  | .swapCapture .running .stopped => o.stopPc = some pc
  | .admitBlock => o.reduceTransitions = true
  | .observeBlock address _ => address = pc ∧ Loaded .running trail
  | .append .blocks row => row = store pc.toNat 8 ∧ Loaded .running trail
  | call => call.plain = true

/-- What a callback may call next, after the callbacks of `past`. -/
def Asks (o : Options) (past : List (Entry × Trail)) : Entry → Trail → Call → Prop
  | .block _ pc, trail, call => BlockAsks o pc trail call
  | .memory .., trail, .append .memory _ =>
    LastRecorded past ∧ (o.stopPc.isSome = true → Loaded .running trail)
  | _, _, call => call.passive

/-- A block entry that has ended: a stop block has tried to stop, any other one has read the
capture state and is recorded if it was running and the block was admitted. -/
def BlockEnds (o : Options) (pc : UInt64) (trail : Trail) : Prop :=
  if o.stopPc = some pc then
    ∃ found, (⟨.swapCapture .running .stopped,found⟩ : Sigma Answer) ∈ trail
  else ∃ state, Loaded state trail ∧
    (state = .running → Recorded trail ∨
      ∃ admission : BlockAdmission, (⟨.admitBlock,admission⟩ : Sigma Answer) ∈ trail ∧
        admission.included = false)

def Ends (o : Options) : Entry → Trail → Prop
  | .block _ pc, trail => BlockEnds o pc trail
  | _, _ => True

section Rules

variable {α β : Type} {asks : Trail → Call → Prop} {post : β → Source → Trail → Prop}
  {early : Failure → Trail → Prop} {source : Source} {trail : Trail}

theorem wp_ask {call : Call} {k : Answer call → Callback β} (hcall : asks trail call)
    (hk : ∀ answer, Routine.wp (trailProtocol asks) (k answer) post early source
      (trail ++ [⟨call,answer⟩])) :
    Routine.wp (trailProtocol asks) (ask call >>= k) post early source trail := by
  rw [Routine.wp_bind]
  refine ⟨hcall,?_⟩
  intro answer _ heq
  subst heq
  exact hk answer

theorem Quiet.wp_bind {allowed : Call → Prop} {x : Callback α} {f : α → Callback β}
    (h : Quiet allowed x) (hpermits : Permits allowed trail asks)
    (hearly : ∀ failure trail, early failure trail)
    (hf : ∀ a source' more, source'.recording = source.recording →
      (∀ entry ∈ more, allowed entry.1) →
      Routine.wp (trailProtocol asks) (f a) post early source' (trail ++ more)) :
    Routine.wp (trailProtocol asks) (x >>= f) post early source trail := by
  rw [Routine.wp_bind]
  apply Routine.wp_mono (h asks trail hpermits source)
  · intro a source' after hafter
    obtain ⟨hrecording,more,heq,hmore⟩ := hafter
    subst heq
    exact hf a source' more hrecording hmore
  · exact fun failure after _ => hearly failure after

end Rules

theorem permits_block (o : Options) (pc : UInt64) (trail : Trail) :
    Permits (·.plain = true) trail (BlockAsks o pc) := by
  intro more _ call hcall
  cases call with
  | append kind row => cases kind <;> first | exact hcall | cases hcall
  | _ => first | exact hcall | cases hcall

variable {entry : Entry} {o : Options} {past : List (Entry × Trail)} {trail : Trail}

theorem unloaded_of_plain (h : ∀ entry ∈ trail, entry.1.plain = true) : Unloaded trail := by
  intro state hloaded
  cases h _ hloaded

theorem Loaded.append {state : CaptureState} (h : Loaded state trail) (more : Trail) :
    Loaded state (trail ++ more) := List.mem_append_left _ h

theorem Recorded.append (h : Recorded trail) (more : Trail) : Recorded (trail ++ more) := by
  obtain ⟨entry,hmem,hrecords⟩ := h
  exact ⟨entry,List.mem_append_left _ hmem,hrecords⟩

/-- The routine is quiet and, unless it fails, one of its calls records a block. -/
def Records {α : Type} (allowed : Call → Prop) (x : Callback α) : Prop :=
  ∀ asks trail, Permits allowed trail asks → ∀ source, Routine.wp (trailProtocol asks) x
    (fun _ source' trail' => source'.recording = source.recording ∧
      ∃ more, trail' = trail ++ more ∧ (∀ entry ∈ more, allowed entry.1) ∧ Recorded more)
    (fun _ _ => True) source trail

section Records

variable {α β : Type} {allowed : Call → Prop} {x : Callback α} {f : α → Callback β}

theorem Records.bind (h : Records allowed x) (hf : ∀ a, Quiet allowed (f a)) :
    Records allowed (x >>= f) := by
  intro asks trail hpermits source
  rw [Routine.wp_bind]
  apply Routine.wp_mono (h asks trail hpermits source)
  · intro a between _ hbetween
    obtain ⟨hrecording,more,rfl,hmore,hrecorded⟩ := hbetween
    apply Routine.wp_mono (hf a asks _ (hpermits.extend hmore) between)
    · intro b after _ hafter
      obtain ⟨hafter,rest,rfl,hrest⟩ := hafter
      refine ⟨hafter.trans hrecording,more ++ rest,List.append_assoc _ _ _,?_,
        hrecorded.append rest⟩
      intro entry hentry
      exact (List.mem_append.mp hentry).elim (hmore entry) (hrest entry)
    · exact fun _ _ h => h
  · exact fun _ _ h => h

theorem Quiet.bind_records (h : Quiet allowed x) (hf : ∀ a, Records allowed (f a)) :
    Records allowed (x >>= f) := by
  intro asks trail hpermits source
  rw [Routine.wp_bind]
  apply Routine.wp_mono (h asks trail hpermits source)
  · intro a between _ hbetween
    obtain ⟨hrecording,more,rfl,hmore⟩ := hbetween
    apply Routine.wp_mono (hf a asks _ (hpermits.extend hmore) between)
    · intro b after _ hafter
      obtain ⟨hafter,rest,rfl,hrest,entry,hentry,hrecords⟩ := hafter
      refine ⟨hafter.trans hrecording,more ++ rest,List.append_assoc _ _ _,?_,
        entry,List.mem_append_right _ hentry,hrecords⟩
      intro entry hentry
      exact (List.mem_append.mp hentry).elim (hmore entry) (hrest entry)
    · exact fun _ _ h => h
  · exact fun _ _ h => h

theorem records_get_bind {f : Source → Callback β} (h : ∀ source, Records allowed (f source)) :
    Records allowed (get >>= f) := by
  intro asks trail hpermits source
  exact (Routine.wp_bind _ f _).mpr (h source asks trail hpermits source)

theorem records_ask_bind {call : Call} {k : Answer call → Callback β} (hcall : allowed call)
    (hk : ∀ answer, Quiet allowed (k answer) ∧ records ⟨call,answer⟩ = true ∨
      ∃ failure, k answer = Routine.stop failure) :
    Records allowed (ask call >>= k) := by
  intro asks trail hpermits source
  apply wp_ask (hpermits.now hcall)
  intro answer
  have hentry : ∀ entry ∈ [(⟨call,answer⟩ : Sigma Answer)], allowed entry.1 := by
    simpa using hcall
  cases hk answer with
  | inl hgood =>
    apply Routine.wp_mono (hgood.1 asks _ (hpermits.extend hentry) source)
    · intro b after _ hafter
      obtain ⟨hafter,rest,rfl,hrest⟩ := hafter
      refine ⟨hafter,[⟨call,answer⟩] ++ rest,List.append_assoc _ _ _,?_,
        ⟨call,answer⟩,List.mem_cons_self,hgood.2⟩
      intro entry hmem
      exact (List.mem_append.mp hmem).elim (hentry entry) (hrest entry)
    · exact fun _ _ h => h
  | inr hbad =>
    obtain ⟨failure,heq⟩ := hbad
    rw [heq]
    trivial

theorem records_ite {p : Prop} [Decidable p] {y : Callback α} (hx : p → Records allowed x)
    (hy : ¬p → Records allowed y) : Records allowed (if p then x else y) := by
  split
  · exact hx ‹p›
  · exact hy ‹¬p›

theorem Records.quiet (h : Records allowed x) : Quiet allowed x := by
  intro asks trail hpermits source
  apply Routine.wp_mono (h asks trail hpermits source)
  · intro a source' after hafter
    obtain ⟨hrecording,more,heq,hmore,_⟩ := hafter
    exact ⟨hrecording,more,heq,hmore⟩
  · exact fun _ _ h => h

end Records

/-- The calls that record the block at `pc`, and plain ones. -/
def Call.recordsPc (pc : UInt64) (call : Call) : Prop :=
  call.plain = true ∨ (∃ admission, call = .observeBlock pc admission) ∨
    call = .append .blocks (store pc.toNat 8)

section Block

variable {o : Options} {cpu : Cpu} {pc : UInt64}

theorem Quiet.recordsPc {α : Type} {x : Callback α} (h : Quiet (·.plain = true) x) :
    Quiet (Call.recordsPc pc) x := h.mono fun _ hc => .inl hc

variable {trail : Trail}

theorem permits_recording (h : Loaded .running trail) :
    Permits (Call.recordsPc pc) trail (BlockAsks o pc) := by
  intro more _ call hcall
  rcases hcall with hplain | ⟨admission,rfl⟩ | rfl
  · exact permits_block o pc (trail ++ more) |>.now hplain
  · exact ⟨rfl,h.append more⟩
  · exact ⟨rfl,h.append more⟩

theorem quiet_expect (result : Except String Unit) : Quiet (Call.recordsPc pc) (expect result) := by
  cases result with
  | error message => exact quiet_fail _ _
  | ok _ => exact quiet_pure _

theorem records_observe (admission : BlockAdmission) :
    Records (Call.recordsPc pc) (do expect (← ask (.observeBlock pc admission))) := by
  apply records_ask_bind (.inr (.inl ⟨admission,rfl⟩))
  intro answer
  cases answer with
  | error message => exact .inr ⟨_,rfl⟩
  | ok _ => exact .inl ⟨quiet_expect _,rfl⟩

theorem records_observeBlock (admission : BlockAdmission) (h : o.reduceTransitions = true) :
    Records (Call.recordsPc pc) (observeBlock o pc admission) := by
  unfold observeBlock
  rw [if_pos h]
  apply records_ite
  · intro _
    apply records_get_bind
    intro source
    apply records_ite
    · exact fun _ => (quiet_fail _ _).bind_records fun _ => records_observe admission
    · intro _
      apply Quiet.bind_records
      · exact quiet_modify fun _ => rfl
      · exact fun _ => records_observe admission
  · exact fun _ => records_observe admission

theorem quiet_observeBlock (admission : BlockAdmission) :
    Quiet (Call.recordsPc pc) (observeBlock o pc admission) := by
  by_cases h : o.reduceTransitions = true
  · exact (records_observeBlock admission h).quiet
  · unfold observeBlock
    rw [if_neg h]
    exact quiet_pure _

theorem records_recordPc (h : o.captureBlocks = true) :
    Records (Call.recordsPc pc) (recordPc o pc) := by
  unfold recordPc
  rw [if_pos h]
  have happend : Records (Call.recordsPc pc) (append .blocks (store pc.toNat 8)) := by
    apply records_ask_bind (.inr (.inr rfl))
    intro answer
    cases answer with
    | error failure => exact .inr ⟨failure,rfl⟩
    | ok _ => exact .inl ⟨quiet_pure _,rfl⟩
  apply happend.bind
  intro _
  refine quiet_ask_bind (.inl rfl) fun count => ?_
  exact quiet_ite (fun _ => quiet_ask (.inl rfl)) fun _ => quiet_pure _

theorem quiet_recordPc : Quiet (Call.recordsPc pc) (recordPc o pc) := by
  by_cases h : o.captureBlocks = true
  · exact (records_recordPc h).quiet
  · unfold recordPc
    rw [if_neg h]
    exact quiet_pure _

theorem quiet_recordRows : Quiet (Call.recordsPc pc) (recordRows o cpu pc) := by
  refine (quiet_emitContext pc).recordsPc.bind fun _ => quiet_refreshRelation.recordsPc.bind
    fun _ => quiet_get_bind fun source => quiet_ite (fun _ => ?_) fun _ => quiet_recordPc
  exact (quiet_sampleRegisters pc .block).recordsPc.bind fun _ => quiet_recordPc

theorem records_recordRows (h : o.captureBlocks = true) :
    Records (Call.recordsPc pc) (recordRows o cpu pc) := by
  refine (quiet_emitContext pc).recordsPc.bind_records fun _ =>
    quiet_refreshRelation.recordsPc.bind_records fun _ => records_get_bind fun source =>
      records_ite (fun _ => ?_) fun _ => records_recordPc h
  exact (quiet_sampleRegisters pc .block).recordsPc.bind_records fun _ => records_recordPc h

theorem records_recordBlock (admission : BlockAdmission)
    (h : o.captureBlocks = true ∨ o.reduceTransitions = true) :
    Records (Call.recordsPc pc) (recordBlock o cpu pc admission false) := by
  unfold recordBlock
  by_cases hreduce : o.reduceTransitions = true
  · refine (records_observeBlock admission hreduce).bind fun _ => quiet_get_bind fun source =>
      (quiet_readContext _).recordsPc.bind fun _ => ?_
    exact quiet_recordRows.bind fun _ => quiet_pure true
  · have hblocks := h.resolve_right hreduce
    refine (quiet_observeBlock admission).bind_records fun _ => records_get_bind fun source =>
      (quiet_readContext _).recordsPc.bind_records fun _ => ?_
    exact (records_recordRows hblocks).bind fun _ => quiet_pure true

def BlockPost (o : Options) (pc : UInt64) (source : Source) (trail : Trail) : Prop :=
  BlockEnds o pc trail ∧ (source.recording = true → Recorded trail)

variable {source : Source}

theorem wp_enterAdmitted (admission : BlockAdmission)
    (hrecords : o.captureBlocks = true ∨ o.reduceTransitions = true) (hstop : o.stopPc ≠ some pc)
    (hadmission : admission.included = false → (⟨.admitBlock,admission⟩ : Sigma Answer) ∈ trail) :
    Routine.wp (trailProtocol (BlockAsks o pc)) (do
        let state ← ask .loadCapture
        setRecording (state == .running && admission.included)
        if state = .running ∧ admission.included = true then
          let _ ← recordBlock o cpu pc admission false)
      (fun _ => BlockPost o pc) (fun _ _ => True) source trail := by
  apply wp_ask (show BlockAsks o pc trail .loadCapture from hstop)
  intro state
  have hloaded : Loaded state (trail ++ [⟨.loadCapture,state⟩]) :=
    List.mem_append_right _ List.mem_cons_self
  rw [Routine.wp_bind,setRecording,Routine.wp_modify]
  apply Routine.wp_ite
  · intro h
    obtain ⟨hstate,hincluded⟩ := h
    subst hstate
    rw [Routine.wp_bind]
    apply Routine.wp_mono (records_recordBlock admission hrecords _ _ (permits_recording hloaded) _)
    · intro _ source' _ hafter
      obtain ⟨_,more,rfl,_,entry,hentry,hentry'⟩ := hafter
      have hrecorded : Recorded (trail ++ [⟨.loadCapture,.running⟩] ++ more) :=
        ⟨entry,List.mem_append_right _ hentry,hentry'⟩
      refine ⟨?_,fun _ => hrecorded⟩
      rw [BlockEnds,if_neg hstop]
      exact ⟨.running,hloaded.append more,fun _ => .inl hrecorded⟩
    · exact fun _ _ h => h
  · intro h
    refine ⟨?_,?_⟩
    · rw [BlockEnds,if_neg hstop]
      refine ⟨state,hloaded,fun hstate => .inr ⟨admission,?_,?_⟩⟩
      · apply List.mem_append_left
        apply hadmission
        simpa [hstate] using h
      · simpa [hstate] using h
    · intro hrecording
      exact absurd (by simpa using hrecording) h

theorem wp_enterBlock (hrecords : o.captureBlocks = true ∨ o.reduceTransitions = true)
    (hstop : o.stopPc ≠ some pc) :
    Routine.wp (trailProtocol (BlockAsks o pc)) (enterBlock o cpu pc)
      (fun _ => BlockPost o pc) (fun _ _ => True) source trail := by
  unfold enterBlock admission
  rw [Routine.wp_bind]
  apply Routine.wp_ite
  · intro hreduce
    refine ⟨hreduce,?_⟩
    intro answer _ heq
    subst heq
    exact wp_enterAdmitted answer hrecords hstop fun _ => List.mem_append_right _ List.mem_cons_self
  · intro _
    exact wp_enterAdmitted ⟨0,true⟩ hrecords hstop fun h => by cases h

theorem wp_blockEntry (hrecords : o.captureBlocks = true ∨ o.reduceTransitions = true)
    (hwindow : o.anyWindow = false) (hfilters : o.filters = false) (source : Source) :
    Routine.wp (trailProtocol (BlockAsks o pc)) (blockEntry o cpu pc)
      (fun _ => BlockPost o pc) (fun _ _ => True) source [] := by
  have hdecide : ∀ (source : Source) (trail : Trail), Routine.wp (trailProtocol (BlockAsks o pc))
      (if o.stopPc = some pc then do
        let _ ← ask (.swapCapture .running .stopped)
        setRecording false
      else enterBlock o cpu pc) (fun _ => BlockPost o pc) (fun _ _ => True) source trail := by
    intro source trail
    apply Routine.wp_ite
    · intro hstop
      apply wp_ask (show BlockAsks o pc trail (.swapCapture .running .stopped) from hstop)
      intro found
      refine ⟨?_,fun h => by cases h⟩
      rw [BlockEnds,if_pos hstop]
      exact ⟨found,List.mem_append_right _ List.mem_cons_self⟩
    · exact fun hstop => wp_enterBlock hrecords hstop
  have hnone : o.windowStartPc = none ∧ o.windowEndPc = none ∧ o.windowAbortPc = none := by
    simpa [Options.anyWindow,and_assoc] using hwindow
  have hplainEntry : ∀ (source : Source) (trail : Trail),
      (∀ entry ∈ trail, entry.1.plain = true) →
      Routine.wp (trailProtocol (BlockAsks o pc)) (enterPlain o cpu pc)
        (fun _ => BlockPost o pc) (fun _ _ => True) source trail := by
    intro source trail hplain
    unfold enterPlain
    simp only [hnone,reduceCtorEq,if_false]
    apply Routine.wp_ite
    · intro hstart
      apply wp_ask (show BlockAsks o pc trail (.swapCapture .waiting .running) from
        ⟨hstart,unloaded_of_plain hplain⟩)
      intro found
      exact hdecide source _
    · intro _
      exact hdecide source trail
  unfold blockEntry
  apply quiet_activeSource.wp_bind (permits_block o pc _) (fun _ _ => trivial)
  intro _ source first _ hfirst
  apply quiet_accountFilterMemory.wp_bind (permits_block o pc _) (fun _ _ => trivial)
  intro _ source second _ hsecond
  rw [if_neg (by simp [hfilters])]
  apply hplainEntry
  intro entry hentry
  rw [List.nil_append] at hentry
  exact (List.mem_append.mp hentry).elim (hfirst entry) (hsecond entry)

end Block

def Call.recordsMemory (call : Call) : Prop :=
  call.passive ∨ ∃ row, call = .append .memory row

section Memory

variable {o : Options} {cpu : Cpu} {info : MemoryInfo} {address pc : UInt64}

theorem quiet_recordAccess :
    Quiet Call.recordsMemory (recordAccess o cpu info address pc) := by
  have hpassive : ∀ call : Call, call.plain = true → call.recordsMemory := fun _ h => .inl (.inl h)
  have hrow : ∀ row, Quiet Call.recordsMemory (append .memory row) := by
    intro row
    refine quiet_ask_bind (.inr ⟨row,rfl⟩) fun result => ?_
    cases result with
    | error failure => exact quiet_stop failure
    | ok _ => exact quiet_pure _
  have hend : Quiet Call.recordsMemory (do
      append .memory (memoryRow o info address pc (← get).contextSequence)
      if o.captureValues = true ∧ info.valueShift ≠ info.shift then
        fail .capture "cpu2tensor: QEMU memory value width does not match the access\n") :=
    quiet_get_bind fun source => (hrow _).bind fun _ =>
      quiet_ite (fun _ => quiet_fail _ _) fun _ => quiet_pure _
  apply quiet_ite
  · exact fun _ => quiet_fail _ _
  · intro _
    apply quiet_ite
    · exact fun _ => ((quiet_readContext false).mono hpassive).bind fun _ =>
        ((quiet_emitContext pc).mono hpassive).bind fun _ => hend
    · exact fun _ => hend

theorem asks_memory_of_passive {call : Call} (h : call.passive) :
    Asks o past (.memory cpu info address pc) trail call := by
  cases call with
  | append kind row =>
    cases kind with
    | memory => rcases h with h | h <;> cases h
    | _ => exact h
  | _ => exact h

theorem wp_memoryAccess {source : Source}
    (hrecording : source.recording = true → LastRecorded past) :
    Routine.wp (trailProtocol (Asks o past (.memory cpu info address pc)))
      (memoryAccess o cpu info address pc)
      (fun _ source' _ => source'.recording = source.recording) (fun _ _ => True) source [] := by
  have hpassive : ∀ trail, Permits Call.passive trail
      (Asks o past (.memory cpu info address pc)) :=
    fun trail more _ call hcall => asks_memory_of_passive hcall
  have hrecord : ∀ (source' : Source) (trail : Trail), source'.recording = source.recording →
      source.recording = true → (o.stopPc.isSome = true → Loaded .running trail) →
      Routine.wp (trailProtocol (Asks o past (.memory cpu info address pc)))
        (recordAccess o cpu info address pc)
        (fun _ after _ => after.recording = source.recording) (fun _ _ => True) source' trail := by
    intro source' trail hsame htrue hloaded
    have hpermits : Permits Call.recordsMemory trail
        (Asks o past (.memory cpu info address pc)) := by
      intro more _ call hcall
      rcases hcall with hcall | ⟨row,rfl⟩
      · exact asks_memory_of_passive hcall
      · exact ⟨hrecording htrue,fun hstop => (hloaded hstop).append more⟩
    apply Routine.wp_mono (quiet_recordAccess _ trail hpermits source')
    · exact fun _ after _ hafter => hafter.1.trans hsame
    · exact fun _ _ h => h
  unfold memoryAccess
  apply quiet_activeSource.passive.wp_bind (hpassive _) (fun _ _ => trivial)
  intro _ source' first hsame _
  rw [Routine.wp_bind,Routine.wp_get]
  apply Routine.wp_ite
  · intro htrue
    rw [hsame] at htrue
    apply Routine.wp_ite
    · intro _
      apply wp_ask (asks_memory_of_passive (.inr rfl))
      intro state
      apply Routine.wp_ite
      · intro hstate
        apply hrecord source' _ hsame htrue
        intro _
        exact List.mem_append_right _ (hstate ▸ List.mem_cons_self)
      · exact fun _ => hsame
    · intro hstop
      exact hrecord source' _ hsame htrue fun h => absurd h hstop
  · exact fun _ => hsame

end Memory

theorem blockEntries_snoc_block (past : List (Entry × Trail)) (cpu : Cpu) (pc : UInt64)
    (trail : Trail) :
    blockEntries (past ++ [(.block cpu pc,trail)]) = blockEntries past ++ [(pc,trail)] := by
  rw [blockEntries,List.filterMap_append]
  rfl

def Entry.isBlock : Entry → Bool
  | .block .. => true
  | _ => false

theorem blockEntries_snoc_other (past : List (Entry × Trail)) (trail : Trail)
    (h : entry.isBlock = false) : blockEntries (past ++ [(entry,trail)]) = blockEntries past := by
  rw [blockEntries,List.filterMap_append]
  cases entry with
  | block => cases h
  | _ => exact List.append_nil _

/-- Between its callbacks: every block entry has ended as one does, and the source goes on
recording only in a recorded block. -/
def BoundsReady (o : Options) (past : List (Entry × Trail)) (source : Source) : Prop :=
  (∀ call ∈ past, Ends o call.1 call.2) ∧ (source.recording = true → LastRecorded past)

variable {source : Source}

theorem BoundsReady.other {source' : Source} (h : BoundsReady o past source)
    (hsame : source'.recording = source.recording) (hentry : entry.isBlock = false)
    (trail : Trail) : BoundsReady o (past ++ [(entry,trail)]) source' := by
  refine ⟨?_,?_⟩
  · intro call hcall
    rcases List.mem_append.mp hcall with hcall | hcall
    · exact h.1 call hcall
    · rw [List.mem_singleton.mp hcall]
      cases entry with
      | block => cases hentry
      | _ => trivial
  · intro hrecording
    rw [LastRecorded,blockEntries_snoc_other past trail hentry]
    exact h.2 (hsame ▸ hrecording)

theorem asks_of_passive (hentry : entry.isBlock = false) {call : Call} (h : call.passive) :
    Asks o past entry trail call := by
  cases entry with
  | block => cases hentry
  | memory cpu info address pc => exact asks_memory_of_passive h
  | _ => exact h

theorem BoundsReady.quiet (h : BoundsReady o past source) (hentry : entry.isBlock = false)
    {x : Callback Unit} (hx : Quiet Call.passive x) :
    Routine.wp (trailProtocol (Asks o past entry)) x
      (fun _ source' trail => BoundsReady o (past ++ [(entry,trail)]) source')
      (fun _ _ => True) source [] := by
  apply Routine.wp_mono (hx _ [] (fun _ _ _ hcall => asks_of_passive hentry hcall) source)
  · exact fun _ _ trail hafter => h.other hafter.1 hentry trail
  · exact fun _ _ h => h

def boundsContract (c : Config) (hwindow : c.anyWindow = false) (hfilters : c.filters = false) :
    Contract (workload c.toOptions) where
  ready _ past source := BoundsReady c.toOptions past source
  asks _ past entry trail call := Asks c.toOptions past entry trail call
  keeps := by
    intro i past entry source hready
    cases entry with
    | block cpu pc =>
      apply Routine.wp_mono (wp_blockEntry c.blocks_or_transitions hwindow hfilters source)
      · intro _ source' trail hpost
        refine ⟨?_,?_⟩
        · intro call hcall
          rcases List.mem_append.mp hcall with hcall | hcall
          · exact hready.1 call hcall
          · rw [List.mem_singleton.mp hcall]
            exact hpost.1
        · intro hrecording
          rw [LastRecorded,blockEntries_snoc_block,List.getLast?_append_cons]
          exact ⟨_,rfl,hpost.2 hrecording⟩
      · exact fun _ _ h => h
    | memory cpu info address pc =>
      apply Routine.wp_mono (wp_memoryAccess hready.2)
      · exact fun _ source' trail hsame => hready.other hsame rfl trail
      · exact fun _ _ h => h
    | start cpu descriptors =>
      exact hready.quiet rfl (quiet_sourceStart i descriptors).passive
    | syscall cpu call => exact hready.quiet rfl (quiet_syscallEntry i call)
    | syscallReturn number result =>
      exact hready.quiet rfl (quiet_syscallReturn number result).passive
    | idle => exact hready.quiet rfl quiet_sourceIdle.passive
    | exit cpu => exact hready.quiet rfl (quiet_sourceEnd i)

end Cpu2Tensor.Plugin
