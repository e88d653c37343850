import Cpu2Tensor.Plugin.System

/-!
# Calls of the callbacks

Which calls the parts of a callback make.  Most parts are quiet: their calls are plain, and they
leave the decision to record as it is.
-/

namespace Cpu2Tensor.Plugin
open Library

/-- Calls that neither touch the capture bounds nor record a block or an access. -/
def Call.plain : Call → Bool
  | .loadCapture | .storeCapture _ | .swapCapture .. | .beginWindow | .endWindow | .abortWindow
  | .admitBlock | .observeBlock .. => false
  | .append kind _ => kind != .blocks && kind != .memory
  | _ => true

/-- A call of the routine is one that may be made after the calls of `trail` and any allowed
ones. -/
def Permits (allowed : Call → Prop) (trail : Trail) (asks : Trail → Call → Prop) : Prop :=
  ∀ more : Trail, (∀ entry ∈ more, allowed entry.1) → ∀ call, allowed call →
    asks (trail ++ more) call

/-- Every call of the routine is allowed, and the source goes on recording or not. -/
def Quiet {α : Type} (allowed : Call → Prop) (x : Callback α) : Prop :=
  ∀ asks trail, Permits allowed trail asks → ∀ source, Routine.wp (trailProtocol asks) x
    (fun _ source' trail' => source'.recording = source.recording ∧
      ∃ more, trail' = trail ++ more ∧ ∀ entry ∈ more, allowed entry.1)
    (fun _ _ => True) source trail

section Rules

variable {α β : Type} {allowed : Call → Prop} {x : Callback α} {asks : Trail → Call → Prop}
  {call : Call} {f : Source → Source} {trail : Trail}

theorem Permits.extend {more : Trail} (h : Permits allowed trail asks)
    (hmore : ∀ entry ∈ more, allowed entry.1) : Permits allowed (trail ++ more) asks := by
  intro rest hrest call hcall
  rw [List.append_assoc]
  apply h (more ++ rest) _ call hcall
  intro entry hentry
  exact (List.mem_append.mp hentry).elim (hmore entry) (hrest entry)

theorem Permits.now (h : Permits allowed trail asks) (hcall : allowed call) : asks trail call := by
  have hnow := h [] (by simp) call hcall
  rwa [List.append_nil] at hnow

theorem quiet_pure (a : α) : Quiet allowed (pure a) :=
  fun _ _ _ _ => ⟨rfl,[],(List.append_nil _).symm,by simp⟩

theorem quiet_fail (reason : FailureReason) (message : String) :
    Quiet allowed (fail reason message : Callback α) := fun _ _ _ _ => trivial

theorem quiet_stop (failure : Failure) : Quiet allowed (Routine.stop failure : Callback α) :=
  fun _ _ _ _ => trivial

theorem quiet_ask (h : allowed call) : Quiet allowed (ask call) := by
  intro asks trail hpermits source
  refine ⟨hpermits.now h,?_⟩
  rintro answer _ rfl
  exact ⟨rfl,[⟨call,answer⟩],rfl,by simpa using h⟩

theorem Quiet.bind {f : α → Callback β} (h : Quiet allowed x) (hf : ∀ a, Quiet allowed (f a)) :
    Quiet allowed (x >>= f) := by
  intro asks trail hpermits source
  rw [Routine.wp_bind]
  apply Routine.wp_mono (h asks trail hpermits source)
  · rintro a between _ ⟨hrecording,more,rfl,hmore⟩
    apply Routine.wp_mono (hf a asks _ (hpermits.extend hmore) between)
    · rintro b after _ ⟨hafter,rest,rfl,hrest⟩
      refine ⟨hafter.trans hrecording,more ++ rest,List.append_assoc _ _ _,?_⟩
      intro entry hentry
      exact (List.mem_append.mp hentry).elim (hmore entry) (hrest entry)
    · exact fun _ _ h => h
  · exact fun _ _ h => h

theorem quiet_get_bind {f : Source → Callback β} (h : ∀ source, Quiet allowed (f source)) :
    Quiet allowed (get >>= f) := by
  intro asks trail hpermits source
  exact (Routine.wp_bind _ f _).mpr (h source asks trail hpermits source)

theorem quiet_modify (h : ∀ source, (f source).recording = source.recording) :
    Quiet allowed (modify f) :=
  fun _ _ _ source => ⟨h source,[],(List.append_nil _).symm,by simp⟩

theorem quiet_ask_bind {k : Answer call → Callback β} (h : allowed call)
    (hk : ∀ answer, Quiet allowed (k answer)) : Quiet allowed (ask call >>= k) :=
  (quiet_ask h).bind hk

theorem quiet_modify_bind {k : Unit → Callback β}
    (h : ∀ source, (f source).recording = source.recording) (hk : Quiet allowed (k ())) :
    Quiet allowed (modify f >>= k) :=
  (quiet_modify h).bind fun _ => hk

theorem quiet_ite {p : Prop} [Decidable p] {y : Callback α} (hx : p → Quiet allowed x)
    (hy : ¬p → Quiet allowed y) : Quiet allowed (if p then x else y) := by
  split
  · exact hx ‹p›
  · exact hy ‹¬p›

theorem Quiet.mono {allowed' : Call → Prop} (h : Quiet allowed x)
    (himp : ∀ call, allowed call → allowed' call) : Quiet allowed' x := by
  intro asks trail hpermits source
  have hfewer : Permits allowed trail asks := fun more hmore call hcall =>
    hpermits more (fun entry hentry => himp _ (hmore entry hentry)) call (himp call hcall)
  apply Routine.wp_mono (h asks trail hfewer source)
  · rintro _ _ _ ⟨hrecording,more,rfl,hmore⟩
    exact ⟨hrecording,more,rfl,fun entry hentry => himp _ (hmore entry hentry)⟩
  · exact fun _ _ h => h

theorem quiet_forM {items : List α} {f : α → Callback Unit} (h : ∀ a, Quiet allowed (f a)) :
    Quiet allowed (items.forM f) := by
  induction items with
  | nil => exact quiet_pure ()
  | cons a items ih => exact (h a).bind fun _ => ih

end Rules

section Plain

variable {o : Options} {cpu : Cpu}

theorem quiet_append {kind : Kind} (hb : kind ≠ .blocks) (hm : kind ≠ .memory) (row : Bytes) :
    Quiet (·.plain) (append kind row) := by
  refine quiet_ask_bind (by simp [Call.plain,hb,hm]) fun result => ?_
  cases result with
  | error failure => exact quiet_stop failure
  | ok _ => exact quiet_pure _

theorem quiet_activeSource : Quiet (·.plain) activeSource :=
  quiet_get_bind fun _ => quiet_ite (fun _ => quiet_fail _ _) fun _ => quiet_pure _

theorem quiet_readHandle (handle : Nat) (rawField : Option Nat) (name : Bytes) (expected : Nat) :
    Quiet (·.plain) (readHandle cpu handle rawField name expected) := by
  unfold readHandle
  cases rawField with
  | some field => exact quiet_get_bind fun _ => quiet_pure _
  | none =>
    cases cpu.register handle with
    | none => exact quiet_fail _ _
    | some value => exact quiet_ite (fun _ => quiet_fail _ _) fun _ => quiet_pure _

theorem quiet_readControl (control field : Nat) :
    Quiet (·.plain) (readControl cpu control field) :=
  quiet_get_bind fun _ => (quiet_readHandle _ _ _ _).bind fun _ => quiet_modify fun _ => rfl

theorem quiet_readContext (full : Bool) : Quiet (·.plain) (readContext o cpu full) := by
  apply quiet_ite
  · intro _
    apply quiet_ite
    · intro _
      cases cpu.state with
      | none => exact quiet_fail _ _
      | some words => exact quiet_modify fun _ => rfl
    · intro _
      exact (quiet_readControl 0 0).bind fun _ => (quiet_readControl 1 2).bind fun _ =>
        (quiet_readControl 2 3).bind fun _ => quiet_readControl 3 5
  · exact fun _ => quiet_pure _

theorem quiet_emitReduced (pc : UInt64) : Quiet (·.plain) (emitReduced o pc) := by
  apply quiet_get_bind
  intro source
  apply quiet_ite
  · exact fun _ => quiet_fail _ _
  · intro _
    refine quiet_modify_bind (fun _ => rfl) ?_
    apply quiet_ite
    · exact fun _ => (quiet_append (by decide) (by decide) _).bind fun _ => quiet_modify fun _ => rfl
    · exact fun _ => quiet_ite (fun _ => quiet_fail _ _) fun _ => quiet_modify fun _ => rfl

theorem quiet_emitContext (pc : UInt64) : Quiet (·.plain) (emitContext o pc) := by
  apply quiet_get_bind
  intro source
  apply quiet_ite
  · intro _
    apply quiet_ite
    · exact fun _ => (quiet_emitReduced pc).bind fun _ => quiet_modify fun _ => rfl
    · intro _
      apply (quiet_append (by decide) (by decide) _).bind
      intro _
      refine quiet_ask_bind rfl fun next => ?_
      exact quiet_modify_bind (fun _ => rfl) (quiet_modify fun _ => rfl)
  · exact fun _ => quiet_pure _

theorem quiet_sampleRegisters (pc : UInt64) (checkpoint : Checkpoint) :
    Quiet (·.plain) (sampleRegisters cpu pc checkpoint) := by
  apply quiet_get_bind
  intro source
  apply quiet_forM
  intro id
  apply quiet_get_bind
  intro source
  cases source.registers[id]? with
  | none => exact quiet_pure _
  | some reg =>
    apply (quiet_readHandle _ _ _ _).bind
    intro value
    apply quiet_ite
    · exact fun _ => quiet_pure _
    · exact fun _ => (quiet_append (by decide) (by decide) _).bind fun _ => quiet_modify fun _ => rfl

theorem quiet_currentPc : Quiet (·.plain) (currentPc cpu) := by
  apply quiet_get_bind
  intro source
  cases (source.pcRegister.bind fun id => source.registers[id]?) with
  | none => exact quiet_pure _
  | some reg => exact (quiet_readHandle _ _ _ _).bind fun _ => quiet_pure _

theorem quiet_relation (cr3 : UInt64) : Quiet (·.plain) (relation cr3) := by
  refine quiet_ask_bind rfl fun found => ?_
  cases found with
  | known => exact quiet_ask_bind rfl fun _ => quiet_pure _
  | _ => exact quiet_pure _

theorem quiet_accountFilterMemory : Quiet (·.plain) (accountFilterMemory o) := by
  apply quiet_ite
  · intro _
    refine quiet_ask_bind rfl fun total => ?_
    apply quiet_get_bind
    intro source
    apply quiet_ite
    · exact fun _ => quiet_fail _ _
    · intro _
      apply quiet_ite
      · intro _
        cases source.filterCounts.account o source.filterRelation
          (total - source.filterMemoryTotal) with
        | none => exact quiet_fail _ _
        | some counts => exact quiet_modify fun _ => rfl
      · exact fun _ => quiet_modify fun _ => rfl
  · exact fun _ => quiet_pure _

theorem quiet_refreshRelation : Quiet (·.plain) (refreshRelation o) := by
  apply quiet_ite
  · intro _
    apply quiet_get_bind
    intro source
    apply (quiet_relation _).bind
    intro relation
    refine quiet_modify_bind (fun _ => rfl) ?_
    exact quiet_ite (fun _ => quiet_ask rfl) fun _ => quiet_pure _
  · exact fun _ => quiet_modify fun _ => rfl

theorem quiet_requestInput (index : Nat) (requested : UInt64) :
    Quiet (·.plain) (requestInput index o requested) := by
  have hrest : Quiet (·.plain) (do
      let next ← ask .next
      ask (.sendHeader
        { kind := .inputRequest
          source := UInt32.ofNat index
          sequence := UInt64.ofNat next
          detail := UInt64.ofNat (min requested.toNat maxActionBytes) })
      if ! (← ask .stopProcess) then
        fail .capture "cpu2tensor: cannot stop at stdin request\n") := by
    refine quiet_ask_bind rfl fun next => quiet_ask_bind rfl fun _ => quiet_ask_bind rfl fun _ => ?_
    exact quiet_ite (fun _ => quiet_fail _ _) fun _ => quiet_pure _
  refine quiet_ask_bind rfl fun _ => quiet_ite (fun _ => ?_) fun _ => ?_
  · exact quiet_ask_bind rfl fun _ => hrest
  · exact hrest

theorem quiet_endSource (index : Nat) : Quiet (·.plain) (endSource index o) := by
  have hrest : Quiet (·.plain) (do
      let next ← ask .next
      ask (.sendHeader
        { kind := .sourceEnd, source := UInt32.ofNat index, sequence := UInt64.ofNat next })
      modify fun source => { source with registers := [], state := .ended }) :=
    quiet_ask_bind rfl fun _ => quiet_ask_bind rfl fun _ => quiet_modify fun _ => rfl
  refine quiet_accountFilterMemory.bind fun _ => quiet_ask_bind rfl fun _ =>
    quiet_ite (fun _ => ?_) fun _ => ?_
  · exact quiet_ask_bind rfl fun _ => hrest
  · exact hrest

theorem quiet_exitRows : Quiet (·.plain) (exitRows o cpu) := by
  have hcontext : Quiet (·.plain) (exitContext o cpu) :=
    (quiet_readContext true).bind fun _ => quiet_currentPc.bind fun _ => quiet_get_bind fun _ =>
      (quiet_emitContext _).bind fun _ => quiet_pure _
  refine hcontext.bind fun pc => quiet_ite (fun _ => ?_) fun _ => ?_
  · refine quiet_get_bind fun _ => (quiet_relation _).bind fun relation => ?_
    exact quiet_ite (fun _ => quiet_sampleRegisters pc .exit) fun _ => quiet_pure _
  · exact quiet_sampleRegisters pc .exit

theorem quiet_addRegister (handle : Nat) (name : Bytes) :
    Quiet (·.plain) (addRegister o cpu handle name) := by
  refine (quiet_readHandle _ _ _ _).bind fun value => ?_
  split
  · refine quiet_ite (fun _ => quiet_fail _ _) fun _ => quiet_get_bind fun source => ?_
    exact (quiet_append (by decide) (by decide) _).bind fun _ => quiet_modify fun _ => rfl
  · exact quiet_pure _

theorem quiet_setupRegister (descriptor : Descriptor) :
    Quiet (·.plain) (setupRegister o cpu descriptor) := by
  unfold setupRegister
  cases descriptor.name with
  | none => exact quiet_fail _ _
  | some name =>
    have hcontrol : Quiet (·.plain) (findControl o descriptor.handle name) :=
      quiet_ite (fun _ => quiet_modify fun _ => rfl) fun _ => quiet_pure _
    refine hcontrol.bind fun _ => quiet_ite (fun _ => quiet_ite (fun _ => ?_) fun _ => ?_)
      fun _ => quiet_pure _
    · exact quiet_ite (fun _ => quiet_fail _ _) fun _ => quiet_pure _
    · refine quiet_get_bind fun source => ?_
      cases nameFault source name with
      | some message => exact quiet_fail _ _
      | none => exact quiet_addRegister descriptor.handle name

theorem quiet_registerSetup (descriptors : Option (List Descriptor)) :
    Quiet (·.plain) (registerSetup o cpu descriptors) := by
  refine quiet_ite (fun _ => quiet_pure _) fun _ => ?_
  cases descriptors with
  | none => exact quiet_fail _ _
  | some descriptors =>
    refine (quiet_forM quiet_setupRegister).bind fun _ => quiet_get_bind fun source => ?_
    cases setupFault o source with
    | some message => exact quiet_fail _ _
    | none => exact quiet_ask rfl

theorem quiet_sourceStart (index : Nat) (descriptors : Option (List Descriptor)) :
    Quiet (·.plain) (sourceStart index o cpu descriptors) := by
  refine quiet_get_bind fun _ => quiet_ite (fun _ => quiet_fail _ _) fun _ =>
    quiet_modify_bind (fun _ => rfl) (quiet_ite (fun _ => ?_) fun _ => ?_)
  · exact quiet_ask_bind rfl fun _ => quiet_ask_bind rfl fun _ => quiet_registerSetup descriptors
  · exact quiet_registerSetup descriptors

theorem quiet_sourceIdle : Quiet (·.plain) sourceIdle :=
  quiet_get_bind fun _ => quiet_ite (fun _ => quiet_ask rfl) fun _ => quiet_pure _

theorem quiet_syscallReturn (number result : Int) :
    Quiet (·.plain) (syscallReturn number result) :=
  quiet_ite (fun _ => quiet_fail _ _) fun _ => quiet_pure _

end Plain

def Call.passive (call : Call) : Prop := call.plain = true ∨ call = .loadCapture

section Passive

variable {o : Options} {cpu : Cpu}

theorem Quiet.passive {α : Type} {x : Callback α} (h : Quiet (·.plain) x) : Quiet Call.passive x :=
  h.mono fun _ hc => .inl hc

theorem quiet_captureAllows : Quiet Call.passive (captureAllows o) := by
  apply quiet_ite
  · exact fun _ => quiet_ask_bind (.inr rfl) fun _ => quiet_pure _
  · exact fun _ => quiet_pure _

theorem quiet_sampleExit : Quiet Call.passive (sampleExit o cpu) := by
  refine quiet_get_bind fun source => quiet_ask_bind (.inl rfl) fun next =>
    quiet_ite (fun _ => ?_) fun _ => quiet_pure _
  refine quiet_captureAllows.bind fun allows => quiet_ite (fun _ => ?_) fun _ => quiet_pure _
  exact quiet_ite (fun _ => quiet_exitRows.passive) fun _ => quiet_pure _

theorem quiet_sourceEnd (index : Nat) : Quiet Call.passive (sourceEnd index o cpu) :=
  quiet_activeSource.passive.bind fun _ => quiet_sampleExit.bind fun _ =>
    quiet_ite (fun _ => quiet_ask (.inl rfl)) fun _ => (quiet_endSource index).passive

theorem quiet_sampleSyscall : Quiet Call.passive (sampleSyscall o cpu) := by
  refine quiet_get_bind fun source => quiet_ite (fun _ => ?_) fun _ => quiet_pure _
  refine quiet_captureAllows.bind fun allows => quiet_ite (fun _ => ?_) fun _ => quiet_pure _
  refine quiet_ite (fun _ => ?_) fun _ => quiet_pure _
  exact (quiet_currentPc.bind fun pc => quiet_sampleRegisters pc .syscall).passive

theorem quiet_syscallEntry (index : Nat) (call : Syscall) :
    Quiet Call.passive (syscallEntry index o cpu call) := by
  have hend : Quiet Call.passive (if call.startsProcess (o.architecture == .aarch64) then
      fail .unsupportedTarget "cpu2tensor: fork and exec need a later process contract\n"
      else pure ()) := quiet_ite (fun _ => quiet_fail _ _) fun _ => quiet_pure _
  have hcheck : Quiet Call.passive (checkStdin o (o.architecture == .aarch64) call) := by
    refine quiet_ite (fun _ => ?_) fun _ => quiet_pure _
    cases call.stdinFault (o.architecture == .aarch64) with
    | some message => exact quiet_fail _ _
    | none => exact quiet_pure _
  refine quiet_activeSource.passive.bind fun _ => quiet_sampleSyscall.bind fun _ =>
    hcheck.bind fun _ => quiet_ite (fun _ => ?_) fun _ => hend
  exact (quiet_requestInput index call.requested).passive.bind fun _ => hend

end Passive

end Cpu2Tensor.Plugin
