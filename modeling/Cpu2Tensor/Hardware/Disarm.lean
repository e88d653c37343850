import Cpu2Tensor.Hardware.Frame

/-!
# Disarming a multimodal capture

`PerfMultimodalCapture.stop` disarms its sources in a `finally` block, one after the other, and
reads the status of each PEBS event between two disable calls.  A read that fails there leaves the
block: the events that come later stay armed, and the capture stays marked as running.
-/

namespace Cpu2Tensor.Hardware
open Library

/-- The events of a source that were armed, with the argument of the call that disables them. -/
def MultimodalSource.armed (source : MultimodalSource) : List (Nat × Nat) :=
  source.counterFds.head?.toList.map (·,groupFlag) ++
    (source.pebsFd.toList.map (·,0) ++ source.ptFd.toList.map (·,0))

/-- A whole status of an event that ran and was not multiplexed. -/
def CompleteStatus (answer : Option Bytes) : Prop :=
  ∃ payload, answer = some payload ∧ payload.length = 24 ∧ load (payload.drop 8) 8 ≠ 0 ∧
    load (payload.drop 16) 8 = load (payload.drop 8) 8

theorem sampledEvent_ok (answer : Option Bytes) :
    (∃ status, sampledEvent answer = .ok status) ↔ CompleteStatus answer := by
  cases answer with
  | none => simp [sampledEvent,CompleteStatus]
  | some payload =>
    simp only [sampledEvent,CompleteStatus,Option.some.injEq,exists_eq_left']
    constructor
    · rintro ⟨status,h⟩
      split_ifs at h with hlength hran hsame
      rw [not_or] at hran
      exact ⟨not_not.mp hlength,hran.1,not_not.mp hsame⟩
    · rintro ⟨hlength,hran,hsame⟩
      rw [if_neg (not_not.mpr hlength),if_neg (by rw [hsame,or_self]; exact hran),
        if_neg (not_not.mpr hsame)]
      exact ⟨_,rfl⟩

def disabled (before : List (Nat × Nat)) : Sigma Call.Answer → List (Nat × Nat)
  | ⟨.ioctl fd .disable argument,true⟩ => (fd,argument) :: before
  | _ => before

/-- Disabling succeeds, and the status of a sampled event is what it is. -/
def Disables (status : Nat → Option Bytes) : Sigma Call.Answer → Prop
  | ⟨.ioctl _ .disable _,answer⟩ => answer = true
  | ⟨.read fd size,answer⟩ => size = 24 → answer = status fd
  | _ => True

def disabling (status : Nat → Option Bytes) : Protocol Call Call.Answer (List (Nat × Nat)) :=
  Program.foldProtocol disabled (fun _ _ => True) fun _ entry => Disables status entry

def Grew (before after : List (Nat × Nat)) : Prop := before ⊆ after

instance : IsPreorder (List (Nat × Nat)) Grew where
  refl _ := List.Subset.refl _
  trans _ _ _ := List.Subset.trans

theorem disabled_grew (before : List (Nat × Nat)) (entry : Sigma Call.Answer) :
    Grew before (disabled before entry) := by
  unfold disabled
  split
  · exact List.subset_cons_self _ _
  · exact List.Subset.refl _

instance (status : Nat → Option Bytes) : Frame (disabling status) Grew where
  quiet before c _ := by
    refine ⟨trivial,?_⟩
    rintro answer t ⟨rfl,-⟩
    exact disabled_grew before _

section Rules

variable {σ : Type} {status : Nat → Option Bytes} {l : σ} {before : List (Nat × Nat)}
  {post : Except HardwareError Unit → σ → List (Nat × Nat) → Prop}

private theorem wp_disable {fd argument : Nat} (h : post (.ok ()) l ((fd,argument) :: before)) :
    Method.wp (disabling status) (ioctl fd .disable argument) post l before := by
  rw [ioctl,Method.wp_bind,call,Method.wp_request]
  refine ⟨trivial,?_⟩
  rintro answer t ⟨rfl,hanswer⟩
  obtain rfl : answer = true := hanswer
  exact h

private theorem wp_readSampledEvent {fd : Nat}
    {post : Except HardwareError SampledStatus → σ → List (Nat × Nat) → Prop}
    (h : post (sampledEvent (status fd)) l before) :
    Method.wp (disabling status) (readSampledEvent fd) post l before := by
  rw [readSampledEvent,Method.wp_bind,call,Method.wp_request]
  refine ⟨trivial,?_⟩
  rintro answer t ⟨ht,hanswer⟩
  have ht : t = before := ht
  have hanswer : answer = status fd := hanswer rfl
  rw [ht,hanswer]
  show Method.wp (disabling status) (settle (sampledEvent (status fd))) post l before
  cases hsampled : sampledEvent (status fd) <;> rw [hsampled] at h <;> exact h

end Rules

namespace PerfMultimodalCapture

variable {status : Nat → Option Bytes} {c : PerfMultimodalCapture} {before : List (Nat × Nat)}

/-- The status of the PEBS event of a source, if it has one, can be read. -/
def Readable (status : Nat → Option Bytes) (source : MultimodalSource) : Prop :=
  ∀ fd, source.pebsFd = some fd → CompleteStatus (status fd)

private theorem wp_disableSome {value : Option Nat} {argument : Nat}
    {post : Except HardwareError Unit → PerfMultimodalCapture → List (Nat × Nat) → Prop}
    (h : post (.ok ()) c (value.toList.map (·,argument) ++ before)) :
    Method.wp (disabling status) (whenSome value fun fd => ioctl fd .disable argument) post c
      before := by
  cases value with
  | none => exact h
  | some fd => exact wp_disable h

private theorem wp_disarmPebs {value : Option Nat} {index : Nat}
    {post : Except HardwareError Unit → PerfMultimodalCapture → List (Nat × Nat) → Prop}
    (hok : (∀ fd, value = some fd → CompleteStatus (status fd)) → ∀ c',
      c'.running = c.running → post (.ok ()) c' (value.toList.map (·,0) ++ before))
    (herror : (¬ ∀ fd, value = some fd → CompleteStatus (status fd)) → ∀ error after,
      post (.error error) c after) :
    Method.wp (disabling status) (whenSome value fun fd => do
      ioctl fd .disable 0
      let status ← readSampledEvent fd
      updateSource index fun source => { source with pebsStatus := status }) post c before := by
  cases value with
  | none => exact hok nofun c rfl
  | some fd =>
    show Method.wp (disabling status) (_ >>= _) post c before
    rw [Method.wp_bind]
    apply wp_disable
    rw [Method.follows_ok,Method.wp_bind]
    apply wp_readSampledEvent
    cases hsampled : sampledEvent (status fd) with
    | ok sampled =>
      have hcomplete : ∀ fd', some fd = some fd' → CompleteStatus (status fd') := by
        rintro _ ⟨⟩
        exact (sampledEvent_ok _).mp ⟨sampled,hsampled⟩
      rw [Method.follows_ok,updateSource,Method.wp_modify]
      exact hok hcomplete _ (by exact rfl)
    | error error =>
      rw [Method.follows_error]
      apply herror
      intro hcomplete
      obtain ⟨sampled,hok⟩ := (sampledEvent_ok _).mpr (hcomplete fd rfl)
      rw [hsampled] at hok
      cases hok

private theorem wp_disarmSource (entry : MultimodalSource × Nat) :
    Method.wp (disabling status) (disarmSource entry) (fun r c' after =>
      c'.running = c.running ∧
      (Readable status entry.1 → r = .ok () ∧ Grew before after ∧
        ∀ e ∈ entry.1.armed, e ∈ after) ∧
      (¬ Readable status entry.1 → ∃ error, r = .error error)) c before := by
  rw [disarmSource,Method.wp_bind]
  apply wp_disableSome
  rw [Method.follows_ok,Method.wp_bind]
  apply wp_disarmPebs
  · intro hreadable c' hrunning
    rw [Method.follows_ok]
    apply wp_disableSome
    refine ⟨hrunning,fun _ => ⟨rfl,?_,?_⟩,fun h => absurd hreadable h⟩
    · intro e he
      simp [he]
    · intro e he
      simp only [MultimodalSource.armed,List.mem_append] at he ⊢
      tauto
  · intro hunreadable error after
    exact ⟨rfl,fun h => absurd h hunreadable,fun _ => ⟨error,rfl⟩⟩

private theorem wp_disarm {sources : List MultimodalSource}
    (h : ∀ source ∈ sources, Readable status source) :
    Method.wp (disabling status) (disarm sources) (fun r c' after => r = .ok () ∧
      c'.running = false ∧ ∀ source ∈ sources, ∀ e ∈ source.armed, e ∈ after) c before := by
  rw [disarm,Method.wp_bind]
  refine Method.wp_forM (fun rest _ after => (∀ entry ∈ rest, Readable status entry.1) ∧
    ∀ source ∈ sources, (∀ e ∈ source.armed, e ∈ after) ∨ source ∈ rest.map Prod.fst) ?_ ?_ ?_
  · rintro entry rest c' after ⟨hreadable,hdone⟩
    apply Method.wp_mono (wp_disarmSource entry)
    rintro r c'' after' ⟨-,hok,-⟩
    obtain ⟨rfl,hgrew,harmed⟩ := hok (hreadable entry (by simp))
    refine ⟨fun e he => hreadable e (by simp [he]),?_⟩
    intro source hsource
    rcases hdone source hsource with hall | hmem
    · exact .inl fun e he => hgrew (hall e he)
    · rcases List.mem_cons.mp hmem with rfl | hrest
      · exact .inl harmed
      · exact .inr hrest
  · rintro c' after ⟨-,hdone⟩
    refine ⟨rfl,rfl,fun source hsource => ?_⟩
    exact (hdone source hsource).resolve_right (by simp)
  · refine ⟨fun entry he => h entry.1 ?_,fun source hsource => .inr ?_⟩
    · exact List.fst_mem_of_mem_zipIdx he
    · rw [List.zipIdx_map_fst]
      exact hsource

private theorem wp_disarm_unreadable {sources : List MultimodalSource}
    (h : ∃ source ∈ sources, ¬ Readable status source) :
    Method.wp (disabling status) (disarm sources) (fun r c' _ => (∃ error, r = .error error) ∧
      c'.running = c.running) c before := by
  rw [disarm,Method.wp_bind]
  refine Method.wp_forM (fun rest c' _ => c'.running = c.running ∧
    ∃ entry ∈ rest, ¬ Readable status entry.1) ?_ ?_ ?_
  · rintro entry rest c' after ⟨hrunning,bad,hbad,hunreadable⟩
    apply Method.wp_mono (wp_disarmSource entry)
    rintro r c'' after' ⟨hsame,hok,herror⟩
    cases r with
    | error error => exact ⟨⟨error,rfl⟩,hsame.trans hrunning⟩
    | ok _ =>
      refine ⟨hsame.trans hrunning,bad,?_,hunreadable⟩
      rcases List.mem_cons.mp hbad with rfl | hrest
      · obtain ⟨error,herror⟩ := herror hunreadable
        cases herror
      · exact hrest
  · rintro c' after ⟨-,bad,hbad,-⟩
    simp at hbad
  · obtain ⟨source,hsource,hunreadable⟩ := h
    refine ⟨rfl,?_⟩
    rw [← List.zipIdx_map_fst 0 sources] at hsource
    obtain ⟨entry,hentry,rfl⟩ := List.mem_map.mp hsource
    exact ⟨entry,hentry,hunreadable⟩

variable {page : Nat} {config : HardwareMultimodalConfig}

private def stopBatches (page : Nat) (config : HardwareMultimodalConfig) (stopBefore : Nat)
    (finals : List (Option (Nat × Reading))) :
    Capturing PerfMultimodalCapture (List HardwareMultimodalBatch) := do
  let stopAfter ← call .clock
  let c ← get
  Method.collect
    (sourceBatch page config ⟨c.armBeforeNs,c.armAfterNs,stopBefore,stopAfter⟩ finals) c.sources

/-- Up to the `finally` block `stop` only reads; whatever the reads give, the block is run. -/
private theorem wp_stop_of_disarm
    {post : Except HardwareError (List HardwareMultimodalBatch) → PerfMultimodalCapture →
      List (Nat × Nat) → Prop} (hrunning : c.running = true) (hstopped : c.stopped = false)
    (h : ∀ stopBefore r after, Method.wp (disabling status) (disarm c.sources)
      (fun r' c' after' => match r' with
        | .ok _ => Method.follows (disabling status) (stopBatches page config stopBefore) post r c'
            after'
        | .error error => post (.error error) c' after') { c with stopped := true } after) :
    Method.wp (disabling status) (stop page config) post c before := by
  rw [stop,Method.wp_bind,Method.wp_get,Method.follows_ok,Method.wp_bind,raiseIf,
    if_neg (by simp [hrunning,hstopped]),Method.wp_pure,Method.follows_ok,Method.wp_bind,
    Method.wp_modify,Method.follows_ok,Method.wp_bind,call,Method.wp_request]
  refine ⟨trivial,fun stopBefore after _ => ?_⟩
  rw [Method.follows_ok,Method.wp_bind,Method.wp_andFinally]
  apply (preserves_collect (R := Eq) (T := Grew) preserves_readFinal).wp
  rintro r _ after' rfl -
  apply Method.wp_mono (h stopBefore r after')
  intro r' c' after'' hr'
  cases r' <;> exact hr'

private theorem wp_stop (hrunning : c.running = true) (hstopped : c.stopped = false)
    (h : ∀ source ∈ c.sources, Readable status source) :
    Method.wp (disabling status) (stop page config) (fun _ c' after => c'.running = false ∧
      ∀ source ∈ c.sources, ∀ e ∈ source.armed, e ∈ after) c before := by
  apply wp_stop_of_disarm hrunning hstopped
  intro stopBefore r after
  apply Method.wp_mono (wp_disarm h)
  rintro _ c' after' ⟨rfl,hdisarmed⟩
  cases r with
  | error error => exact hdisarmed
  | ok finals =>
    have hquiet : Preserves (disabling status) Eq Grew
        (stopBatches page config stopBefore finals) := by
      apply (preserves_call .clock trivial).bind
      intro stopAfter c s
      rw [Method.wp_bind,Method.wp_get,Method.follows_ok]
      exact preserves_collect (preserves_sourceBatch _ _) c s
    rw [Method.follows_ok]
    apply hquiet.wp
    rintro r _ after'' rfl hgrew
    exact ⟨hdisarmed.1,fun source hsource e he => hgrew (hdisarmed.2 source hsource e he)⟩

private theorem wp_stop_unreadable (hrunning : c.running = true) (hstopped : c.stopped = false)
    (h : ∃ source ∈ c.sources, ¬ Readable status source) :
    Method.wp (disabling status) (stop page config) (fun _ c' _ => c'.running = true) c
      before := by
  apply wp_stop_of_disarm hrunning hstopped
  intro stopBefore r after
  apply Method.wp_mono (wp_disarm_unreadable h)
  rintro _ c' after' ⟨⟨error,rfl⟩,hsame⟩
  exact hsame.trans hrunning

/-- Nothing of a capture is armed after the calls of a trail, and it is not running. -/
def Disarmed (c c' : PerfMultimodalCapture) (trail : Program.Log Call Call.Answer) : Prop :=
  c'.running = false ∧ ∀ source ∈ c.sources, ∀ e ∈ source.armed,
    (⟨.ioctl e.1 .disable e.2,true⟩ : Sigma Call.Answer) ∈ trail

private theorem mem_trail_of_disabled {trail : Program.Log Call Call.Answer}
    {before : List (Nat × Nat)} {e : Nat × Nat} (h : e ∈ trail.foldl disabled before) :
    e ∈ before ∨ (⟨.ioctl e.1 .disable e.2,true⟩ : Sigma Call.Answer) ∈ trail := by
  induction trail generalizing before with
  | nil => exact .inl h
  | cons entry trail ih =>
    rcases ih h with hfirst | htrail
    · unfold disabled at hfirst
      split at hfirst
      · rcases List.mem_cons.mp hfirst with rfl | hbefore
        · exact .inr (by simp)
        · exact .inl hbefore
      · exact .inl hfirst
    · exact .inr (by simp [htrail])

section Runs

variable {oracle : Program.Log Call Call.Answer → (c : Call) → c.Answer}
  (hdisable : ∀ log fd argument, oracle log (.ioctl fd .disable argument) = true)
  (hstatus : ∀ log fd, oracle log (.read fd 24) = status fd)

include hdisable hstatus in
private theorem disables_of_oracle (log : Program.Log Call Call.Answer) (entry : Sigma Call.Answer)
    (h : entry.2 = oracle log entry.1) : Disables status entry := by
  obtain ⟨c,answer⟩ := entry
  obtain rfl : answer = oracle log c := h
  cases c with
  | ioctl fd control argument =>
    cases control with
    | disable => exact hdisable log fd argument
    | _ => trivial
  | read fd size =>
    rintro rfl
    exact hstatus log fd
  | _ => trivial

include hdisable hstatus in
private theorem run_disabling {α : Type} {x : Program Call Call.Answer α}
    {post : α → List (Nat × Nat) → Prop} (log : Program.Log Call Call.Answer)
    (h : Program.wp (disabling status) x post []) :
    ∃ trail, (x.run oracle log).2 = log ++ trail ∧
      post (x.run oracle log).1 (trail.foldl disabled []) := by
  refine (Program.wp_run_fold oracle x log [] h ?_).2
  intro trail entry rest hlog
  exact disables_of_oracle hdisable hstatus _ entry (Program.run_answers oracle x log hlog)

end Runs

/-- `stop` of a running capture disarms it exactly when every PEBS status can be read. -/
theorem stop_disarms_iff (page : Nat) (config : HardwareMultimodalConfig)
    (oracle : Program.Log Call Call.Answer → (c : Call) → c.Answer)
    (status : Nat → Option Bytes)
    (hdisable : ∀ log fd argument, oracle log (.ioctl fd .disable argument) = true)
    (hstatus : ∀ log fd, oracle log (.read fd 24) = status fd)
    (log : Program.Log Call Call.Answer) (c : PerfMultimodalCapture)
    (hrunning : c.running = true) (hstopped : c.stopped = false) :
    (∃ trail, (((stop page config).run.run c).run oracle log).2 = log ++ trail ∧
      Disarmed c (((stop page config).run.run c).run oracle log).1.2 trail) ↔
    ∀ source ∈ c.sources, ∀ fd, source.pebsFd = some fd → CompleteStatus (status fd) := by
  constructor
  · rintro ⟨trail,-,hstill,-⟩
    by_contra hunreadable
    have hbad : ∃ source ∈ c.sources, ¬ Readable status source := by
      by_contra hall
      exact hunreadable fun source hsource => by
        by_contra hnot
        exact hall ⟨source,hsource,hnot⟩
    obtain ⟨-,-,hrun⟩ := run_disabling hdisable hstatus log
      (wp_stop_unreadable hrunning hstopped hbad)
    rw [hrun] at hstill
    cases hstill
  · intro hreadable
    obtain ⟨trail,htrail,hidle,hall⟩ := run_disabling hdisable hstatus log
      (wp_stop hrunning hstopped hreadable)
    refine ⟨trail,htrail,hidle,fun source hsource e he => ?_⟩
    exact (mem_trail_of_disabled (hall source hsource e he)).resolve_left (by simp)

private def statusOf (running : Nat) : Bytes := store 17 8 ++ (store 100 8 ++ store running 8)

/-- A kernel that grants every call, on which PEBS events ran for so long. -/
private def granting (running : Nat) : Program.Log Call Call.Answer → (c : Call) → c.Answer
  | _,.eventAttribute _ => .ok ()
  | _,.listTasks _ => some [7]
  | _,.openEvent event _ _ _ => .ok (if event = .signal .intelPt then 4 else 5)
  | _,.mmap .. => some 0
  | _,.packAux .. => ()
  | _,.ioctl .. => true
  | _,.eventId _ => some 1
  | _,.read .. => some (statusOf running)
  | _,.contents _ => []
  | _,.clock => 0
  | _,.closeDescriptor _ => ()
  | _,.closeMapping _ => ()

private def oneSource : PerfMultimodalCapture where
  sources := [{ tid := 7, ptFd := some 4, pebsFd := some 5 }]
  running := true

private theorem statusOf_complete : CompleteStatus (some (statusOf 100)) :=
  ⟨statusOf 100,rfl,rfl,by decide,by decide⟩

/-- A source whose PEBS event ran throughout is disarmed. -/
theorem stop_disarms_iff_scheduled :
    CompleteStatus (some (statusOf 100)) ∧
      ∃ trail, (((stop 4096 ⟨7,[.intelPt,.memoryLoads],1,1⟩).run.run oneSource).run
        (granting 100) []).2 = [] ++ trail ∧
      Disarmed oneSource (((stop 4096 ⟨7,[.intelPt,.memoryLoads],1,1⟩).run.run oneSource).run
        (granting 100) []).1.2 trail :=
  ⟨statusOf_complete,(stop_disarms_iff 4096 _ (granting 100) (fun _ => some (statusOf 100))
    (fun _ _ _ => rfl) (fun _ _ => rfl) [] oneSource rfl rfl).mpr
      fun _ _ _ _ => statusOf_complete⟩

private def tracedLoads : HardwareMultimodalConfig := ⟨7,[.intelPt,.memoryLoads],1,1⟩

private def enterStop : Program Call Call.Answer
    (Except HardwareError (Except HardwareError (List HardwareMultimodalBatch)) ×
      PerfMultimodalCapture) :=
  (enter 4096 tracedLoads >>= fun _ => Method.attempt (stop 4096 tracedLoads)).run.run {}

/-- The PEBS event was multiplexed: the PT event of the source is never disabled, and the capture
stays marked as running. -/
theorem stop_leaves_armed :
    (enterStop.run (granting 90) []).1.2.running = true ∧
      (enterStop.run (granting 90) []).1.2.stopped = true ∧
      (enterStop.run (granting 90) []).1.2.sources.map (·.ptFd) = [some 4] ∧
      ∀ entry ∈ (enterStop.run (granting 90) []).2, entry.1 ≠ .ioctl 4 .disable 0 := by
  refine ⟨?_,?_,?_,?_⟩
  · rfl
  · rfl
  · rfl
  · decide

end PerfMultimodalCapture

end Cpu2Tensor.Hardware
