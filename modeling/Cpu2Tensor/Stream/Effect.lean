import Cpu2Tensor.Stream.Accept

/-!
# What an accepted frame does

One equivalence for each stage of `accept`.  A frame of a source changes the lane of that source
and two counters of the trace; a mixed frame does what its runs do as separate frames.
-/

namespace Cpu2Tensor
open Library

@[simp] theorem setLane_lanes (s : Stream) (source : Nat) (lane : Lane) :
    (s.setLane source lane).lanes = Function.update s.lanes source lane := rfl

variable {bytes : Option Bytes} {features : UInt64} {frame : Frame} {frames : List Frame}
  {h : Header} {lane lane' : Lane} {s t : Stream}

@[simp] theorem checkHeader_eq_ok {b : Unit} :
    checkHeader h s = .ok b t ↔ headerFault h = none ∧ s = t := by
  unfold checkHeader
  rw [decodeHeader_encodeHeader]
  cases headerFault h <;> simp

def Stream.opened (s : Stream) (h : Header) : Stream :=
  if h.kind = .terminalReport then { s with version := h.version.toNat, finished := true }
  else { s with started := true, version := h.version.toNat, features := h.detail }

theorem acceptHeader_eq_ok {more : Bool} :
    acceptHeader h s = .ok more t ↔
      headerFault h = none ∧ s.finished = false ∧
      ((s.started = false ∧ (h.kind = .terminalReport ∨ h.kind = .hello) ∧ more = false ∧
          t = s.opened h) ∨
        (s.started = true ∧ h.version.toNat = s.version ∧ h.kind ≠ .hello ∧ more = true ∧
          s = t)) := by
  by_cases hs : s.started = false
  · by_cases hk : h.kind = .terminalReport <;>
      simp [acceptHeader,Stream.opened,hs,hk,@eq_comm _ false more] <;> grind
  · simp [acceptHeader,hs,@eq_comm _ true more]
    grind

/-- The kinds `accept` counts in the sequence of their source. -/
def Kind.isSource : Kind → Bool
  | .registerSchema | .blocks | .registers | .memory | .addressContext | .inputRequest
  | .sourceEnd => true
  | _ => false

def filteredRows (features : UInt64) (h : Header) : Nat :=
  if h.kind = .memory ∧ Has features featureContextFilter then h.count.toNat else 0

/-- The state after a frame of a source whose checks left the lane as `lane`. -/
def Stream.counted (s : Stream) (h : Header) (lane : Lane) : Stream :=
  { s.setLane h.source.toNat (if h.kind = .registerSchema then lane else lane.commit h) with
    sourceDataSeen := s.sourceDataSeen || decide (h.kind ≠ .registerSchema)
    contextFilterMemoryRows := s.contextFilterMemoryRows + filteredRows s.features h }

private theorem countFiltered_eq_ok {b : Unit} :
    whenever (h.kind = .memory ∧ Has features featureContextFilter) (countFilteredRows h) s =
        .ok b t ↔
      (h.kind = .memory → Has features featureContextFilter →
        s.contextFilterMemoryRows ≤ uint64Max - h.count.toNat) ∧
      t = { s with
        contextFilterMemoryRows := s.contextFilterMemoryRows + filteredRows features h } := by
  by_cases hf : h.kind = .memory ∧ Has features featureContextFilter
  · simp [countFilteredRows,filteredRows,hf]
  · simp only [whenever_eq_ok,hf,filteredRows,if_false,Nat.add_zero,false_implies,true_and,
      not_false_eq_true,true_implies]
    exact ⟨fun ht => ⟨fun hm hc => absurd ⟨hm,hc⟩ hf,ht.symm⟩,fun ht => ht.2.symm⟩

theorem acceptSource_eq_ok :
    acceptSource h bytes s = .ok () t ↔
      ∃ lane, Lane.checkFrame s.features h bytes (s.lanes h.source.toNat) = .ok () lane ∧
        (h.kind = .memory → Has s.features featureContextFilter →
          s.contextFilterMemoryRows ≤ uint64Max - h.count.toNat) ∧
        t = s.counted h lane := by
  have hcommit (r : Stream) : (whenever (h.kind ≠ .registerSchema) (modify (Stream.commit h)) :
      StreamM Unit) r = .ok () t ↔
        t = if h.kind = .registerSchema then r else r.commit h := by
    by_cases hk : h.kind = .registerSchema <;> simp [hk,@eq_comm _ t]
  simp only [acceptSource,bind_eq_ok,exists_unit,get_eq_ok,onLane_eq_ok,hcommit]
  constructor
  · rintro ⟨_,_,⟨rfl,rfl⟩,_,⟨lane,hc,rfl⟩,_,hf,rfl⟩
    obtain ⟨hb,rfl⟩ := countFiltered_eq_ok.mp hf
    refine ⟨lane,hc,hb,?_⟩
    by_cases hk : h.kind = .registerSchema <;> simp [Stream.counted,Stream.commit,Stream.setLane,hk]
  · rintro ⟨lane,hc,hb,rfl⟩
    refine ⟨s,s,⟨rfl,rfl⟩,_,⟨lane,hc,rfl⟩,_,countFiltered_eq_ok.mpr ⟨hb,rfl⟩,?_⟩
    by_cases hk : h.kind = .registerSchema <;> simp [Stream.counted,Stream.commit,Stream.setLane,hk]

/-- Only schemas and errors may come before a promised executable layout. -/
def Stream.layoutReady (s : Stream) (h : Header) : Prop :=
  Has s.features featureExecutableLayout → s.layoutSeen = false →
    h.kind = .registerSchema ∨ h.kind = .error

theorem acceptKind_eq_ok :
    acceptKind h bytes s = .ok () t ↔
      (h.kind = .executableLayout ∧ acceptLayout bytes s = .ok () t) ∨
      (h.kind ≠ .executableLayout ∧ s.layoutReady h ∧ acceptBody h bytes s = .ok () t) := by
  by_cases hk : h.kind = .executableLayout
  · simp [acceptKind,hk]
  · simp only [acceptKind,hk,if_false,bind_eq_ok,exists_unit,get_eq_ok,refuse_eq_ok,
      Stream.layoutReady,false_and,false_or,ne_eq,not_false_eq_true,true_and]
    constructor
    · rintro ⟨_,_,⟨rfl,rfl⟩,_,⟨hl,rfl⟩,hb⟩
      exact ⟨by tauto,hb⟩
    · rintro ⟨hl,hb⟩
      exact ⟨s,s,⟨rfl,rfl⟩,s,⟨by tauto,rfl⟩,hb⟩

theorem acceptBody_source (hk : h.kind.isSource = true) (bytes : Option Bytes) :
    acceptBody h bytes = acceptSource h bytes := by
  unfold acceptBody
  cases hkind : h.kind <;> simp [Kind.isSource,hkind] at hk ⊢

theorem acceptRun_eq_ok :
    acceptRun h bytes s = .ok () t ↔
      headerFault h = none ∧ s.finished = false ∧
      ((s.started = false ∧ (h.kind = .terminalReport ∨ h.kind = .hello) ∧ t = s.opened h) ∨
        (s.started = true ∧ h.version.toNat = s.version ∧ h.kind ≠ .hello ∧
          acceptKind h bytes s = .ok () t)) := by
  simp only [acceptRun,bind_eq_ok,acceptHeader_eq_ok,ite_eq_ok,pure_eq_ok]
  constructor
  · rintro ⟨_,_,⟨hf,hn,hs | hs⟩,ht⟩
    · obtain ⟨hs,hk,rfl,rfl⟩ := hs
      exact ⟨hf,hn,.inl ⟨hs,hk,by simpa [@eq_comm _ t] using ht⟩⟩
    · obtain ⟨hs,hv,hk,rfl,rfl⟩ := hs
      exact ⟨hf,hn,.inr ⟨hs,hv,hk,by simpa using ht⟩⟩
  · rintro ⟨hf,hn,⟨hs,hk,rfl⟩ | ⟨hs,hv,hk,ht⟩⟩
    · exact ⟨false,_,⟨hf,hn,.inl ⟨hs,hk,rfl,rfl⟩⟩,.inr ⟨by simp,trivial,rfl⟩⟩
    · exact ⟨true,s,⟨hf,hn,.inr ⟨hs,hv,hk,rfl,rfl⟩⟩,.inl ⟨rfl,ht⟩⟩

@[simp] theorem acceptAll_nil : acceptAll [] s = .ok () t ↔ s = t := by
  simp [acceptAll]

@[simp] theorem acceptAll_cons :
    acceptAll (frame::frames) s = .ok () t ↔
      ∃ r, acceptFrame frame s = .ok () r ∧ acceptAll frames r = .ok () t := by
  simp [acceptAll]

theorem acceptAll_append {frames' : List Frame} :
    acceptAll (frames ++ frames') s = .ok () t ↔
      ∃ r, acceptAll frames s = .ok () r ∧ acceptAll frames' r = .ok () t := by
  induction frames generalizing s with
  | nil => simp
  | cons frame frames ih =>
    simp only [List.cons_append,acceptAll_cons,ih]
    exact ⟨fun ⟨r,hr,q,hq,ht⟩ => ⟨q,⟨r,hr,hq⟩,ht⟩,fun ⟨q,⟨r,hr,hq⟩,ht⟩ => ⟨r,hr,q,hq,ht⟩⟩

/-- What every frame adds to a ledger of the accepted frames, a run of them adds. -/
theorem acceptAll_ledger {Ledger : List Frame → Stream → Prop} {past : List Frame}
    (hstep : ∀ frame ∈ frames, ∀ past s t, Ledger past s → acceptFrame frame s = .ok () t →
      Ledger (past ++ [frame]) t)
    (hl : Ledger past s) (hr : acceptAll frames s = .ok () t) : Ledger (past ++ frames) t := by
  induction frames generalizing past s with
  | nil =>
    obtain rfl := acceptAll_nil.mp hr
    rwa [List.append_nil]
  | cons frame frames ih =>
    obtain ⟨r,hhead,htail⟩ := acceptAll_cons.mp hr
    obtain ⟨hfirst,hrest⟩ := List.forall_mem_cons.mp hstep
    have hrun := ih hrest (hfirst past s r hl hhead) htail
    rwa [List.append_assoc] at hrun

theorem acceptFrame_of_ne_mixed {frame : Frame} (hk : frame.header.kind ≠ .mixed) :
    acceptFrame frame = acceptRun frame.header frame.payload := by
  unfold acceptFrame accept acceptRun
  simp [hk]

def Kind.isData : Kind → Bool
  | .blocks | .registers | .memory | .addressContext => true
  | _ => false

theorem Kind.isSource_of_isData {kind : Kind} (hk : kind.isData = true) : kind.isSource = true := by
  cases kind <;> simp_all [Kind.isData,Kind.isSource]

private theorem mixedRuns_eq_ok {bytes : Bytes} (fuel offset count : Nat)
    (hr : mixedRuns h bytes fuel offset count s = .ok () t) :
    acceptAll (mixedFrames h bytes fuel offset count) s = .ok () t ∧
      ∀ frame ∈ mixedFrames h bytes fuel offset count,
        frame.header.kind.isData = true ∧ frame.header.source = h.source := by
  induction fuel generalizing offset count s with
  | zero => simp [mixedRuns] at hr
  | succ fuel ih =>
    by_cases ho : offset < h.detail.toNat
    · cases hkind : Kind.ofCode (load (bytes.drop offset) 2) with
      | none => simp [mixedRuns,ho,hkind] at hr
      | some kind =>
        simp only [mixedRuns,ho,hkind,if_true,bind_eq_ok,exists_unit,refuse_eq_ok] at hr
        obtain ⟨_,⟨_,rfl⟩,_,⟨hrun,rfl⟩,_,⟨_,rfl⟩,r,hhead,htail⟩ := hr
        obtain ⟨hall,hdata⟩ := ih _ _ htail
        have hd : kind.isData = true := by
          cases kind <;> simp_all [Kind.isData]
        have hne : kind ≠ .mixed := by
          rintro rfl
          cases hd
        simp only [mixedFrames,ho,hkind,if_true,acceptAll_cons,List.forall_mem_cons]
        refine ⟨⟨r,?_,hall⟩,⟨hd,rfl⟩,hdata⟩
        rw [acceptFrame_of_ne_mixed (by exact hne)]
        exact hhead
    · simp only [mixedRuns,ho,if_false,refuse_eq_ok] at hr
      simp [mixedFrames,ho,hr.2]

theorem acceptFrame_mixed_eq_ok {frame : Frame} {s t : Stream} (hk : frame.header.kind = .mixed) :
    acceptFrame frame s = .ok () t ↔
      headerFault frame.header = none ∧ s.finished = false ∧ s.started = true ∧
      frame.header.version.toNat = s.version ∧ Has s.features featureMixed ∧
      frame.payload ≠ none ∧
      mixedRuns frame.header (frame.payload.getD []) (frame.header.detail.toNat+1) 0 0 s =
        .ok () t := by
  have hbody : acceptMixed frame.header frame.payload s = .ok () t ↔
      Has s.features featureMixed ∧ frame.payload ≠ none ∧
      mixedRuns frame.header (frame.payload.getD []) (frame.header.detail.toNat+1) 0 0 s =
        .ok () t := by
    simp [acceptMixed,and_assoc]
  rw [← hbody]
  simp only [acceptFrame,accept,bind_eq_ok,acceptHeader_eq_ok,hk,if_true]
  constructor
  · rintro ⟨_,_,⟨hf,hn,hs | hs⟩,ht⟩
    · simp at hs
    · obtain ⟨hs,hv,-,rfl,rfl⟩ := hs
      exact ⟨hf,hn,hs,hv,ht⟩
  · rintro ⟨hf,hn,hs,hv,ht⟩
    exact ⟨true,s,⟨hf,hn,.inr ⟨hs,hv,by simp,rfl,rfl⟩⟩,ht⟩

theorem acceptFrame_mixed (hk : frame.header.kind = .mixed) (hr : acceptFrame frame s = .ok () t) :
    s.started = true ∧ acceptAll frame.runs s = .ok () t ∧
      ∀ run ∈ frame.runs, run.header.kind.isData = true ∧
        run.header.source = frame.header.source := by
  obtain ⟨_,_,hs,_,_,_,hr⟩ := (acceptFrame_mixed_eq_ok hk).mp hr
  unfold Frame.runs
  rw [if_pos hk]
  exact ⟨hs,mixedRuns_eq_ok _ _ _ hr⟩

theorem acceptAll_runs (hr : acceptAll frames s = .ok () t) :
    acceptAll (frames.flatMap Frame.runs) s = .ok () t ∧
      ∀ run ∈ frames.flatMap Frame.runs, run.header.kind ≠ .mixed ∧
        (run.header.kind.isData = true ∨ run ∈ frames) := by
  induction frames generalizing s with
  | nil => exact ⟨hr,by simp⟩
  | cons frame frames ih =>
    obtain ⟨r,hhead,htail⟩ := acceptAll_cons.mp hr
    obtain ⟨hall,hruns⟩ := ih htail
    rw [List.flatMap_cons,acceptAll_append]
    by_cases hk : frame.header.kind = .mixed
    · obtain ⟨_,hparts,hdata⟩ := acceptFrame_mixed hk hhead
      refine ⟨⟨r,hparts,hall⟩,fun run hrun => ?_⟩
      rcases List.mem_append.mp hrun with hrun | hrun
      · obtain ⟨hd,_⟩ := hdata run hrun
        exact ⟨fun heq => by simp [heq,Kind.isData] at hd,.inl hd⟩
      · exact ⟨(hruns run hrun).1,(hruns run hrun).2.imp_right (List.mem_cons_of_mem _)⟩
    · have hself : frame.runs = [frame] := by simp [Frame.runs,hk]
      rw [hself]
      refine ⟨⟨r,acceptAll_cons.mpr ⟨r,hhead,acceptAll_nil.mpr rfl⟩,hall⟩,fun run hrun => ?_⟩
      rcases List.mem_cons.mp hrun with rfl | hrun
      · exact ⟨hk,.inr (by simp)⟩
      · exact ⟨(hruns run hrun).1,(hruns run hrun).2.imp_right (List.mem_cons_of_mem _)⟩

theorem acceptFrame_header (hr : acceptFrame frame s = .ok () t) :
    headerFault frame.header = none := by
  by_cases hk : frame.header.kind = .mixed
  · exact ((acceptFrame_mixed_eq_ok hk).mp hr).1
  · rw [acceptFrame_of_ne_mixed hk] at hr
    exact (acceptRun_eq_ok.mp hr).1

theorem acceptAll_header (hr : acceptAll frames s = .ok () t) :
    ∀ frame ∈ frames, headerFault frame.header = none := by
  induction frames generalizing s with
  | nil => simp
  | cons frame frames ih =>
    obtain ⟨r,hhead,htail⟩ := acceptAll_cons.mp hr
    exact List.forall_mem_cons.mpr ⟨acceptFrame_header hhead,ih htail⟩

theorem acceptFrame_unfinished (hr : acceptFrame frame s = .ok () t) : s.finished = false := by
  by_cases hk : frame.header.kind = .mixed
  · exact ((acceptFrame_mixed_eq_ok hk).mp hr).2.1
  · rw [acceptFrame_of_ne_mixed hk] at hr
    exact (acceptRun_eq_ok.mp hr).2.1

theorem acceptFrame_source {frame : Frame} {s t : Stream}
    (hk : frame.header.kind.isSource = true) (hr : acceptFrame frame s = .ok () t) :
    headerFault frame.header = none ∧ s.started = true ∧
      ∃ lane, Lane.checkFrame s.features frame.header frame.payload
        (s.lanes frame.header.source.toNat) = .ok () lane ∧ t = s.counted frame.header lane := by
  have hkinds : frame.header.kind ≠ .mixed ∧ frame.header.kind ≠ .executableLayout ∧
      frame.header.kind ≠ .terminalReport ∧ frame.header.kind ≠ .hello := by
    cases hkind : frame.header.kind <;> simp [hkind,Kind.isSource] at hk ⊢
  obtain ⟨hmixed,hlayout,hreport,hhello⟩ := hkinds
  rw [acceptFrame_of_ne_mixed hmixed] at hr
  obtain ⟨hf,_,⟨_,hopen,_⟩ | ⟨hstarted,_,_,hr⟩⟩ := acceptRun_eq_ok.mp hr
  · exact absurd hopen (by simp [hreport,hhello])
  · obtain ⟨hkind,_⟩ | ⟨_,_,hr⟩ := acceptKind_eq_ok.mp hr
    · exact absurd hkind hlayout
    · rw [acceptBody_source hk] at hr
      obtain ⟨lane,hcheck,_,ht⟩ := acceptSource_eq_ok.mp hr
      exact ⟨hf,hstarted,lane,hcheck,ht⟩

def Lane.withoutSignals (lane : Lane) : Lane :=
  { lane with
    registers := none
    baselineComplete := false
    hasContext := false
    contextSequence := 0 }

private theorem addressContext_withoutSignals {bytes : Bytes}
    (hr : Lane.addressContext features h bytes lane = .ok () lane') :
    lane'.withoutSignals = lane.withoutSignals := by
  simp only [Lane.addressContext,bind_eq_ok,exists_unit,refuse_eq_ok,modify_eq_ok] at hr
  obtain ⟨_,⟨_,rfl⟩,_,⟨_,rfl⟩,rfl⟩ := hr
  rfl

/-- The baseline check changes its own flag at most. -/
theorem baseline_flag (hr : Lane.baseline features h lane = .ok () lane') :
    ∃ baselineComplete, lane' = { lane with baselineComplete } := by
  simp only [Lane.baseline,bind_eq_ok,get_eq_ok] at hr
  obtain ⟨_,_,⟨rfl,rfl⟩,hr⟩ := hr
  split at hr
  · cases hregisters : lane.registers with
    | none => simp [hregisters] at hr
    | some registers =>
      simp only [hregisters,bind_eq_ok,exists_unit,refuse_eq_ok,set_eq_ok] at hr
      obtain ⟨_,_,rfl⟩ := hr
      exact ⟨true,rfl⟩
  · obtain ⟨_,rfl⟩ := pure_eq_ok.mp hr
    exact ⟨_,rfl⟩

private theorem baseline_withoutSignals (hr : Lane.baseline features h lane = .ok () lane') :
    lane'.withoutSignals = lane.withoutSignals := by
  obtain ⟨_,rfl⟩ := baseline_flag hr
  rfl

private theorem registerSamples_withoutSignals {bytes : Bytes}
    (hr : Lane.registerSamples features h bytes lane = .ok () lane') :
    lane'.withoutSignals = lane.withoutSignals := by
  simp only [Lane.registerSamples,bind_eq_ok,get_eq_ok] at hr
  obtain ⟨_,_,⟨rfl,rfl⟩,hr⟩ := hr
  cases hregisters : lane.registers with
  | none => simp [hregisters] at hr
  | some registers =>
    simp only [hregisters,bind_eq_ok,exists_unit,refuse_eq_ok,onRegisters_eq_ok] at hr
    obtain ⟨_,⟨_,rfl⟩,_,_,⟨_,_,rfl⟩,_,rfl⟩ := hr
    rfl

theorem memoryRows_eq_ok {bytes : Bytes} :
    Lane.memoryRows features h bytes lane = .ok () lane' ↔
      Has features featureMemory ∧ h.detail.toNat = h.count.toNat*memoryStride features ∧
      (∀ row < h.count.toNat,
        memoryRowFault features lane (bytes.drop (row*memoryStride features)) = none) ∧
      lane = lane' := by
  simp [Lane.memoryRows,and_assoc]

/-- The checks of an event read the sequence of its lane and change only the signal state. -/
theorem checkEvent_withoutSignals {bytes : Bytes}
    (hr : Lane.checkEvent features h bytes lane = .ok () lane') :
    h.sequence.toNat = lane.next ∧ h.count.toNat ≤ uint64Max - h.sequence.toNat ∧
      lane'.withoutSignals = lane.withoutSignals := by
  simp only [Lane.checkEvent,bind_eq_ok,exists_unit,get_eq_ok,refuse_eq_ok,whenever_eq_ok] at hr
  obtain ⟨_,_,⟨rfl,rfl⟩,_,⟨hseq,rfl⟩,_,⟨hcount,rfl⟩,l₁,⟨hctx,hctx'⟩,_,_,⟨rfl,rfl⟩,_,⟨_,rfl⟩,
    l₂,hbase,l₃,⟨hreg,hreg'⟩,hmem,hmem'⟩ := hr
  refine ⟨not_not.mp hseq,not_lt.mp hcount,?_⟩
  have h₁ : l₁.withoutSignals = lane.withoutSignals := by
    by_cases hk : h.kind = .addressContext
    · exact addressContext_withoutSignals (hctx hk)
    · rw [← hctx' hk]
  have h₂ := baseline_withoutSignals hbase
  have h₃ : l₃.withoutSignals = l₂.withoutSignals := by
    by_cases hk : h.kind = .registers
    · obtain ⟨_,⟨_,rfl⟩,hs⟩ := hreg hk
      exact registerSamples_withoutSignals hs
    · rw [← hreg' hk]
  have h₄ : l₃ = lane' := by
    by_cases hk : h.kind = .memory
    · exact (memoryRows_eq_ok.mp (hmem hk)).2.2.2
    · exact hmem' hk
  rw [← h₄,h₃,h₂,h₁]

theorem checkSource_eq_ok :
    Lane.checkSource features h bytes lane = .ok () lane' ↔
      (Has features featureStdio → h.source.toNat = 0) ∧
      (h.kind = .inputRequest → Has features featureStdio) ∧
      (Has features featureObservationReduction → h.kind ≠ .blocks ∧ h.kind ≠ .addressContext) ∧
      lane.ended = false ∧
      (Has features featureObservationReduction → h.kind = .sourceEnd →
        lane.observationSummary = true) ∧
      (h.kind = .registerSchema ∨ h.kind = .registers ∨ h.kind = .memory ∨
        h.kind = .addressContext → bytes ≠ none) ∧
      lane = lane' := by
  simp [Lane.checkSource]
  grind

theorem checkFrame_eq_ok :
    Lane.checkFrame features h bytes lane = .ok () lane' ↔
      Lane.checkSource features h bytes lane = .ok () lane ∧
      ((h.kind = .registerSchema ∧ ∃ lane₁, Lane.schema features h (bytes.getD []) lane =
          .ok () lane₁ ∧ lane' = { lane₁ with seen := true }) ∨
        (h.kind ≠ .registerSchema ∧
          Lane.checkEvent features h (bytes.getD []) lane = .ok () lane')) := by
  simp only [Lane.checkFrame,bind_eq_ok,exists_unit,ite_eq_ok,modify_eq_ok]
  constructor
  · rintro ⟨lane₁,hs,hr⟩
    obtain rfl : lane = lane₁ := (checkSource_eq_ok.mp hs).2.2.2.2.2.2
    exact ⟨hs,hr⟩
  · rintro ⟨hs,hr⟩
    exact ⟨lane,hs,hr⟩

theorem checkFrame_lane (hr : Lane.checkFrame features h bytes lane = .ok () lane') :
    lane.ended = false ∧ lane'.ended = false ∧ lane'.next = lane.next ∧
      (h.kind = .registerSchema → lane'.seen = true) ∧
      (h.kind ≠ .registerSchema → h.sequence.toNat = lane.next) := by
  obtain ⟨hs,⟨hk,lane₁,hschema,rfl⟩ | ⟨hk,hevent⟩⟩ := checkFrame_eq_ok.mp hr
  · have hended := (checkSource_eq_ok.mp hs).2.2.2.1
    simp only [Lane.schema,bind_eq_ok,exists_unit,get_eq_ok,refuse_eq_ok,
      onRegisters_eq_ok] at hschema
    obtain ⟨_,_,⟨rfl,rfl⟩,_,⟨_,rfl⟩,_,_,rfl⟩ := hschema
    exact ⟨hended,hended,rfl,fun _ => rfl,fun hne => absurd hk hne⟩
  · have hended := (checkSource_eq_ok.mp hs).2.2.2.1
    obtain ⟨hseq,_,hkeep⟩ := checkEvent_withoutSignals hevent
    have hnext : lane'.next = lane.next := by simpa [Lane.withoutSignals] using congrArg Lane.next hkeep
    have hended' : lane'.ended = lane.ended := by simpa [Lane.withoutSignals] using congrArg Lane.ended hkeep
    exact ⟨hended,hended'.trans hended,hnext,fun heq => absurd heq hk,fun _ => hseq⟩

end Cpu2Tensor
