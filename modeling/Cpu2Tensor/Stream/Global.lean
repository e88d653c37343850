import Cpu2Tensor.Stream.Effect

/-!
# Frames of the whole trace

What the frames that are not events of one source establish and change: transition rows and
windows, reduced observations, the adapter frames and the end of the trace.
-/

namespace Cpu2Tensor
open Library

variable {bytes : Option Bytes} {frame : Frame} {frames : List Frame} {h : Header} {s t : Stream}
  {source : Nat}

theorem growTransitionKeys_eq_ok {capacity : Nat} :
    growTransitionKeys capacity s = .ok () t ↔
      ∃ keys, s.rehash capacity = some keys ∧
        t = { s with windowKeys := keys, windowKeyCapacity := capacity } := by
  simp only [growTransitionKeys,bind_eq_ok,get_eq_ok]
  cases hk : s.rehash capacity <;> simp [hk]

theorem insertKey_eq_ok {key : TransitionKey} :
    (match s.findKey key with
      | .vacant slot => set { s with windowKeys := Function.update s.windowKeys slot key }
      | .found _ => throw (.failure "Duplicate block transition row")
      | .exhausted => throw .divergence : StreamM Unit) s = .ok () t ↔
      ∃ slot, s.findKey key = .vacant slot ∧
        t = { s with windowKeys := Function.update s.windowKeys slot key } := by
  cases hk : s.findKey key <;> simp

variable {destination fromAddress : Nat} {features : UInt64} {lane lane' : Lane}
  {observation : Bool}

theorem rememberTransition_eq_ok :
    rememberTransition source fromAddress destination s = .ok () t ↔
      s.windowDistinct < maxTransitionSlots ∧ ∃ r,
        ((s.windowKeyCapacity = 0 ∨ (s.windowDistinct+1)*2 > s.windowKeyCapacity) →
          growTransitionKeys (if s.windowKeyCapacity = 0 then 512 else s.windowKeyCapacity*2) s =
            .ok () r) ∧
        (¬(s.windowKeyCapacity = 0 ∨ (s.windowDistinct+1)*2 > s.windowKeyCapacity) → s = r) ∧
        ∃ slot, r.findKey ⟨r.nextWindow,fromAddress,destination,source⟩ = .vacant slot ∧
          t = { r with windowKeys :=
            Function.update r.windowKeys slot ⟨r.nextWindow,fromAddress,destination,source⟩ } := by
  simp only [rememberTransition,bind_eq_ok,exists_unit,get_eq_ok,refuse_eq_ok,whenever_eq_ok]
  constructor
  · rintro ⟨_,_,⟨rfl,rfl⟩,_,⟨hd,rfl⟩,r,⟨hgrow,hsame⟩,_,_,⟨rfl,rfl⟩,hr⟩
    exact ⟨not_le.mp hd,r,hgrow,hsame,insertKey_eq_ok.mp hr⟩
  · rintro ⟨hd,r,hgrow,hsame,hr⟩
    exact ⟨s,s,⟨rfl,rfl⟩,s,⟨not_le.mpr hd,rfl⟩,r,⟨hgrow,hsame⟩,r,r,⟨rfl,rfl⟩,insertKey_eq_ok.mpr hr⟩

theorem rememberTransition_keys
    (hr : rememberTransition source fromAddress destination s = .ok () t) :
    ∃ keys capacity, t = { s with windowKeys := keys, windowKeyCapacity := capacity } := by
  obtain ⟨_,r,hgrow,hsame,slot,_,rfl⟩ := rememberTransition_eq_ok.mp hr
  by_cases hg : s.windowKeyCapacity = 0 ∨ (s.windowDistinct+1)*2 > s.windowKeyCapacity
  · obtain ⟨keys,_,rfl⟩ := growTransitionKeys_eq_ok.mp (hgrow hg)
    exact ⟨_,_,rfl⟩
  · obtain rfl := hsame hg
    exact ⟨_,_,rfl⟩

def countSum (rows : List TransitionRow) : Nat := (rows.map (·.count)).sum

@[simp] theorem countSum_nil : countSum [] = 0 := rfl

@[simp] theorem countSum_cons (row : TransitionRow) (rows : List TransitionRow) :
    countSum (row::rows) = row.count + countSum rows := by
  simp [countSum]

@[simp] theorem countSum_append (rows rows' : List TransitionRow) :
    countSum (rows ++ rows') = countSum rows + countSum rows' := by
  simp [countSum]

def Lane.addTransitions (lane : Lane) (total : Nat) : Lane :=
  { lane with observationTransitionCounts := lane.observationTransitionCounts + total }

/-- The counters after the rows of one frame, with the key table of the last row. -/
def Stream.addRows (s : Stream) (source : Nat) (observation : Bool) (rows : List TransitionRow)
    (keys : Nat → TransitionKey) (capacity : Nat) : Stream :=
  { s with
    windowObserved := s.windowObserved + countSum rows
    windowDistinct := s.windowDistinct + rows.length
    lanes := if observation then
        Function.update s.lanes source ((s.lanes source).addTransitions (countSum rows))
      else s.lanes
    windowKeys := keys
    windowKeyCapacity := capacity }

theorem transitionRow_eq_ok {row : TransitionRow} :
    transitionRow source observation row s = .ok () t ↔
      ∃ r, rememberTransition source row.fromAddress row.destination s = .ok () r ∧
        row.count ≠ 0 ∧ r.windowObserved ≤ uint64Max - row.count ∧
        (observation = true →
          (r.lanes source).observationTransitionCounts ≤ uint64Max - row.count) ∧
        t = r.addRows source observation [row] r.windowKeys r.windowKeyCapacity := by
  cases observation <;>
    simp [transitionRow,Stream.addRows,Lane.addTransitions,Stream.setLane,and_assoc]

theorem loadTransitionRows_count (bytes : Bytes) (rows row : Nat) :
    ∀ item ∈ loadTransitionRows bytes rows row, item.count ≤ uint64Max := by
  induction rows generalizing row with
  | zero => simp [loadTransitionRows]
  | succ rows ih =>
    simp only [loadTransitionRows,List.forall_mem_cons]
    refine ⟨?_,ih _⟩
    have := load_lt ((bytes.drop (row*transitionCountBytes)).drop 16) 8
    simp only [loadTransitionRow,uint64Max]
    omega

@[simp] theorem loadTransitionRows_length (bytes : Bytes) (rows row : Nat) :
    (loadTransitionRows bytes rows row).length = rows := by
  induction rows generalizing row with
  | zero => rfl
  | succ rows ih => simp [loadTransitionRows,ih]

theorem transitionRows_added {rows : List TransitionRow}
    (hwide : ∀ row ∈ rows, row.count ≤ uint64Max)
    (hr : transitionRows source observation rows s = .ok () t) :
    (∀ row ∈ rows, row.count ≠ 0) ∧
      (s.windowObserved ≤ uint64Max → s.windowObserved + countSum rows ≤ uint64Max) ∧
      ∃ keys capacity, t = s.addRows source observation rows keys capacity := by
  induction rows generalizing s with
  | nil =>
    obtain ⟨_,rfl⟩ := pure_eq_ok.mp hr
    refine ⟨by simp,by simp,s.windowKeys,s.windowKeyCapacity,?_⟩
    cases observation <;> simp [Stream.addRows,Lane.addTransitions]
  | cons row rows ih =>
    simp only [transitionRows,bind_eq_ok,exists_unit,transitionRow_eq_ok] at hr
    obtain ⟨_,⟨r,hkeys,hcount,hfit,_,rfl⟩,hr⟩ := hr
    obtain ⟨hwide,hwides⟩ := List.forall_mem_cons.mp hwide
    obtain ⟨hcounts,hle,keys,capacity,rfl⟩ := ih hwides hr
    obtain ⟨keys₁,capacity₁,rfl⟩ := rememberTransition_keys hkeys
    simp only [Stream.addRows,countSum_cons,countSum_nil] at hle hfit ⊢
    refine ⟨by simpa using ⟨hcount,hcounts⟩,fun hs => ?_,keys,capacity,?_⟩
    · have := hle (by omega)
      omega
    · cases observation <;>
        simp [Lane.addTransitions,Nat.add_assoc,Nat.add_comm 1]

theorem acceptBlockTransitions_eq_ok :
    acceptBlockTransitions h bytes s = .ok () t ↔
      (Has s.features featureTransitionWindows ∨ Has s.features featureObservationReduction) ∧
      bytes ≠ none ∧ h.sequence.toNat = s.nextWindow ∧ h.source.toNat < maxSources ∧
      (s.lanes h.source.toNat).ended = false ∧
      (Has s.features featureTransitionWindows → s.windowExpected = true) ∧
      (Has s.features featureObservationReduction →
        (s.lanes h.source.toNat).observationSummary = false) ∧
      ∃ r, transitionRows h.source.toNat (Has s.features featureObservationReduction)
          (loadTransitionRows (bytes.getD []) h.count.toNat 0) s = .ok () r ∧
        r.windowRowsPerSource h.source.toNat ≤ maxTransitionSlots - h.count.toNat ∧
        t = { r with
          windowRowsPerSource := Function.update r.windowRowsPerSource h.source.toNat
            (r.windowRowsPerSource h.source.toNat + h.count.toNat)
          windowMaxSourcePlusOne := if r.windowMaxSourcePlusOne ≤ h.source.toNat then
            h.source.toNat+1 else r.windowMaxSourcePlusOne
          windowRows := true } := by
  simp [acceptBlockTransitions,and_assoc,or_iff_not_imp_left]

def Lane.addContexts (lane : Lane) (rows : List ReducedContextRow) : Lane :=
  { lane with
    observationLastBlock := rows.foldl (fun _ row => row.block) lane.observationLastBlock
    observationHasContext := lane.observationHasContext || !rows.isEmpty }

theorem reducedContextRows_added {rows : List ReducedContextRow}
    (hr : reducedContextRows rows lane = .ok () lane') : lane' = lane.addContexts rows := by
  induction rows generalizing lane with
  | nil =>
    obtain ⟨_,rfl⟩ := pure_eq_ok.mp hr
    simp [Lane.addContexts]
  | cons row rows ih =>
    simp only [reducedContextRows,reducedContextRow,bind_eq_ok,exists_unit,get_eq_ok,refuse_eq_ok,
      set_eq_ok] at hr
    obtain ⟨_,⟨_,_,⟨rfl,rfl⟩,_,_,rfl⟩,hr⟩ := hr
    rw [ih hr]
    simp [Lane.addContexts]

theorem acceptReducedContext_eq_ok :
    acceptReducedContext h bytes s = .ok () t ↔
      Has s.features featureObservationReduction ∧ bytes ≠ none ∧
      (s.lanes h.source.toNat).ended = false ∧
      (s.lanes h.source.toNat).observationSummary = false ∧
      h.sequence.toNat = (s.lanes h.source.toNat).next ∧
      h.count.toNat ≤ uint64Max - h.sequence.toNat ∧
      ∃ lane, reducedContextRows (loadReducedContextRows (bytes.getD []) h.count.toNat 0)
          (s.lanes h.source.toNat) = .ok () lane ∧
        lane.observationContextRows ≤ maxTransitionSlots - h.count.toNat ∧
        t = { s.setLane h.source.toNat { lane with
            observationContextRows := lane.observationContextRows + h.count.toNat
            next := lane.next + h.count.toNat
            seen := true
            data := true } with sourceDataSeen := true } := by
  simp only [acceptReducedContext,Lane.reducedContexts,bind_eq_ok,exists_unit,get_eq_ok,
    onLane_eq_ok,refuse_eq_ok,set_eq_ok,modify_eq_ok,not_or,not_not,not_lt,gt_iff_lt,ne_eq,
    Bool.not_eq_true]
  constructor
  · rintro ⟨_,_,⟨rfl,rfl⟩,_,⟨_,⟨_,_,⟨rfl,rfl⟩,_,⟨⟨h₁,h₂,h₃,h₄,h₅,h₆⟩,rfl⟩,lane,hrows,_,_,⟨rfl,rfl⟩,_,
      ⟨hfit,rfl⟩,rfl⟩,rfl⟩,rfl⟩
    exact ⟨h₁,h₂,h₃,h₄,h₅,h₆,lane,hrows,hfit,rfl⟩
  · rintro ⟨h₁,h₂,h₃,h₄,h₅,h₆,lane,hrows,hfit,rfl⟩
    exact ⟨s,s,⟨rfl,rfl⟩,_,⟨_,⟨_,_,⟨rfl,rfl⟩,_,⟨⟨h₁,h₂,h₃,h₄,h₅,h₆⟩,rfl⟩,lane,hrows,_,_,⟨rfl,rfl⟩,_,
      ⟨hfit,rfl⟩,rfl⟩,rfl⟩,rfl⟩

theorem acceptObservationSummary_eq_ok :
    acceptObservationSummary h bytes s = .ok () t ↔
      Has s.features featureObservationReduction ∧ bytes ≠ none ∧
      (s.lanes h.source.toNat).ended = false ∧
      (s.lanes h.source.toNat).observationSummary = false ∧
      ¬SummaryFault s h.source.toNat (loadObservationSummary (bytes.getD [])) ∧
      t = { s.setLane h.source.toNat
            { s.lanes h.source.toNat with observationSummary := true, seen := true } with
        observationSources := if s.observationSources = 0 then
          (loadObservationSummary (bytes.getD [])).sources else s.observationSources
        observationTransitionCapacity := if s.observationSources = 0 then
          (loadObservationSummary (bytes.getD [])).transitionCapacity
          else s.observationTransitionCapacity
        observationContextCapacity := if s.observationSources = 0 then
          (loadObservationSummary (bytes.getD [])).contextCapacity
          else s.observationContextCapacity
        sourceDataSeen := true } := by
  by_cases hs : s.observationSources = 0 <;>
    simp [acceptObservationSummary,and_assoc,hs,Stream.setLane]

theorem acceptLayout_eq_ok :
    acceptLayout bytes s = .ok () t ↔
      Has s.features featureExecutableLayout ∧ s.layoutSeen = false ∧ s.sourceDataSeen = false ∧
      bytes ≠ none ∧ load (bytes.getD []) 8 < load ((bytes.getD []).drop 8) 8 ∧
      t = { s with layoutSeen := true } := by
  simp [acceptLayout,and_assoc]

theorem acceptKernelRequest_eq_ok :
    acceptKernelRequest s = .ok () t ↔
      Has s.features featureKernel ∧
      (Has s.features featureRegisters →
        ∀ source < maxSources, boundaryFault s.features (s.lanes source) = none) ∧
      (Has s.features featureTransitionWindows →
        s.windowExpected = false ∧ t = { s with windowExpected := true }) ∧
      (¬Has s.features featureTransitionWindows → s = t) := by
  by_cases hr : Has s.features featureRegisters <;> simp [acceptKernelRequest,hr,and_assoc]

theorem acceptTransitionWindow_eq_ok :
    acceptTransitionWindow h bytes s = .ok () t ↔
      Has s.features featureTransitionWindows ∧ bytes ≠ none ∧ h.sequence.toNat = s.nextWindow ∧
      s.windowExpected = true ∧ ¬WindowFault s (loadWindowFrame (bytes.getD [])) ∧
      (s.nextWindow+1) % 2^64 ≠ 0 ∧
      t = { s with
        windowSources := if s.windowSources = 0 then (loadWindowFrame (bytes.getD [])).sources
          else s.windowSources
        windowCapacityPerSource :=
          if s.windowSources = 0 then (loadWindowFrame (bytes.getD [])).capacity
          else s.windowCapacityPerSource
        windowExpected := false
        nextWindow := (s.nextWindow+1) % 2^64
        windowDistinct := 0
        windowObserved := 0
        windowRowsPerSource := fun _ => 0
        windowMaxSourcePlusOne := 0
        windowRows := false } := by
  by_cases hs : s.windowSources = 0 <;> simp [acceptTransitionWindow,and_assoc,hs]

theorem acceptContextFilter_eq_ok :
    acceptContextFilter bytes s = .ok () t ↔
      Has s.features featureContextFilter ∧ bytes ≠ none ∧ s.contextFilterSeen = false ∧
      s.allEnded ∧ ¬FilterFault s (bytes.getD []) ∧ t = { s with contextFilterSeen := true } := by
  simp [acceptContextFilter,and_assoc]

theorem acceptComplete_eq_ok :
    acceptComplete s = .ok () t ↔
      (Has s.features featureTransitionWindows →
        s.windowRows = false ∧ s.windowExpected = false) ∧
      (∀ source < s.windowSources, (s.lanes source).ended = true) ∧ s.allEnded ∧
      (Has s.features featureObservationReduction → s.observationSources ≠ 0 ∧
        ∀ source < s.observationSources,
          (s.lanes source).observationSummary = true ∧ (s.lanes source).ended = true) ∧
      (Has s.features featureContextFilter → s.contextFilterSeen = true) ∧
      t = { s with finished := true } := by
  by_cases ho : Has s.features featureObservationReduction <;>
    simp [acceptComplete,and_assoc,ho]

def Kind.isCounter : Kind → Bool
  | .hello | .kernelRequest | .blockTransitions | .transitionWindow | .reducedContext
  | .observationSummary => true
  | _ => false

def Stream.counters (s : Stream) : Stream :=
  { s with
    lanes := fun _ => {}
    version := 0
    finished := false
    layoutSeen := false
    sourceDataSeen := false
    contextFilterSeen := false
    contextFilterMemoryRows := 0 }

/-- How a lane may change under a frame that is not part of a reduction. -/
structure LaneKept (features : UInt64) (lane lane' : Lane) : Prop where
  transitionCounts : lane'.observationTransitionCounts = lane.observationTransitionCounts
  contextRows : lane'.observationContextRows = lane.observationContextRows
  summary : lane'.observationSummary = lane.observationSummary
  ended : lane.ended = true → lane'.ended = true
  summarized : Has features featureObservationReduction → lane'.ended = true →
    lane.ended = true ∨ lane.observationSummary = true
  seen : lane.seen = true → lane'.seen = true

theorem LaneKept.refl (features : UInt64) (lane : Lane) : LaneKept features lane lane :=
  ⟨rfl,rfl,rfl,id,fun _ => .inl,id⟩

theorem LaneKept.trans {a b c : Lane} (hab : LaneKept features a b) (hbc : LaneKept features b c) :
    LaneKept features a c := by
  refine ⟨hbc.transitionCounts.trans hab.transitionCounts,hbc.contextRows.trans hab.contextRows,
    hbc.summary.trans hab.summary,hbc.ended ∘ hab.ended,fun hf hended => ?_,hbc.seen ∘ hab.seen⟩
  rcases hbc.summarized hf hended with hb | hb
  · exact hab.summarized hf hb
  · exact .inr (hab.summary ▸ hb)

private theorem checkFrame_kept (hr : Lane.checkFrame features h bytes lane = .ok () lane') :
    LaneKept features lane (if h.kind = .registerSchema then lane' else lane'.commit h) := by
  obtain ⟨hs,⟨hk,lane₁,hschema,rfl⟩ | ⟨hk,hevent⟩⟩ := checkFrame_eq_ok.mp hr
  · simp only [Lane.schema,bind_eq_ok,exists_unit,get_eq_ok,refuse_eq_ok,
      onRegisters_eq_ok] at hschema
    obtain ⟨_,_,⟨rfl,rfl⟩,_,⟨_,rfl⟩,_,_,rfl⟩ := hschema
    rw [if_pos hk]
    exact ⟨rfl,rfl,rfl,id,fun _ => .inl,fun _ => rfl⟩
  · obtain ⟨_,_,_,_,hsummary,_⟩ := checkSource_eq_ok.mp hs
    have hkeep := (checkEvent_withoutSignals hevent).2.2
    simp only [Lane.withoutSignals,Lane.mk.injEq,true_and] at hkeep
    obtain ⟨_,_,_,hended,hcounts,hrows,_,_,hsum⟩ := hkeep
    rw [if_neg hk]
    refine ⟨hcounts,hrows,hsum,fun he => ?_,fun hf he => ?_,fun _ => rfl⟩
    · simp [Lane.commit,hended,he]
    · simp only [Lane.commit,hended,Bool.or_eq_true,decide_eq_true_eq] at he
      exact he.imp_right (hsummary hf)

private theorem acceptSource_kept (hr : acceptSource h bytes s = .ok () t) :
    t.counters = s.counters ∧ ∀ source, LaneKept s.features (s.lanes source) (t.lanes source) := by
  obtain ⟨lane,hcheck,_,rfl⟩ := acceptSource_eq_ok.mp hr
  refine ⟨rfl,fun source => ?_⟩
  by_cases hsource : source = h.source.toNat
  · subst hsource
    simpa [Stream.counted] using checkFrame_kept hcheck
  · simpa [Stream.counted,hsource] using LaneKept.refl _ _

theorem acceptRun_kept (hk : frame.header.kind.isCounter = false)
    (hm : frame.header.kind ≠ .mixed) (hr : acceptFrame frame s = .ok () t) :
    t.counters = s.counters ∧ ∀ source, LaneKept s.features (s.lanes source) (t.lanes source) := by
  rw [acceptFrame_of_ne_mixed hm] at hr
  obtain ⟨_,_,⟨_,hopen,rfl⟩ | ⟨_,_,hhello,hr⟩⟩ := acceptRun_eq_ok.mp hr
  · rcases hopen with hopen | hopen
    · simp only [Stream.opened,hopen,if_true]
      exact ⟨rfl,fun source => .refl _ _⟩
    · simp [hopen,Kind.isCounter] at hk
  obtain ⟨_,hr⟩ | ⟨hlayout,_,hr⟩ := acceptKind_eq_ok.mp hr
  · obtain ⟨_,_,_,_,_,rfl⟩ := acceptLayout_eq_ok.mp hr
    exact ⟨rfl,fun source => .refl _ _⟩
  by_cases hs : frame.header.kind.isSource = true
  · rw [acceptBody_source hs] at hr
    exact acceptSource_kept hr
  cases hkind : frame.header.kind <;>
    simp only [hkind,Kind.isCounter,Kind.isSource,ne_eq,not_true,reduceCtorEq] at hk hm hs hlayout <;>
    simp only [acceptBody,hkind] at hr
  case guestEvent =>
    simp only [acceptGuestEvent,bind_eq_ok,exists_unit,get_eq_ok,refuse_eq_ok] at hr
    obtain ⟨_,_,⟨rfl,rfl⟩,_,⟨_,rfl⟩,_,rfl⟩ := hr
    exact ⟨rfl,fun source => .refl _ _⟩
  case contextFilter =>
    obtain ⟨_,_,_,_,_,rfl⟩ := acceptContextFilter_eq_ok.mp hr
    exact ⟨rfl,fun source => .refl _ _⟩
  case complete =>
    obtain ⟨_,_,_,_,_,rfl⟩ := acceptComplete_eq_ok.mp hr
    exact ⟨rfl,fun source => .refl _ _⟩
  all_goals
    obtain rfl := modify_eq_ok.mp hr
    exact ⟨rfl,fun source => .refl _ _⟩

theorem counters_features (h : t.counters = s.counters) : t.features = s.features := by
  simpa [Stream.counters] using congrArg Stream.features h

theorem acceptFrame_kept (hk : frame.header.kind.isCounter = false)
    (hr : acceptFrame frame s = .ok () t) :
    t.counters = s.counters ∧ ∀ source, LaneKept s.features (s.lanes source) (t.lanes source) := by
  by_cases hm : frame.header.kind = .mixed
  · obtain ⟨-,hruns,hdata⟩ := acceptFrame_mixed hm hr
    generalize frame.runs = runs at hruns hdata
    clear hr hk hm
    induction runs generalizing s with
    | nil =>
      obtain rfl := acceptAll_nil.mp hruns
      exact ⟨rfl,fun source => .refl _ _⟩
    | cons run runs ih =>
      obtain ⟨r,hhead,htail⟩ := acceptAll_cons.mp hruns
      obtain ⟨⟨hd,_⟩,hds⟩ := List.forall_mem_cons.mp hdata
      have hkind : run.header.kind.isCounter = false ∧ run.header.kind ≠ .mixed := by
        cases hkind : run.header.kind <;> simp_all [Kind.isData,Kind.isCounter]
      obtain ⟨hcounters,hlanes⟩ := acceptRun_kept hkind.1 hkind.2 hhead
      obtain ⟨hcounters',hlanes'⟩ := ih htail hds
      rw [counters_features hcounters] at hlanes'
      exact ⟨hcounters'.trans hcounters,fun source => (hlanes source).trans (hlanes' source)⟩
  · exact acceptRun_kept hk hm hr

private theorem counters_started (h : t.counters = s.counters) : t.started = s.started := by
  simpa [Stream.counters] using congrArg Stream.started h

theorem acceptFrame_opened (hs : s.started = true) (hm : frame.header.kind ≠ .mixed)
    (hr : acceptFrame frame s = .ok () t) :
    headerFault frame.header = none ∧ frame.header.kind ≠ .hello ∧
      acceptKind frame.header frame.payload s = .ok () t := by
  rw [acceptFrame_of_ne_mixed hm] at hr
  obtain ⟨hf,_,⟨hno,_⟩ | ⟨_,_,hhello,hr⟩⟩ := acceptRun_eq_ok.mp hr
  · simp [hs] at hno
  · exact ⟨hf,hhello,hr⟩

theorem acceptFrame_counter (hs : s.started = true) (hk : frame.header.kind.isCounter = true)
    (hr : acceptFrame frame s = .ok () t) :
    headerFault frame.header = none ∧ frame.header.kind ≠ .hello ∧
      acceptBody frame.header frame.payload s = .ok () t := by
  have hm : frame.header.kind ≠ .mixed := fun heq => by simp [heq,Kind.isCounter] at hk
  obtain ⟨hf,hhello,hr⟩ := acceptFrame_opened hs hm hr
  obtain ⟨hlayout,_⟩ | ⟨_,_,hr⟩ := acceptKind_eq_ok.mp hr
  · simp [hlayout,Kind.isCounter] at hk
  · exact ⟨hf,hhello,hr⟩

theorem acceptFrame_features (hs : s.started = true) (hr : acceptFrame frame s = .ok () t) :
    t.started = true ∧ t.features = s.features ∧ frame.header.kind ≠ .hello := by
  by_cases hk : frame.header.kind.isCounter = true
  · obtain ⟨_,hhello,hr⟩ := acceptFrame_counter hs hk hr
    cases hkind : frame.header.kind <;>
      simp only [hkind,Kind.isCounter,Bool.false_eq_true,ne_eq,not_true] at hk hhello <;>
      simp only [acceptBody,hkind] at hr
    case blockTransitions =>
      obtain ⟨_,_,_,_,_,_,_,r,hrows,_,rfl⟩ := acceptBlockTransitions_eq_ok.mp hr
      obtain ⟨_,_,_,_,rfl⟩ := transitionRows_added (loadTransitionRows_count _ _ _) hrows
      exact ⟨hs,rfl,by simp⟩
    case reducedContext =>
      obtain ⟨_,_,_,_,_,_,_,_,_,rfl⟩ := acceptReducedContext_eq_ok.mp hr
      exact ⟨hs,rfl,by simp⟩
    case observationSummary =>
      obtain ⟨_,_,_,_,_,rfl⟩ := acceptObservationSummary_eq_ok.mp hr
      exact ⟨hs,rfl,by simp⟩
    case kernelRequest =>
      obtain ⟨_,_,hwindow,hplain⟩ := acceptKernelRequest_eq_ok.mp hr
      by_cases hw : Has s.features featureTransitionWindows
      · obtain ⟨_,rfl⟩ := hwindow hw
        exact ⟨hs,rfl,by simp⟩
      · obtain rfl := hplain hw
        exact ⟨hs,rfl,by simp⟩
    case transitionWindow =>
      obtain ⟨_,_,_,_,_,_,rfl⟩ := acceptTransitionWindow_eq_ok.mp hr
      exact ⟨hs,rfl,by simp⟩
  · rw [Bool.not_eq_true] at hk
    obtain ⟨hcounters,_⟩ := acceptFrame_kept hk hr
    exact ⟨(counters_started hcounters).trans hs,counters_features hcounters,
      fun heq => by simp [heq,Kind.isCounter] at hk⟩

theorem acceptAll_features (hs : s.started = true) (hr : acceptAll frames s = .ok () t) :
    t.started = true ∧ t.features = s.features := by
  induction frames generalizing s with
  | nil =>
    obtain rfl := acceptAll_nil.mp hr
    exact ⟨hs,rfl⟩
  | cons frame frames ih =>
    obtain ⟨r,hhead,htail⟩ := acceptAll_cons.mp hr
    obtain ⟨hstarted,hfeatures,_⟩ := acceptFrame_features hs hhead
    obtain ⟨hopen,hrest⟩ := ih hstarted htail
    exact ⟨hopen,hrest.trans hfeatures⟩

private theorem acceptAll_no_hello (hs : s.started = true) (hr : acceptAll frames s = .ok () t) :
    ∀ frame ∈ frames, frame.header.kind ≠ .hello := by
  induction frames generalizing s with
  | nil => simp
  | cons frame frames ih =>
    obtain ⟨r,hhead,htail⟩ := acceptAll_cons.mp hr
    obtain ⟨hstarted,_,hhello⟩ := acceptFrame_features hs hhead
    exact List.forall_mem_cons.mpr ⟨hhello,ih hstarted htail⟩

def Stream.helloed (hello : Header) : Stream := ({} : Stream).opened hello

theorem helloed_eq {hello : Header} (hk : hello.kind = .hello) : Stream.helloed hello =
    { started := true, version := hello.version.toNat, features := hello.detail } := by
  simp [Stream.helloed,Stream.opened,hk]

/-- An accepted trace is empty, a single report, or starts with its Hello. -/
theorem accepted_first (hr : acceptAll frames {} = .ok () t) :
    frames = [] ∧ t = {} ∨
    (∃ report, frames = [report] ∧ report.header.kind = .terminalReport ∧ t.finished = true) ∨
    ∃ hello rest, frames = hello::rest ∧ hello.header.kind = .hello ∧
      acceptAll rest (.helloed hello.header) = .ok () t ∧
      ∀ frame ∈ rest, frame.header.kind ≠ .hello := by
  cases frames with
  | nil => exact .inl ⟨rfl,(acceptAll_nil.mp hr).symm⟩
  | cons first rest =>
    obtain ⟨r,hhead,htail⟩ := acceptAll_cons.mp hr
    have hm : first.header.kind ≠ .mixed := fun heq => by
      have := (acceptFrame_mixed_eq_ok heq).mp hhead
      simp at this
    rw [acceptFrame_of_ne_mixed hm] at hhead
    obtain ⟨_,_,⟨_,hopen,rfl⟩ | ⟨hno,_⟩⟩ := acceptRun_eq_ok.mp hhead
    · rcases hopen with hreport | hhello
      · cases rest with
        | nil =>
          obtain rfl := acceptAll_nil.mp htail
          exact .inr (.inl ⟨first,rfl,hreport,by simp [Stream.opened,hreport]⟩)
        | cons second rest =>
          obtain ⟨_,hsecond,_⟩ := acceptAll_cons.mp htail
          have := acceptFrame_unfinished hsecond
          simp [Stream.opened,hreport] at this
      · exact .inr (.inr ⟨first,rest,rfl,hhello,htail,
          acceptAll_no_hello (by simp [Stream.opened,hhello]) htail⟩)
    · simp at hno

/-- Hello is the first frame of a trace and the only one of its kind. -/
theorem acceptAll_hello {hello : Frame} (hr : acceptAll frames {} = .ok () t)
    (hmem : hello ∈ frames) (hk : hello.header.kind = .hello) :
    ∃ rest, frames = hello::rest ∧ headerFault hello.header = none ∧
      acceptAll rest (.helloed hello.header) = .ok () t ∧
      ∀ frame ∈ rest, frame.header.kind ≠ .hello := by
  have hf := acceptAll_header hr hello hmem
  obtain ⟨rfl,_⟩ | ⟨report,rfl,hreport,_⟩ | ⟨first,rest,rfl,_,hrest,hno⟩ := accepted_first hr
  · cases hmem
  · rw [List.mem_singleton.mp hmem,hreport] at hk
    cases hk
  · rcases List.mem_cons.mp hmem with rfl | hlater
    · exact ⟨rest,rfl,hf,hrest,hno⟩
    · exact absurd hk (hno hello hlater)

end Cpu2Tensor
