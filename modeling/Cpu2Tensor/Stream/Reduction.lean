import Cpu2Tensor.Stream.Sequence

/-!
# Reduced observations

Every transition and context row of a reduced trace that is accepted to its end belongs to one
summary that comes after it and closes it, provided no transition row names a source beyond the
ones the summaries declare.
-/

namespace Cpu2Tensor
open Library

def Frame.transitionRows (source : Nat) (frame : Frame) : List TransitionRow :=
  if frame.header.kind = .blockTransitions ∧ frame.header.source.toNat = source then
    loadTransitionRows (frame.payload.getD []) frame.header.count.toNat 0
  else []

def Frame.contextRows (source : Nat) (frame : Frame) : List ReducedContextRow :=
  if frame.header.kind = .reducedContext ∧ frame.header.source.toNat = source then
    loadReducedContextRows (frame.payload.getD []) frame.header.count.toNat 0
  else []

def Frame.Summarizes (source : Nat) (frame : Frame) : Prop :=
  frame.header.kind = .observationSummary ∧ frame.header.source.toNat = source

def Frame.summary (frame : Frame) : ObservationSummary :=
  loadObservationSummary (frame.payload.getD [])

def transitionRowsOf (source : Nat) (frames : List Frame) : List TransitionRow :=
  frames.flatMap (Frame.transitionRows source)

def contextRowsOf (source : Nat) (frames : List Frame) : List ReducedContextRow :=
  frames.flatMap (Frame.contextRows source)

structure ObservationSummary.Closes (summary : ObservationSummary) (rows : List TransitionRow)
    (contexts : List ReducedContextRow) : Prop where
  distinct : rows.length = summary.distinct
  counted : countSum rows + summary.transitionOverflow = summary.transitions
  transitions : summary.transitions = if summary.blocks = 0 then 0 else summary.blocks-1
  retained : contexts.length = summary.retainedContexts
  changes : summary.retainedContexts + summary.contextOverflow = summary.contextChanges

def ObservationSummary.SameBounds (a b : ObservationSummary) : Prop :=
  a.sources = b.sources ∧ a.transitionCapacity = b.transitionCapacity ∧
    a.contextCapacity = b.contextCapacity

theorem loadReducedContextRows_length (bytes : Bytes) (rows row : Nat) :
    (loadReducedContextRows bytes rows row).length = rows := by
  induction rows generalizing row with
  | zero => rfl
  | succ rows ih => simp [loadReducedContextRows,ih]

variable {frame : Frame} {frames : List Frame} {s t : Stream} {source : Nat}

private theorem transitionRows_other (hk : frame.header.kind ≠ .blockTransitions) :
    frame.transitionRows source = [] := by
  simp [Frame.transitionRows,hk]

private theorem contextRows_other (hk : frame.header.kind ≠ .reducedContext) :
    frame.contextRows source = [] := by
  simp [Frame.contextRows,hk]

private theorem load_le (bytes : Bytes) : load bytes 8 ≤ uint64Max := by
  have := load_lt bytes 8
  simp only [uint64Max]
  omega

private theorem closes_of_not_summaryFault {rows : List TransitionRow}
    {contexts : List ReducedContextRow} (hf : ¬SummaryFault s source frame.summary)
    (hrows : s.windowRowsPerSource source = rows.length)
    (hcounts : (s.lanes source).observationTransitionCounts = countSum rows)
    (hcontexts : (s.lanes source).observationContextRows = contexts.length) :
    source < frame.summary.sources ∧ frame.summary.Closes rows contexts := by
  have hovf : frame.summary.contextOverflow ≤ uint64Max := load_le _
  simp only [SummaryFault,not_or,not_lt,not_not,ge_iff_le,gt_iff_lt,ne_eq,not_le,hrows,hcounts,
    hcontexts] at hf
  obtain ⟨_,_,hsource,_,_,_,_,hslots,htrans,hdistinct,_,hle,hfit,hsum,hretained,hcap,hchange,hmod,
    _⟩ := hf
  have htrans' : frame.summary.transitions ≤ uint64Max := load_le _
  simp only [maxTransitionSlots,uint64Max] at hslots hovf htrans'
  refine ⟨hsource,hdistinct.symm,?_,htrans,hretained.symm,?_⟩
  · omega
  · rw [← hmod,Nat.mod_eq_of_lt]
    by_contra hover
    -- a wrapped sum would be smaller than the overflow it contains
    have hsmall : frame.summary.retainedContexts ≤ uint64Max := load_le _
    simp only [uint64Max] at hsmall
    omega

structure ReducedEffect (frame : Frame) (s t : Stream) : Prop where
  rows : ∀ source, t.windowRowsPerSource source =
    s.windowRowsPerSource source + (frame.transitionRows source).length
  counts : ∀ source, (t.lanes source).observationTransitionCounts =
    (s.lanes source).observationTransitionCounts + countSum (frame.transitionRows source)
  contexts : ∀ source, (t.lanes source).observationContextRows =
    (s.lanes source).observationContextRows + (frame.contextRows source).length
  summary : ∀ source, (t.lanes source).observationSummary = true ↔
    (s.lanes source).observationSummary = true ∨ frame.Summarizes source
  silent : ∀ source, (s.lanes source).observationSummary = true → ¬frame.Summarizes source ∧
    frame.transitionRows source = [] ∧ frame.contextRows source = []
  closes : ∀ source, frame.Summarizes source → ¬SummaryFault s source frame.summary ∧
    t.observationSources = frame.summary.sources ∧
    t.observationTransitionCapacity = frame.summary.transitionCapacity ∧
    t.observationContextCapacity = frame.summary.contextCapacity
  bounds : (∀ source, ¬frame.Summarizes source) ∨ s.observationSources ≠ 0 →
    t.observationSources = s.observationSources ∧
    t.observationTransitionCapacity = s.observationTransitionCapacity ∧
    t.observationContextCapacity = s.observationContextCapacity
  ended : ∀ source, (t.lanes source).ended = true →
    (s.lanes source).ended = true ∨ (s.lanes source).observationSummary = true
  seen : ∀ source, (s.lanes source).seen = true → (t.lanes source).seen = true
  context : ∀ source, frame.contextRows source ≠ [] →
    source < maxSources ∧ (t.lanes source).seen = true

private theorem ReducedEffect.quiet
    (hk : frame.header.kind ≠ .blockTransitions ∧ frame.header.kind ≠ .reducedContext ∧
      frame.header.kind ≠ .observationSummary)
    (hrows : t.windowRowsPerSource = s.windowRowsPerSource)
    (hbounds : t.observationSources = s.observationSources ∧
      t.observationTransitionCapacity = s.observationTransitionCapacity ∧
      t.observationContextCapacity = s.observationContextCapacity)
    (hreduced : Has s.features featureObservationReduction)
    (hlanes : ∀ source, LaneKept s.features (s.lanes source) (t.lanes source)) :
    ReducedEffect frame s t := by
  have hno (source : Nat) : ¬frame.Summarizes source := fun hs => hk.2.2 hs.1
  refine ⟨fun source => ?_,fun source => ?_,fun source => ?_,fun source => ?_,fun source _ => ?_,
    fun source hs => absurd hs (hno source),fun _ => hbounds,
    fun source he => (hlanes source).summarized hreduced he,fun source => (hlanes source).seen,
    fun source hc => ?_⟩
  · simp [hrows,transitionRows_other hk.1]
  · simp [(hlanes source).transitionCounts,transitionRows_other hk.1]
  · simp [(hlanes source).contextRows,contextRows_other hk.2.1]
  · simp [(hlanes source).summary,hno source]
  · exact ⟨hno source,transitionRows_other hk.1,contextRows_other hk.2.1⟩
  · exact absurd (contextRows_other hk.2.1) hc

private theorem acceptBlockTransitions_reduced (hk : frame.header.kind = .blockTransitions)
    (hreduced : Has s.features featureObservationReduction)
    (hr : acceptBlockTransitions frame.header frame.payload s = .ok () t) :
    ReducedEffect frame s t := by
  obtain ⟨_,_,_,_,_,_,hopen,r,hrows,_,rfl⟩ := acceptBlockTransitions_eq_ok.mp hr
  obtain ⟨_,_,keys,capacity,rfl⟩ := transitionRows_added (loadTransitionRows_count _ _ _) hrows
  have hno (source : Nat) : ¬frame.Summarizes source := fun hs => by simp [Frame.Summarizes,hk] at hs
  have hctx (source : Nat) : frame.contextRows source = [] := contextRows_other (by simp [hk])
  have hlane (source : Nat) (hs : source ≠ frame.header.source.toNat) :
      frame.transitionRows source = [] := by
    simp [Frame.transitionRows,Ne.symm hs]
  have hmine : frame.transitionRows frame.header.source.toNat =
      loadTransitionRows (frame.payload.getD []) frame.header.count.toNat 0 := by
    simp [Frame.transitionRows,hk]
  refine ⟨fun source => ?_,fun source => ?_,fun source => ?_,fun source => ?_,fun source hs => ?_,
    fun source hs => absurd hs (hno source),fun _ => ⟨rfl,rfl,rfl⟩,fun source he => ?_,
    fun source hs => ?_,fun source hc => absurd (hctx source) hc⟩
  all_goals by_cases hsource : source = frame.header.source.toNat
  all_goals clear hr hrows
  all_goals try subst hsource
  all_goals simp_all [Stream.addRows,Lane.addTransitions]

private theorem acceptReducedContext_reduced (hk : frame.header.kind = .reducedContext)
    (hf : headerFault frame.header = none)
    (hr : acceptReducedContext frame.header frame.payload s = .ok () t) :
    ReducedEffect frame s t := by
  obtain ⟨_,_,_,hopen,_,_,lane,hrows,_,rfl⟩ := acceptReducedContext_eq_ok.mp hr
  obtain rfl := reducedContextRows_added hrows
  have hno (source : Nat) : ¬frame.Summarizes source := fun hs => by simp [Frame.Summarizes,hk] at hs
  have hrow (source : Nat) : frame.transitionRows source = [] := transitionRows_other (by simp [hk])
  have hlane (source : Nat) (hs : source ≠ frame.header.source.toNat) :
      frame.contextRows source = [] := by
    simp [Frame.contextRows,Ne.symm hs]
  have hmine : (frame.contextRows frame.header.source.toNat).length =
      frame.header.count.toNat := by
    simp [Frame.contextRows,hk,loadReducedContextRows_length]
  have hbound := source_of_headerFault hf
  refine ⟨fun source => ?_,fun source => ?_,fun source => ?_,fun source => ?_,fun source hs => ?_,
    fun source hs => absurd hs (hno source),fun _ => ⟨rfl,rfl,rfl⟩,fun source he => ?_,
    fun source hs => ?_,fun source hc => ?_⟩
  all_goals by_cases hsource : source = frame.header.source.toNat
  all_goals clear hr hrows
  all_goals try subst hsource
  all_goals simp_all [Lane.addContexts,Stream.setLane]

private theorem acceptObservationSummary_reduced (hk : frame.header.kind = .observationSummary)
    (hr : acceptObservationSummary frame.header frame.payload s = .ok () t) :
    ReducedEffect frame s t := by
  obtain ⟨_,_,_,hopen,hclose,rfl⟩ := acceptObservationSummary_eq_ok.mp hr
  have hrow (source : Nat) : frame.transitionRows source = [] := transitionRows_other (by simp [hk])
  have hctx (source : Nat) : frame.contextRows source = [] := contextRows_other (by simp [hk])
  have hself : frame.Summarizes frame.header.source.toNat := ⟨hk,rfl⟩
  have hlane (source : Nat) (hs : source ≠ frame.header.source.toNat) :
      ¬frame.Summarizes source := fun hsum => hs hsum.2.symm
  have hsame : s.observationSources ≠ 0 → s.observationSources = frame.summary.sources ∧
      s.observationTransitionCapacity = frame.summary.transitionCapacity ∧
      s.observationContextCapacity = frame.summary.contextCapacity := by
    intro hne
    simp only [SummaryFault,not_or,not_and,not_not,ne_eq] at hclose
    exact hclose.2.2.2.2.2.2.2.2.2.2.2.2.2.2.2.2.2.2.2.2.2.2 hne
  refine ⟨fun source => ?_,fun source => ?_,fun source => ?_,fun source => ?_,fun source hs => ?_,
    fun source hs => ⟨hs.2 ▸ hclose,?_⟩,?_,fun source he => ?_,
    fun source hs => ?_,fun source hc => absurd (hctx source) hc⟩
  case refine_6 =>
    by_cases hz : s.observationSources = 0
    · simp [hz,Frame.summary]
    · simpa [hz] using hsame hz
  case refine_7 =>
    rintro (hno | hz)
    · exact absurd hself (hno _)
    · simp [hz]
  all_goals clear hr hclose hsame
  all_goals by_cases hsource : source = frame.header.source.toNat
  all_goals try subst hsource
  all_goals simp_all [Stream.setLane]

private theorem acceptFrame_reduced (hs : s.started = true)
    (hreduced : Has s.features featureObservationReduction)
    (hwindows : ¬Has s.features featureTransitionWindows) (hr : acceptFrame frame s = .ok () t) :
    ReducedEffect frame s t := by
  by_cases hk : frame.header.kind.isCounter = true
  · obtain ⟨hf,hhello,hr⟩ := acceptFrame_counter hs hk hr
    cases hkind : frame.header.kind <;>
      simp only [hkind,Kind.isCounter,Bool.false_eq_true,ne_eq,not_true] at hk hhello <;>
      simp only [acceptBody,hkind] at hr
    case blockTransitions => exact acceptBlockTransitions_reduced hkind hreduced hr
    case reducedContext => exact acceptReducedContext_reduced hkind hf hr
    case observationSummary => exact acceptObservationSummary_reduced hkind hr
    case kernelRequest =>
      obtain rfl := (acceptKernelRequest_eq_ok.mp hr).2.2.2 hwindows
      exact .quiet (by simp [hkind]) rfl ⟨rfl,rfl,rfl⟩ hreduced fun source => .refl _ _
    case transitionWindow => exact absurd (acceptTransitionWindow_eq_ok.mp hr).1 hwindows
  · rw [Bool.not_eq_true] at hk
    obtain ⟨hcounters,hlanes⟩ := acceptFrame_kept hk hr
    simp only [Stream.counters,Stream.mk.injEq,true_and,and_true] at hcounters
    obtain ⟨_,_,_,_,_,_,hrows,_,_,_,_,_,hsources,htransitions,hcontexts,_⟩ := hcounters
    refine .quiet ?_ hrows ⟨hsources,htransitions,hcontexts⟩ hreduced hlanes
    refine ⟨?_,?_,?_⟩ <;> intro heq <;> simp [heq,Kind.isCounter] at hk

/-- What a reduced stream knows about the frames it has accepted. -/
structure ReducedLedger (past : List Frame) (s : Stream) : Prop where
  started : s.started = true
  reduced : Has s.features featureObservationReduction
  unwindowed : ¬Has s.features featureTransitionWindows
  rows : ∀ source, s.windowRowsPerSource source = (transitionRowsOf source past).length
  counts : ∀ source, (s.lanes source).observationTransitionCounts =
    countSum (transitionRowsOf source past)
  contexts : ∀ source, (s.lanes source).observationContextRows =
    (contextRowsOf source past).length
  summary : ∀ source, (s.lanes source).observationSummary = true ↔
    ∃ frame ∈ past, frame.Summarizes source
  silent : past.Pairwise fun frame later => ∀ source, frame.Summarizes source →
    ¬later.Summarizes source ∧ later.transitionRows source = [] ∧ later.contextRows source = []
  closes : ∀ frame ∈ past, ∀ source, frame.Summarizes source →
    source < frame.summary.sources ∧
      frame.summary.Closes (transitionRowsOf source past) (contextRowsOf source past)
  bounds : ∀ frame ∈ past, ∀ source, frame.Summarizes source → s.observationSources ≠ 0 ∧
    s.observationSources = frame.summary.sources ∧
    s.observationTransitionCapacity = frame.summary.transitionCapacity ∧
    s.observationContextCapacity = frame.summary.contextCapacity
  ended : ∀ source, (s.lanes source).ended = true → (s.lanes source).observationSummary = true
  seen : ∀ source, contextRowsOf source past ≠ [] →
    source < maxSources ∧ (s.lanes source).seen = true

@[simp] theorem transitionRowsOf_snoc (source : Nat) (past : List Frame) (frame : Frame) :
    transitionRowsOf source (past ++ [frame]) =
      transitionRowsOf source past ++ frame.transitionRows source := by
  simp [transitionRowsOf]

@[simp] theorem contextRowsOf_snoc (source : Nat) (past : List Frame) (frame : Frame) :
    contextRowsOf source (past ++ [frame]) =
      contextRowsOf source past ++ frame.contextRows source := by
  simp [contextRowsOf]

private theorem ReducedLedger.step {past : List Frame} (hl : ReducedLedger past s)
    (hr : acceptFrame frame s = .ok () t) : ReducedLedger (past ++ [frame]) t := by
  have he := acceptFrame_reduced hl.started hl.reduced hl.unwindowed hr
  obtain ⟨hstarted,hfeatures,_⟩ := acceptFrame_features hl.started hr
  have hsilent (old : Frame) (ho : old ∈ past) (source : Nat) (hs : old.Summarizes source) :=
    he.silent source ((hl.summary source).mpr ⟨old,ho,hs⟩)
  refine ⟨hstarted,hfeatures ▸ hl.reduced,hfeatures ▸ hl.unwindowed,?_,?_,?_,?_,?_,?_,?_,?_,?_⟩
  · intro source
    rw [he.rows,hl.rows,transitionRowsOf_snoc,List.length_append]
  · intro source
    rw [he.counts,hl.counts,transitionRowsOf_snoc,countSum_append]
  · intro source
    rw [he.contexts,hl.contexts,contextRowsOf_snoc,List.length_append]
  · intro source
    rw [he.summary,hl.summary]
    constructor
    · rintro (⟨old,ho,hs⟩ | hs)
      · exact ⟨old,by simp [ho],hs⟩
      · exact ⟨frame,by simp,hs⟩
    · rintro ⟨old,ho,hs⟩
      rcases List.mem_append.mp ho with ho | ho
      · exact .inl ⟨old,ho,hs⟩
      · exact .inr (List.mem_singleton.mp ho ▸ hs)
  · refine List.pairwise_append.mpr ⟨hl.silent,List.pairwise_singleton _ _,?_⟩
    intro old ho later hlater source hs
    rw [List.mem_singleton.mp hlater]
    exact hsilent old ho source hs
  · intro old ho source hs
    rw [transitionRowsOf_snoc,contextRowsOf_snoc]
    rcases List.mem_append.mp ho with ho | ho
    · obtain ⟨_,hrow,hctx⟩ := hsilent old ho source hs
      rw [hrow,hctx,List.append_nil,List.append_nil]
      exact hl.closes old ho source hs
    · obtain rfl := List.mem_singleton.mp ho
      have hrow : old.transitionRows source = [] := transitionRows_other (by simp [hs.1])
      have hctx : old.contextRows source = [] := contextRows_other (by simp [hs.1])
      rw [hrow,hctx,List.append_nil,List.append_nil]
      exact closes_of_not_summaryFault (he.closes source hs).1 (hl.rows source) (hl.counts source)
        (hl.contexts source)
  · intro old ho source hs
    rcases List.mem_append.mp ho with ho | ho
    · obtain ⟨hne,hbounds⟩ := hl.bounds old ho source hs
      obtain ⟨h₁,h₂,h₃⟩ := he.bounds (.inr hne)
      rw [h₁,h₂,h₃]
      exact ⟨hne,hbounds⟩
    · obtain rfl := List.mem_singleton.mp ho
      obtain ⟨hclose,h₁,h₂⟩ := he.closes source hs
      refine ⟨?_,h₁,h₂⟩
      rw [h₁]
      intro hz
      exact hclose (.inl hz)
  · intro source hended
    rw [he.summary]
    rcases he.ended source hended with hold | hold
    · exact .inl (hl.ended source hold)
    · exact .inl hold
  · intro source hc
    by_cases hnew : frame.contextRows source = []
    · rw [contextRowsOf_snoc,hnew,List.append_nil] at hc
      exact ⟨(hl.seen source hc).1,he.seen source (hl.seen source hc).2⟩
    · exact he.context source hnew

private theorem ReducedLedger.run {past : List Frame} (hl : ReducedLedger past s)
    (hr : acceptAll frames s = .ok () t) : ReducedLedger (past ++ frames) t :=
  acceptAll_ledger (fun _ _ _ _ _ hl hr => hl.step hr) hl hr

private theorem helloed_ledger {hello : Frame} (hk : hello.header.kind = .hello)
    (hf : headerFault hello.header = none)
    (hreduced : Has hello.header.detail featureObservationReduction) :
    ReducedLedger [hello] (.helloed hello.header) := by
  have hno : ∀ frame ∈ [hello], ∀ source, ¬frame.Summarizes source := by
    simp [Frame.Summarizes,hk]
  have hrow (source : Nat) : transitionRowsOf source [hello] = [] := by
    simp [transitionRowsOf,Frame.transitionRows,hk]
  have hctx (source : Nat) : contextRowsOf source [hello] = [] := by
    simp [contextRowsOf,Frame.contextRows,hk]
  rw [helloed_eq hk]
  refine ⟨rfl,hreduced,?_,fun source => ?_,fun source => ?_,fun source => ?_,fun source => ?_,
    List.pairwise_singleton _ _,fun frame hf source hs => absurd hs (hno frame hf source),
    fun frame hf source hs => absurd hs (hno frame hf source),fun source he => ?_,
    fun source hc => absurd (hctx source) hc⟩
  · exact (reduced_of_helloFault (helloFault_of_headerFault hk hf) hreduced).2.2.2.2
  · rw [hrow]; rfl
  · rw [hrow]; rfl
  · rw [hctx]; rfl
  · simp [Frame.Summarizes,hk]
  · cases he

/-- Every source with transition or context rows has exactly one summary, which comes after its
rows and closes them, and all summaries declare the same bounds. -/
def ReductionClosed (frames : List Frame) : Prop :=
  (∀ source, transitionRowsOf source frames ≠ [] ∨ contextRowsOf source frames ≠ [] →
    ∃ before frame after, frames = before ++ frame::after ∧ frame.Summarizes source ∧
      (∀ other ∈ before ++ after, ¬other.Summarizes source) ∧
      transitionRowsOf source after = [] ∧ contextRowsOf source after = [] ∧
      frame.summary.Closes (transitionRowsOf source frames) (contextRowsOf source frames)) ∧
  ∀ frame ∈ frames, ∀ other ∈ frames, frame.header.kind = .observationSummary →
    other.header.kind = .observationSummary → frame.summary.SameBounds other.summary

private theorem ReducedLedger.closed (hl : ReducedLedger frames s)
    (hs : (s.lanes source).observationSummary = true) :
    ∃ before frame after, frames = before ++ frame::after ∧ frame.Summarizes source ∧
      (∀ other ∈ before ++ after, ¬other.Summarizes source) ∧
      transitionRowsOf source after = [] ∧ contextRowsOf source after = [] ∧
      frame.summary.Closes (transitionRowsOf source frames) (contextRowsOf source frames) := by
  obtain ⟨frame,hf,hsum⟩ := (hl.summary source).mp hs
  have hcloses := (hl.closes frame hf source hsum).2
  obtain ⟨before,after,rfl⟩ := List.append_of_mem hf
  have hsilent := hl.silent
  rw [List.pairwise_append,List.pairwise_cons] at hsilent
  obtain ⟨_,⟨hafter,_⟩,hbefore⟩ := hsilent
  refine ⟨before,frame,after,rfl,hsum,fun other ho => ?_,?_,?_,hcloses⟩
  · rcases List.mem_append.mp ho with ho | ho
    · exact fun hother => (hbefore other ho frame (by simp) source hother).1 hsum
    · exact (hafter other ho source hsum).1
  · simp only [transitionRowsOf,List.flatMap_eq_nil_iff]
    exact fun other ho => (hafter other ho source hsum).2.1
  · simp only [contextRowsOf,List.flatMap_eq_nil_iff]
    exact fun other ho => (hafter other ho source hsum).2.2

private theorem transition_frame (hrows : transitionRowsOf source frames ≠ []) :
    ∃ frame ∈ frames, frame.header.kind = .blockTransitions ∧
      frame.header.source.toNat = source := by
  by_contra hno
  push Not at hno
  apply hrows
  simp only [transitionRowsOf,List.flatMap_eq_nil_iff]
  intro frame hf
  exact if_neg fun hk => hno frame hf hk.1 hk.2

private theorem count_ne_zero {h : Header} (hk : h.kind = .blockTransitions)
    (hf : headerFault h = none) : h.count.toNat ≠ 0 := by
  simp only [headerFault,check_eq_none,fieldFault,hk] at hf
  omega

/-- A reduced trace accepted to its end is closed exactly when the summaries declare the source of
every transition row. -/
theorem reduction_closed_iff (frames : List Frame) (hello last : Frame) (hhello : hello ∈ frames)
    (hkind : hello.header.kind = .hello)
    (hreduced : Has hello.header.detail featureObservationReduction)
    (hlast : last.header.kind = .complete) (hr : Accepts (frames ++ [last])) :
    ReductionClosed (frames ++ [last]) ↔
      ∀ frame ∈ frames, frame.header.kind = .blockTransitions →
        ∃ summary ∈ frames, summary.header.kind = .observationSummary ∧
          frame.header.source.toNat < summary.summary.sources := by
  obtain ⟨t,hr⟩ := hr
  have hheaders := acceptAll_header hr
  obtain ⟨rest,heq,hf,hrest,_⟩ := acceptAll_hello hr (List.mem_append_left _ hhello) hkind
  have hledger : ReducedLedger (frames ++ [last]) t := by
    rw [heq]
    exact (helloed_ledger hkind hf hreduced).run hrest
  obtain ⟨hended,hsummarized⟩ : t.allEnded ∧ ∀ source < t.observationSources,
      (t.lanes source).observationSummary = true := by
    obtain ⟨r,hcomplete⟩ := acceptAll_complete hr (List.mem_append_right _ (by simp)) hlast
    obtain ⟨_,_,hall,hsummaries,_,rfl⟩ := acceptComplete_eq_ok.mp hcomplete
    exact ⟨hall,fun source hlt => ((hsummaries hledger.reduced).2 source hlt).1⟩
  constructor
  · intro hclosed frame hmem hk
    have hrows : transitionRowsOf frame.header.source.toNat (frames ++ [last]) ≠ [] := by
      have hcount := count_ne_zero hk (hheaders frame (List.mem_append_left _ hmem))
      intro hnil
      simp only [transitionRowsOf,List.flatMap_eq_nil_iff] at hnil
      have := congrArg List.length (hnil frame (List.mem_append_left _ hmem))
      simp [Frame.transitionRows,hk] at this
      omega
    obtain ⟨before,summary,after,hsplit,hsum,_⟩ := hclosed.1 _ (.inl hrows)
    have hin : summary ∈ frames ++ [last] := by rw [hsplit]; simp
    refine ⟨summary,?_,hsum.1,(hledger.closes summary hin _ hsum).1⟩
    rcases List.mem_append.mp hin with hin | hin
    · exact hin
    · rw [List.mem_singleton.mp hin] at hsum
      simp [Frame.Summarizes,hlast] at hsum
  · intro hdeclared
    refine ⟨fun source hsome => hledger.closed ?_,fun frame hmem other hother hk hk' => ?_⟩
    · rcases hsome with hrows | hcontexts
      · obtain ⟨frame,hmem,hrow⟩ := transition_frame hrows
        have hin : frame ∈ frames := by
          rcases List.mem_append.mp hmem with hin | hin
          · exact hin
          · rw [List.mem_singleton.mp hin] at hrow
            simp [hlast] at hrow
        obtain ⟨summary,hsummary,hk,hlt⟩ := hdeclared frame hin hrow.1
        have hbounds := hledger.bounds summary (List.mem_append_left _ hsummary) _ ⟨hk,rfl⟩
        refine hsummarized source ?_
        rw [hbounds.2.1,← hrow.2]
        exact hlt
      · obtain ⟨hlt,hseen⟩ := hledger.seen source hcontexts
        exact hledger.ended source (hended source hlt hseen)
    · have ha := (hledger.bounds frame hmem _ ⟨hk,rfl⟩).2
      have hb := (hledger.bounds other hother _ ⟨hk',rfl⟩).2
      exact ⟨ha.1.symm.trans hb.1,ha.2.1.symm.trans hb.2.1,ha.2.2.symm.trans hb.2.2⟩

def summaryPayload (blocks transitions distinct changes retained : Nat) : Bytes :=
  store 1 4 ++ store 2 4 ++ store 2 4 ++ store 0 4 ++ store blocks 8 ++ store transitions 8 ++
    store distinct 8 ++ store 0 8 ++ store changes 8 ++ store retained 8 ++ store 0 8

/-- Two blocks of source 0 in one context, up to its end. -/
def reducedTrace : List Frame :=
  [⟨{ kind := .hello, detail := 0x411002 },none⟩,
    ⟨{ kind := .reducedContext, count := 1, detail := 72 },
      some (store 0 8 ++ store 0 8 ++ store 0x1000 8 ++ store 0 8 ++ store 0 8 ++ store 0 8 ++
        store 0 8 ++ store 64 8 ++ store 63 8)⟩,
    ⟨{ kind := .blockTransitions, count := 1, sequence := 1, detail := 24 },
      some (store 0x1000 8 ++ store 0x2000 8 ++ store 1 8)⟩,
    ⟨{ kind := .observationSummary, count := 1, detail := 72 },some (summaryPayload 2 1 1 1 1)⟩,
    ⟨{ kind := .sourceEnd, sequence := 1 },none⟩]

theorem reduction_closed_iff_one :
    Accepts (reducedTrace ++ [⟨{ kind := .complete },none⟩]) ∧
      ReductionClosed (reducedTrace ++ [⟨{ kind := .complete },none⟩]) := by
  have hr : Accepts (reducedTrace ++ [⟨{ kind := .complete },none⟩]) := by decide +kernel
  refine ⟨hr,(reduction_closed_iff reducedTrace ⟨{ kind := .hello, detail := 0x411002 },none⟩ _
    (by simp [reducedTrace]) rfl (by decide) rfl hr).mpr ?_⟩
  decide +kernel

/-- A transition row of source 1 in a trace whose only summary declares one source. -/
def strayTrace : List Frame :=
  [⟨{ kind := .hello, detail := 0x411002 },none⟩,
    ⟨{ kind := .blockTransitions, source := 1, count := 1, sequence := 1, detail := 24 },
      some (store 0x1000 8 ++ store 0x2000 8 ++ store 1 8)⟩,
    ⟨{ kind := .observationSummary, count := 1, detail := 72 },some (summaryPayload 0 0 0 0 0)⟩,
    ⟨{ kind := .sourceEnd },none⟩,⟨{ kind := .complete },none⟩]

/-- The stream accepts the stray row to the end of the trace, and no summary closes it. -/
theorem reduction_not_closed_stray : Accepts strayTrace ∧ ¬ReductionClosed strayTrace := by
  refine ⟨by decide +kernel,fun hclosed => ?_⟩
  have hrows : transitionRowsOf 1 strayTrace ≠ [] := by decide +kernel
  obtain ⟨before,frame,after,heq,hsum,_⟩ := hclosed.1 1 (.inl hrows)
  have hmem : frame ∈ strayTrace := by rw [heq]; simp
  have hnone : ∀ other ∈ strayTrace,
      ¬(other.header.kind = .observationSummary ∧ other.header.source.toNat = 1) := by decide
  exact hnone frame hmem hsum

end Cpu2Tensor
