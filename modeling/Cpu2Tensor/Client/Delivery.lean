import Cpu2Tensor.Client.Group
import Cpu2Tensor.Client.Pool

/-!
# Batches of accepted frames

Every frame that the validator accepts becomes a well-formed batch, so that neither building nor
collating it raises.
-/

namespace Cpu2Tensor.Client
open Library

variable {features : UInt64} {h : Header} {s t : Stream} {source : Nat}

private theorem acceptSource_registers {bytes : Option Bytes}
    (hr : acceptSource h bytes s = .ok () t) (hnone : (s.lanes source).registers = none)
    (hschema : ¬(h.kind = .registerSchema ∧ h.source.toNat = source)) :
    (t.lanes source).registers = none := by
  obtain ⟨lane,hcheck,_,rfl⟩ := acceptSource_eq_ok.mp hr
  by_cases hsource : source = h.source.toNat
  · subst hsource
    have hk : h.kind ≠ .registerSchema := fun heq => hschema ⟨heq,rfl⟩
    obtain ⟨_,⟨heq,_⟩ | ⟨_,hevent⟩⟩ := checkFrame_eq_ok.mp hcheck
    · exact absurd heq hk
    · have hkeep := checkEvent_registers hevent hnone
      simpa [Stream.counted,hk,Lane.commit] using hkeep
  · simpa [Stream.counted,hsource] using hnone

variable {entries : List (Nat × MixedRun)} {entry : Nat × MixedRun} {frame : Frame}
  {names : Option Names}

private theorem acceptRun_registers (hm : frame.header.kind ≠ .mixed)
    (hr : acceptFrame frame s = .ok () t) (hnone : (s.lanes source).registers = none)
    (hschema : ¬(frame.header.kind = .registerSchema ∧ frame.header.source.toNat = source)) :
    (t.lanes source).registers = none := by
  rw [acceptFrame_of_ne_mixed hm] at hr
  obtain ⟨_,_,⟨_,_,rfl⟩ | ⟨_,_,hhello,hr⟩⟩ := acceptRun_eq_ok.mp hr
  · unfold Stream.opened
    split_ifs <;> exact hnone
  obtain ⟨_,hr⟩ | ⟨hlayout,_,hr⟩ := acceptKind_eq_ok.mp hr
  · obtain ⟨_,_,_,_,_,rfl⟩ := acceptLayout_eq_ok.mp hr
    exact hnone
  by_cases hs : frame.header.kind.isSource = true
  · rw [acceptBody_source hs] at hr
    exact acceptSource_registers hr hnone hschema
  cases hkind : frame.header.kind <;>
    simp only [hkind,Kind.isSource,ne_eq,not_true,reduceCtorEq] at hhello hm hs hlayout <;>
    simp only [acceptBody,hkind] at hr
  case blockTransitions =>
    obtain ⟨_,_,_,_,_,_,_,r,hrows,_,rfl⟩ := acceptBlockTransitions_eq_ok.mp hr
    obtain ⟨_,_,_,_,rfl⟩ := transitionRows_added (loadTransitionRows_count _ _ _) hrows
    by_cases hsource : source = frame.header.source.toNat
    · subst hsource
      by_cases ho : Has s.features featureObservationReduction <;>
        simpa [Stream.addRows,ho,Lane.addTransitions] using hnone
    · by_cases ho : Has s.features featureObservationReduction <;>
        simpa [Stream.addRows,ho,hsource] using hnone
  case reducedContext =>
    obtain ⟨_,_,_,_,_,_,lane,hrows,_,rfl⟩ := acceptReducedContext_eq_ok.mp hr
    by_cases hsource : source = frame.header.source.toNat
    · subst hsource
      rw [reducedContextRows_added hrows]
      simpa [Lane.addContexts] using hnone
    · simpa [hsource] using hnone
  case observationSummary =>
    obtain ⟨_,_,_,_,_,rfl⟩ := acceptObservationSummary_eq_ok.mp hr
    by_cases hsource : source = frame.header.source.toNat
    · subst hsource
      simpa using hnone
    · simpa [hsource] using hnone
  case kernelRequest =>
    obtain ⟨_,_,hwindow,hplain⟩ := acceptKernelRequest_eq_ok.mp hr
    by_cases hw : Has s.features featureTransitionWindows
    · obtain ⟨_,rfl⟩ := hwindow hw
      exact hnone
    · obtain rfl := hplain hw
      exact hnone
  case guestEvent =>
    simp only [acceptGuestEvent,bind_eq_ok,exists_unit,get_eq_ok,refuse_eq_ok] at hr
    obtain ⟨_,_,⟨rfl,rfl⟩,_,⟨_,rfl⟩,_,rfl⟩ := hr
    exact hnone
  case transitionWindow =>
    obtain ⟨_,_,_,_,_,_,rfl⟩ := acceptTransitionWindow_eq_ok.mp hr
    exact hnone
  case contextFilter =>
    obtain ⟨_,_,_,_,_,rfl⟩ := acceptContextFilter_eq_ok.mp hr
    exact hnone
  case complete =>
    obtain ⟨_,_,_,_,_,rfl⟩ := acceptComplete_eq_ok.mp hr
    exact hnone
  all_goals
    obtain rfl := modify_eq_ok.mp hr
    exact hnone

theorem acceptFrame_registers (hr : acceptFrame frame s = .ok () t)
    (hnone : (s.lanes source).registers = none)
    (hschema : ¬(frame.header.kind = .registerSchema ∧ frame.header.source.toNat = source)) :
    (t.lanes source).registers = none := by
  by_cases hm : frame.header.kind = .mixed
  · obtain ⟨-,hruns,hdata⟩ := acceptFrame_mixed hm hr
    generalize frame.runs = runs at hruns hdata
    clear hr hm hschema
    induction runs generalizing s with
    | nil =>
      obtain rfl := acceptAll_nil.mp hruns
      exact hnone
    | cons run runs ih =>
      obtain ⟨r,hhead,htail⟩ := acceptAll_cons.mp hruns
      obtain ⟨⟨hd,_⟩,hds⟩ := List.forall_mem_cons.mp hdata
      have hne {kind : Kind} (hkind : kind.isData = false) : run.header.kind ≠ kind := by
        intro heq
        rw [heq,hkind] at hd
        cases hd
      have hfirst := acceptRun_registers (hne rfl) hhead hnone fun h => hne rfl h.1
      exact ih hfirst htail hds
  · exact acceptRun_registers hm hr hnone hschema

/-- Which optional columns the memory rows of a stream have. -/
def streamShape (features : UInt64) : MemoryShape :=
  ⟨hasMemoryValues features,hasSystemMemory features⟩

theorem dataFrame_run {payload : Bytes} (hf : headerFault h = none) (hd : h.kind.isData = true)
    (hlen : payload.length = payloadSize h) :
    (MixedRun.mk h.kind h.count.toNat payload).Valid ∧
      (MixedRun.mk h.kind h.count.toNat payload).frame h 0 = ⟨h,some payload⟩ := by
  have hcount : UInt32.ofNat h.count.toNat = h.count := UInt32.ofNat_toNat
  have hsequence : h.sequence+UInt64.ofNat 0 = h.sequence := by simp
  have hdetail : UInt64.ofNat h.detail.toNat = h.detail := UInt64.ofNat_toNat
  simp only [headerFault,check_eq_none] at hf
  obtain ⟨_,hlimit,hf⟩ := hf
  cases hk : h.kind <;> simp only [hk,Kind.isData,Bool.false_eq_true] at hd
  all_goals
    simp only [fieldFault,hk,check_eq_none] at hf
    rw [payloadSize,hk] at hlen
    dsimp only at hlen
    constructor
  case blocks.left =>
    exact ⟨rfl,by dsimp only; omega,by dsimp only; omega,by
      change payload.length ≤ maxPayloadBytes
      unfold maxAddresses at hlimit
      unfold maxPayloadBytes
      omega,fun _ => hlen⟩
  case blocks.right =>
    have hzero : h.detail = 0 := UInt64.toNat_inj.mp (by
      change h.detail.toNat = 0
      omega)
    unfold MixedRun.frame runHeader
    dsimp only
    rw [if_pos rfl,hcount,hsequence,← hk,← hzero]
  case registers.left | memory.left | addressContext.left =>
    exact ⟨rfl,by dsimp only; omega,by dsimp only; omega,by
      change payload.length ≤ maxPayloadBytes
      omega,by simp⟩
  case registers.right | memory.right | addressContext.right =>
    unfold MixedRun.frame runHeader
    dsimp only
    rw [if_neg (by simp),hcount,hsequence,hlen,hdetail,← hk]

theorem memoryTable_shape (features : UInt64) (items : List Bytes) :
    (memoryTable (hasMemoryValues features) (hasSystemMemory features) items).values.isSome =
        (streamShape features).values ∧
      ∀ column, ((memoryTable (hasMemoryValues features) (hasSystemMemory features) items).mapping
        column).isSome = (streamShape features).mapped := by
  unfold memoryTable streamShape
  constructor
  · cases hasMemoryValues features <;> rfl
  · intro column
    cases hasSystemMemory features <;> rfl

theorem runBatch_cpu (hv : entry.2.Valid) :
    (runBatch features names h entry).Cpu (streamShape features) := by
  have hdata := hv.data
  have hitems : runItems features entry.2 ≠ [] := runItems_ne_nil hv
  unfold runBatch
  cases hk : entry.2.kind <;> simp only [hk,Kind.isData,Bool.false_eq_true] at hdata
  all_goals
    refine ⟨Option.some_ne_none _,Option.some_ne_none _,?_,fun _ h => (by cases h),?_,?_,rfl,rfl⟩
  case blocks.refine_1 => simp [Batch.hasRows,runAddresses,hitems]
  case registers.refine_1 =>
    simp [Batch.hasRows,runRegisters,RegisterChanges.rows,hitems]
  case memory.refine_1 =>
    simp [Batch.hasRows,runMemory,memoryTable,MemoryAccesses.rows,hitems]
  case addressContext.refine_1 =>
    simp [Batch.hasRows,runContext,contextTable,AddressContext.rows,hitems]
  case memory.refine_2 =>
    intro table htable
    obtain rfl := Option.some.inj htable
    exact (memoryTable_shape features _).1
  case memory.refine_3 =>
    intro table htable
    obtain rfl := Option.some.inj htable
    exact (memoryTable_shape features _).2
  all_goals
    intro _ h
    cases h

theorem tableItems_ne_nil {features : UInt64} {table : Table} {entry : Nat × MixedRun}
    {entries : List (Nat × MixedRun)} (hv : entry.2.Valid) (hentry : entry ∈ entries)
    (hk : entry.2.kind = table.kind) :
    selected table entries ≠ [] ∧ tableItems features table entries ≠ [] := by
  have hmem : entry ∈ selected table entries := List.mem_filter.mpr ⟨hentry,decide_eq_true hk⟩
  refine ⟨List.ne_nil_of_mem hmem,?_⟩
  intro hnil
  exact runItems_ne_nil hv (List.flatMap_eq_nil_iff.mp hnil entry hmem)

theorem runsBatch_hasRows (hv : entry.2.Valid) (hentry : entry ∈ entries) :
    (runsBatch features names h entries).hasRows = true := by
  obtain ⟨table,_,hk⟩ := table_of_data hv.data
  obtain ⟨hselected,hitems⟩ := @tableItems_ne_nil features table entry entries hv hentry hk.symm
  unfold Batch.hasRows runsBatch
  cases table with
  | blocks => simp [hitems]
  | registers => simp [whenSelected_ne hselected,RegisterChanges.rows,hitems]
  | memory => simp [whenSelected_ne hselected,memoryTable,MemoryAccesses.rows,hitems]
  | context => simp [whenSelected_ne hselected,contextTable,AddressContext.rows,hitems]

theorem whenSelected_eq_some {α : Type} {table : Table} {value other : α}
    (h : whenSelected table entries value = some other) : value = other := by
  unfold whenSelected at h
  split_ifs at h
  exact Option.some.inj h

theorem runsBatch_cpu {features : UInt64} {names : Option Names} {h : Header}
    {entry : Nat × MixedRun} {entries : List (Nat × MixedRun)} (hv : entry.2.Valid)
    (hentry : entry ∈ entries) : (runsBatch features names h entries).Cpu (streamShape features) := by
  refine ⟨nofun,nofun,runsBatch_hasRows hv hentry,?_,?_,?_,rfl,rfl⟩
  · intro column hcolumn
    obtain rfl := whenSelected_eq_some hcolumn
    rw [runsBatch,tableSequences,tableItems]
    simp only [List.length_map,List.length_flatMap,runItems_length,runSequences,arange,List.length_range]
  · intro table htable
    obtain rfl := whenSelected_eq_some htable
    exact (memoryTable_shape features _).1
  · intro table htable
    obtain rfl := whenSelected_eq_some htable
    exact (memoryTable_shape features _).2

structure OpenFeatures (features : UInt64) : Prop where
  stdio : ¬Has features featureStdio
  kernel : ¬Has features featureKernel
  windows : ¬Has features featureTransitionWindows

def Kind.isReduced : Kind → Bool
  | .blockTransitions | .reducedContext | .observationSummary => true
  | _ => false

/-- A batch of transitions, windows or a reduced observation instead of rows. -/
def Batch.isReport (b : Batch) : Bool :=
  b.transitions.isSome || b.transitionWindow.isSome || b.observationTransitions.isSome ||
    b.observationContext.isSome || b.observationSummary.isSome

/-- What the batch of an accepted frame is: a report of a reduced stream, or rows, a layout or a
filter summary that the collator takes. -/
structure Delivered (features : UInt64) (kind : Kind) (b : Batch) : Prop where
  reduced : Kind.isReduced kind = true → Has features featureObservationReduction ∧ b.contents = 0
  rows : Kind.isReduced kind = false → Collator.WellFormed (fun _ => streamShape features) b
  report : b.isReport = Kind.isReduced kind
  summary : b.observationSummary.isSome = decide (kind = .observationSummary)

theorem delivered_rows {kind : Kind} {b : Batch} (hkind : Kind.isReduced kind = false)
    (hb : Collator.WellFormed (fun _ => streamShape features) b) (hreport : b.isReport = false) :
    Delivered features kind b := by
  refine ⟨fun hreduced => ?_,fun _ => hb,hreport.trans hkind.symm,?_⟩
  · rw [hkind] at hreduced
    cases hreduced
  · have hnone : b.observationSummary.isSome = false := by
      simp only [Batch.isReport,Bool.or_eq_false_iff] at hreport
      exact hreport.2
    rw [hnone,eq_comm,decide_eq_false_iff_not]
    rintro rfl
    cases hkind

theorem runBatch_isReport (features : UInt64) (names : Option Names) (h : Header)
    (entry : Nat × MixedRun) : (runBatch features names h entry).isReport = false := by
  unfold runBatch
  cases entry.2.kind <;> rfl

section Accepted

variable {h : Header} {payload : Bytes} {s t : Stream} {names : Option Names}

theorem batchOf_data (hd : h.kind.isData = true) (hlen : payload.length = payloadSize h)
    (hr : acceptFrame ⟨h,some payload⟩ s = .ok () t)
    (hnames : (s.lanes h.source.toNat).registers ≠ none → names ≠ none) (features : UInt64)
    (hfeatures : features = s.features) (reduced : Bool) :
    ∃ decoded b, decodePayload features h payload = .ok decoded ∧
      batchOf (decodedFrame h decoded) names reduced = .ok b ∧ b.Cpu (streamShape features) ∧
      b.isReport = false := by
  obtain ⟨hv,hframe⟩ := dataFrame_run (acceptFrame_header hr) hd hlen
  rw [← hframe] at hr
  obtain ⟨hwhole,hschema⟩ := acceptFrame_whole hv hr
  rw [← hfeatures] at hwhole
  have hpayload := @decodePayload_run features h (0,⟨h.kind,h.count.toNat,payload⟩) hv
  have hbatch := @batchOf_run features names h (0,⟨h.kind,h.count.toNat,payload⟩) hv hwhole
    (Nat.le_of_lt_succ h.sequence.toNat_lt) (fun hk => hnames (hschema hk)) reduced
  have hheader : ((MixedRun.mk h.kind h.count.toNat payload).frame h 0).header = h :=
    congrArg Frame.header hframe
  unfold runDecoded at hbatch
  dsimp only at hpayload hbatch
  rw [hheader] at hpayload hbatch
  exact ⟨_,_,hpayload,hbatch,runBatch_cpu hv,runBatch_isReport _ _ _ _⟩

theorem batchOf_mixedFrame (hk : h.kind = .mixed) (hlen : payload.length = payloadSize h)
    (hr : acceptFrame ⟨h,some payload⟩ s = .ok () t) (names : Option Names) (reduced : Bool) :
    ∃ decoded b, decodePayload t.features h payload = .ok decoded ∧
      batchOf (decodedFrame h decoded) names reduced = .ok b ∧ b.Cpu (streamShape s.features) ∧
      b.isReport = false := by
  obtain ⟨runs,hruns⟩ := acceptFrame_acceptedRuns hk hlen hr
  obtain ⟨run,rest,rfl⟩ := List.exists_cons_of_ne_nil hruns.nonempty
  have hmem : (0,run) ∈ numbered 0 (run::rest) := List.mem_cons_self
  have hvalid := hruns.valid run List.mem_cons_self
  exact ⟨_,_,hruns.payload,batchOf_mixed hruns.valid hruns.whole hk reduced,
    @runsBatch_cpu s.features names h (0,run) _ hvalid hmem,rfl⟩

theorem decodePayload_bytes (hlen : payload.length = payloadSize h)
    (hk : h.kind = .contextFilter ∨ h.kind = .observationSummary) :
    decodePayload features h payload = .ok (.bytes payload) := by
  have htake : payload.take (payloadSize h) = payload := by rw [← hlen,List.take_length]
  unfold decodePayload
  rcases hk with hk | hk <;> simp only [hk,htake]

theorem filterBatch_ok (hr : ¬FilterFault s payload) :
    ∃ b, filterBatch payload = .ok b ∧ Collator.Immediate b ∧ b.isReport = false := by
  have hreserved : load (payload.drop 12) 4 = 0 := by
    unfold FilterFault at hr
    simp only [not_or] at hr
    omega
  refine ⟨_,if_neg (not_not.mpr hreserved),?_,rfl⟩
  exact ⟨.inr nofun,rfl,rfl,rfl,rfl,rfl⟩

theorem summaryBatch_ok {source : Nat} (hr : ¬SummaryFault s source (loadObservationSummary payload)) :
    ∃ b, summaryBatch source payload = .ok b ∧ b.contents = 0 ∧ b.isReport = true ∧
      b.observationSummary.isSome = true := by
  have hreserved : load (payload.drop 12) 4 = 0 := by
    unfold SummaryFault at hr
    simp only [not_or] at hr
    exact not_not.mp hr.2.2.2.2.2.2.1
  exact ⟨_,if_neg (not_not.mpr hreserved),rfl,rfl,rfl⟩

theorem batchOf_accepted (hopen : OpenFeatures s.features)
    (hk : Kind.isDelivered h.kind = true) (hlen : payload.length = payloadSize h)
    (hr : acceptFrame ⟨h,some payload⟩ s = .ok () t)
    (hnames : (s.lanes h.source.toNat).registers ≠ none → names ≠ none) :
    ∃ decoded b, decodePayload t.features h payload = .ok decoded ∧
      batchOf (decodedFrame h decoded) names (decide (Has s.features featureObservationReduction)) =
        .ok b ∧ Delivered s.features h.kind b := by
  by_cases hmixed : h.kind = .mixed
  · obtain ⟨decoded,b,hdecoded,hbatch,hcpu,hreport⟩ := batchOf_mixedFrame hmixed hlen hr names
      (decide (Has s.features featureObservationReduction))
    refine ⟨decoded,b,hdecoded,hbatch,?_⟩
    rw [hmixed]
    exact delivered_rows rfl (.inl hcpu) hreport
  have hstarted : s.started = true := by
    have hrun := hr
    rw [acceptFrame_of_ne_mixed hmixed] at hrun
    obtain ⟨_,_,⟨_,hfirst,_⟩ | ⟨hs,_⟩⟩ := acceptRun_eq_ok.mp hrun
    · rcases hfirst with hfirst | hfirst <;> rw [hfirst] at hk <;> cases hk
    · exact hs
  have hfeatures := (acceptFrame_features hstarted hr).2.1
  by_cases hd : h.kind.isData = true
  · obtain ⟨decoded,b,hdecoded,hbatch,hcpu,hreport⟩ := batchOf_data hd hlen hr hnames t.features hfeatures
      (decide (Has s.features featureObservationReduction))
    refine ⟨decoded,b,hdecoded,hbatch,?_⟩
    rw [hfeatures] at hcpu
    have hrows : Kind.isReduced h.kind = false := by
      cases hkind : h.kind <;> rw [hkind] at hd <;> first | rfl | cases hd
    exact delivered_rows hrows (.inl hcpu) hreport
  obtain ⟨_,_,haccept⟩ := acceptFrame_opened hstarted hmixed hr
  dsimp only at haccept
  obtain ⟨hlayout,haccept⟩ | ⟨hlayout,_,haccept⟩ := acceptKind_eq_ok.mp haccept
  · refine ⟨.words (decodeWords (payloadSize h/8) payload),
      { emptyBatch none with layout := some ⟨decodeWords (payloadSize h/8) payload⟩ },?_,?_,?_⟩
    · unfold decodePayload
      simp only [hlayout]
    · unfold batchOf decodedFrame
      simp only [hlayout]
    · rw [hlayout]
      exact delivered_rows rfl (.inr ⟨.inl (Option.some_ne_none _),rfl,rfl,rfl,rfl,rfl⟩) rfl
  cases hkind : h.kind <;>
    simp only [hkind,Kind.isDelivered,Kind.isData,Bool.false_eq_true,not_true,ne_eq] at hk hd hmixed hlayout
  all_goals simp only [acceptBody,hkind] at haccept
  case blockTransitions =>
    have hreduced : Has s.features featureObservationReduction :=
      (acceptBlockTransitions_eq_ok.mp haccept).1.resolve_left hopen.windows
    refine ⟨.transitions (decodeTransitions h.count.toNat payload),
      { emptyBatch (some h.source.toNat) with
        observationTransitions := some (decodeTransitions h.count.toNat payload) },?_,?_,
      ⟨fun _ => ⟨hreduced,rfl⟩,fun h => (by cases h),rfl,rfl⟩⟩
    · unfold decodePayload
      simp only [hkind]
    · unfold batchOf decodedFrame
      simp only [hkind,hreduced,decide_true,if_true]
  case reducedContext =>
    have hreduced := (acceptReducedContext_eq_ok.mp haccept).1
    refine ⟨.reducedContext (decodeReducedContext h.count.toNat payload),
      { emptyBatch (some h.source.toNat) with
        observationContext := some (decodeReducedContext h.count.toNat payload) },?_,?_,
      ⟨fun _ => ⟨hreduced,rfl⟩,fun h => (by cases h),rfl,rfl⟩⟩
    · unfold decodePayload
      simp only [hkind]
    · unfold batchOf decodedFrame
      simp only [hkind]
  case observationSummary =>
    obtain ⟨hreduced,_,_,_,hsummary,_⟩ := acceptObservationSummary_eq_ok.mp haccept
    obtain ⟨b,hb,hcontents,hreport,hsome⟩ := @summaryBatch_ok payload s h.source.toNat hsummary
    refine ⟨.bytes payload,b,decodePayload_bytes hlen (.inr hkind),?_,
      ⟨fun _ => ⟨hreduced,hcontents⟩,fun h => (by cases h),hreport,hsome⟩⟩
    unfold batchOf decodedFrame
    simp only [hkind]
    exact hb
  case contextFilter =>
    obtain ⟨_,_,_,_,hfilter,_⟩ := acceptContextFilter_eq_ok.mp haccept
    obtain ⟨b,hb,himmediate,hreport⟩ := filterBatch_ok hfilter
    refine ⟨.bytes payload,b,decodePayload_bytes hlen (.inl hkind),?_,
      delivered_rows rfl (.inr himmediate) hreport⟩
    unfold batchOf decodedFrame
    simp only [hkind]
    exact hb
  case transitionWindow =>
    exact (hopen.windows (acceptTransitionWindow_eq_ok.mp haccept).1).elim

end Accepted

namespace Collator

def Holds (property : Batch → Prop) (c : Collator) : Prop :=
  ∀ key p, c.sources.get? key = some p → ∀ b ∈ p.batches, property b

/-- A property of the first batch is one of the merged batch. -/
def Inherited (property : Batch → Prop) : Prop :=
  ∀ first rest b, mergeBatches first rest = .ok b → property first → property b

variable {b : Batch}

theorem mergeBatches_isReport {first : Batch} {rest : List Batch}
    (h : mergeBatches first rest = .ok b) : b.isReport = first.isReport := by
  unfold mergeBatches at h
  split_ifs at h
  cases hm : mergeMemory (selectTable Batch.memory (first::rest)) with
  | error e =>
    rw [hm] at h
    cases h
  | ok memory =>
    rw [hm] at h
    obtain rfl := Except.ok.inj h
    rfl

theorem inherited_isReport : Inherited fun b => b.isReport = false :=
  fun _ _ _ h hfirst => (mergeBatches_isReport h).trans hfirst

variable {property : Batch → Prop} {c after : Collator} {out : List Batch}

theorem bind_ok {α β : Type} {x : Except ClientError α} {f : α → Except ClientError β} {b : β}
    (h : (x >>= f) = .ok b) : ∃ a, x = .ok a ∧ f a = .ok b := by
  cases x with
  | error e => cases h
  | ok a => exact ⟨a,rfl,h⟩

theorem flush_holds (hp : Inherited property) (hc : c.Holds property) {key : Key}
    {p : PendingSource} (hget : c.sources.get? key = some p) (h : c.flush key p = .ok (after,b)) :
    property b ∧ after.Holds property := by
  obtain ⟨batch,hmerge,h⟩ := bind_ok h
  obtain ⟨rfl,rfl⟩ := Prod.mk.inj (Except.ok.inj h)
  refine ⟨hp _ _ _ hmerge (hc key p hget _ List.mem_cons_self),?_⟩
  intro other q hq
  change (c.sources.pop key).get? other = some q at hq
  rw [Dict.get?_pop] at hq
  split_ifs at hq
  exact hc other q hq

theorem hold_holds (hc : c.Holds property) (hb : property b) :
    (c.hold b).1.Holds property ∧ (c.hold b).1.sources.get? b.key = some (c.hold b).2 := by
  have hget : ∀ key, (c.hold b).1.sources.get? key =
      if b.key = key then some (c.hold b).2 else c.sources.get? key :=
    fun key => Dict.get?_set _ _ _ _
  refine ⟨?_,by rw [hget,if_pos rfl]⟩
  intro key p hp
  rw [hget] at hp
  split_ifs at hp with hkey
  · obtain rfl := Option.some.inj hp
    intro other hother
    unfold hold at hother
    dsimp only at hother
    cases hpending : c.sources.get? b.key with
    | none =>
      rw [hpending] at hother
      rw [List.mem_singleton.mp hother]
      exact hb
    | some pending =>
      rw [hpending] at hother
      change other ∈ pending.batches ++ [b] at hother
      rcases List.mem_append.mp hother with hother | hother
      · exact hc _ _ hpending other hother
      · rw [List.mem_singleton.mp hother]
        exact hb
  · exact hc key p hp

theorem relieve_holds (hp : Inherited property) (passes : Nat) (hc : c.Holds property)
    (h : relieve passes c = .ok (after,out)) : (∀ b ∈ out, property b) ∧ after.Holds property := by
  induction passes generalizing c out with
  | zero =>
    obtain ⟨rfl,rfl⟩ := Prod.mk.inj (Except.ok.inj h)
    exact ⟨by simp,hc⟩
  | succ passes ih =>
    rw [relieve] at h
    cases hentries : c.sources.entries with
    | nil =>
      rw [hentries] at h
      obtain ⟨rfl,rfl⟩ := Prod.mk.inj (Except.ok.inj h)
      exact ⟨by simp,hc⟩
    | cons entry entries =>
      obtain ⟨key,pending⟩ := entry
      rw [hentries] at h
      dsimp only at h
      split_ifs at h
      · have hget : c.sources.get? key = some pending := by
          rw [Dict.get?,hentries,Entries.get?,if_pos rfl]
        obtain ⟨⟨next,batch⟩,hflush,h⟩ := bind_ok h
        obtain ⟨⟨last,more⟩,hrelieve,h⟩ := bind_ok h
        obtain ⟨rfl,rfl⟩ := Prod.mk.inj (Except.ok.inj h)
        obtain ⟨hbatch,hnext⟩ := flush_holds hp hc hget hflush
        obtain ⟨hmore,hlast⟩ := ih hnext hrelieve
        exact ⟨List.forall_mem_cons.mpr ⟨hbatch,hmore⟩,hlast⟩
      · obtain ⟨rfl,rfl⟩ := Prod.mk.inj (Except.ok.inj h)
        exact ⟨by simp,hc⟩

theorem flushAll_holds (hp : Inherited property) (entries : List (Key × PendingSource))
    (hc : c.Holds property) (hentries : c.sources.entries = entries)
    (h : flushAll entries c = .ok (after,out)) : (∀ b ∈ out, property b) ∧ after.Holds property := by
  induction entries generalizing c out with
  | nil =>
    obtain ⟨rfl,rfl⟩ := Prod.mk.inj (Except.ok.inj h)
    exact ⟨by simp,hc⟩
  | cons entry entries ih =>
    obtain ⟨key,pending⟩ := entry
    have hget : c.sources.get? key = some pending := by
      rw [Dict.get?,hentries,Entries.get?,if_pos rfl]
    rw [flushAll] at h
    obtain ⟨⟨next,batch⟩,hflush,h⟩ := bind_ok h
    obtain ⟨⟨last,more⟩,hall,h⟩ := bind_ok h
    obtain ⟨rfl,rfl⟩ := Prod.mk.inj (Except.ok.inj h)
    have hrest : next.sources.entries = entries := by
      obtain ⟨_,_,hnext⟩ := bind_ok hflush
      obtain ⟨rfl,rfl⟩ := Prod.mk.inj (Except.ok.inj hnext)
      change Entries.pop key c.sources.entries = entries
      rw [hentries,Entries.pop,if_pos rfl]
    obtain ⟨hbatch,hnext⟩ := flush_holds hp hc hget hflush
    obtain ⟨hmore,hlast⟩ := ih hnext hrest hall
    exact ⟨List.forall_mem_cons.mpr ⟨hbatch,hmore⟩,hlast⟩

theorem call_holds (hp : Inherited property) {request : Call} (hc : c.Holds property)
    (hadded : ∀ b ∈ request.added, property b) (h : c.call request = .ok (after,out)) :
    (∀ b ∈ out, property b) ∧ after.Holds property := by
  cases request with
  | add b =>
    have hb := hadded b (List.mem_singleton_self b)
    change c.add b = _ at h
    unfold add at h
    split_ifs at h
    · obtain ⟨rfl,rfl⟩ := Prod.mk.inj (Except.ok.inj h)
      exact ⟨hadded,hc⟩
    · obtain ⟨hheld,hget⟩ := hold_holds hc hb
      obtain ⟨⟨next,own⟩,hfull,h⟩ := bind_ok h
      obtain ⟨⟨last,oldest⟩,hrelieve,h⟩ := bind_ok h
      obtain ⟨rfl,rfl⟩ := Prod.mk.inj (Except.ok.inj h)
      have hown : (∀ b ∈ own, property b) ∧ next.Holds property := by
        unfold flushFull at hfull
        split_ifs at hfull
        · obtain ⟨⟨flushed,batch⟩,hflush,hfull⟩ := bind_ok hfull
          obtain ⟨rfl,rfl⟩ := Prod.mk.inj (Except.ok.inj hfull)
          obtain ⟨hbatch,hnext⟩ := flush_holds hp hheld hget hflush
          exact ⟨by simpa using hbatch,hnext⟩
        · obtain ⟨rfl,rfl⟩ := Prod.mk.inj (Except.ok.inj hfull)
          exact ⟨by simp,hheld⟩
      obtain ⟨hmore,hlast⟩ := relieve_holds hp _ hown.2 hrelieve
      exact ⟨List.forall_mem_append.mpr ⟨hown.1,hmore⟩,hlast⟩
  | endSource source worker =>
    change c.endSource source worker = _ at h
    unfold endSource at h
    split at h
    · next pending hget =>
      obtain ⟨⟨next,batch⟩,hflush,h⟩ := bind_ok h
      obtain ⟨rfl,rfl⟩ := Prod.mk.inj (Except.ok.inj h)
      obtain ⟨hbatch,hnext⟩ := flush_holds hp hc hget hflush
      exact ⟨by simpa using hbatch,hnext⟩
    · obtain ⟨rfl,rfl⟩ := Prod.mk.inj (Except.ok.inj h)
      exact ⟨by simp,hc⟩
  | finish => exact flushAll_holds hp _ hc rfl h

end Collator

end Cpu2Tensor.Client
