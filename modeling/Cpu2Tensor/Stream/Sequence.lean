import Cpu2Tensor.Stream.Global

/-!
# Source sequences of an accepted trace

Without observation reduction the events of every source are numbered from zero without a gap,
a source end carries their total, and nothing follows the end of a source or of the trace.
-/

namespace Cpu2Tensor
open Library

def Kind.isFinal : Kind → Bool
  | .complete | .error | .terminalReport => true
  | _ => false

def Frame.belongsTo (source : Nat) (frame : Frame) : Prop :=
  frame.header.kind.isSource = true ∧ frame.header.source.toNat = source

def Frame.events (frame : Frame) : Nat :=
  if frame.header.kind.isData then frame.header.count.toNat else 0

structure FrameEffect (frame : Frame) (s t : Stream) : Prop where
  unfinished : s.finished = false
  finished : t.finished = frame.header.kind.isFinal
  features : t.features = s.features ∨
    frame.header.kind = .hello ∧ t.features = frame.header.detail
  other : ∀ source, ¬frame.belongsTo source → t.lanes source = s.lanes source
  live : ∀ source, frame.belongsTo source → (s.lanes source).ended = false
  ended : ∀ source, frame.belongsTo source →
    ((t.lanes source).ended = true ↔ frame.header.kind = .sourceEnd)
  sequence : ∀ source, frame.belongsTo source → frame.header.kind ≠ .registerSchema →
    frame.header.sequence.toNat = (s.lanes source).next
  next : ∀ source, frame.belongsTo source →
    (t.lanes source).next = (s.lanes source).next + frame.events
  seen : ∀ source, frame.belongsTo source → source < maxSources ∧ (t.lanes source).seen = true
  allEnded : frame.header.kind = .complete → s.allEnded

variable {frame : Frame} {frames : List Frame} {s t : Stream}

private theorem FrameEffect.global (hk : frame.header.kind.isSource = false)
    (hs : s.finished = false) (hf : t.finished = frame.header.kind.isFinal)
    (hfeatures : t.features = s.features) (hlanes : t.lanes = s.lanes)
    (hc : frame.header.kind = .complete → s.allEnded) : FrameEffect frame s t := by
  have hno (source : Nat) : ¬frame.belongsTo source := fun hb => by simp [Frame.belongsTo,hk] at hb
  exact ⟨hs,hf,.inl hfeatures,fun source _ => by rw [hlanes],fun source hb => absurd hb (hno source),
    fun source hb => absurd hb (hno source),fun source hb => absurd hb (hno source),
    fun source hb => absurd hb (hno source),fun source hb => absurd hb (hno source),hc⟩

variable {h : Header} {past runs : List Frame} {source : Nat}

private theorem count_of_headerFault (hf : headerFault h = none) (hk : h.kind.isSource = true)
    (hd : h.kind.isData = false) (hs : h.kind ≠ .registerSchema) : h.count.toNat = 0 := by
  simp only [headerFault,check_eq_none] at hf
  obtain ⟨_,_,hf⟩ := hf
  cases hkind : h.kind <;>
    simp only [hkind,Kind.isSource,Kind.isData,ne_eq,not_true,reduceCtorEq] at hk hd hs <;>
    simp only [fieldFault,hkind,check_eq_none] at hf <;>
    tauto

private theorem acceptSource_effect (hk : frame.header.kind.isSource = true)
    (hn : s.finished = false) (hf : headerFault frame.header = none)
    (hr : acceptSource frame.header frame.payload s = .ok () t) : FrameEffect frame s t := by
  obtain ⟨lane,hcheck,_,rfl⟩ := acceptSource_eq_ok.mp hr
  obtain ⟨hlive,hended,hnext,hseen,hseq⟩ := checkFrame_lane hcheck
  have hfinal : frame.header.kind.isFinal = false := by
    cases hkind : frame.header.kind <;> simp_all [Kind.isSource,Kind.isFinal]
  refine ⟨hn,by rw [hfinal]; exact hn,.inl rfl,?_,?_,?_,?_,?_,?_,?_⟩
  · intro source hb
    have hne : source ≠ frame.header.source.toNat := fun heq => hb ⟨hk,heq.symm⟩
    simp [Stream.counted,hne]
  · rintro source ⟨_,rfl⟩
    exact hlive
  · rintro source ⟨_,rfl⟩
    by_cases hschema : frame.header.kind = .registerSchema
    · simp [Stream.counted,hschema,hended]
    · simp [Stream.counted,hschema,Lane.commit,hended]
  · rintro source ⟨_,rfl⟩ hschema
    exact hseq hschema
  · rintro source ⟨_,rfl⟩
    by_cases hschema : frame.header.kind = .registerSchema
    · simp [Stream.counted,Frame.events,hschema,Kind.isData,hnext]
    · by_cases hd : frame.header.kind.isData = true
      · simp [Stream.counted,Frame.events,hschema,Lane.commit,hd,hnext]
      · have hzero := count_of_headerFault hf hk (Bool.not_eq_true _ ▸ hd) hschema
        simp [Stream.counted,Frame.events,hschema,Lane.commit,hd,hnext,hzero]
  · rintro source ⟨_,rfl⟩
    refine ⟨source_of_headerFault hf,?_⟩
    by_cases hschema : frame.header.kind = .registerSchema
    · simp [Stream.counted,hschema,hseen hschema]
    · simp [Stream.counted,hschema,Lane.commit]
  · intro hc
    simp [hc,Kind.isSource] at hk

private theorem acceptBody_effect (hreduced : ¬Has s.features featureObservationReduction)
    (hn : s.finished = false) (hf : headerFault frame.header = none)
    (hm : frame.header.kind ≠ .mixed) (hhello : frame.header.kind ≠ .hello)
    (hlayout : frame.header.kind ≠ .executableLayout)
    (hr : acceptBody frame.header frame.payload s = .ok () t) : FrameEffect frame s t := by
  by_cases hk : frame.header.kind.isSource = true
  · rw [acceptBody_source hk] at hr
    exact acceptSource_effect hk hn hf hr
  rw [Bool.not_eq_true] at hk
  cases hkind : frame.header.kind <;>
    simp only [hkind,Kind.isSource,reduceCtorEq,ne_eq,not_true] at hk hm hhello hlayout
  all_goals simp only [acceptBody,hkind] at hr
  case blockTransitions =>
    obtain ⟨_,_,_,_,_,_,_,r,hrows,_,rfl⟩ := acceptBlockTransitions_eq_ok.mp hr
    obtain ⟨_,_,keys,capacity,rfl⟩ := transitionRows_added (loadTransitionRows_count _ _ _) hrows
    exact .global (by rw [hkind]; rfl) hn (by rw [hkind]; exact hn) rfl
      (by simp [Stream.addRows,hreduced]) (by simp [hkind])
  case reducedContext => exact absurd (acceptReducedContext_eq_ok.mp hr).1 hreduced
  case observationSummary => exact absurd (acceptObservationSummary_eq_ok.mp hr).1 hreduced
  case kernelRequest =>
    obtain ⟨_,_,hwindow,hplain⟩ := acceptKernelRequest_eq_ok.mp hr
    by_cases hw : Has s.features featureTransitionWindows
    · obtain ⟨_,rfl⟩ := hwindow hw
      exact .global (by rw [hkind]; rfl) hn (by rw [hkind]; exact hn) rfl rfl (by simp [hkind])
    · obtain rfl := hplain hw
      exact .global (by rw [hkind]; rfl) hn (by rw [hkind]; exact hn) rfl rfl (by simp [hkind])
  case guestEvent =>
    simp only [acceptGuestEvent,bind_eq_ok,exists_unit,get_eq_ok,refuse_eq_ok] at hr
    obtain ⟨_,_,⟨rfl,rfl⟩,_,⟨_,rfl⟩,_,rfl⟩ := hr
    exact .global (by rw [hkind]; rfl) hn (by rw [hkind]; exact hn) rfl rfl (by simp [hkind])
  case transitionWindow =>
    obtain ⟨_,_,_,_,_,_,rfl⟩ := acceptTransitionWindow_eq_ok.mp hr
    exact .global (by rw [hkind]; rfl) hn (by rw [hkind]; exact hn) rfl rfl (by simp [hkind])
  case contextFilter =>
    obtain ⟨_,_,_,_,_,rfl⟩ := acceptContextFilter_eq_ok.mp hr
    exact .global (by rw [hkind]; rfl) hn (by rw [hkind]; exact hn) rfl rfl (by simp [hkind])
  case complete =>
    obtain ⟨_,_,hall,_,_,rfl⟩ := acceptComplete_eq_ok.mp hr
    exact .global (by rw [hkind]; rfl) hn (by rw [hkind]; rfl) rfl rfl fun _ => hall
  all_goals
    obtain rfl := modify_eq_ok.mp hr
    exact .global (by rw [hkind]; rfl) hn (by rw [hkind]; rfl) rfl rfl (by simp [hkind])

/-- The step lemma: the effect of any accepted frame that is not mixed. -/
theorem acceptFrame_effect (hm : frame.header.kind ≠ .mixed)
    (hreduced : ¬Has s.features featureObservationReduction) (hr : acceptFrame frame s = .ok () t) :
    FrameEffect frame s t := by
  rw [acceptFrame_of_ne_mixed hm] at hr
  obtain ⟨hf,hn,⟨_,hk,rfl⟩ | ⟨_,_,hhello,hr⟩⟩ := acceptRun_eq_ok.mp hr
  · have hno (source : Nat) : ¬frame.belongsTo source := fun hb => by
      rcases hk with hk | hk <;> simp [Frame.belongsTo,hk,Kind.isSource] at hb
    refine ⟨hn,?_,?_,fun source _ => ?_,fun source hb => absurd hb (hno source),
      fun source hb => absurd hb (hno source),fun source hb => absurd hb (hno source),
      fun source hb => absurd hb (hno source),fun source hb => absurd hb (hno source),fun hc => ?_⟩
    all_goals rcases hk with hk | hk
    all_goals simp_all [Stream.opened,Kind.isFinal]
  · obtain ⟨hlayout,hr⟩ | ⟨hlayout,_,hr⟩ := acceptKind_eq_ok.mp hr
    · obtain ⟨_,_,_,_,_,rfl⟩ := acceptLayout_eq_ok.mp hr
      exact .global (by rw [hlayout]; rfl) hn (by rw [hlayout]; exact hn) rfl rfl (by simp [hlayout])
    · exact acceptBody_effect hreduced hn hf hm hhello hlayout hr

def runIntervals (source : Nat) (runs : List Frame) : List (Nat × Nat) :=
  runs.filterMap fun run =>
    if run.header.kind.isData = true ∧ run.header.source.toNat = source then
      some (run.header.sequence.toNat,run.header.count.toNat)
    else none

/-- Sequence and count of every batch of events of `source`, in arrival order. -/
def intervals (source : Nat) (frames : List Frame) : List (Nat × Nat) :=
  runIntervals source (frames.flatMap Frame.runs)

/-- Each interval starts where the one before it stops, the first one at `start`. -/
def Consecutive : Nat → List (Nat × Nat) → Prop
  | _, [] => True
  | start, (sequence,count)::rest => sequence = start ∧ Consecutive (start+count) rest

def eventTotal (list : List (Nat × Nat)) : Nat := (list.map Prod.snd).sum

theorem Consecutive.snoc {start sequence count : Nat} {list : List (Nat × Nat)}
    (h : Consecutive start list) (hs : sequence = start + eventTotal list) :
    Consecutive start (list ++ [(sequence,count)]) := by
  induction list generalizing start with
  | nil => exact ⟨by simpa [eventTotal] using hs,trivial⟩
  | cons head rest ih =>
    refine ⟨h.1,ih h.2 ?_⟩
    simp only [eventTotal,List.map_cons,List.sum_cons] at hs ⊢
    omega

private theorem runIntervals_snoc (source : Nat) (past : List Frame) (frame : Frame) :
    runIntervals source (past ++ [frame]) = runIntervals source past ++
      if frame.header.kind.isData = true ∧ frame.header.source.toNat = source then
        [(frame.header.sequence.toNat,frame.header.count.toNat)]
      else [] := by
  simp only [runIntervals,List.filterMap_append,List.filterMap_cons,List.filterMap_nil]
  split <;> simp_all

private theorem eventTotal_snoc (source : Nat) (past : List Frame) (frame : Frame)
    (hb : frame.belongsTo source) :
    eventTotal (runIntervals source (past ++ [frame])) =
      eventTotal (runIntervals source past) + frame.events := by
  rw [runIntervals_snoc]
  by_cases hd : frame.header.kind.isData = true <;>
    simp [eventTotal,Frame.events,hd,hb.2]

private theorem runIntervals_other (past : List Frame) (hb : ¬frame.belongsTo source) :
    runIntervals source (past ++ [frame]) = runIntervals source past := by
  have hno : ¬(frame.header.kind.isData = true ∧ frame.header.source.toNat = source) :=
    fun hd => hb ⟨Kind.isSource_of_isData hd.1,hd.2⟩
  rw [runIntervals_snoc,if_neg hno,List.append_nil]

/-- What a stream knows about the unmixed frames it has accepted. -/
structure Ledger (past : List Frame) (s : Stream) : Prop where
  unreduced : ¬Has s.features featureObservationReduction
  finished : ∀ frame ∈ past, frame.header.kind.isFinal = true → s.finished = true
  next : ∀ source, (s.lanes source).next = eventTotal (runIntervals source past)
  consecutive : ∀ source, Consecutive 0 (runIntervals source past)
  ended : ∀ source, (s.lanes source).ended = true ↔
    ∃ frame ∈ past, frame.belongsTo source ∧ frame.header.kind = .sourceEnd
  seen : ∀ frame ∈ past, ∀ source, frame.belongsTo source →
    source < maxSources ∧ (s.lanes source).seen = true
  totals : ∀ frame ∈ past, frame.header.kind = .sourceEnd → frame.header.sequence.toNat =
    eventTotal (runIntervals frame.header.source.toNat past)
  silent : past.Pairwise fun frame later => frame.header.kind = .sourceEnd →
    ¬later.belongsTo frame.header.source.toNat
  complete : ∀ frame ∈ past, frame.header.kind = .complete →
    ∀ other ∈ past, ∀ source, other.belongsTo source → (s.lanes source).ended = true

theorem ledger_fresh : Ledger [] {} := by
  refine ⟨by decide,?_,fun _ => rfl,fun _ => trivial,?_,?_,?_,.nil,?_⟩ <;> simp

private theorem mem_snoc {α : Type} {a b : α} {list : List α} :
    a ∈ list ++ [b] ↔ a ∈ list ∨ a = b := by simp

/-- The step lemma of the ledger. -/
theorem Ledger.step (hl : Ledger past s) (he : FrameEffect frame s t)
    (hhello : frame.header.kind = .hello → ¬Has frame.header.detail featureObservationReduction) :
    Ledger (past ++ [frame]) t := by
  have hopen : ∀ old ∈ past, old.header.kind.isFinal = false := by
    intro old ho
    by_contra hfinal
    have := hl.finished old ho (by simpa using hfinal)
    rw [he.unfinished] at this
    cases this
  have hlive : ∀ old ∈ past, old.header.kind = .sourceEnd →
      ¬frame.belongsTo old.header.source.toNat := by
    intro old ho hend hb
    have hended := (hl.ended old.header.source.toNat).mpr
      ⟨old,ho,⟨by rw [hend]; rfl,rfl⟩,hend⟩
    rw [he.live _ hb] at hended
    cases hended
  refine ⟨?_,?_,?_,?_,?_,?_,?_,?_,?_⟩
  · rcases he.features with hsame | ⟨hk,hnew⟩
    · rw [hsame]
      exact hl.unreduced
    · rw [hnew]
      exact hhello hk
  · intro old ho hfinal
    rcases mem_snoc.mp ho with ho | rfl
    · simp [hopen old ho] at hfinal
    · rw [he.finished,hfinal]
  · intro source
    by_cases hb : frame.belongsTo source
    · rw [he.next source hb,eventTotal_snoc source past frame hb,hl.next]
    · rw [he.other source hb,runIntervals_other past hb,hl.next]
  · intro source
    by_cases hd : frame.header.kind.isData = true ∧ frame.header.source.toNat = source
    · rw [runIntervals_snoc,if_pos hd]
      refine (hl.consecutive source).snoc ?_
      have hschema : frame.header.kind ≠ .registerSchema := fun heq => by
        simp [heq,Kind.isData] at hd
      rw [he.sequence source ⟨Kind.isSource_of_isData hd.1,hd.2⟩ hschema,hl.next,Nat.zero_add]
    · rw [runIntervals_snoc,if_neg hd,List.append_nil]
      exact hl.consecutive source
  · intro source
    by_cases hb : frame.belongsTo source
    · rw [he.ended source hb]
      constructor
      · exact fun hend => ⟨frame,by simp,hb,hend⟩
      · rintro ⟨old,ho,hold,hend⟩
        rcases mem_snoc.mp ho with ho | rfl
        · exact absurd (hold.2 ▸ hb) (hlive old ho hend)
        · exact hend
    · rw [he.other source hb,hl.ended]
      constructor
      · rintro ⟨old,ho,hold⟩
        exact ⟨old,by simp [ho],hold⟩
      · rintro ⟨old,ho,hold⟩
        rcases mem_snoc.mp ho with ho | rfl
        · exact ⟨old,ho,hold⟩
        · exact absurd hold.1 hb
  · intro old ho source hold
    by_cases hb : frame.belongsTo source
    · exact he.seen source hb
    · rw [he.other source hb]
      rcases mem_snoc.mp ho with ho | rfl
      · exact hl.seen old ho source hold
      · exact absurd hold hb
  · intro old ho hend
    rcases mem_snoc.mp ho with ho | rfl
    · rw [runIntervals_other past (hlive old ho hend)]
      exact hl.totals old ho hend
    · have hb : old.belongsTo old.header.source.toNat := ⟨by rw [hend]; rfl,rfl⟩
      rw [eventTotal_snoc _ past old hb,he.sequence _ hb (by simp [hend]),hl.next]
      simp [Frame.events,hend,Kind.isData]
  · refine List.pairwise_append.mpr ⟨hl.silent,List.pairwise_singleton _ _,?_⟩
    intro old ho later hlater hend
    rw [List.mem_singleton.mp hlater]
    exact hlive old ho hend
  · intro old ho hcomplete other hother source hbelongs
    rcases mem_snoc.mp ho with ho | rfl
    · have := hopen old ho
      simp [hcomplete,Kind.isFinal] at this
    · have hno : ¬old.belongsTo source := fun hb => by
        simp [Frame.belongsTo,hcomplete,Kind.isSource] at hb
      rcases mem_snoc.mp hother with hother | rfl
      · obtain ⟨hlt,hseen⟩ := hl.seen other hother source hbelongs
        rw [he.other source hno]
        exact he.allEnded hcomplete source hlt hseen
      · exact absurd hbelongs hno

private theorem Ledger.run (hl : Ledger past s) (hmixed : ∀ run ∈ runs, run.header.kind ≠ .mixed)
    (hhello : ∀ run ∈ runs, run.header.kind = .hello →
      ¬Has run.header.detail featureObservationReduction) (hr : acceptAll runs s = .ok () t) :
    Ledger (past ++ runs) t := by
  refine acceptAll_ledger (fun run hrun past s t hl hr => ?_) hl hr
  exact hl.step (acceptFrame_effect (hmixed run hrun) hl.unreduced hr) (hhello run hrun)

private theorem acceptFrame_final (hk : frame.header.kind.isFinal = true)
    (hr : acceptFrame frame s = .ok () t) : t.finished = true := by
  have hm : frame.header.kind ≠ .mixed := fun heq => by simp [heq,Kind.isFinal] at hk
  rw [acceptFrame_of_ne_mixed hm] at hr
  obtain ⟨_,_,⟨_,hopen,rfl⟩ | ⟨_,_,_,hr⟩⟩ := acceptRun_eq_ok.mp hr
  · rcases hopen with hopen | hopen <;> simp_all [Stream.opened,Kind.isFinal]
  · obtain ⟨hlayout,_⟩ | ⟨_,_,hr⟩ := acceptKind_eq_ok.mp hr
    · simp [hlayout,Kind.isFinal] at hk
    · cases hkind : frame.header.kind <;>
        simp only [hkind,Kind.isFinal,Bool.false_eq_true] at hk <;>
        simp only [acceptBody,hkind] at hr
      case complete => rw [(acceptComplete_eq_ok.mp hr).2.2.2.2.2]
      all_goals rw [modify_eq_ok.mp hr]

theorem acceptAll_final_last (hr : acceptAll frames s = .ok () t) :
    frames.Pairwise fun frame _ => frame.header.kind.isFinal = false := by
  induction frames generalizing s with
  | nil => exact .nil
  | cons frame frames ih =>
    obtain ⟨r,hhead,htail⟩ := acceptAll_cons.mp hr
    refine List.pairwise_cons.mpr ⟨fun later hlater => ?_,ih htail⟩
    cases frames with
    | nil => cases hlater
    | cons second rest =>
      obtain ⟨_,hsecond,_⟩ := acceptAll_cons.mp htail
      have hopen := acceptFrame_unfinished hsecond
      by_contra hkind
      rw [acceptFrame_final (by simpa using hkind) hhead] at hopen
      cases hopen

/-- The state of a completed trace is the one its Complete frame was checked against. -/
theorem acceptAll_complete {last : Frame} (hr : acceptAll frames s = .ok () t)
    (hmem : last ∈ frames) (hk : last.header.kind = .complete) :
    ∃ r, acceptComplete r = .ok () t := by
  have hfinal := acceptAll_final_last hr
  obtain ⟨before,after,rfl⟩ := List.append_of_mem hmem
  rw [List.pairwise_append,List.pairwise_cons] at hfinal
  obtain ⟨_,⟨hafter,_⟩,_⟩ := hfinal
  obtain rfl : after = [] := List.eq_nil_iff_forall_not_mem.mpr fun later hlater => by
    simpa [hk,Kind.isFinal] using hafter later hlater
  obtain ⟨r,_,hend⟩ := acceptAll_append.mp hr
  have hlast : acceptFrame last r = .ok () t := by simpa using hend
  rw [acceptFrame_of_ne_mixed (by simp [hk])] at hlast
  obtain ⟨_,_,⟨_,hopen,_⟩ | ⟨_,_,_,hlast⟩⟩ := acceptRun_eq_ok.mp hlast
  · simp [hk] at hopen
  obtain ⟨hlayout,_⟩ | ⟨_,_,hlast⟩ := acceptKind_eq_ok.mp hlast
  · simp [hk] at hlayout
  simp only [acceptBody,hk] at hlast
  exact ⟨r,hlast⟩

/-- The flags of the whole trace after a frame of an opened stream. -/
structure FlagEffect (kind : Kind) (s t : Stream) : Prop where
  started : t.started = s.started
  features : t.features = s.features
  version : t.version = s.version
  finished : t.finished = kind.isFinal
  layoutSeen : t.layoutSeen = (s.layoutSeen || decide (kind = .executableLayout))

private theorem acceptBody_flags {bytes : Option Bytes} (hn : s.finished = false)
    (hm : h.kind ≠ .mixed) (hhello : h.kind ≠ .hello) (hl : h.kind ≠ .executableLayout)
    (hr : acceptBody h bytes s = .ok () t) : FlagEffect h.kind s t := by
  have hkeep (hfinal : h.kind.isFinal = false) {u : Stream} (hstarted : u.started = s.started)
      (hfeatures : u.features = s.features) (hversion : u.version = s.version)
      (hfinished : u.finished = s.finished) (hlayout : u.layoutSeen = s.layoutSeen) :
      FlagEffect h.kind s u :=
    ⟨hstarted,hfeatures,hversion,by rw [hfinished,hn,hfinal],by simp [hlayout,hl]⟩
  by_cases hk : h.kind.isSource = true
  · rw [acceptBody_source hk] at hr
    obtain ⟨lane,_,_,rfl⟩ := acceptSource_eq_ok.mp hr
    refine hkeep ?_ rfl rfl rfl rfl rfl
    cases hkind : h.kind <;> simp_all [Kind.isSource,Kind.isFinal]
  cases hkind : h.kind <;>
    simp only [hkind,Kind.isSource,not_true,reduceCtorEq,ne_eq] at hk hm hhello hl
  all_goals simp only [acceptBody,hkind] at hr
  all_goals rw [hkind] at hkeep
  case blockTransitions =>
    obtain ⟨_,_,_,_,_,_,_,r,hrows,_,rfl⟩ := acceptBlockTransitions_eq_ok.mp hr
    obtain ⟨_,_,keys,capacity,rfl⟩ := transitionRows_added (loadTransitionRows_count _ _ _) hrows
    exact hkeep rfl rfl rfl rfl rfl rfl
  case reducedContext =>
    obtain ⟨_,_,_,_,_,_,_,_,_,rfl⟩ := acceptReducedContext_eq_ok.mp hr
    exact hkeep rfl rfl rfl rfl rfl rfl
  case observationSummary =>
    obtain ⟨_,_,_,_,_,rfl⟩ := acceptObservationSummary_eq_ok.mp hr
    exact hkeep rfl rfl rfl rfl rfl rfl
  case kernelRequest =>
    obtain ⟨_,_,hwindow,hplain⟩ := acceptKernelRequest_eq_ok.mp hr
    by_cases hw : Has s.features featureTransitionWindows
    · obtain ⟨_,rfl⟩ := hwindow hw
      exact hkeep rfl rfl rfl rfl rfl rfl
    · obtain rfl := hplain hw
      exact hkeep rfl rfl rfl rfl rfl rfl
  case guestEvent =>
    simp only [acceptGuestEvent,bind_eq_ok,exists_unit,get_eq_ok,refuse_eq_ok] at hr
    obtain ⟨_,_,⟨rfl,rfl⟩,_,⟨_,rfl⟩,_,rfl⟩ := hr
    exact hkeep rfl rfl rfl rfl rfl rfl
  case transitionWindow =>
    obtain ⟨_,_,_,_,_,_,rfl⟩ := acceptTransitionWindow_eq_ok.mp hr
    exact hkeep rfl rfl rfl rfl rfl rfl
  case contextFilter =>
    obtain ⟨_,_,_,_,_,rfl⟩ := acceptContextFilter_eq_ok.mp hr
    exact hkeep rfl rfl rfl rfl rfl rfl
  case complete =>
    obtain ⟨_,_,_,_,_,rfl⟩ := acceptComplete_eq_ok.mp hr
    exact ⟨rfl,rfl,rfl,rfl,by simp⟩
  all_goals
    obtain rfl := modify_eq_ok.mp hr
    exact ⟨rfl,rfl,rfl,rfl,by simp⟩

private theorem acceptKind_flags (hn : s.finished = false) (hm : frame.header.kind ≠ .mixed)
    (hhello : frame.header.kind ≠ .hello)
    (hr : acceptKind frame.header frame.payload s = .ok () t) :
    FlagEffect frame.header.kind s t := by
  obtain ⟨hlayout,hr⟩ | ⟨hlayout,_,hr⟩ := acceptKind_eq_ok.mp hr
  · obtain ⟨_,_,_,_,_,rfl⟩ := acceptLayout_eq_ok.mp hr
    exact ⟨rfl,rfl,rfl,by rw [hlayout]; exact hn,by simp [hlayout]⟩
  · exact acceptBody_flags hn hm hhello hlayout hr

private theorem dataRuns_flags (hs : s.started = true) (hn : s.finished = false)
    (hdata : ∀ run ∈ runs, run.header.kind.isData = true) (hr : acceptAll runs s = .ok () t) :
    FlagEffect .mixed s t := by
  induction runs generalizing s with
  | nil =>
    obtain rfl := acceptAll_nil.mp hr
    exact ⟨rfl,rfl,rfl,hn,by simp⟩
  | cons run runs ih =>
    obtain ⟨r,hhead,htail⟩ := acceptAll_cons.mp hr
    obtain ⟨hd,hds⟩ := List.forall_mem_cons.mp hdata
    have hkind : run.header.kind ≠ .mixed ∧ run.header.kind.isFinal = false ∧
        run.header.kind ≠ .executableLayout := by
      cases hkind : run.header.kind <;> simp_all [Kind.isData,Kind.isFinal]
    obtain ⟨_,hhello,hhead⟩ := acceptFrame_opened hs hkind.1 hhead
    have hstep := acceptKind_flags hn hkind.1 hhello hhead
    have hrest := ih (hstep.started.trans hs) (hstep.finished.trans hkind.2.1) hds htail
    refine ⟨hrest.started.trans hstep.started,hrest.features.trans hstep.features,
      hrest.version.trans hstep.version,hrest.finished,?_⟩
    rw [hrest.layoutSeen,hstep.layoutSeen]
    simp [hkind.2.2]

theorem acceptFrame_flags (hs : s.started = true) (hr : acceptFrame frame s = .ok () t) :
    FlagEffect frame.header.kind s t := by
  have hn := acceptFrame_unfinished hr
  by_cases hm : frame.header.kind = .mixed
  · obtain ⟨_,hruns,hdata⟩ := acceptFrame_mixed hm hr
    rw [hm]
    exact dataRuns_flags hs hn (fun run hrun => (hdata run hrun).1) hruns
  · obtain ⟨_,hhello,hr⟩ := acceptFrame_opened hs hm hr
    exact acceptKind_flags hn hm hhello hr

theorem acceptAll_flags (hs : s.started = true) (hr : acceptAll frames s = .ok () t) :
    t.started = true ∧ t.features = s.features ∧ t.version = s.version ∧
      (t.finished = true ↔ s.finished = true ∨ ∃ frame ∈ frames, frame.header.kind.isFinal = true) ∧
      (t.layoutSeen = true ↔
        s.layoutSeen = true ∨ ∃ frame ∈ frames, frame.header.kind = .executableLayout) := by
  induction frames generalizing s with
  | nil =>
    obtain rfl := acceptAll_nil.mp hr
    simp [hs]
  | cons frame frames ih =>
    obtain ⟨r,hhead,htail⟩ := acceptAll_cons.mp hr
    have hstep := acceptFrame_flags hs hhead
    obtain ⟨hstarted,hfeatures,hversion,hfinished,hlayout⟩ := ih (hstep.started.trans hs) htail
    refine ⟨hstarted,hfeatures.trans hstep.features,hversion.trans hstep.version,?_,?_⟩
    · rw [hfinished,hstep.finished,acceptFrame_unfinished hhead]
      simp
    · rw [hlayout,hstep.layoutSeen]
      simp [or_assoc]

private theorem mem_runs (hm : frame.header.kind ≠ .mixed) (hf : frame ∈ frames) :
    frame ∈ frames.flatMap Frame.runs :=
  List.mem_flatMap.mpr ⟨frame,hf,by simp [Frame.runs,hm]⟩

/-- The run lemma: the ledger of every trace without observation reduction. -/
theorem ledger_of_accepted (hhello : ∀ frame ∈ frames, frame.header.kind = .hello →
      ¬Has frame.header.detail featureObservationReduction) (hr : acceptAll frames {} = .ok () t) :
    Ledger (frames.flatMap Frame.runs) t := by
  obtain ⟨hruns,hkinds⟩ := acceptAll_runs hr
  refine Ledger.run ledger_fresh (fun run hrun => (hkinds run hrun).1) (fun run hrun hk => ?_) hruns
  rcases (hkinds run hrun).2 with hd | hmem
  · simp [hk,Kind.isData] at hd
  · exact hhello run hmem hk

/-- A source whose lane has ended was ended by a frame of the trace. -/
theorem Ledger.sourceEnd (hl : Ledger (frames.flatMap Frame.runs) t)
    (hr : acceptAll frames s = .ok () t) (he : (t.lanes source).ended = true) :
    ∃ last ∈ frames, last.belongsTo source ∧ last.header.kind = .sourceEnd := by
  obtain ⟨last,hlast,hb,hend⟩ := (hl.ended source).mp he
  rcases ((acceptAll_runs hr).2 last hlast).2 with hd | hmem
  · simp [hend,Kind.isData] at hd
  · exact ⟨last,hmem,hb,hend⟩

/-- The source sequences of every trace a fresh stream accepts without observation reduction. -/
theorem accepted_sequences (frames : List Frame)
    (hhello : ∀ frame ∈ frames, frame.header.kind = .hello →
      ¬Has frame.header.detail featureObservationReduction) (hr : Accepts frames) :
    (∀ source, Consecutive 0 (intervals source frames)) ∧
    (∀ frame ∈ frames, frame.header.kind = .sourceEnd → frame.header.sequence.toNat =
      eventTotal (intervals frame.header.source.toNat frames)) ∧
    ((frames.flatMap Frame.runs).Pairwise fun frame later => frame.header.kind = .sourceEnd →
      ¬later.belongsTo frame.header.source.toNat) ∧
    (∀ frame ∈ frames, frame.header.kind = .complete →
      ∀ other ∈ frames.flatMap Frame.runs, ∀ source, other.belongsTo source →
        ∃ last ∈ frames, last.belongsTo source ∧ last.header.kind = .sourceEnd) ∧
    frames.Pairwise fun frame _ => frame.header.kind.isFinal = false := by
  obtain ⟨t,hr⟩ := hr
  have hledger := ledger_of_accepted hhello hr
  refine ⟨hledger.consecutive,fun frame hf hend => ?_,hledger.silent,?_,acceptAll_final_last hr⟩
  · exact hledger.totals frame (mem_runs (by simp [hend]) hf) hend
  · intro frame hf hcomplete other hother source hbelongs
    exact hledger.sourceEnd hr (hledger.complete frame (mem_runs (by simp [hcomplete]) hf) hcomplete
      other hother source hbelongs)

/-- A block and a memory access in one mixed frame, the source end and the end of the trace. -/
def mixedTrace : List Frame :=
  [⟨{ kind := .hello, detail := 0x40101 },none⟩,
    ⟨{ kind := .mixed, count := 2, detail := 48 },
      some (store Kind.blocks.code 2 ++ store 1 2 ++ store 8 4 ++ store 0x1000 8 ++
        (store Kind.memory.code 2 ++ store 1 2 ++ store 24 4 ++ store 0x1000 8 ++
          store 0x8000 8 ++ store 4 4 ++ store 0 4))⟩,
    ⟨{ kind := .sourceEnd, sequence := 2 },none⟩,⟨{ kind := .complete },none⟩]

theorem accepted_sequences_mixed :
    Accepts mixedTrace ∧ Consecutive 0 (intervals 0 mixedTrace) ∧
      intervals 0 mixedTrace = [(0,1),(1,1)] := by
  have hr : Accepts mixedTrace := by decide +kernel
  exact ⟨hr,(accepted_sequences mixedTrace (by decide) hr).1 0,by decide +kernel⟩

end Cpu2Tensor
