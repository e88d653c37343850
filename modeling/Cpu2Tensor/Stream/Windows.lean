import Cpu2Tensor.Stream.Sequence
import Cpu2Tensor.Stream.TransitionKeys

/-!
# Transition windows of an accepted trace

Windows are numbered from one, each closes the transition rows accepted since the one before it,
and requests and windows alternate.
-/

namespace Cpu2Tensor
open Library

abbrev SourceRow := Nat × TransitionRow

def Frame.sourceRows (frame : Frame) : List SourceRow :=
  if frame.header.kind = .blockTransitions then
    (loadTransitionRows (frame.payload.getD []) frame.header.count.toNat 0).map fun row =>
      (frame.header.source.toNat,row)
  else []

def openRows (frames : List Frame) : List SourceRow :=
  frames.foldl (fun rows frame =>
    if frame.header.kind = .transitionWindow then [] else rows ++ frame.sourceRows) []

def SourceRow.edge (row : SourceRow) : Edge := (row.1,row.2.fromAddress,row.2.destination)

def countKind (kind : Kind) (frames : List Frame) : Nat :=
  frames.countP fun frame => frame.header.kind = kind

def Frame.window (frame : Frame) : WindowFrame := loadWindowFrame (frame.payload.getD [])

structure WindowFrame.Closes (window : WindowFrame) (rows : List SourceRow) : Prop where
  distinct : window.distinct = rows.length
  unique : (rows.map SourceRow.edge).Nodup
  nonzero : ∀ row ∈ rows, row.2.count ≠ 0
  counted : (rows.map (·.2.count)).sum + window.overflow = window.observed
  declared : ∀ row ∈ rows, row.1 < window.sources
  bounded : ∀ source, (rows.filter (·.1 = source)).length ≤ window.capacity

theorem openRows_snoc (past : List Frame) (frame : Frame) :
    openRows (past ++ [frame]) =
      if frame.header.kind = .transitionWindow then [] else openRows past ++ frame.sourceRows := by
  simp [openRows]

variable {frame hello : Frame} {past : List Frame} {s t : Stream}

private theorem openRows_other (past : List Frame) (hw : frame.header.kind ≠ .transitionWindow)
    (hb : frame.header.kind ≠ .blockTransitions) : openRows (past ++ [frame]) = openRows past := by
  simp [openRows_snoc,hw,Frame.sourceRows,hb]

theorem countKind_append (kind : Kind) (frames frames' : List Frame) :
    countKind kind (frames ++ frames') = countKind kind frames + countKind kind frames' := by
  simp [countKind]

theorem countKind_cons (kind : Kind) (frame : Frame) (frames : List Frame) :
    countKind kind (frame::frames) =
      countKind kind frames + if frame.header.kind = kind then 1 else 0 := by
  simp [countKind,List.countP_cons]

/-- What a stream with transition windows knows about the frames it has accepted. -/
structure WindowLedger (past : List Frame) (s : Stream) : Prop where
  started : s.started = true
  windowed : Has s.features featureTransitionWindows
  unreduced : ¬Has s.features featureObservationReduction
  next : s.nextWindow = countKind .transitionWindow past + 1
  fits : s.nextWindow < 2^64
  table : KeyTable s.nextWindow s.windowKeyCapacity s.windowKeys
    ((openRows past).map SourceRow.edge)
  distinct : s.windowDistinct = (openRows past).length
  unique : ((openRows past).map SourceRow.edge).Nodup
  nonzero : ∀ row ∈ openRows past, row.2.count ≠ 0
  observed : s.windowObserved = ((openRows past).map (·.2.count)).sum
  fitsObserved : s.windowObserved ≤ uint64Max
  perSource : ∀ source, s.windowRowsPerSource source =
    ((openRows past).filter (·.1 = source)).length
  maxSource : ∀ row ∈ openRows past, row.1 < s.windowMaxSourcePlusOne
  expected : countKind .kernelRequest past =
    countKind .transitionWindow past + if s.windowExpected then 1 else 0
  declared : ∀ frame ∈ past, frame.header.kind = .transitionWindow → s.windowSources ≠ 0 ∧
    s.windowSources = frame.window.sources ∧ s.windowCapacityPerSource = frame.window.capacity
  closed : ∀ before frame after, past = before ++ frame::after →
    frame.header.kind = .transitionWindow →
    frame.header.sequence.toNat = countKind .transitionWindow before + 1 ∧
      frame.window.Closes (openRows before)

private theorem closes_of_not_windowFault (hl : WindowLedger past s)
    (hf : ¬WindowFault s frame.window) : frame.window.Closes (openRows past) := by
  simp only [WindowFault,not_or,not_lt,not_not,not_exists,not_and,gt_iff_lt,ne_eq] at hf
  obtain ⟨_,_,hsources,_,_,_,_,_,hrows,hmax,_,hdistinct,hover,hfit,hsum⟩ := hf
  have hobserved : frame.window.observed < 2^64 := by
    exact load_lt (((frame.payload.getD []).drop 24)) 8
  have hdeclared : ∀ row ∈ openRows past, row.1 < frame.window.sources := fun row hrow =>
    (hl.maxSource row hrow).trans_le hmax
  refine ⟨hdistinct.trans hl.distinct,hl.unique,hl.nonzero,?_,hdeclared,fun source => ?_⟩
  · rw [← hl.observed]
    omega
  · by_cases hlt : source < maxSources
    · rw [← hl.perSource]
      exact hrows source hlt
    · have hnone : (openRows past).filter (·.1 = source) = [] := by
        refine List.filter_eq_nil_iff.mpr fun row hrow => ?_
        have := hdeclared row hrow
        simp
        omega
      simp [hnone]

private theorem closed_snoc {P : List Frame → Frame → Prop}
    (hpast : ∀ before old after, past = before ++ old::after →
      old.header.kind = .transitionWindow → P before old)
    (hnew : frame.header.kind = .transitionWindow → P past frame) :
    ∀ before old after, past ++ [frame] = before ++ old::after →
      old.header.kind = .transitionWindow → P before old := by
  intro before old after heq hk
  rcases List.eq_nil_or_concat after with rfl | ⟨init,last,rfl⟩
  · obtain ⟨rfl,hlast⟩ := List.append_inj' heq (by simp)
    obtain rfl := (List.cons.inj hlast).1
    exact hnew hk
  · have hsplit : past ++ [frame] = (before ++ old::init) ++ [last] := by simpa using heq
    obtain ⟨rfl,_⟩ := List.append_inj' hsplit (by simp)
    exact hpast before old init rfl hk

private theorem WindowLedger.quiet (hl : WindowLedger past s)
    (hk : frame.header.kind.isCounter = false) (hc : t.counters = s.counters) :
    WindowLedger (past ++ [frame]) t := by
  have hne : frame.header.kind ≠ .transitionWindow ∧ frame.header.kind ≠ .blockTransitions ∧
      frame.header.kind ≠ .kernelRequest := by
    refine ⟨?_,?_,?_⟩ <;> intro heq <;> simp [heq,Kind.isCounter] at hk
  simp only [Stream.counters,Stream.mk.injEq,true_and,and_true] at hc
  obtain ⟨h₁,h₂,h₃,h₄,h₅,h₆,h₇,h₈,h₉,h₁₀,h₁₁,_,_,_,_,h₁₂⟩ := hc
  refine ⟨?_,?_,?_,?_,?_,?_,?_,?_,?_,?_,?_,?_,?_,?_,?_,
    closed_snoc hl.closed fun hw => absurd hw hne.1⟩ <;>
    simp only [h₁,h₂,h₃,h₄,h₅,h₆,h₇,h₈,h₉,h₁₀,h₁₁,h₁₂,openRows_other past hne.1 hne.2.1,
      countKind_append,countKind_cons,hne,if_false,Nat.add_zero]
  · exact hl.started
  · exact hl.windowed
  · exact hl.unreduced
  · simpa [countKind] using hl.next
  · exact hl.fits
  · exact hl.table
  · exact hl.distinct
  · exact hl.unique
  · exact hl.nonzero
  · exact hl.observed
  · exact hl.fitsObserved
  · exact hl.perSource
  · exact hl.maxSource
  · simpa [countKind] using hl.expected
  · intro old ho hw
    rcases List.mem_append.mp ho with ho | ho
    · exact hl.declared old ho hw
    · exact absurd (List.mem_singleton.mp ho ▸ hw) hne.1

private theorem WindowLedger.request (hl : WindowLedger past s)
    (hk : frame.header.kind = .kernelRequest) (hr : acceptKernelRequest s = .ok () t) :
    s.windowExpected = false ∧ WindowLedger (past ++ [frame]) t := by
  obtain ⟨hfalse,rfl⟩ := (acceptKernelRequest_eq_ok.mp hr).2.2.1 hl.windowed
  have hopen : openRows (past ++ [frame]) = openRows past :=
    openRows_other past (by simp [hk]) (by simp [hk])
  have hexpected := hl.expected
  rw [hfalse] at hexpected
  refine ⟨hfalse,hl.started,hl.windowed,hl.unreduced,?_,hl.fits,?_,?_,?_,?_,?_,hl.fitsObserved,?_,?_,
    ?_,?_,?_⟩
  · simpa [countKind,hk] using hl.next
  · rw [hopen]; exact hl.table
  · rw [hopen]; exact hl.distinct
  · rw [hopen]; exact hl.unique
  · rw [hopen]; exact hl.nonzero
  · rw [hopen]; exact hl.observed
  · rw [hopen]; exact hl.perSource
  · rw [hopen]; exact hl.maxSource
  · simp [hk,countKind] at hexpected ⊢
    exact hexpected
  · intro old ho hw
    rcases List.mem_append.mp ho with ho | ho
    · exact hl.declared old ho hw
    · rw [List.mem_singleton.mp ho,hk] at hw
      cases hw
  · exact closed_snoc hl.closed fun hw => by simp [hk] at hw

private theorem WindowLedger.rows (hl : WindowLedger past s)
    (hk : frame.header.kind = .blockTransitions)
    (hr : acceptBlockTransitions frame.header frame.payload s = .ok () t) :
    WindowLedger (past ++ [frame]) t := by
  obtain ⟨_,_,_,hlt,_,_,_,r,hrows,_,rfl⟩ := acceptBlockTransitions_eq_ok.mp hr
  obtain ⟨hnodup,hnext,hlen,htable⟩ := transitionRows_edges hl.table (by rw [hl.next]; omega)
    (by simpa using hl.distinct) hrows
  obtain ⟨hnonzero,hfit,keys,capacity,rfl⟩ :=
    transitionRows_added (loadTransitionRows_count _ _ _) hrows
  set rows := loadTransitionRows (frame.payload.getD []) frame.header.count.toNat 0 with hdef
  have hopen : openRows (past ++ [frame]) =
      openRows past ++ rows.map fun row => (frame.header.source.toNat,row) := by
    simp [openRows_snoc,hk,Frame.sourceRows,hdef]
  have hedges : (openRows (past ++ [frame])).map SourceRow.edge =
      (openRows past).map SourceRow.edge ++ rowEdges frame.header.source.toNat rows := by
    rw [hopen,List.map_append,List.map_map]
    rfl
  have hcountlen : rows.length = frame.header.count.toNat := by simp [hdef]
  refine ⟨hl.started,hl.windowed,hl.unreduced,?_,hl.fits,?_,?_,?_,?_,?_,?_,?_,?_,?_,?_,?_⟩
  · simpa [countKind,hk,Stream.addRows] using hl.next
  · rw [hedges]
    exact htable
  · rw [hopen]
    simpa [rowEdges] using hlen
  · rw [hedges]
    exact hnodup hl.unique
  · rw [hopen]
    intro row hrow
    rcases List.mem_append.mp hrow with hrow | hrow
    · exact hl.nonzero row hrow
    · obtain ⟨item,hitem,rfl⟩ := List.mem_map.mp hrow
      exact hnonzero item hitem
  · rw [hopen]
    simp [Stream.addRows,hl.observed,countSum,Function.comp_def]
  · exact hfit hl.fitsObserved
  · intro source
    rw [hopen,List.filter_append,List.length_append,← hl.perSource]
    by_cases hs : source = frame.header.source.toNat
    · subst hs
      simp [Stream.addRows,List.filter_map,Function.comp_def,hcountlen]
    · simp [Stream.addRows,hs,List.filter_map,Function.comp_def,Ne.symm hs]
  · rw [hopen]
    intro row hrow
    rcases List.mem_append.mp hrow with hrow | hrow
    · have := hl.maxSource row hrow
      change row.1 < if s.windowMaxSourcePlusOne ≤ frame.header.source.toNat then
        frame.header.source.toNat+1 else s.windowMaxSourcePlusOne
      split <;> omega
    · obtain ⟨item,hitem,rfl⟩ := List.mem_map.mp hrow
      change frame.header.source.toNat < if s.windowMaxSourcePlusOne ≤ frame.header.source.toNat
        then frame.header.source.toNat+1 else s.windowMaxSourcePlusOne
      split <;> omega
  · simpa [countKind,hk,Stream.addRows] using hl.expected
  · intro old ho hw
    rcases List.mem_append.mp ho with ho | ho
    · exact hl.declared old ho hw
    · rw [List.mem_singleton.mp ho,hk] at hw
      cases hw
  · exact closed_snoc hl.closed fun hw => by simp [hk] at hw

private theorem WindowLedger.close {past : List Frame} {frame : Frame} {s t : Stream}
    (hl : WindowLedger past s) (hk : frame.header.kind = .transitionWindow)
    (hr : acceptTransitionWindow frame.header frame.payload s = .ok () t) :
    WindowLedger (past ++ [frame]) t := by
  obtain ⟨_,_,hseq,hexpected,hfault,hne,rfl⟩ := acceptTransitionWindow_eq_ok.mp hr
  have hfault' : ¬WindowFault s frame.window := hfault
  have hopen : openRows (past ++ [frame]) = [] := by simp [openRows_snoc,hk]
  have hnext : (s.nextWindow+1) % 2^64 = s.nextWindow+1 := by
    have := hl.fits
    omega
  have hcloses := closes_of_not_windowFault hl hfault'
  have hcount := hl.expected
  rw [hexpected,if_pos rfl] at hcount
  refine ⟨hl.started,hl.windowed,hl.unreduced,?_,?_,?_,?_,?_,?_,?_,?_,?_,?_,?_,?_,
    closed_snoc hl.closed fun _ => ⟨hseq.trans hl.next,hcloses⟩⟩ <;>
    simp only [hnext,hopen]
  · have := hl.next
    simp [hk,countKind] at this ⊢
    exact this
  · omega
  · exact hl.table.next
  · simp
  · simp
  · simp
  · simp
  · simp
  · simp
  · simp
  · simp [hk,countKind] at hcount ⊢
    exact hcount
  · intro old ho hw
    simp only [WindowFault,not_or,not_and,not_not,ne_eq] at hfault'
    obtain ⟨_,hpos,_,_,_,_,_,_,_,_,hsame,_⟩ := hfault'
    rcases List.mem_append.mp ho with ho | ho
    · have hold := hl.declared old ho hw
      simpa [hold.1] using hold
    · obtain rfl := List.mem_singleton.mp ho
      by_cases hz : s.windowSources = 0
      · simpa [hz] using ⟨hpos,rfl,rfl⟩
      · simpa [hz] using hsame hz

private theorem WindowLedger.step (hl : WindowLedger past s) (hr : acceptFrame frame s = .ok () t) :
    (frame.header.kind = .kernelRequest → s.windowExpected = false) ∧
      WindowLedger (past ++ [frame]) t := by
  by_cases hk : frame.header.kind.isCounter = true
  · obtain ⟨_,hhello,hr⟩ := acceptFrame_counter hl.started hk hr
    cases hkind : frame.header.kind <;>
      simp only [hkind,Kind.isCounter,Bool.false_eq_true,ne_eq,not_true] at hk hhello <;>
      simp only [acceptBody,hkind] at hr
    case kernelRequest =>
      obtain ⟨hfalse,hnext⟩ := hl.request hkind hr
      exact ⟨fun _ => hfalse,hnext⟩
    case blockTransitions => exact ⟨by simp,hl.rows hkind hr⟩
    case transitionWindow => exact ⟨by simp,hl.close hkind hr⟩
    case reducedContext => exact absurd (acceptReducedContext_eq_ok.mp hr).1 hl.unreduced
    case observationSummary => exact absurd (acceptObservationSummary_eq_ok.mp hr).1 hl.unreduced
  · rw [Bool.not_eq_true] at hk
    exact ⟨fun heq => by simp [heq,Kind.isCounter] at hk,hl.quiet hk (acceptFrame_kept hk hr).1⟩

private theorem WindowLedger.run {frames : List Frame} (hl : WindowLedger past s)
    (hr : acceptAll frames s = .ok () t) : WindowLedger (past ++ frames) t :=
  acceptAll_ledger (fun _ _ _ _ _ hl hr => (hl.step hr).2) hl hr

private theorem helloed_windows (hk : hello.header.kind = .hello)
    (hf : headerFault hello.header = none) (hw : Has hello.header.detail featureTransitionWindows) :
    ¬Has hello.header.detail featureObservationReduction ∧
      WindowLedger [hello] (.helloed hello.header) := by
  have hunreduced : ¬Has hello.header.detail featureObservationReduction := fun hreduced =>
    (reduced_of_helloFault (helloFault_of_headerFault hk hf) hreduced).2.2.2.2 hw
  have hopen : openRows [hello] = [] := by simp [openRows,Frame.sourceRows,hk]
  have hcount (kind : Kind) (hne : kind ≠ .hello) : countKind kind [hello] = 0 := by
    simp [countKind,hk,hne.symm]
  rw [helloed_eq hk]
  refine ⟨hunreduced,rfl,hw,hunreduced,by rw [hcount _ (by simp)],by simp,?_,?_,?_,?_,?_,?_,?_,?_,?_,
    ?_,?_⟩
  · rw [hopen]
    exact keyTable_fresh
  · rw [hopen]; rfl
  · simp [hopen]
  · simp [hopen]
  · rw [hopen]; rfl
  · simp [uint64Max]
  · simp [hopen]
  · simp [hopen]
  · rw [hcount _ (by simp),hcount _ (by simp)]
    rfl
  · simp [hk]
  · intro before frame after heq hkind
    have hmem : frame ∈ [hello] := by rw [heq]; simp
    rw [List.mem_singleton.mp hmem,hk] at hkind
    cases hkind

private theorem windowLedger_of_accepted {frames : List Frame}
    (hr : acceptAll frames {} = .ok () t) (hmem : hello ∈ frames)
    (hk : hello.header.kind = .hello) (hw : Has hello.header.detail featureTransitionWindows) :
    WindowLedger frames t := by
  obtain ⟨rest,rfl,hf,hrest,_⟩ := acceptAll_hello hr hmem hk
  exact (helloed_windows hk hf hw).2.run hrest

private theorem balanced_request {before after : List Frame} {request : Frame}
    (hr : acceptAll (before ++ request::after) {} = .ok () t) (hmem : hello ∈ before)
    (hk : hello.header.kind = .hello) (hw : Has hello.header.detail featureTransitionWindows)
    (hrequest : request.header.kind = .kernelRequest) :
    countKind .kernelRequest before = countKind .transitionWindow before := by
  obtain ⟨r,hbefore,hrest⟩ := acceptAll_append.mp hr
  obtain ⟨q,haccept,_⟩ := acceptAll_cons.mp hrest
  have hl := windowLedger_of_accepted hbefore hmem hk hw
  have hexpected := hl.expected
  rwa [(hl.step haccept).1 hrequest] at hexpected

/-- The transition windows of every accepted trace that has them. -/
theorem accepted_windows (frames : List Frame) (hello : Frame) (hmem : hello ∈ frames)
    (hk : hello.header.kind = .hello) (hw : Has hello.header.detail featureTransitionWindows)
    (hr : Accepts frames) :
    (∀ before frame after, frames = before ++ frame::after →
      frame.header.kind = .transitionWindow →
      frame.header.sequence.toNat = countKind .transitionWindow before + 1 ∧
        frame.window.Closes (openRows before)) ∧
    (∀ frame ∈ frames, ∀ other ∈ frames, frame.header.kind = .transitionWindow →
      other.header.kind = .transitionWindow → frame.window.sources = other.window.sources ∧
        frame.window.capacity = other.window.capacity) ∧
    (∀ before first between second after,
      frames = before ++ first::(between ++ second::after) →
      first.header.kind = .kernelRequest → second.header.kind = .kernelRequest →
      countKind .kernelRequest between = 0 → countKind .transitionWindow between = 1) ∧
    ∀ last ∈ frames, last.header.kind = .complete →
      countKind .transitionWindow frames = countKind .kernelRequest frames ∧
      ∀ frame ∈ frames, frame.header.kind = .transitionWindow →
        ∀ source < frame.window.sources,
          ∃ final ∈ frames, final.belongsTo source ∧ final.header.kind = .sourceEnd := by
  obtain ⟨t,hr⟩ := hr
  have hl := windowLedger_of_accepted hr hmem hk hw
  refine ⟨hl.closed,fun frame hf other ho hkf hko => ?_,?_,?_⟩
  · have ha := (hl.declared frame hf hkf).2
    have hb := (hl.declared other ho hko).2
    exact ⟨ha.1.symm.trans hb.1,ha.2.symm.trans hb.2⟩
  · intro before first between second after heq hfirst hsecond hbetween
    obtain ⟨rest,hhead,_⟩ := acceptAll_hello hr hmem hk
    have hbefore : hello ∈ before := by
      cases before with
      | nil =>
        rw [hhead] at heq
        rw [← (List.cons.inj heq).1,hk] at hfirst
        cases hfirst
      | cons head tail =>
        rw [hhead] at heq
        rw [(List.cons.inj heq).1]
        simp
    have h₁ := balanced_request (heq ▸ hr) hbefore hk hw hfirst
    have hsplit : frames = (before ++ first::between) ++ second::after := by
      rw [heq]
      simp
    have h₂ := balanced_request (hsplit ▸ hr) (List.mem_append_left _ hbefore) hk hw hsecond
    simp only [countKind_append,countKind_cons,hfirst,hbetween,if_true,reduceCtorEq,if_false] at h₂
    omega
  · intro last hlast hcomplete
    obtain ⟨rest,hhead,hf,_,hno⟩ := acceptAll_hello hr hmem hk
    have hunreduced : ∀ frame ∈ frames, frame.header.kind = .hello →
        ¬Has frame.header.detail featureObservationReduction := by
      intro frame hframe hkind
      rw [hhead] at hframe
      rcases List.mem_cons.mp hframe with rfl | hframe
      · exact (helloed_windows hk hf hw).1
      · exact absurd hkind (hno frame hframe)
    have hledger := ledger_of_accepted hunreduced hr
    have hfinal : t.windowExpected = false ∧
        ∀ source < t.windowSources, (t.lanes source).ended = true := by
      obtain ⟨r,hfinal⟩ := acceptAll_complete hr hlast hcomplete
      obtain ⟨hwindows,hsources,_,_,_,rfl⟩ := acceptComplete_eq_ok.mp hfinal
      exact ⟨(hwindows hl.windowed).2,hsources⟩
    refine ⟨?_,fun frame hframe hkind source hlt => ?_⟩
    · have := hl.expected
      rw [hfinal.1] at this
      simpa using this.symm
    · refine hledger.sourceEnd hr (hfinal.2 source ?_)
      rwa [(hl.declared frame hframe hkind).2.1]

/-- One action window with a row of source 0, from the request to the end of the trace. -/
def windowTrace : List Frame :=
  [⟨{ kind := .hello, detail := 0x103001 },none⟩,⟨{ kind := .kernelRequest, detail := 1 },none⟩,
    ⟨{ kind := .blockTransitions, count := 1, sequence := 1, detail := 24 },
      some (store 0x1000 8 ++ store 0x2000 8 ++ store 3 8)⟩,
    ⟨{ kind := .transitionWindow, count := 1, sequence := 1, detail := 40 },
      some (store 1 4 ++ store 1 4 ++ store 2 4 ++ store 0 4 ++ store 1 8 ++ store 4 8 ++
        store 1 8)⟩,
    ⟨{ kind := .sourceEnd },none⟩,⟨{ kind := .complete },none⟩]

theorem accepted_windows_one :
    Accepts windowTrace ∧ countKind .transitionWindow windowTrace = 1 ∧
      countKind .transitionWindow windowTrace = countKind .kernelRequest windowTrace := by
  have hr : Accepts windowTrace := by decide +kernel
  exact ⟨hr,by decide,((accepted_windows windowTrace ⟨{ kind := .hello, detail := 0x103001 },none⟩
    (by simp [windowTrace]) rfl (by decide) hr).2.2.2 ⟨{ kind := .complete },none⟩
    (by simp [windowTrace]) rfl).1⟩

end Cpu2Tensor
