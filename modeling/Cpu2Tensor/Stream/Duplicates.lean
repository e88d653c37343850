import Cpu2Tensor.Stream.Windows

/-!
# Duplicate transition rows

After any accepted history the key table holds the rows of the open window and nothing else.
-/

namespace Cpu2Tensor
open Library

structure KeyLedger (past : List Frame) (s : Stream) : Prop where
  opened : 1 ≤ s.nextWindow
  fits : s.nextWindow < 2^64
  table : KeyTable s.nextWindow s.windowKeyCapacity s.windowKeys
    ((openRows past).map SourceRow.edge)
  distinct : s.windowDistinct = (openRows past).length

theorem keyLedger_fresh : KeyLedger [] {} :=
  ⟨le_rfl,by decide,keyTable_fresh,rfl⟩

section Steps

variable {past : List Frame} {frame : Frame} {s t : Stream}

private theorem KeyLedger.quiet (hl : KeyLedger past s)
    (hk : frame.header.kind ≠ .transitionWindow ∧ frame.header.kind ≠ .blockTransitions)
    (hn : t.nextWindow = s.nextWindow) (hd : t.windowDistinct = s.windowDistinct)
    (hkeys : t.windowKeys = s.windowKeys) (hc : t.windowKeyCapacity = s.windowKeyCapacity) :
    KeyLedger (past ++ [frame]) t := by
  have hopen : openRows (past ++ [frame]) = openRows past := by
    simp [openRows_snoc,hk,Frame.sourceRows]
  constructor
  · exact hn ▸ hl.opened
  · exact hn ▸ hl.fits
  · rw [hopen,hn,hkeys,hc]
    exact hl.table
  · rw [hopen,hd]
    exact hl.distinct

private theorem KeyLedger.rows (hl : KeyLedger past s)
    (hk : frame.header.kind = .blockTransitions)
    (hr : acceptBlockTransitions frame.header frame.payload s = .ok () t) :
    KeyLedger (past ++ [frame]) t := by
  obtain ⟨_,_,_,_,_,_,_,r,hrows,_,rfl⟩ := acceptBlockTransitions_eq_ok.mp hr
  obtain ⟨_,hnext,hlen,htable⟩ := transitionRows_edges hl.table hl.opened
    (by simpa using hl.distinct) hrows
  have hopen : (openRows (past ++ [frame])).map SourceRow.edge =
      (openRows past).map SourceRow.edge ++ rowEdges frame.header.source.toNat
        (loadTransitionRows (frame.payload.getD []) frame.header.count.toNat 0) := by
    simp [openRows_snoc,hk,Frame.sourceRows,rowEdges,SourceRow.edge,Function.comp_def]
  constructor
  · exact hnext ▸ hl.opened
  · exact hnext ▸ hl.fits
  · rw [hopen]
    exact htable
  · rw [← List.length_map SourceRow.edge,hopen]
    exact hlen

private theorem KeyLedger.close (hl : KeyLedger past s)
    (hk : frame.header.kind = .transitionWindow)
    (hr : acceptTransitionWindow frame.header frame.payload s = .ok () t) :
    KeyLedger (past ++ [frame]) t := by
  obtain ⟨_,_,_,_,_,hne,rfl⟩ := acceptTransitionWindow_eq_ok.mp hr
  have hopen : openRows (past ++ [frame]) = [] := by simp [openRows_snoc,hk]
  have hnext : (s.nextWindow+1) % 2^64 = s.nextWindow+1 := by
    have := hl.fits
    omega
  constructor
  · dsimp only
    omega
  · exact Nat.mod_lt _ (by norm_num)
  · rw [hopen]
    dsimp only
    rw [hnext]
    exact hl.table.next
  · rw [hopen]
    rfl

private theorem KeyLedger.step (hl : KeyLedger past s) (hr : acceptFrame frame s = .ok () t) :
    KeyLedger (past ++ [frame]) t := by
  by_cases hk : frame.header.kind.isCounter = true
  · have hm : frame.header.kind ≠ .mixed := fun heq => by simp [heq,Kind.isCounter] at hk
    cases hs : s.started with
    | false =>
      -- Only a Hello opens a stream, and it says nothing about windows.
      rw [acceptFrame_of_ne_mixed hm] at hr
      obtain ⟨_,_,⟨_,hopen,rfl⟩ | ⟨hno,_⟩⟩ := acceptRun_eq_ok.mp hr
      · have hkinds : frame.header.kind ≠ .transitionWindow ∧
            frame.header.kind ≠ .blockTransitions := by
          rcases hopen with hopen | hopen <;> simp [hopen]
        unfold Stream.opened
        split <;> exact hl.quiet hkinds rfl rfl rfl rfl
      · simp [hs] at hno
    | true =>
      obtain ⟨_,hhello,hr⟩ := acceptFrame_counter hs hk hr
      cases hkind : frame.header.kind <;>
        simp only [hkind,Kind.isCounter,Bool.false_eq_true,ne_eq,not_true] at hk hhello <;>
        simp only [acceptBody,hkind] at hr
      case blockTransitions => exact hl.rows hkind hr
      case transitionWindow => exact hl.close hkind hr
      case reducedContext =>
        obtain ⟨_,_,_,_,_,_,_,_,_,rfl⟩ := acceptReducedContext_eq_ok.mp hr
        exact hl.quiet (by simp [hkind]) rfl rfl rfl rfl
      case observationSummary =>
        obtain ⟨_,_,_,_,_,rfl⟩ := acceptObservationSummary_eq_ok.mp hr
        exact hl.quiet (by simp [hkind]) rfl rfl rfl rfl
      case kernelRequest =>
        obtain ⟨_,_,hwindow,hplain⟩ := acceptKernelRequest_eq_ok.mp hr
        by_cases hw : Has s.features featureTransitionWindows
        · obtain ⟨_,rfl⟩ := hwindow hw
          exact hl.quiet (by simp [hkind]) rfl rfl rfl rfl
        · obtain rfl := hplain hw
          exact hl.quiet (by simp [hkind]) rfl rfl rfl rfl
  · rw [Bool.not_eq_true] at hk
    have hkinds : frame.header.kind ≠ .transitionWindow ∧
        frame.header.kind ≠ .blockTransitions := by
      constructor <;> intro heq <;> simp [heq,Kind.isCounter] at hk
    have hcounters := (acceptFrame_kept hk hr).1
    have hsame {α : Type} (field : Stream → α) : field t.counters = field s.counters :=
      congrArg field hcounters
    exact hl.quiet hkinds (hsame Stream.nextWindow) (hsame Stream.windowDistinct)
      (hsame Stream.windowKeys) (hsame Stream.windowKeyCapacity)

end Steps

variable {frames : List Frame} {observation : Bool} {s t u : Stream} {source : Nat}

private theorem KeyLedger.run {past : List Frame} (hl : KeyLedger past s)
    (hr : acceptAll frames s = .ok () t) : KeyLedger (past ++ frames) t :=
  acceptAll_ledger (fun _ _ _ _ _ hl hr => hl.step hr) hl hr

theorem keyLedger_of_accepted (hr : acceptAll frames {} = .ok () s) : KeyLedger frames s := by
  simpa using keyLedger_fresh.run hr

/-- How `remember_transition` ends, by the number of rows in the window and by whether the row is
one of them. -/
theorem rememberTransition_outcome {edges : List Edge} (source a b : Nat)
    (ht : KeyTable s.nextWindow s.windowKeyCapacity s.windowKeys edges)
    (hwindow : 1 ≤ s.nextWindow) (hd : s.windowDistinct = edges.length) :
    (maxTransitionSlots ≤ edges.length → rememberTransition source a b s =
      .error (.failure "Transition rows exceed the fixed total capacity") s) ∧
    (edges.length < maxTransitionSlots → (source,a,b) ∈ edges →
      ∃ t, rememberTransition source a b s =
        .error (.failure "Duplicate block transition row") t) ∧
    (edges.length < maxTransitionSlots → (source,a,b) ∉ edges →
      ∃ t, rememberTransition source a b s = .ok () t ∧
        ∃ slot < t.windowKeyCapacity, t.windowKeys slot = ⟨s.nextWindow,a,b,source⟩) := by
  refine ⟨fun hfull => ?_,fun hlt hmem => ?_,fun hlt hnew => ?_⟩
  · rw [rememberTransition,get_bind,refuse_bind (by omega)]
  · obtain ⟨keys,hslots,heq⟩ := rememberTransition_eq ht.toKeySlots hwindow (hd ▸ hlt) source a b
    have hroom := (grownCapacity_room (hd ▸ ht.fits) ht.size).1
    obtain ⟨hvacant,_,hexhausted⟩ := @findKey_slots
      { s with windowKeys := keys, windowKeyCapacity := s.grownCapacity } edges
      ⟨s.nextWindow,a,b,source⟩ hslots (by dsimp only; omega) rfl
    rw [heq,Stream.storeKey]
    cases hfind : Stream.findKey
        { s with windowKeys := keys, windowKeyCapacity := s.grownCapacity }
        ⟨s.nextWindow,a,b,source⟩ with
    | vacant slot => exact absurd hmem (hvacant slot hfind).1
    | found slot => exact ⟨_,rfl⟩
    | exhausted =>
      have hlen : edges.length = s.grownCapacity := hexhausted hfind
      omega
  · obtain ⟨t,hr⟩ := (rememberTransition_spec ht hwindow hd).1 hnew hlt
    obtain ⟨_,_,keys,capacity,rfl,htable⟩ := (rememberTransition_spec ht hwindow hd).2 t hr
    obtain ⟨slot,hslot,hcell⟩ := (htable.holds (source,a,b)).mpr (by simp)
    refine ⟨_,hr,slot,hslot,?_⟩
    unfold keyCells at hcell
    split at hcell
    · rename_i hw
      obtain ⟨h₁,h₂,h₃⟩ : (keys slot).source = source ∧ (keys slot).fromAddress = a ∧
          (keys slot).destination = b := by simpa [TransitionKey.edge] using hcell
      rw [← hw,← h₁,← h₂,← h₃]
    · cases hcell

variable {before : List TransitionRow} {fault : Fault}

private theorem transitionRow_of_remembered {row : TransitionRow}
    (hr : rememberTransition source row.fromAddress row.destination s = .ok () t)
    (hrow : transitionRow source observation row s = .error fault u) :
    fault = .failure "Invalid or overflowing block transition count" ∨
      fault = .failure "Reduced transition count overflow" := by
  rw [transitionRow,bind_of_ok hr,get_bind] at hrow
  rcases bind_eq_error.mp hrow with hrow | ⟨_,r,_,hrow⟩
  · exact .inl (refuse_eq_error.mp hrow).2.1
  rcases bind_eq_error.mp hrow with hrow | ⟨_,q,_,hrow⟩
  · exact (set_eq_error.mp hrow).elim
  rcases bind_eq_error.mp hrow with hrow | ⟨_,p,_,hrow⟩
  · by_cases ho : observation = true
    · rw [whenever_of ho,onLane,get_bind] at hrow
      split at hrow
      · cases hrow
      · rename_i hlane
        cases hrow
        rcases bind_eq_error.mp hlane with hlane | ⟨_,_,_,hlane⟩
        · exact .inr (refuse_eq_error.mp hlane).2.1
        · exact (set_eq_error.mp hlane).elim
    · rw [whenever_of_not ho] at hrow
      exact (pure_eq_error.mp hrow).elim
  · exact (modify_eq_error.mp hrow).elim

private theorem transitionRows_eq_error {rows : List TransitionRow} :
    transitionRows source observation rows s = .error fault u ↔
      ∃ before row after t, rows = before ++ row::after ∧
        transitionRows source observation before s = .ok () t ∧
        transitionRow source observation row t = .error fault u := by
  induction rows generalizing s with
  | nil => simp [transitionRows,pure_eq_error]
  | cons first rows ih =>
    rw [transitionRows,bind_eq_error]
    constructor
    · rintro (hfirst | ⟨_,r,hfirst,hrest⟩)
      · exact ⟨[],first,rows,s,rfl,rfl,hfirst⟩
      · obtain ⟨before,row,after,t,rfl,hbefore,hrow⟩ := ih.mp hrest
        refine ⟨first::before,row,after,t,rfl,?_,hrow⟩
        rw [transitionRows,bind_of_ok hfirst]
        exact hbefore
    · rintro ⟨before,row,after,t,heq,hbefore,hrow⟩
      cases before with
      | nil =>
        obtain ⟨rfl,rfl⟩ := List.cons.inj heq
        obtain ⟨_,rfl⟩ := pure_eq_ok.mp hbefore
        exact .inl hrow
      | cons head before =>
        obtain ⟨rfl,rfl⟩ := List.cons.inj heq
        rw [transitionRows,bind_eq_ok] at hbefore
        obtain ⟨_,r,hfirst,hbefore⟩ := hbefore
        exact .inr ⟨(),r,hfirst,ih.mpr ⟨before,row,after,t,rfl,hbefore,hrow⟩⟩

/-- The rows a row of `source` is compared with: those of the open window and those before it in
its own frame. -/
def edgesBefore (past : List Frame) (source : Nat) (before : List TransitionRow) : List Edge :=
  (openRows past).map SourceRow.edge ++ rowEdges source before

def Stream.refusesTransitions (s : Stream) (h : Header) (bytes : Option Bytes) : Prop :=
  (¬Has s.features featureTransitionWindows ∧ ¬Has s.features featureObservationReduction) ∨
    bytes = none ∨ h.sequence.toNat ≠ s.nextWindow ∨ h.source.toNat ≥ maxSources ∨
    (s.lanes h.source.toNat).ended = true ∨
    (Has s.features featureTransitionWindows ∧ s.windowExpected = false) ∨
    (Has s.features featureObservationReduction ∧
      (s.lanes h.source.toNat).observationSummary = true)

private theorem acceptBlockTransitions_duplicate {h : Header} {bytes : Option Bytes} :
    acceptBlockTransitions h bytes s = .error (.failure "Duplicate block transition row") u ↔
      ¬s.refusesTransitions h bytes ∧
      transitionRows h.source.toNat (Has s.features featureObservationReduction)
        (loadTransitionRows (bytes.getD []) h.count.toNat 0) s =
          .error (.failure "Duplicate block transition row") u := by
  rw [acceptBlockTransitions,get_bind]
  by_cases hrefused : s.refusesTransitions h bytes
  · rw [refuse_bind (by exact hrefused)]
    simp [hrefused]
  · rw [refuse_of_not (by exact hrefused),pure_bind,bind_eq_error]
    simp [hrefused,bind_eq_error,get_eq_error,refuse_eq_error,set_eq_error]

private theorem transitionRow_outcome (hl : KeyLedger frames s)
    (hbefore : transitionRows source observation before s = .ok () t) (row : TransitionRow) :
    (maxTransitionSlots ≤ (edgesBefore frames source before).length →
      transitionRow source observation row t =
        .error (.failure "Transition rows exceed the fixed total capacity") t) ∧
    ((edgesBefore frames source before).length < maxTransitionSlots →
      ((source,row.fromAddress,row.destination) ∈ edgesBefore frames source before →
        ∃ u, transitionRow source observation row t =
          .error (.failure "Duplicate block transition row") u) ∧
      ((source,row.fromAddress,row.destination) ∉ edgesBefore frames source before →
        ∃ u, rememberTransition source row.fromAddress row.destination t = .ok () u ∧
          ∃ slot < u.windowKeyCapacity, u.windowKeys slot =
            ⟨t.nextWindow,row.fromAddress,row.destination,source⟩)) := by
  obtain ⟨_,hnext,hlen,htable⟩ := transitionRows_edges hl.table hl.opened
    (by simpa using hl.distinct) hbefore
  obtain ⟨hfull,hdup,hnew⟩ := rememberTransition_outcome source row.fromAddress
    row.destination htable (hnext ▸ hl.opened) hlen
  refine ⟨fun hcap => ?_,fun hcap => ⟨fun hmem => ?_,hnew hcap⟩⟩
  · rw [transitionRow,bind_of_error (hfull hcap)]
  · obtain ⟨u,hu⟩ := hdup hcap hmem
    exact ⟨u,by rw [transitionRow,bind_of_error hu]⟩

/-- A row stops with the duplicate message exactly when its edge is in the window and the window
is not full, and it always stops. -/
private theorem transitionRow_duplicate (hl : KeyLedger frames s)
    (hbefore : transitionRows source observation before s = .ok () t) (row : TransitionRow) :
    ((∃ u, transitionRow source observation row t =
        .error (.failure "Duplicate block transition row") u) ↔
      (edgesBefore frames source before).length < maxTransitionSlots ∧
        (source,row.fromAddress,row.destination) ∈ edgesBefore frames source before) ∧
    ∀ u, transitionRow source observation row t ≠ .error .divergence u := by
  obtain ⟨hfull,hbelow⟩ := transitionRow_outcome hl hbefore row
  rcases Nat.lt_or_ge (edgesBefore frames source before).length maxTransitionSlots with
    hcap | hcap
  · obtain ⟨hdup,hnew⟩ := hbelow hcap
    by_cases hmem : (source,row.fromAddress,row.destination) ∈ edgesBefore frames source before
    · obtain ⟨u,hu⟩ := hdup hmem
      simp [hu,hcap,hmem]
    · obtain ⟨v,hv,_⟩ := hnew hmem
      constructor
      · constructor
        · rintro ⟨u,hu⟩
          rcases transitionRow_of_remembered hv hu with h | h <;> simp at h
        · rintro ⟨_,h⟩
          exact absurd h hmem
      · intro u hu
        rcases transitionRow_of_remembered hv hu with h | h <;> simp at h
  · rw [hfull hcap]
    simp [hcap]

/-- After any accepted history, every row whose frame has got that far is a duplicate exactly when
its edge has occurred in the open window; the search for it ends, and below the cap a new edge is
stored. -/
theorem duplicates_exact (frames : List Frame) (s : Stream)
    (hr : acceptAll frames {} = .ok () s) :
    (∀ (source : Nat) (observation : Bool) (before : List TransitionRow) (row : TransitionRow)
      (t : Stream), transitionRows source observation before s = .ok () t →
      (∀ u, transitionRow source observation row t ≠ .error .divergence u) ∧
      ((edgesBefore frames source before).length < maxTransitionSlots →
        ((∃ u, transitionRow source observation row t =
            .error (.failure "Duplicate block transition row") u) ↔
          (source,row.fromAddress,row.destination) ∈ edgesBefore frames source before) ∧
        ((source,row.fromAddress,row.destination) ∉ edgesBefore frames source before →
          ∃ u, rememberTransition source row.fromAddress row.destination t = .ok () u ∧
            ∃ slot < u.windowKeyCapacity, u.windowKeys slot =
              ⟨t.nextWindow,row.fromAddress,row.destination,source⟩)) ∧
      (maxTransitionSlots ≤ (edgesBefore frames source before).length →
        transitionRow source observation row t =
          .error (.failure "Transition rows exceed the fixed total capacity") t)) ∧
    ∀ (h : Header) (bytes : Option Bytes),
      (∃ u, acceptBlockTransitions h bytes s =
          .error (.failure "Duplicate block transition row") u) ↔
        ¬s.refusesTransitions h bytes ∧ ∃ before row after t,
          loadTransitionRows (bytes.getD []) h.count.toNat 0 = before ++ row::after ∧
          transitionRows h.source.toNat (Has s.features featureObservationReduction) before s =
            .ok () t ∧
          (edgesBefore frames h.source.toNat before).length < maxTransitionSlots ∧
          (h.source.toNat,row.fromAddress,row.destination) ∈
            edgesBefore frames h.source.toNat before := by
  have hl := keyLedger_of_accepted hr
  constructor
  · intro source observation before row t hbefore
    obtain ⟨hfull,hbelow⟩ := transitionRow_outcome hl hbefore row
    obtain ⟨hdup,hends⟩ := transitionRow_duplicate hl hbefore row
    refine ⟨hends,fun hcap => ⟨?_,(hbelow hcap).2⟩,hfull⟩
    rw [hdup]
    simp [hcap]
  · intro h bytes
    simp only [acceptBlockTransitions_duplicate,transitionRows_eq_error,exists_and_left]
    refine and_congr_right fun _ => ?_
    constructor
    · rintro ⟨u,before,row,after,t,heq,hbefore,hrow⟩
      exact ⟨before,row,after,t,heq,hbefore,(transitionRow_duplicate hl hbefore row).1.mp ⟨u,hrow⟩⟩
    · rintro ⟨before,row,after,t,heq,hbefore,hmem⟩
      obtain ⟨u,hrow⟩ := (transitionRow_duplicate hl hbefore row).1.mpr hmem
      exact ⟨u,before,row,after,t,heq,hbefore,hrow⟩

/-- The row of `windowTrace` is a duplicate until its window closes and new in the next one. -/
theorem duplicates_exact_reopened :
    (∃ s u, acceptAll (windowTrace.take 3) {} = .ok () s ∧
      transitionRow 0 false ⟨0x1000,0x2000,3⟩ s =
        .error (.failure "Duplicate block transition row") u) ∧
    ∃ s u, acceptAll (windowTrace.take 4) {} = .ok () s ∧
      rememberTransition 0 0x1000 0x2000 s = .ok () u := by
  constructor
  · obtain ⟨s,hs⟩ : Accepts (windowTrace.take 3) := by decide +kernel
    have hrow := (duplicates_exact _ s hs).1 0 false [] ⟨0x1000,0x2000,3⟩ s rfl
    obtain ⟨u,hu⟩ := (hrow.2.1 (by decide +kernel)).1.mpr (by decide +kernel)
    exact ⟨s,u,hs,hu⟩
  · obtain ⟨s,hs⟩ : Accepts (windowTrace.take 4) := by decide +kernel
    have hrow := (duplicates_exact _ s hs).1 0 false [] ⟨0x1000,0x2000,3⟩ s rfl
    obtain ⟨u,hu,_⟩ := (hrow.2.1 (by decide +kernel)).2 (by decide +kernel)
    exact ⟨s,u,hs,hu⟩

end Cpu2Tensor
