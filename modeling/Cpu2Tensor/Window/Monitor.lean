import Cpu2Tensor.Window.Exact

/-!
# Runs of the transition reducer

A run is any sequence of calls of the reducer.  `Monitor` keeps, beside the reducer, what its
callers did: the admissions they hold and the blocks they passed in each window.
-/

namespace Cpu2Tensor
open Library

inductive WindowOp
  | begin
  | end
  | abort
  | close
  | admitBlock
  | observe (source address : Nat) (admission : BlockAdmission)
  deriving DecidableEq, Repr

/-- The reducer, the admissions it gave out, and for the n-th window that was begun its
identifier and the admitted blocks of each source. -/
structure Monitor where
  window : TransitionWindow
  issued : List BlockAdmission := []
  begun : Nat := 0
  identifier : Nat → Nat := fun _ => 0
  blocks : Nat → Nat → List Nat := fun _ _ => []

/-- The reducer after a call, whether the call succeeded or not. -/
def stateAfter {α : Type} (call : WindowM α) (w : TransitionWindow) : TransitionWindow :=
  match call w with
  | .ok _ next => next
  | .error _ next => next

def TransitionWindow.Admitted (w : TransitionWindow) (admission : BlockAdmission) : Prop :=
  admission.included = true ∧ admission.window ≠ 0 ∧ w.window = admission.window

instance (w : TransitionWindow) (admission : BlockAdmission) : Decidable (w.Admitted admission) :=
  inferInstanceAs (Decidable (_ ∧ _ ∧ _))

def Monitor.begin (m : Monitor) : Monitor :=
  match TransitionWindow.begin m.window with
  | .ok _ next => { m with
      window := next
      begun := m.begun+1
      identifier := Function.update m.identifier (m.begun+1) next.window }
  | .error _ next => { m with window := next }

def Monitor.observe (m : Monitor) (source address : Nat) (admission : BlockAdmission) : Monitor :=
  { m with
    window := stateAfter (TransitionWindow.observe source address admission) m.window
    blocks :=
      if m.window.Admitted admission then
        Function.update m.blocks m.begun
          (Function.update (m.blocks m.begun) source (m.blocks m.begun source ++ [address]))
      else m.blocks }

/-- One call.  An observation carries an admission that the reducer gave out, for a configured
source; it may come after the window has ended. -/
def Monitor.step (m : Monitor) : WindowOp → Monitor
  | .begin => m.begin
  | .end => { m with window := stateAfter TransitionWindow.end m.window }
  | .abort => { m with window := stateAfter TransitionWindow.abort m.window }
  | .close => { m with window := stateAfter TransitionWindow.close m.window }
  | .admitBlock => { m with issued := m.issued ++ [m.window.admitBlock] }
  | .observe source address admission =>
    if admission ∈ m.issued ∧ source < m.window.sourceCount then m.observe source address admission
    else m

def Monitor.run (m : Monitor) (ops : List WindowOp) : Monitor := ops.foldl Monitor.step m

/-- What the table of one source must report for a window with these blocks. -/
structure ReportsExactly (capacity : Nat) (w : TransitionWindow) (source window : Nat)
    (blocks : List Nat) : Prop where
  rows : w.rows source window =
    (retained capacity (adjacentPairs blocks)).map fun pair =>
      ⟨pair.1,pair.2,(adjacentPairs blocks).count pair⟩
  observed : (w.sourceSummary source window).observed = blocks.length-1
  overflow : (w.sourceSummary source window).overflow =
    overflowCount capacity (adjacentPairs blocks)
  total : ((w.rows source window).map TransitionCount.count).sum +
    (w.sourceSummary source window).overflow = (w.sourceSummary source window).observed

section Report

variable {w : TransitionWindow} {capacity source : Nat} {blocks : List Nat} {window : Nat}

private theorem reportsExactly_of_parts (hrows : w.rows source window =
      (retained capacity (adjacentPairs blocks)).map fun pair =>
        ⟨pair.1,pair.2,(adjacentPairs blocks).count pair⟩)
    (hobserved : (w.sourceSummary source window).observed = (adjacentPairs blocks).length)
    (hoverflow : (w.sourceSummary source window).overflow =
      overflowCount capacity (adjacentPairs blocks)) :
    ReportsExactly capacity w source window blocks := by
  refine ⟨hrows,hobserved.trans (adjacentPairs_length _),hoverflow,?_⟩
  rw [hrows,hobserved,hoverflow,List.map_map]
  exact retained_counts_add_overflow capacity (adjacentPairs blocks)

theorem WindowSource.Counts.reports (hsource : source < w.sourceCount)
    (hc : (w.sources source).Counts capacity blocks) :
    ReportsExactly capacity w source (w.sources source).window blocks := by
  have hinside : ¬source ≥ w.sourceCount := by omega
  apply reportsExactly_of_parts
  · have hcount : w.rowCount source (w.sources source).window =
        (retained capacity (adjacentPairs blocks)).length := by
      simp [TransitionWindow.rowCount,hinside,hc.distinct]
    apply List.ext_getElem?
    intro i
    by_cases hi : i < (retained capacity (adjacentPairs blocks)).length
    · have hpair := List.getElem?_eq_getElem hi
      obtain ⟨_,hslot⟩ := hc.entry i _ hpair
      have hdistinct : ¬(w.sources source).distinct ≤ i := by
        rw [hc.distinct]
        omega
      simp [TransitionWindow.rows,TransitionWindow.row,hcount,hi,hinside,hslot,hdistinct]
    · simp [TransitionWindow.rows,hcount,hi]
  · simp [TransitionWindow.sourceSummary,hinside,hc.observed]
  · simp [TransitionWindow.sourceSummary,hinside,hc.overflow]

theorem reportsExactly_none (hwindow : (w.sources source).window ≠ window) :
    ReportsExactly capacity w source window [] := by
  have hpairs : adjacentPairs ([] : List Nat) = [] := rfl
  have hretained : retained capacity ([] : List (Nat × Nat)) = [] := by
    simp [retained,firstOccurrences]
  apply reportsExactly_of_parts
  · simp [TransitionWindow.rows,TransitionWindow.rowCount,hwindow,hpairs,hretained]
  · simp [TransitionWindow.sourceSummary,hwindow,hpairs]
  · simp [TransitionWindow.sourceSummary,hwindow,hpairs,overflowCount]

end Report

theorem TransitionWindow.begin_eq (w : TransitionWindow) :
    TransitionWindow.begin w =
      if w.state ≠ .idle then
        .error (.failure "Transition window begin arrived before the previous window closed") w
      else if w.window = uint64Max then
        .error (.failure "Transition window identifier overflow")
          { w with window := (w.window+1) % 2^64 }
      else .ok () { w with window := (w.window+1) % 2^64, state := .recording } := by
  rw [TransitionWindow.begin,get_bind]
  split
  · next hidle => exact refuse_bind hidle _ _
  · next hidle =>
    rw [refuse_of_not hidle,pure_bind]
    split
    · next hmax =>
      change (refuse _ _ >>= _) _ = _
      exact refuse_bind hmax _ _
    · next hmax =>
      rw [refuse_of_not hmax]
      rfl

variable {w : TransitionWindow}

private theorem refused_or_set {bad : Prop} [Decidable bad] (message : String)
    (state : WindowState) :
    ∃ after, stateAfter (do
      refuse bad message
      set { w with state }) w = { w with state := after } := by
  by_cases hbad : bad
  · refine ⟨w.state,?_⟩
    rw [stateAfter,refuse_bind hbad]
  · refine ⟨state,?_⟩
    rw [stateAfter,refuse_of_not hbad]
    rfl

theorem TransitionWindow.end_state (w : TransitionWindow) :
    ∃ after, stateAfter TransitionWindow.end w = { w with state := after } :=
  refused_or_set _ _

theorem TransitionWindow.abort_state (w : TransitionWindow) :
    ∃ after, stateAfter TransitionWindow.abort w = { w with state := after } :=
  refused_or_set _ _

theorem TransitionWindow.close_eq (w : TransitionWindow) :
    TransitionWindow.close w =
      if w.state = .idle then .ok {} { w with state := .idle }
      else
        match w.totals with
        | .error message => .error (.failure message) { w with state := .idle }
        | .ok summary => .ok summary { w with state := .idle } := by
  by_cases hidle : w.state = .idle
  · simp only [hidle,if_true,TransitionWindow.close,bind_eq_ok,get_eq_ok,set_eq_ok,exists_unit]
    exact ⟨_,_,⟨rfl,rfl⟩,_,rfl,by simp [hidle]⟩
  · rw [if_neg hidle]
    cases htotals : w.totals with
    | error message =>
      simp only [TransitionWindow.close,bind_eq_error,get_eq_error,get_eq_ok,set_eq_error,
        set_eq_ok,exists_unit,false_or]
      refine ⟨_,_,⟨rfl,rfl⟩,_,rfl,?_⟩
      rw [if_neg hidle,htotals]
      rfl
    | ok summary =>
      simp only [TransitionWindow.close,bind_eq_ok,get_eq_ok,set_eq_ok,exists_unit]
      refine ⟨_,_,⟨rfl,rfl⟩,_,rfl,?_⟩
      rw [if_neg hidle,htotals]
      rfl

theorem TransitionWindow.close_state (w : TransitionWindow) :
    stateAfter TransitionWindow.close w = { w with state := .idle } := by
  rw [stateAfter,TransitionWindow.close_eq]
  split_ifs
  · rfl
  · cases w.totals <;> rfl

section Observe

variable {w : TransitionWindow} {source address : Nat} {admission : BlockAdmission}

theorem onWindowSource_ok {α : Type} {step : Checked WindowSource α} {a : α} {next : WindowSource}
    (h : step (w.sources source) = .ok a next) :
    onWindowSource source step w =
      .ok a { w with sources := Function.update w.sources source next } := by
  rw [onWindowSource,h]

private theorem other_of_not_admitted (hincluded : admission.included = true)
    (hn : ¬w.Admitted admission) : admission.window = 0 ∨ w.window ≠ admission.window := by
  by_contra hboth
  exact hn ⟨hincluded,not_or.mp hboth |>.imp_right not_not.mp⟩

theorem TransitionWindow.observe_refused (hn : ¬w.Admitted admission) :
    stateAfter (TransitionWindow.observe source address admission) w = w := by
  rw [stateAfter,TransitionWindow.observe,get_bind]
  by_cases hsource : source ≥ w.sourceCount
  · rw [refuse_bind hsource]
  · rw [refuse_of_not hsource,pure_bind]
    by_cases hincluded : admission.included = true
    · rw [whenever_of hincluded,refuse_bind (other_of_not_admitted hincluded hn)]
    · rw [whenever_of_not hincluded]
      rfl

theorem TransitionWindow.observe_admitted (ha : w.Admitted admission)
    (hsource : source < w.sourceCount) :
    TransitionWindow.observe source address admission w =
      onWindowSource source (WindowSource.observe w.capacity w.window address) w := by
  obtain ⟨hincluded,hzero,hwindow⟩ := ha
  have hcurrent : ¬(admission.window = 0 ∨ w.window ≠ admission.window) := by
    simp [hzero,hwindow]
  rw [TransitionWindow.observe,get_bind,refuse_of_not (by omega),pure_bind,whenever_of hincluded,
    refuse_of_not hcurrent,pure_bind,hwindow]

theorem TransitionWindow.observe_fault {fault : Fault} {rest : TransitionWindow}
    (he : TransitionWindow.observe source address admission w = .error fault rest) :
    fault = .failure "Transition source is outside the configured range" ∨
      fault = .failure "Transition admission belongs to another window" ∨
      w.Admitted admission ∧ ∃ next,
        WindowSource.observe w.capacity w.window address (w.sources source) =
          .error fault next := by
  by_cases hsource : source ≥ w.sourceCount
  · rw [TransitionWindow.observe,get_bind,refuse_bind hsource] at he
    injection he with hfault
    exact .inl hfault.symm
  · by_cases ha : w.Admitted admission
    · rw [TransitionWindow.observe_admitted ha (by omega),onWindowSource] at he
      cases hobserve : WindowSource.observe w.capacity w.window address (w.sources source) with
      | ok _ next => simp [hobserve] at he
      | error other next =>
        rw [hobserve] at he
        injection he with hfault
        exact .inr (.inr ⟨ha,next,by rw [hfault]⟩)
    · rw [TransitionWindow.observe,get_bind,refuse_of_not hsource,pure_bind] at he
      by_cases hincluded : admission.included = true
      · rw [whenever_of hincluded,refuse_bind (other_of_not_admitted hincluded ha)] at he
        injection he with hfault
        exact .inr (.inl hfault.symm)
      · rw [whenever_of_not hincluded,pure_eq_error] at he
        exact he.elim

end Observe

/-- The table of a source shows the last window in which the source had a block. -/
structure Monitor.Tracks (capacity : Nat) (m : Monitor) (source : Nat) : Prop where
  shown : (m.window.sources source).window ≤ m.begun
  stale : ∀ slot, ((m.window.sources source).slots slot).window ≤
    (m.window.sources source).window
  later : ∀ n, (m.window.sources source).window < n → m.blocks n source = []
  counts : (m.window.sources source).window ≠ 0 →
    m.blocks (m.window.sources source).window source ≠ [] ∧
      (m.window.sources source).Counts capacity
        (m.blocks (m.window.sources source).window source)

/-- The identifiers have not wrapped and every table tracks its source. -/
structure Monitor.Exact (sources capacity : Nat) (m : Monitor) : Prop where
  configured : m.window.sourceCount = sources ∧ m.window.capacity = capacity
  power : ∃ k, capacity = 2^k
  current : m.window.window = m.begun
  named : ∀ n, 1 ≤ n → n ≤ m.begun → m.identifier n = n
  tracks : ∀ source, m.Tracks capacity source

section Exact

variable {sources capacity : Nat} {m : Monitor} (hm : m.Exact sources capacity)
include hm

theorem Monitor.Exact.ready (source : Nat) (hbegun : m.begun ≠ 0) :
    (m.window.sources source).Ready capacity m.begun (m.blocks m.begun source) := by
  obtain ⟨hshown,hstale,hlater,hcounts⟩ := hm.tracks source
  obtain hlt | heq := hshown.lt_or_eq
  · exact .inr ⟨hlt,hstale,hlater _ hlt⟩
  · have hc := hcounts (heq ▸ hbegun)
    rw [heq] at hc
    exact .inl ⟨heq,hc.2⟩

theorem Monitor.Exact.withState (state : WindowState) (issued : List BlockAdmission) :
    Monitor.Exact sources capacity { m with window := { m.window with state }, issued } :=
  ⟨hm.configured,hm.power,hm.current,hm.named,fun source =>
    let ht := hm.tracks source
    ⟨ht.shown,ht.stale,ht.later,ht.counts⟩⟩

theorem Monitor.Exact.begin (hfew : m.begun+1 < 2^64) : m.begin.Exact sources capacity := by
  have hmax : ¬m.window.window = uint64Max := by
    simp only [hm.current,uint64Max]
    omega
  have hnext : (m.window.window+1) % 2^64 = m.begun+1 := by
    rw [hm.current]
    exact Nat.mod_eq_of_lt hfew
  by_cases hidle : m.window.state ≠ .idle
  · have hbegin : m.begin = m := by
      rw [Monitor.begin,TransitionWindow.begin_eq,if_pos hidle]
    rw [hbegin]
    exact hm
  · have hbegin : m.begin = { m with
        window := { m.window with window := m.begun+1, state := .recording }
        begun := m.begun+1
        identifier := Function.update m.identifier (m.begun+1) (m.begun+1) } := by
      rw [Monitor.begin,TransitionWindow.begin_eq,if_neg hidle,if_neg hmax]
      simp only [hnext]
    rw [hbegin]
    refine ⟨hm.configured,hm.power,rfl,?_,?_⟩
    · intro n hone hn
      obtain hlt | rfl := hn.lt_or_eq
      · have hne : n ≠ m.begun+1 := hlt.ne
        simpa [hne] using hm.named n hone (Nat.lt_succ_iff.mp hlt)
      · simp
    · intro source
      obtain ⟨hshown,hstale,hlater,hcounts⟩ := hm.tracks source
      exact ⟨hshown.trans (Nat.le_succ _),hstale,hlater,hcounts⟩

variable {address source : Nat} {admission : BlockAdmission}

theorem Monitor.Exact.observe (hsource : source < m.window.sourceCount)
    (hlen : ((m.observe source address admission).blocks m.begun source).length < 2^64) :
    (m.observe source address admission).Exact sources capacity := by
  by_cases ha : m.window.Admitted admission
  · have hbegun : m.begun ≠ 0 := by
      rw [← hm.current,ha.2.2]
      exact ha.2.1
    obtain ⟨k,rfl⟩ := hm.power
    have hk := hm.configured.2
    have hready := hm.ready source hbegun
    simp only [Monitor.observe,if_pos ha,Function.update_self] at hlen
    obtain ⟨next,hobserve,hwindow,hcounts⟩ := WindowSource.observe_counts hready hlen
    have hstate : stateAfter (TransitionWindow.observe source address admission) m.window =
        { m.window with sources := Function.update m.window.sources source next } := by
      rw [← hk,← hm.current] at hobserve
      rw [stateAfter,TransitionWindow.observe_admitted ha hsource,onWindowSource_ok hobserve]
    rw [Monitor.observe,hstate,if_pos ha]
    refine ⟨hm.configured,hm.power,hm.current,hm.named,?_⟩
    intro other
    by_cases hother : other = source
    · subst hother
      refine ⟨?_,?_,?_,?_⟩
      · simp [hwindow]
      · simpa using hcounts.stale
      · intro n hn
        simp only [Function.update_self,hwindow] at hn
        have hshown := (hm.tracks other).shown
        have hne : n ≠ m.begun := by omega
        simpa [hne] using (hm.tracks other).later n (by omega)
      · intro _
        simp only [Function.update_self,hwindow]
        exact ⟨by simp,hcounts⟩
    · obtain ⟨hshown,hstale,hlater,hcounts'⟩ := hm.tracks other
      have hblocks : ∀ n, Function.update m.blocks m.begun (Function.update (m.blocks m.begun)
          source (m.blocks m.begun source ++ [address])) n other = m.blocks n other := by
        intro n
        by_cases hn : n = m.begun
        · subst hn
          simp [hother]
        · simp [hn]
      refine ⟨?_,?_,?_,?_⟩ <;> simp only [Function.update_of_ne hother,hblocks]
      · exact hshown
      · exact hstale
      · exact hlater
      · exact hcounts'
  · have hobserve : m.observe source address admission = m := by
      rw [Monitor.observe,TransitionWindow.observe_refused ha,if_neg ha]
    rw [hobserve]
    exact hm

/-- No call finds the index of a table full while a slot of it is free. -/
theorem Monitor.Exact.observe_consistent {rest : TransitionWindow} :
    TransitionWindow.observe source address admission m.window ≠
      .error (.failure "Transition index capacity is inconsistent") rest := by
  intro he
  obtain hfault | hfault | ⟨ha,next,he⟩ := TransitionWindow.observe_fault he
  · exact absurd hfault (by decide)
  · exact absurd hfault (by decide)
  · have hbegun : m.begun ≠ 0 := by
      rw [← hm.current,ha.2.2]
      exact ha.2.1
    obtain ⟨k,rfl⟩ := hm.power
    rw [hm.configured.2,hm.current] at he
    exact WindowSource.observe_consistent (hm.ready source hbegun) next he

end Exact

variable {capacity sources : Nat} {m : Monitor}

theorem Monitor.configure_exact (hw : TransitionWindow.configure sources capacity = .ok w) :
    Monitor.Exact sources capacity { window := w } := by
  simp only [TransitionWindow.configure] at hw
  split at hw
  · cases hw
  · next hvalid =>
    cases hw
    have hpower : capacity &&& (capacity-1) = 0 := by tauto
    have hpositive : capacity ≠ 0 := by omega
    refine ⟨⟨rfl,rfl⟩,(Nat.and_sub_one_eq_zero_iff_isPowerOfTwo hpositive).mp hpower,rfl,?_,?_⟩
    · intro n hone hn
      exact absurd (hone.trans hn) (by simp)
    · intro source
      exact ⟨le_rfl,fun _ => le_rfl,fun _ _ => rfl,fun hzero => absurd rfl hzero⟩

theorem Monitor.Exact.step (hm : m.Exact sources capacity) (op : WindowOp)
    (hfew : m.begun+[op].count .begin < 2^64)
    (hlen : ∀ n source, ((m.step op).blocks n source).length < 2^64) :
    (m.step op).Exact sources capacity := by
  cases op with
  | begin => exact hm.begin hfew
  | «end» =>
    obtain ⟨state,hstate⟩ := m.window.end_state
    rw [Monitor.step,hstate]
    exact hm.withState state m.issued
  | abort =>
    obtain ⟨state,hstate⟩ := m.window.abort_state
    rw [Monitor.step,hstate]
    exact hm.withState state m.issued
  | close =>
    rw [Monitor.step,TransitionWindow.close_state]
    exact hm.withState _ m.issued
  | admitBlock => exact hm.withState m.window.state _
  | observe source address admission =>
    rw [Monitor.step] at hlen ⊢
    split at hlen
    · next hcall =>
      rw [if_pos hcall]
      exact hm.observe hcall.2 (hlen _ _)
    · next hcall =>
      rw [if_neg hcall]
      exact hm

/-- A call opens at most one window, adds at most one block and forgets none. -/
theorem Monitor.step_grows (m : Monitor) (op : WindowOp) :
    (m.step op).begun ≤ m.begun+[op].count .begin ∧
      ∀ n source, (m.blocks n source).length ≤ ((m.step op).blocks n source).length ∧
        ((m.step op).blocks n source).length ≤ (m.blocks n source).length+1 := by
  have hkept : ∀ n source, (m.blocks n source).length ≤ (m.blocks n source).length ∧
      (m.blocks n source).length ≤ (m.blocks n source).length+1 :=
    fun _ _ => ⟨le_rfl,Nat.le_succ _⟩
  cases op with
  | begin =>
    rw [Monitor.step,Monitor.begin]
    cases TransitionWindow.begin m.window with
    | ok _ next => exact ⟨le_rfl,hkept⟩
    | error _ next => exact ⟨Nat.le_add_right _ _,hkept⟩
  | «end» => exact ⟨Nat.le_add_right _ _,hkept⟩
  | abort => exact ⟨Nat.le_add_right _ _,hkept⟩
  | close => exact ⟨Nat.le_add_right _ _,hkept⟩
  | admitBlock => exact ⟨Nat.le_add_right _ _,hkept⟩
  | observe source address admission =>
    rw [Monitor.step]
    split
    · refine ⟨Nat.le_add_right _ _,fun n other => ?_⟩
      simp only [Monitor.observe]
      split
      · by_cases hn : n = m.begun
        · subst hn
          by_cases hother : other = source
          · subst hother
            simp
          · simp [hother]
        · simp [hn]
      · exact hkept n other
    · exact ⟨Nat.le_add_right _ _,hkept⟩

theorem Monitor.Exact.run (hm : m.Exact sources capacity) (ops : List WindowOp)
    (hfew : m.begun+ops.count .begin < 2^64)
    (hlen : ∀ n source, ((m.run ops).blocks n source).length < 2^64) :
    (m.run ops).Exact sources capacity := by
  induction ops generalizing m with
  | nil => exact hm
  | cons op ops ih =>
    have hcount : (op::ops).count .begin = [op].count .begin+ops.count .begin := by
      rw [← List.count_append]
      rfl
    have hgrows : ∀ (k : Monitor) n source,
        (k.blocks n source).length ≤ ((k.run ops).blocks n source).length := by
      clear ih hfew hlen hcount
      induction ops with
      | nil => exact fun _ _ _ => le_rfl
      | cons op ops ih =>
        intro k n source
        exact ((k.step_grows op).2 n source).1.trans (ih (k.step op) n source)
    have hstep := m.step_grows op
    apply ih
    · apply hm.step op (by omega)
      intro n source
      exact (hgrows (m.step op) n source).trans_lt (hlen n source)
    · omega
    · exact hlen

theorem Monitor.run_blocks_length (m : Monitor) (ops : List WindowOp) (n source : Nat) :
    ((m.run ops).blocks n source).length ≤ (m.blocks n source).length+ops.length := by
  induction ops generalizing m with
  | nil => exact le_rfl
  | cons op ops ih =>
    have hstep := ((m.step_grows op).2 n source).2
    have hrest := ih (m.step op)
    change ((Monitor.run (m.step op) ops).blocks n source).length ≤ _
    rw [List.length_cons]
    omega

/-- What every run of the reducer reports.  The blocks of the n-th window are read with its
identifier as long as the source has no block in a later window. -/
theorem transitionWindow_exact {sources capacity : Nat} {w : TransitionWindow}
    (hw : TransitionWindow.configure sources capacity = .ok w) (ops : List WindowOp)
    (hbegins : ops.count .begin < 2^64)
    (hblocks : ∀ n source, ((Monitor.run { window := w } ops).blocks n source).length < 2^64) :
    let m := Monitor.run { window := w } ops
    (∀ n source, 1 ≤ n → n ≤ m.begun → source < sources →
      (∀ later, n < later → later ≤ m.begun → m.blocks later source = []) →
      ReportsExactly capacity m.window source (m.identifier n) (m.blocks n source)) ∧
    ∀ source address admission rest,
      TransitionWindow.observe source address admission m.window ≠
        .error (.failure "Transition index capacity is inconsistent") rest := by
  intro m
  have hm : m.Exact sources capacity :=
    (Monitor.configure_exact hw).run ops (by simpa using hbegins) hblocks
  refine ⟨?_,?_⟩
  · intro n source hone hn hsource hlast
    obtain ⟨hshown,hstale,hlater,hcounts⟩ := hm.tracks source
    rw [hm.named n hone hn]
    rcases lt_trichotomy (m.window.sources source).window n with hlt | heq | hgt
    · rw [hlater n hlt]
      exact reportsExactly_none hlt.ne
    · have hc := (hcounts (by omega)).2
      rw [heq] at hc
      have hreports := hc.reports (hsource.trans_eq hm.configured.1.symm)
      rwa [heq] at hreports
    · exact absurd (hlast _ hgt hshown) (hcounts (by omega)).1
  · intro source address admission rest
    exact hm.observe_consistent

/-- Two sources, and a block that is reported after the window has ended. -/
def lateBlock : List WindowOp :=
  [.begin,.admitBlock,.observe 0 16 ⟨1,true⟩,.observe 1 64 ⟨1,true⟩,.observe 0 32 ⟨1,true⟩,.end,
    .observe 0 16 ⟨1,true⟩,.close]

theorem transitionWindow_exact_lateBlock :
    ReportsExactly 2 (Monitor.run { window := { sourceCount := 2, capacity := 2 } }
      lateBlock).window 0 1 [16,32,16] := by
  have hlength := Monitor.run_blocks_length { window := { sourceCount := 2, capacity := 2 } }
    lateBlock
  have hbegun : (Monitor.run { window := { sourceCount := 2, capacity := 2 } } lateBlock).begun =
      1 := by
    decide +kernel
  refine (@transitionWindow_exact 2 2 _ rfl lateBlock (by decide)
    (fun n source => (hlength n source).trans_lt ?_)).1 1 0 le_rfl hbegun.ge (by decide) ?_
  · norm_num [lateBlock]
  · intro later hlater hle
    omega

private theorem Monitor.begin_idle {m : Monitor} (hidle : m.window.state = .idle)
    (hmax : m.window.window+1 < 2^64) :
    m.begin = { m with
      window := { m.window with window := m.window.window+1, state := .recording }
      begun := m.begun+1
      identifier := Function.update m.identifier (m.begun+1) (m.window.window+1) } := by
  have hne : ¬m.window.window = uint64Max := by
    simp only [uint64Max]
    omega
  rw [Monitor.begin,TransitionWindow.begin_eq,if_neg (by simp [hidle]),if_neg hne]
  simp only [Nat.mod_eq_of_lt hmax]

private theorem Monitor.run_append (m : Monitor) (first second : List WindowOp) :
    m.run (first ++ second) = (m.run first).run second :=
  List.foldl_append

private theorem Monitor.run_empty (hidle : m.window.state = .idle) (n : Nat)
    (hfew : m.window.window+n < 2^64) :
    let next := m.run (List.replicate n [WindowOp.begin,.close]).flatten
    next.window = { m.window with window := m.window.window+n } ∧ next.begun = m.begun+n ∧
      next.blocks = m.blocks := by
  induction n generalizing m with
  | zero => exact ⟨rfl,rfl,rfl⟩
  | succ n ih =>
    have hfirst : m.run [.begin,.close] = { m with
        window := { m.window with window := m.window.window+1, state := .idle }
        begun := m.begun+1
        identifier := Function.update m.identifier (m.begun+1) (m.window.window+1) } := by
      simp only [Monitor.run,List.foldl_cons,List.foldl_nil,Monitor.step,
        Monitor.begin_idle hidle (by omega),TransitionWindow.close_state]
    rw [List.replicate_succ,List.flatten_cons,Monitor.run_append,hfirst]
    obtain ⟨hwindow,hbegun,hblocks⟩ := ih (m := { m with
        window := { m.window with window := m.window.window+1, state := .idle }
        begun := m.begun+1
        identifier := Function.update m.identifier (m.begun+1) (m.window.window+1) }) rfl
      (by simp only; omega)
    refine ⟨?_,?_,hblocks⟩
    · rw [hwindow]
      simp only [hidle,Nat.add_assoc,Nat.add_comm 1 n]
    · rw [hbegun]
      simp only [Nat.add_assoc,Nat.add_comm 1 n]

def oneTransition : List WindowOp :=
  [.begin,.admitBlock,.observe 0 16 ⟨1,true⟩,.observe 0 32 ⟨1,true⟩,.close]

/-- One window with two blocks, then empty windows until the identifier is spent and used again. -/
def spentIdentifiers : List WindowOp :=
  oneTransition ++ ((List.replicate (2^64-2) [WindowOp.begin,.close]).flatten ++ [.begin,.begin])

private theorem oneTransition_run :
    let m := Monitor.run { window := { sourceCount := 1, capacity := 2 } } oneTransition
    m.window.window = 1 ∧ m.window.state = .idle ∧ m.begun = 1 ∧ m.blocks (2^64) 0 = [] ∧
      m.window.rows 0 1 = [⟨16,32,1⟩] := by
  decide +kernel

private theorem Monitor.run_wrap (hidle : m.window.state = .idle)
    (hlast : m.window.window = uint64Max) :
    m.run [.begin,.begin] = { m with
      window := { m.window with window := 1, state := .recording }
      begun := m.begun+1
      identifier := Function.update m.identifier (m.begun+1) 1 } := by
  have hfail : m.step .begin = { m with window := { m.window with window := 0 } } := by
    rw [Monitor.step,Monitor.begin,TransitionWindow.begin_eq,if_neg (by simp [hidle]),
      if_pos hlast]
    simp [hlast,uint64Max]
  change (m.step .begin).step .begin = _
  rw [hfail]
  exact Monitor.begin_idle (m := { m with window := { m.window with window := 0 } }) hidle
    (Nat.one_lt_two_pow (by decide))

/-- The window after the wrap shows the rows of the first one. -/
theorem transitionWindow_repeats_rows :
    let m := Monitor.run { window := { sourceCount := 1, capacity := 2 } } spentIdentifiers
    TransitionWindow.configure 1 2 = .ok { sourceCount := 1, capacity := 2 } ∧
      (∀ n source, (m.blocks n source).length < 2^64) ∧ m.begun = 2^64 ∧
      m.blocks m.begun 0 = [] ∧ m.window.rows 0 (m.identifier m.begun) = [⟨16,32,1⟩] := by
  intro m
  obtain ⟨hwindow,hidle,hbegun,hblocks,hrows⟩ := oneTransition_run
  have hlength := Monitor.run_blocks_length { window := { sourceCount := 1, capacity := 2 } }
    oneTransition
  obtain ⟨first,hfirst⟩ : ∃ first, first =
      Monitor.run { window := { sourceCount := 1, capacity := 2 } } oneTransition := ⟨_,rfl⟩
  rw [← hfirst] at hwindow hidle hbegun hblocks hrows hlength
  have hfew : first.window.window+(2^64-2) < 2^64 := by omega
  obtain ⟨hspent,hcount,hkept⟩ := Monitor.run_empty hidle (2^64-2) hfew
  have hm : m = Monitor.run (first.run (List.replicate (2^64-2) [WindowOp.begin,.close]).flatten)
      [.begin,.begin] := by
    rw [hfirst,← Monitor.run_append,← Monitor.run_append]
    rfl
  clear_value m
  obtain ⟨spent,hspentRun⟩ : ∃ spent, spent =
      first.run (List.replicate (2^64-2) [WindowOp.begin,.close]).flatten := ⟨_,rfl⟩
  rw [← hspentRun] at hm hspent hcount hkept
  rw [Monitor.run_wrap (by rw [hspent]; exact hidle) (by rw [hspent,hwindow]; rfl)] at hm
  subst hm
  have hall : spent.begun+1 = 2^64 := by
    omega
  refine ⟨rfl,?_,hall,?_,?_⟩
  · intro n source
    change (spent.blocks n source).length < _
    rw [hkept]
    exact (hlength n source).trans_lt (by norm_num [oneTransition])
  · change spent.blocks (spent.begun+1) 0 = []
    rw [hkept,hall]
    exact hblocks
  · simp only [Function.update_self,hspent]
    exact hrows

end Cpu2Tensor
