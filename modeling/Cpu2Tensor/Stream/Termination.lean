import Cpu2Tensor.Stream.TransitionKeys
import Cpu2Tensor.Library.Termination

/-!
# Calls that return

The calls of `accept` on one stream, rejected ones included.  Every loop of `accept` but one is
bounded by the frame.  The search of `remember_transition` ends as long as the key table has a
free slot, and a row that is rejected for its count has already taken one.
-/

namespace Cpu2Tensor
open Library

section Lanes

variable {features : UInt64} {h : Header}

theorem onRegisters_total {α : Type} (state : Registers) {check : Checked Registers α}
    (hc : Total check) : Total (onRegisters state check) := by
  constructor
  intro lane _
  have hr := (hc.at_state state trivial).result
  constructor
  unfold onRegisters
  cases hx : check state <;> rw [hx] at hr <;> exact hr

private theorem schemaRows_total (bytes : Bytes) (rows row : Nat) :
    Total (schemaRows bytes rows row) := by
  induction rows generalizing row with
  | zero => exact ends_pure ()
  | succ rows ih =>
    have hrow : Total (schemaRow (bytes.drop (row*registerSchemaBytes))) :=
      ends_get.bind fun _ => .refuse_bind <| .refuse_bind <|
        .refuse_bind <| .refuse_bind <| .refuse_bind <|
          total_set _
    exact hrow.bind fun _ => ih (row+1)

private theorem registerRows_total (detail : Nat) (bytes : Bytes) (rows offset : Nat) :
    Total (registerRows detail bytes rows offset) := by
  induction rows generalizing offset with
  | zero => exact ends_pure offset
  | succ rows ih =>
    have hrow : Total (registerRow detail offset bytes) :=
      .refuse_bind <| ends_get.bind fun _ => .refuse_bind <|
        .refuse_bind <| .refuse_bind <| (total_set _).bind fun _ =>
          ends_pure _
    exact hrow.bind ih

private theorem registerSamples_total (bytes : Bytes) :
    Total (Lane.registerSamples features h bytes) := by
  refine ends_get.bind fun lane => ?_
  cases lane.registers with
  | none => exact ends_failure _
  | some state =>
    exact .refuse_bind <|
      (onRegisters_total state (registerRows_total _ _ _ _)).bind fun _ => ends_refuse _

private theorem memoryRows_total (bytes : Bytes) : Total (Lane.memoryRows features h bytes) :=
  .refuse_bind <| .refuse_bind <| ends_get.bind fun _ =>
    ends_refuseSome _

private theorem baseline_total : Total (Lane.baseline features h) := by
  refine ends_get.bind fun lane => ends_ite ?_ (ends_pure ())
  cases lane.registers with
  | none => exact ends_failure _
  | some registers => exact .refuse_bind <| total_set _

private theorem checkEvent_total (bytes : Bytes) : Total (Lane.checkEvent features h bytes) := by
  have hcontext : Total (Lane.addressContext features h bytes) :=
    .refuse_bind <| .refuse_bind <| total_modify _
  exact ends_get.bind fun _ => .refuse_bind <| .refuse_bind <|
    (ends_whenever hcontext).bind fun _ => ends_get.bind fun _ => .refuse_bind <|
      baseline_total.bind fun _ =>
        (ends_whenever (.refuse_bind <| registerSamples_total bytes)).bind fun _ =>
          ends_whenever (memoryRows_total bytes)

private theorem checkFrame_total (bytes : Option Bytes) :
    Total (Lane.checkFrame features h bytes) := by
  have hsource : Total (Lane.checkSource features h bytes) :=
    ends_get.bind fun _ => .refuse_bind <| .refuse_bind <|
      .refuse_bind <| .refuse_bind <| .refuse_bind <|
        ends_refuse _
  have hschema : Total (Lane.schema features h (bytes.getD [])) :=
    ends_get.bind fun lane => .refuse_bind <|
      onRegisters_total _ (schemaRows_total _ _ _)
  exact hsource.bind fun _ =>
    ends_ite (hschema.bind fun _ => total_modify _) (checkEvent_total _)

private theorem reducedContexts_total (bytes : Option Bytes) :
    Total (Lane.reducedContexts features h bytes) := by
  have hrows (rows : List ReducedContextRow) : Total (reducedContextRows rows) := by
    induction rows with
    | nil => exact ends_pure ()
    | cons row rows ih =>
      have hrow : Total (reducedContextRow row) :=
        ends_get.bind fun _ => .refuse_bind <| total_set _
      exact hrow.bind fun _ => ih
  exact ends_get.bind fun _ => .refuse_bind <| (hrows _).bind fun _ =>
    ends_get.bind fun _ => .refuse_bind <| total_set _

end Lanes

/-- The table holds `edges` for the open window and room for the rows the window counts. -/
structure KeysHeld (s : Stream) (edges : List Edge) : Prop where
  slots : KeySlots s.nextWindow s.windowKeyCapacity s.windowKeys edges
  fits : s.windowDistinct*2 ≤ s.windowKeyCapacity
  opened : 1 ≤ s.nextWindow
  bounded : s.nextWindow < 2^64

/-- What every call keeps.  After the last window number no window is open any more. -/
def Stream.Keyed (s : Stream) : Prop := s.nextWindow = 0 ∨ ∃ edges, KeysHeld s edges

def Stream.keysInWindow (s : Stream) : Nat :=
  used s.windowKeyCapacity (keyCells s.nextWindow s.windowKeys)

/-- At most half of the table is taken by rows the window does not count. -/
def Stream.Roomy (s : Stream) : Prop :=
  s.keysInWindow*2 ≤ s.windowDistinct*2 + s.windowKeyCapacity

instance (s : Stream) : Decidable s.Roomy := inferInstanceAs (Decidable (_ ≤ _))

theorem keyed_fresh : Stream.Keyed {} :=
  .inr ⟨[],keySlots_fresh,le_rfl,le_rfl,by decide⟩

/-- The invariant only reads the key table, the window number and the count of its rows. -/
theorem Stream.Keyed.congr {s t : Stream} (hs : s.Keyed) (hn : t.nextWindow = s.nextWindow)
    (hd : t.windowDistinct = s.windowDistinct) (hk : t.windowKeys = s.windowKeys)
    (hc : t.windowKeyCapacity = s.windowKeyCapacity) : t.Keyed := by
  rcases hs with hz | ⟨edges,hslots,hfits,hopen,hbound⟩
  · exact .inl (hn.trans hz)
  · refine .inr ⟨edges,?_,?_,?_,?_⟩
    · rwa [hn,hk,hc]
    · rwa [hd,hc]
    · rwa [hn]
    · rwa [hn]

/-- An invariant of the windows: what leaves their fields alone keeps it. -/
def WindowInvariant (P : Stream → Prop) : Prop :=
  ∀ s t : Stream, P s → t.nextWindow = s.nextWindow → t.windowDistinct = s.windowDistinct →
    t.windowKeys = s.windowKeys → t.windowKeyCapacity = s.windowKeyCapacity →
    t.windowSources = s.windowSources → t.observationSources = s.observationSources → P t

theorem keyed_windowInvariant : WindowInvariant Stream.Keyed :=
  fun _ _ hs hn hd hk hc _ _ => hs.congr hn hd hk hc

section Frames

variable {stuck : Prop} {P : Stream → Prop} (hP : WindowInvariant P)

include hP

theorem onLane_ends {α : Type} (source : Nat) {check : LaneM α} (hc : Total check) :
    Ends stuck P (onLane source check) := by
  constructor
  intro s hs
  have hr := (hc.at_state (s.lanes source) trivial).result
  constructor
  unfold onLane
  cases hx : check (s.lanes source) with
  | ok a lane => exact hP _ _ hs rfl rfl rfl rfl rfl rfl
  | error fault lane =>
    rw [hx] at hr
    exact ⟨fun hd => (hr.1 hd).elim,hP _ _ hs rfl rfl rfl rfl rfl rfl⟩

theorem acceptSource_ends (h : Header) (bytes : Option Bytes) :
    Ends stuck P (acceptSource h bytes) := by
  have hcount : Ends stuck P (countFilteredRows h) :=
    .get_bind fun s hs => .refuse_bind <| ends_set (hP s _ hs rfl rfl rfl rfl rfl rfl)
  refine .get_bind fun s _ => (onLane_ends hP _ (checkFrame_total _)).bind fun _ =>
    (ends_whenever hcount).bind fun _ => ends_whenever (ends_modify fun t ht => ?_)
  exact hP _ _ ht rfl rfl rfl rfl rfl rfl

theorem acceptHeader_ends (h : Header) : Ends stuck P (acceptHeader h) := by
  have hcheck : Ends stuck P (checkHeader h) := by
    unfold checkHeader
    cases decodeHeader (encodeHeader h) with
    | error message => exact ends_failure message
    | ok _ => exact ends_pure ()
  refine hcheck.bind fun _ => .get_bind fun s hs =>
    .refuse_bind <| .refuse_bind <| ends_ite ?_ ?_
  · refine ends_ite ?_ ?_
    · refine (ends_set ?_).bind fun _ => ends_pure _
      exact hP _ _ hs rfl rfl rfl rfl rfl rfl
    · refine .refuse_bind <| (ends_set ?_).bind fun _ => ends_pure _
      exact hP _ _ hs rfl rfl rfl rfl rfl rfl
  · exact .refuse_bind <| ends_pure _

theorem acceptKernelRequest_ends : Ends stuck P acceptKernelRequest := by
  refine .get_bind fun s hs => .refuse_bind <| (ends_whenever (ends_refuseSome _)).bind fun _ =>
    ends_whenever (.refuse_bind <| ends_set ?_)
  exact hP _ _ hs rfl rfl rfl rfl rfl rfl

theorem acceptComplete_ends : Ends stuck P acceptComplete := by
  refine .get_bind fun s hs => .refuse_bind <| .refuse_bind <| .refuse_bind <|
    (ends_whenever (.refuse_bind <| ends_refuse _)).bind fun _ => .refuse_bind <| ends_set ?_
  exact hP _ _ hs rfl rfl rfl rfl rfl rfl

theorem acceptLayout_ends (bytes : Option Bytes) :
    Ends stuck P (acceptLayout bytes) := by
  refine .get_bind fun s hs => .refuse_bind <| .refuse_bind <| ends_set ?_
  exact hP _ _ hs rfl rfl rfl rfl rfl rfl

theorem acceptContextFilter_ends (bytes : Option Bytes) :
    Ends stuck P (acceptContextFilter bytes) := by
  refine .get_bind fun s hs => .refuse_bind <| .refuse_bind <| .refuse_bind <| ends_set ?_
  exact hP _ _ hs rfl rfl rfl rfl rfl rfl

theorem acceptReducedContext_ends (h : Header) (bytes : Option Bytes) :
    Ends stuck P (acceptReducedContext h bytes) := by
  refine .get_bind fun s _ => (onLane_ends hP _ (reducedContexts_total _)).bind fun _ =>
    ends_modify fun t ht => ?_
  exact hP _ _ ht rfl rfl rfl rfl rfl rfl

theorem acceptRun_ends {h : Header} (hk : h.kind.isSource = true) (bytes : Option Bytes) :
    Ends stuck P (acceptRun h bytes) := by
  refine (acceptHeader_ends hP h).bind fun more => ends_ite ?_ (ends_pure ())
  refine ends_ite (acceptLayout_ends hP bytes) (.get_bind fun s _ => .refuse_bind ?_)
  rw [acceptBody_source hk]
  exact acceptSource_ends hP h bytes

/-- Every pass of the run loop moves its offset, so it leaves the payload before it runs out of
passes. -/
theorem mixedRuns_ends (h : Header) (bytes : Bytes) (fuel offset count : Nat)
    (hfuel : h.detail.toNat - offset < fuel) :
    Ends stuck P (mixedRuns h bytes fuel offset count) := by
  induction fuel generalizing offset count with
  | zero => omega
  | succ fuel ih =>
    rw [mixedRuns]
    by_cases ho : offset < h.detail.toNat
    · rw [if_pos ho]
      refine .refuse_bind ?_
      cases Kind.ofCode (load (bytes.drop offset) 2) with
      | none => exact ends_failure _
      | some kind =>
        refine .check_bind fun hrun => .refuse_bind <| (acceptRun_ends hP ?_ _).bind fun _ => ih _ _ ?_
        · revert hrun
          cases kind <;> simp [runHeader,Kind.isSource]
        · omega
    · rw [if_neg ho]
      exact ends_refuse _

theorem acceptMixed_ends (h : Header) (bytes : Option Bytes) :
    Ends stuck P (acceptMixed h bytes) :=
  .get_bind fun _ _ => .refuse_bind <| mixedRuns_ends hP h _ _ 0 0 (by omega)

end Frames

private theorem acceptObservationSummary_keyed {stuck : Prop} (h : Header) (bytes : Option Bytes) :
    Ends stuck Stream.Keyed (acceptObservationSummary h bytes) := by
  refine .get_bind fun s hs => .refuse_bind <| .refuse_bind <| ends_set ?_
  apply hs.congr <;> dsimp only [Stream.setLane] <;> split <;> rfl

section Rows

variable {stuck : Prop} {s : Stream} {edges : List Edge}

theorem KeysHeld.keyed (hk : KeysHeld s edges) : s.Keyed := .inr ⟨edges,hk⟩

theorem KeysHeld.roomy_iff (hk : KeysHeld s edges) :
    s.Roomy ↔ edges.length*2 ≤ s.windowDistinct*2 + s.windowKeyCapacity := by
  rw [Stream.Roomy,Stream.keysInWindow,hk.slots.used]

private def Remembered (s : Stream) (edges : List Edge) (t : Stream) : Prop :=
  ∃ edges', KeysHeld t edges' ∧ edges'.length = edges.length+1 ∧
    t.windowDistinct = s.windowDistinct ∧ (s.windowDistinct+1)*2 ≤ t.windowKeyCapacity ∧
    s.windowKeyCapacity ≤ t.windowKeyCapacity

private theorem rememberTransition_ends (hk : KeysHeld s edges) (source a b : Nat) :
    outcome (rememberTransition source a b s)
      (fun fault t => (fault = .divergence → ¬s.Roomy) ∧ t.Keyed)
      fun _ t => Remembered s edges t := by
  by_cases hlt : s.windowDistinct < maxTransitionSlots
  · obtain ⟨keys,hslots,heq⟩ := rememberTransition_eq hk.slots hk.opened hlt source a b
    obtain ⟨hmore,hgrown⟩ := grownCapacity_room hk.fits hk.slots.size
    have hheld : KeysHeld
        { s with windowKeys := keys, windowKeyCapacity := s.grownCapacity } edges :=
      ⟨hslots,hk.fits.trans hgrown,hk.opened,hk.bounded⟩
    obtain ⟨hvacant,_,hfull⟩ := @findKey_slots _ _ ⟨s.nextWindow,a,b,source⟩ hheld.slots
      (by dsimp only; omega) rfl
    rw [heq,Stream.storeKey]
    split
    · rename_i slot hslot
      exact ⟨_,⟨(hvacant slot hslot).2,hheld.fits,hk.opened,hk.bounded⟩,by simp,rfl,hmore,hgrown⟩
    · exact ⟨by simp,hheld.keyed⟩
    · rename_i hexhausted
      refine ⟨fun _ hroom => ?_,hheld.keyed⟩
      have hlen := hfull hexhausted
      rw [hk.roomy_iff] at hroom
      dsimp only at hlen
      omega
  · rw [rememberTransition,get_bind,refuse_bind (not_lt.mp hlt)]
    exact ⟨by simp,hk.keyed⟩

private theorem transitionRow_ends (hk : KeysHeld s edges) (source : Nat)
    (observation : Bool) (row : TransitionRow) :
    EndsAt (¬s.Roomy) Stream.Keyed (transitionRow source observation row) s := by
  have hremember := rememberTransition_ends hk source row.fromAddress row.destination
  refine EndsAt.bind ?_ fun _ t hr ht => .get_bind ?_
  · constructor
    revert hremember
    cases rememberTransition source row.fromAddress row.destination s with
    | ok _ t =>
      rintro ⟨edges',hk',_⟩
      exact hk'.keyed
    | error fault t => exact id
  · rw [hr] at hremember
    obtain ⟨edges',hk',_,hd,hfits,_⟩ := hremember
    -- The counters of the row change before the window counts it, the key table does not.
    refine EndsAt.bind ((ends_refuse _).at_state t ht) fun _ u hu _ => ?_
    obtain ⟨_,rfl⟩ := refuse_eq_ok.mp hu
    refine EndsAt.bind (P := Stream.Keyed) ⟨ht.congr rfl rfl rfl rfl⟩ fun _ u hu hkeyed => ?_
    obtain rfl := set_eq_ok.mp hu
    refine EndsAt.bind ((ends_whenever (onLane_ends keyed_windowInvariant source ?_)).at_state _ hkeyed)
      fun _ v hv _ => ?_
    · exact ends_get.bind fun _ => .refuse_bind <| total_set _
    · obtain ⟨hn,hd',hkeys,hcap⟩ : v.nextWindow = t.nextWindow ∧
          v.windowDistinct = t.windowDistinct ∧ v.windowKeys = t.windowKeys ∧
          v.windowKeyCapacity = t.windowKeyCapacity := by
        by_cases ho : observation = true
        · rw [whenever_of ho] at hv
          obtain ⟨lane,_,rfl⟩ := onLane_eq_ok.mp hv
          exact ⟨rfl,rfl,rfl,rfl⟩
        · rw [whenever_of_not ho] at hv
          obtain ⟨_,rfl⟩ := pure_eq_ok.mp hv
          exact ⟨rfl,rfl,rfl,rfl⟩
      refine ⟨.inr ⟨edges',?_,?_,?_,?_⟩⟩
      · dsimp only
        rw [hn,hkeys,hcap]
        exact hk'.slots
      · dsimp only
        rw [hd',hcap]
        omega
      · dsimp only
        rw [hn]
        exact hk'.opened
      · dsimp only
        rw [hn]
        exact hk'.bounded

private theorem transitionRow_held {t : Stream} (hk : KeysHeld s edges)
    {source : Nat} {observation : Bool} {row : TransitionRow}
    (hr : transitionRow source observation row s = .ok () t) :
    ∃ edges', KeysHeld t edges' ∧ (s.Roomy → t.Roomy) := by
  obtain ⟨r,hremember,_,_,_,rfl⟩ := transitionRow_eq_ok.mp hr
  have hspec := rememberTransition_ends hk source row.fromAddress row.destination
  rw [hremember] at hspec
  obtain ⟨edges',hk',hlen,hd,hfits,hgrown⟩ := hspec
  have hheld : KeysHeld
      (r.addRows source observation [row] r.windowKeys r.windowKeyCapacity) edges' :=
    ⟨hk'.slots,by simp only [Stream.addRows,List.length_singleton]; omega,hk'.opened,hk'.bounded⟩
  refine ⟨edges',hheld,fun hroom => hheld.roomy_iff.mpr ?_⟩
  rw [hk.roomy_iff] at hroom
  simp only [Stream.addRows,List.length_singleton]
  omega

private theorem transitionRows_ends (hk : KeysHeld s edges) (source : Nat)
    (observation : Bool) (rows : List TransitionRow) :
    EndsAt (¬s.Roomy) Stream.Keyed (transitionRows source observation rows) s := by
  induction rows generalizing s edges with
  | nil => exact ⟨hk.keyed⟩
  | cons row rows ih =>
    refine (transitionRow_ends hk source observation row).bind fun _ t hr _ => ?_
    obtain ⟨edges',hk',hroom⟩ := transitionRow_held hk hr
    exact (ih hk').mono fun hn hs => hn (hroom hs)

private theorem acceptBlockTransitions_ends {h : Header} (hs : s.Keyed)
    (hseq : h.sequence.toNat ≠ 0) (bytes : Option Bytes) :
    EndsAt (¬s.Roomy) Stream.Keyed (acceptBlockTransitions h bytes) s := by
  refine EndsAt.get_bind <| ((ends_refuse _).at_state s hs).bind fun _ t ht _ => ?_
  obtain ⟨hcurrent,rfl⟩ := refuse_eq_ok.mp ht
  push Not at hcurrent
  rcases hs with hz | ⟨edges,hk⟩
  · rw [hz] at hcurrent
    exact absurd hcurrent.2.2.1 hseq
  · refine (transitionRows_ends hk _ _ _).bind fun _ u _ hu => ?_
    refine EndsAt.get_bind <| ((ends_refuse _).at_state u hu).bind fun _ v hv _ => ?_
    obtain ⟨_,rfl⟩ := refuse_eq_ok.mp hv
    exact ⟨hu.congr rfl rfl rfl rfl⟩

private theorem nextWindow_keyed (hk : KeysHeld s edges) {t : Stream}
    (hn : t.nextWindow = (s.nextWindow+1) % 2^64) (hd : t.nextWindow ≠ 0 → t.windowDistinct = 0)
    (hkeys : t.windowKeys = s.windowKeys) (hcap : t.windowKeyCapacity = s.windowKeyCapacity) :
    t.Keyed := by
  by_cases hz : t.nextWindow = 0
  · exact .inl hz
  · have hbound := hk.bounded
    have hnext : t.nextWindow = s.nextWindow+1 := by omega
    refine .inr ⟨[],?_,?_,?_,?_⟩
    · rw [hnext,hkeys,hcap]
      exact hk.slots.next
    · rw [hd hz]
      omega
    · omega
    · omega

private theorem acceptTransitionWindow_ends {h : Header} (hs : s.Keyed)
    (hseq : h.sequence.toNat ≠ 0) (bytes : Option Bytes) :
    EndsAt stuck Stream.Keyed (acceptTransitionWindow h bytes) s := by
  refine EndsAt.get_bind <| ((ends_refuse _).at_state s hs).bind fun _ t ht _ => ?_
  obtain ⟨hcurrent,rfl⟩ := refuse_eq_ok.mp ht
  push Not at hcurrent
  refine ((ends_refuse _).at_state s hs).bind fun _ t ht _ => ?_
  obtain ⟨_,rfl⟩ := refuse_eq_ok.mp ht
  rcases hs with hz | ⟨edges,hk⟩
  · rw [hz] at hcurrent
    exact absurd hcurrent.2.2.1 hseq
  · have hsame : ∀ q : Stream, q.nextWindow = s.nextWindow → q.windowKeys = s.windowKeys →
        q.windowKeyCapacity = s.windowKeyCapacity → EndsAt stuck Stream.Keyed (do
          set { q with windowExpected := false, nextWindow := (q.nextWindow+1) % 2^64 }
          let s ← get
          refuse (s.nextWindow = 0) "Transition window sequence overflow"
          set { s with
            windowDistinct := 0
            windowObserved := 0
            windowRowsPerSource := fun _ => 0
            windowMaxSourcePlusOne := 0
            windowRows := false } : StreamM Unit) s := by
      intro q hn hkeys hcap
      constructor
      rw [bind_of_ok (a := ()) (set_eq_ok.mpr rfl),get_bind]
      by_cases hz : (q.nextWindow+1) % 2^64 = 0
      · rw [refuse_bind hz]
        exact ⟨by simp,.inl hz⟩
      · rw [refuse_of_not hz,pure_bind]
        exact nextWindow_keyed hk (by rw [hn]) (fun _ => rfl) hkeys hcap
    dsimp only
    split
    · exact hsame _ rfl rfl rfl
    · exact hsame _ rfl rfl rfl

end Rows

private theorem sequence_of_headerFault {h : Header} (hf : headerFault h = none)
    (hk : h.kind = .blockTransitions ∨ h.kind = .transitionWindow) : h.sequence.toNat ≠ 0 := by
  simp only [headerFault,check_eq_none,fieldFault] at hf
  rcases hk with hk | hk <;> simp only [hk,check_eq_none] at hf <;> omega

/-- The dispatch of `accept`, for an invariant of the windows that the three kinds of frames keep
which change a window. -/
theorem accept_endsAt {stuck : Prop} {P : Stream → Prop} (hP : WindowInvariant P) {s : Stream}
    (hs : P s) (h : Header) (bytes : Option Bytes)
    (hrows : headerFault h = none → h.kind = .blockTransitions →
      EndsAt stuck P (acceptBlockTransitions h bytes) s)
    (hsummary : EndsAt stuck P (acceptObservationSummary h bytes) s)
    (hwindow : headerFault h = none → h.kind = .transitionWindow →
      EndsAt stuck P (acceptTransitionWindow h bytes) s) : EndsAt stuck P (accept h bytes) s := by
  have hbody (hf : headerFault h = none) : EndsAt stuck P (acceptBody h bytes) s := by
    unfold acceptBody
    cases hk : h.kind with
    | kernelRequest => exact (acceptKernelRequest_ends hP).at_state s hs
    | guestEvent => exact Ends.at_state (.get_bind fun _ _ => .refuse_bind <| ends_refuse _) s hs
    | blockTransitions => exact hrows hf hk
    | reducedContext => exact (acceptReducedContext_ends hP h bytes).at_state s hs
    | observationSummary => exact hsummary
    | transitionWindow => exact hwindow hf hk
    | contextFilter => exact (acceptContextFilter_ends hP bytes).at_state s hs
    | error => exact ⟨hP _ _ hs rfl rfl rfl rfl rfl rfl⟩
    | terminalReport => exact ⟨hP _ _ hs rfl rfl rfl rfl rfl rfl⟩
    | complete => exact (acceptComplete_ends hP).at_state s hs
    | _ => exact (acceptSource_ends hP h bytes).at_state s hs
  refine ((acceptHeader_ends hP h).at_state s hs).bind fun more t ht htk => ?_
  obtain ⟨hf,_,⟨_,_,rfl,_⟩ | ⟨_,_,_,rfl,rfl⟩⟩ := acceptHeader_eq_ok.mp ht
  · exact ⟨htk⟩
  · by_cases hm : h.kind = .mixed
    · rw [if_pos rfl,if_pos hm]
      exact (acceptMixed_ends hP h bytes).at_state s hs
    · rw [if_pos rfl,if_neg hm,acceptKind]
      by_cases hl : h.kind = .executableLayout
      · rw [if_pos hl]
        exact (acceptLayout_ends hP bytes).at_state s hs
      · rw [if_neg hl]
        refine EndsAt.get_bind <| ((ends_refuse _).at_state s hs).bind fun _ t ht _ => ?_
        obtain ⟨_,rfl⟩ := refuse_eq_ok.mp ht
        exact hbody hf

/-- A call keeps the key table in order, and with room in the table it returns. -/
theorem accept_ends {s : Stream} (hs : s.Keyed) (h : Header) (bytes : Option Bytes) :
    EndsAt (¬s.Roomy) Stream.Keyed (accept h bytes) s :=
  accept_endsAt keyed_windowInvariant hs h bytes
    (fun hf hk => acceptBlockTransitions_ends hs (sequence_of_headerFault hf (.inl hk)) bytes)
    ((acceptObservationSummary_keyed h bytes).at_state s hs)
    fun hf hk => acceptTransitionWindow_ends hs (sequence_of_headerFault hf (.inr hk)) bytes

/-- The state a call leaves, accepted or rejected; none when the call never returns. -/
def acceptCall (frame : Frame) (s : Stream) : Option Stream :=
  outcome (acceptFrame frame s) (fun fault t => if fault = .divergence then none else some t)
    fun _ t => some t

def acceptCalls : List Frame → Stream → Option Stream
  | [], s => some s
  | frame::frames, s => (acceptCall frame s).bind (acceptCalls frames)

theorem acceptCalls_append (frames frames' : List Frame) (s : Stream) :
    acceptCalls (frames ++ frames') s = (acceptCalls frames s).bind (acceptCalls frames') := by
  induction frames generalizing s with
  | nil => rfl
  | cons frame frames ih =>
    rw [List.cons_append,acceptCalls,acceptCalls,Option.bind_assoc]
    congr 1
    funext t
    exact ih t

/-- A call leaves the invariant that `accept` keeps, however it ended. -/
theorem acceptCall_of_endsAt {stuck : Prop} {P : Stream → Prop} {frame : Frame} {s t : Stream}
    (he : EndsAt stuck P (accept frame.header frame.payload) s) (hc : acceptCall frame s = some t) :
    P t := by
  obtain ⟨he⟩ := he
  unfold acceptCall acceptFrame at hc
  cases hr : accept frame.header frame.payload s with
  | ok a u =>
    rw [hr] at he hc
    cases hc
    exact he
  | error fault u =>
    rw [hr] at he hc
    by_cases hd : fault = .divergence
    · simp [hd] at hc
    · rw [outcome_error,if_neg hd] at hc
      cases hc
      exact he.2

/-- The run lemma: what every call keeps holds after any calls. -/
theorem acceptCalls_induct {P : Stream → Prop}
    (hstep : ∀ frame s t, P s → acceptCall frame s = some t → P t) {frames : List Frame}
    {s t : Stream} (hs : P s) (hc : acceptCalls frames s = some t) : P t := by
  induction frames generalizing s with
  | nil =>
    cases hc
    exact hs
  | cons frame frames ih =>
    obtain ⟨r,hr,hc⟩ := Option.bind_eq_some_iff.mp hc
    exact ih (hstep frame s r hs hr) hc

theorem acceptCalls_keyed {frames : List Frame} {s t : Stream} (hs : s.Keyed)
    (hc : acceptCalls frames s = some t) : t.Keyed :=
  acceptCalls_induct (fun frame _ _ hs hr =>
    acceptCall_of_endsAt (accept_ends hs frame.header frame.payload) hr) hs hc

/-- After any calls, accepted or rejected, the next call returns if at most half of the key table
is taken by rows that the open window does not count. -/
theorem acceptCall_returns (frames : List Frame) (frame : Frame) (s : Stream)
    (hcalls : acceptCalls frames {} = some s) (hroom : s.Roomy) : ∃ t, acceptCall frame s = some t := by
  have he := (accept_ends (acceptCalls_keyed keyed_fresh hcalls) frame.header frame.payload).result
  unfold acceptCall acceptFrame
  cases hr : accept frame.header frame.payload s with
  | ok a t => exact ⟨t,rfl⟩
  | error fault t =>
    rw [hr] at he
    exact ⟨t,if_neg fun hd => he.1 hd hroom⟩

def reducedHello : Frame where
  header :=
    { kind := .hello
      detail := 2 ||| featureSystem ||| featureAddressContext ||| featureObservationReduction }

def rowHeader : Header where
  kind := .blockTransitions
  count := 1
  sequence := 1
  detail := 24

def zeroRow (fromAddress : Nat) : Frame where
  header := rowHeader
  payload := some (store fromAddress 8 ++ store 0 16)

def reducedStream (keys : Nat → TransitionKey) (capacity : Nat) : Stream :=
  { Stream.opened {} reducedHello.header with windowKeys := keys, windowKeyCapacity := capacity }

private theorem acceptCall_hello : acceptCall reducedHello {} = some (reducedStream (fun _ => {}) 0) := by
  have hr : acceptHeader reducedHello.header {} = .ok false (Stream.opened {} reducedHello.header) :=
    acceptHeader_eq_ok.mpr ⟨by decide +kernel,rfl,.inl ⟨rfl,.inr rfl,rfl,rfl⟩⟩
  rw [acceptCall,acceptFrame,accept,bind_of_ok hr]
  rfl

private theorem loadTransitionRows_zeroRow {a : Nat} (ha : a < 2^64) :
    loadTransitionRows (store a 8 ++ store 0 16) 1 0 = [⟨a,0,0⟩] := by
  have hload : load (store a 8 ++ store 0 16) 8 = a := load_store_of_lt (by omega) _
  have hdrop : (store a 8 ++ store 0 16).drop 8 = store 0 16 := drop_append_eq _ _ (by simp)
  have hdrop' : (store a 8 ++ store 0 16).drop 16 = (store 0 16).drop 8 := by
    rw [show 16 = 8+8 from rfl,← List.drop_drop,hdrop]
  simp only [loadTransitionRows,loadTransitionRow,Nat.zero_mul,List.drop_zero,hload,hdrop,hdrop']
  rfl

private theorem acceptFrame_zeroRow {a : Nat} (ha : a < 2^64) (keys : Nat → TransitionKey)
    (capacity : Nat) :
    acceptFrame (zeroRow a) (reducedStream keys capacity) =
      outcome (rememberTransition 0 a 0 (reducedStream keys capacity)) .error
        fun _ t => .error (.failure "Invalid or overflowing block transition count") t := by
  have hheader : acceptHeader rowHeader (reducedStream keys capacity) =
      .ok true (reducedStream keys capacity) :=
    acceptHeader_eq_ok.mpr ⟨by decide +kernel,rfl,.inr ⟨rfl,rfl,by decide,rfl,rfl⟩⟩
  have hlayout : ¬Has reducedHello.header.detail featureExecutableLayout := by decide
  have hwindows : ¬Has reducedHello.header.detail featureTransitionWindows := by decide
  have hreduced : Has reducedHello.header.detail featureObservationReduction := by decide
  obtain ⟨fault,t,hrow,hresult⟩ : ∃ fault t,
      transitionRow 0 true ⟨a,0,0⟩ (reducedStream keys capacity) = .error fault t ∧
      outcome (rememberTransition 0 a 0 (reducedStream keys capacity)) .error (fun _ t =>
        EStateM.Result.error (α := Unit)
          (.failure "Invalid or overflowing block transition count") t) = .error fault t := by
    cases hr : rememberTransition 0 a 0 (reducedStream keys capacity) with
    | ok _ t =>
      refine ⟨_,t,?_,rfl⟩
      rw [transitionRow,bind_of_ok hr,get_bind,refuse_bind (.inl rfl)]
    | error fault t =>
      refine ⟨fault,t,?_,rfl⟩
      rw [transitionRow,bind_of_error hr]
  have hrows : transitionRows 0 true [⟨a,0,0⟩] (reducedStream keys capacity) = .error fault t := by
    rw [transitionRows,bind_of_error hrow]
  have hblock : acceptBlockTransitions rowHeader (zeroRow a).payload (reducedStream keys capacity) =
      .error fault t := by
    rw [acceptBlockTransitions,get_bind,refuse_of_not,pure_bind]
    · apply bind_of_error
      change transitionRows 0 (decide (Has reducedHello.header.detail featureObservationReduction))
        (loadTransitionRows (store a 8 ++ store 0 16) 1 0) _ = _
      rw [decide_eq_true hreduced,loadTransitionRows_zeroRow ha]
      exact hrows
    · rintro (⟨_,hn⟩ | hn | hn | hn | hn | ⟨hn,_⟩ | ⟨_,hn⟩)
      · exact hn hreduced
      · cases hn
      · exact hn rfl
      · exact absurd hn (by decide)
      · cases hn
      · exact hwindows hn
      · cases hn
  rw [hresult]
  change accept rowHeader (zeroRow a).payload _ = _
  rw [accept,bind_of_ok hheader,if_pos rfl,if_neg (show ¬rowHeader.kind = .mixed by decide),acceptKind,
    if_neg (show ¬rowHeader.kind = .executableLayout by decide),get_bind,
    refuse_of_not (fun hl => hlayout hl.1),pure_bind]
  exact hblock

private def zeroEdges (n : Nat) : List Edge := (List.range n).map fun a => (0,a,0)

private theorem mem_zeroEdges {n a : Nat} (hm : ((0,a,0) : Edge) ∈ zeroEdges n) : a < n := by
  simpa [zeroEdges] using hm

/-- The table after `n` rejected frames: it grew once, for the first row. -/
private def Filled (n : Nat) (s : Stream) : Prop :=
  ∃ keys capacity, s = reducedStream keys capacity ∧ KeySlots 1 capacity keys (zeroEdges n) ∧
    s.grownCapacity = 512

private theorem filled_remember {n : Nat} {s : Stream} (hs : Filled n s) :
    ∃ keys, KeySlots 1 512 keys (zeroEdges n) ∧
      rememberTransition 0 n 0 s = (reducedStream keys 512).storeKey ⟨1,n,0,0⟩ := by
  obtain ⟨keys,capacity,rfl,hslots,hgrown⟩ := hs
  obtain ⟨keys',hslots',heq⟩ := rememberTransition_eq (s := reducedStream keys capacity) hslots
    le_rfl (show 0 < maxTransitionSlots by decide) 0 n 0
  rw [hgrown] at hslots' heq
  exact ⟨keys',hslots',heq⟩

private theorem filled_step {n : Nat} {s : Stream} (hs : Filled n s) (hn : n < 512) :
    ∃ t, acceptCall (zeroRow n) s = some t ∧ Filled (n+1) t := by
  obtain ⟨keys',hslots,heq⟩ := filled_remember hs
  obtain ⟨keys,capacity,rfl,_,_⟩ := hs
  obtain ⟨hvacant,hfound,hfull⟩ := @findKey_slots (reducedStream keys' 512) (zeroEdges n)
    ⟨1,n,0,0⟩ hslots (show 512 ≠ 0 by decide) rfl
  cases hfind : (reducedStream keys' 512).findKey ⟨1,n,0,0⟩ with
  | vacant slot =>
    refine ⟨reducedStream (Function.update keys' slot ⟨1,n,0,0⟩) 512,?_,_,_,rfl,?_,rfl⟩
    · rw [acceptCall,acceptFrame_zeroRow (by omega),heq,Stream.storeKey,hfind]
      rfl
    · have hkeep := (hvacant slot hfind).2
      have hedges : zeroEdges (n+1) = zeroEdges n ++ [(0,n,0)] := by
        simp [zeroEdges,List.range_succ]
      rw [hedges]
      exact hkeep
  | found slot => exact absurd (mem_zeroEdges (hfound slot hfind)) (lt_irrefl n)
  | exhausted =>
    have hlen := hfull hfind
    have hcapacity : (reducedStream keys' 512).windowKeyCapacity = 512 := rfl
    rw [hcapacity,zeroEdges,List.length_map,List.length_range] at hlen
    omega

private theorem filled_calls (n : Nat) (hn : n ≤ 512) :
    ∃ s, acceptCalls (reducedHello :: (List.range n).map zeroRow) {} = some s ∧ Filled n s := by
  induction n with
  | zero =>
    refine ⟨reducedStream (fun _ => {}) 0,?_,_,_,rfl,keySlots_fresh,rfl⟩
    rw [acceptCalls,acceptCall_hello]
    rfl
  | succ n ih =>
    obtain ⟨s,hs,hfilled⟩ := ih (by omega)
    obtain ⟨t,ht,hnext⟩ := filled_step hfilled (by omega)
    refine ⟨t,?_,hnext⟩
    rw [List.range_succ,List.map_append,← List.cons_append,acceptCalls_append,hs]
    simp [acceptCalls,ht]

/-- A full table of which the window counts no row does not grow, and the search loop runs around
it for ever. -/
private theorem filled_diverges {s : Stream} (hs : Filled 512 s) : acceptCall (zeroRow 512) s = none := by
  obtain ⟨keys',hslots,heq⟩ := filled_remember hs
  obtain ⟨keys,capacity,rfl,_,_⟩ := hs
  obtain ⟨hvacant,hfound,_⟩ := @findKey_slots (reducedStream keys' 512) (zeroEdges 512)
    ⟨1,512,0,0⟩ hslots (show 512 ≠ 0 by decide) rfl
  have hfind : (reducedStream keys' 512).findKey ⟨1,512,0,0⟩ = .exhausted := by
    cases hfind : (reducedStream keys' 512).findKey ⟨1,512,0,0⟩ with
    | vacant slot =>
      have hused := (hvacant slot hfind).2.used
      have hle := used_le 512 (keyCells 1 (Function.update keys' slot ⟨1,512,0,0⟩))
      change used 512 (keyCells 1 (Function.update keys' slot ⟨1,512,0,0⟩)) = _ at hused
      simp only [zeroEdges,List.length_append,List.length_map,List.length_range,
        List.length_singleton] at hused
      omega
    | found slot => exact absurd (mem_zeroEdges (hfound slot hfind)) (lt_irrefl 512)
    | exhausted => rfl
  rw [acceptCall,acceptFrame_zeroRow (by omega),heq,Stream.storeKey,hfind]
  rfl

/-- After 512 rejected rows of count zero the next new row makes `accept` loop. -/
theorem acceptCall_diverges :
    ∃ s, acceptCalls (reducedHello :: (List.range 512).map zeroRow) {} = some s ∧
      acceptCall (zeroRow 512) s = none := by
  obtain ⟨s,hs,hfilled⟩ := filled_calls 512 le_rfl
  exact ⟨s,hs,filled_diverges hfilled⟩

/-- One rejected row leaves room for any further call. -/
theorem acceptCall_returns_after_rejection :
    ∃ s, acceptCalls [reducedHello,zeroRow 0] {} = some s ∧ s.Roomy ∧
      ∃ t, acceptCall (zeroRow 1) s = some t := by
  obtain ⟨s,hs,keys,capacity,rfl,hslots,hgrown⟩ := filled_calls 1 (by decide)
  have hroom : (reducedStream keys capacity).Roomy := by
    have hused : used capacity (keyCells 1 keys) = 1 := hslots.used
    change used capacity (keyCells 1 keys)*2 ≤ 0*2 + capacity
    rcases hslots.size with rfl | ⟨k,hk,rfl⟩
    · exact absurd hused Nat.zero_ne_one
    · have hpos : 2^9 ≤ 2^k := Nat.pow_le_pow_right (by omega) hk
      omega
  exact ⟨_,hs,hroom,acceptCall_returns _ _ _ hs hroom⟩

end Cpu2Tensor
