import Cpu2Tensor.Stream.Global

/-!
# The transition key table

The table of `remember_transition` holds exactly the rows of the open window.  Slots of earlier
windows count as free, the table doubles before it is half full, and a probe that meets a free
slot shows that the row is new.
-/

namespace Cpu2Tensor
open Library

/-- Source, from address and destination of a row. -/
abbrev Edge := Nat × Nat × Nat

def TransitionKey.edge (key : TransitionKey) : Edge := (key.source,key.fromAddress,key.destination)

def keyCells (window : Nat) (keys : Nat → TransitionKey) (slot : Nat) : Option Edge :=
  if (keys slot).window = window then some (keys slot).edge else none

def edgeHome (capacity : Nat) (edge : Edge) : Nat :=
  TransitionKey.home (capacity-1) ⟨0,edge.2.1,edge.2.2,edge.1⟩

theorem home_edge (capacity : Nat) (key : TransitionKey) :
    key.home (capacity-1) = edgeHome capacity key.edge := rfl

/-- The slots of the open window hold `edges`, however full the table is: a row that is rejected
after it was remembered stays in its slot. -/
structure KeySlots (window capacity : Nat) (keys : Nat → TransitionKey) (edges : List Edge) :
    Prop where
  size : capacity = 0 ∨ ∃ k, 9 ≤ k ∧ capacity = 2^k
  chained : Chained capacity (edgeHome capacity) (keyCells window keys)
  holds : ∀ edge, Holds capacity (keyCells window keys) edge ↔ edge ∈ edges
  used : used capacity (keyCells window keys) = edges.length
  stale : ∀ slot, (keys slot).window ≤ window

/-- The key table holds the rows `edges` of window `window`, and is at most half full. -/
structure KeyTable (window capacity : Nat) (keys : Nat → TransitionKey) (edges : List Edge) : Prop
    extends KeySlots window capacity keys edges where
  fits : edges.length*2 ≤ capacity

variable {capacity k window : Nat} {edges : List Edge} {keys : Nat → TransitionKey} {s : Stream}

section Masks

variable {k : Nat}

private theorem mask_next (slot : Nat) : (slot+1) &&& (2^k-1) = (slot+1) % 2^k :=
  Nat.and_two_pow_sub_one_eq_mod _ _

private theorem edgeHome_lt (edge : Edge) : edgeHome (2^k) edge < 2^k := by
  rw [edgeHome,TransitionKey.home,Nat.and_two_pow_sub_one_eq_mod]
  exact Nat.mod_lt _ (by positivity)

end Masks

theorem keySlots_fresh : KeySlots 1 0 (fun _ => {}) [] := by
  refine ⟨.inl rfl,⟨fun _ _ h => absurd h (by omega),fun _ _ _ h => absurd h (by omega)⟩,?_,rfl,
    fun _ => by simp⟩
  simp [Holds]

theorem keyTable_fresh : KeyTable 1 0 (fun _ => {}) [] := ⟨keySlots_fresh,by simp⟩

theorem KeySlots.next (hs : KeySlots window capacity keys edges) :
    KeySlots (window+1) capacity keys [] := by
  have hcells : keyCells (window+1) keys = fun _ => none := by
    funext slot
    have := hs.stale slot
    exact if_neg (by omega)
  refine ⟨hs.size,?_,?_,?_,fun slot => (hs.stale slot).trans (by omega)⟩
  · rw [hcells]
    exact chained_empty _ _
  · simp [Holds,hcells]
  · rw [hcells]
    exact used_empty _

theorem KeyTable.next (ht : KeyTable window capacity keys edges) :
    KeyTable (window+1) capacity keys [] :=
  ⟨ht.toKeySlots.next,by simp⟩

private theorem keyCells_update (window slot : Nat) (keys : Nat → TransitionKey)
    (key : TransitionKey) (hw : key.window = window) :
    keyCells window (Function.update keys slot key) =
      Function.update (keyCells window keys) slot (some key.edge) := by
  funext i
  by_cases hi : i = slot
  · subst hi
    simp [keyCells,hw]
  · simp [keyCells,hi]

private theorem findKey_probes (hc : s.windowKeyCapacity = 2^k) (key : TransitionKey) :
    Probes (2^k) (edgeHome (2^k)) (keyCells s.nextWindow s.windowKeys) key.edge
      (fun slot => (s.windowKeys slot).window == s.nextWindow)
      (fun slot => (s.windowKeys slot).source == key.source &&
        (s.windowKeys slot).fromAddress == key.fromAddress &&
        (s.windowKeys slot).destination == key.destination)
      (fun slot => (slot+1) &&& (s.windowKeyCapacity-1)) := by
  refine ⟨by positivity,edgeHome_lt _,fun slot _ => ?_,fun slot _ => ?_,fun slot _ hb => ?_⟩
  · rw [hc]
    exact mask_next slot
  · by_cases hw : (s.windowKeys slot).window = s.nextWindow <;> simp [keyCells,hw]
  · have hw : (s.windowKeys slot).window = s.nextWindow := by simpa using hb
    simp [keyCells,hw,TransitionKey.edge,and_assoc]

/-- The search loop stops at the row if it is stored and otherwise at a free slot, where storing
it keeps the table; in a full table it never stops at a row that is not stored. -/
theorem findKey_slots {s : Stream} {edges : List Edge} {key : TransitionKey}
    (hs : KeySlots s.nextWindow s.windowKeyCapacity s.windowKeys edges)
    (hpos : s.windowKeyCapacity ≠ 0) (hw : key.window = s.nextWindow) :
    (∀ slot, s.findKey key = .vacant slot → key.edge ∉ edges ∧
      KeySlots s.nextWindow s.windowKeyCapacity (Function.update s.windowKeys slot key)
        (edges ++ [key.edge])) ∧
    (∀ slot, s.findKey key = .found slot → key.edge ∈ edges) ∧
    (s.findKey key = .exhausted → edges.length = s.windowKeyCapacity) := by
  obtain ⟨hsize,hchained,hholds,hused,hstale⟩ := hs
  obtain ⟨k,hk,hc⟩ := hsize.resolve_left hpos
  have hp := findKey_probes hc key
  have hfind : s.findKey key = probe (fun slot => (s.windowKeys slot).window == s.nextWindow)
      (fun slot => (s.windowKeys slot).source == key.source &&
        (s.windowKeys slot).fromAddress == key.fromAddress &&
        (s.windowKeys slot).destination == key.destination)
      (fun slot => (slot+1) &&& (s.windowKeyCapacity-1)) (2^k) (edgeHome (2^k) key.edge) := by
    rw [← hc]
    rfl
  rw [hc] at hchained hholds hused ⊢
  refine ⟨fun slot hslot => ?_,fun slot hslot => ?_,fun hfull => ?_⟩
  · obtain ⟨hlt,hfree,habsent,hkeep⟩ := hp.vacant hchained (hfind ▸ hslot)
    refine ⟨fun hmem => habsent ((hholds _).mpr hmem),.inr ⟨k,hk,rfl⟩,?_,fun edge => ?_,?_,?_⟩
    · rw [keyCells_update _ _ _ _ hw]
      exact hkeep
    · rw [keyCells_update _ _ _ _ hw,holds_update hlt hfree,hholds]
      simp [or_comm]
    · rw [keyCells_update _ _ _ _ hw,used_update hlt hfree,hused]
      simp
    · intro i
      by_cases hi : i = slot
      · subst hi
        simp [hw]
      · simpa [hi] using hstale i
  · obtain ⟨hlt,hcell⟩ := hp.found (hfind ▸ hslot)
    exact (hholds _).mp ⟨slot,hlt,hcell⟩
  · rw [← hused]
    exact hp.exhausted_used (hfind ▸ hfull)

theorem findKey_vacant {s : Stream} {edges : List Edge} {key : TransitionKey}
    (ht : KeyTable s.nextWindow s.windowKeyCapacity s.windowKeys edges)
    (hroom : (edges.length+1)*2 ≤ s.windowKeyCapacity) (hw : key.window = s.nextWindow) :
    (key.edge ∉ edges → ∃ slot, s.findKey key = .vacant slot) ∧
    ∀ slot, s.findKey key = .vacant slot → key.edge ∉ edges ∧
      KeyTable s.nextWindow s.windowKeyCapacity (Function.update s.windowKeys slot key)
        (edges ++ [key.edge]) := by
  obtain ⟨hvacant,hfound,hfull⟩ := findKey_slots ht.toKeySlots (by omega) hw
  constructor
  · intro hnew
    cases hresult : s.findKey key with
    | vacant slot => exact ⟨slot,rfl⟩
    | found slot => exact absurd (hfound slot hresult) hnew
    | exhausted =>
      have := hfull hresult
      omega
  · intro slot hslot
    obtain ⟨hnew,hkeep⟩ := hvacant slot hslot
    exact ⟨hnew,hkeep,by simpa using hroom⟩

/-- A table that has taken over the slots below `done` of the old one. -/
structure Rehashed (window capacity done : Nat) (old keys : Nat → TransitionKey) : Prop where
  chained : Chained capacity (edgeHome capacity) (keyCells window keys)
  holds : ∀ edge, Holds capacity (keyCells window keys) edge ↔
    Holds done (keyCells window old) edge
  used : used capacity (keyCells window keys) = used done (keyCells window old)
  stale : ∀ slot, (keys slot).window ≤ window

private theorem holds_succ {K : Type} (n : Nat) (cells : Nat → Option K) (key : K) :
    Holds (n+1) cells key ↔ cells n = some key ∨ Holds n cells key := by
  constructor
  · rintro ⟨slot,hs,hk⟩
    rcases Nat.lt_succ_iff_lt_or_eq.mp hs with hs | rfl
    · exact .inr ⟨slot,hs,hk⟩
    · exact .inl hk
  · rintro (hk | ⟨slot,hs,hk⟩)
    · exact ⟨n,by omega,hk⟩
    · exact ⟨slot,by omega,hk⟩

private theorem rehashKey_step {done : Nat} {old : Nat → TransitionKey} (hc : capacity = 2^k)
    (hr : Rehashed window capacity done old keys)
    (hroom : used (done+1) (keyCells window old) < capacity + 1)
    (hnew : ∀ edge, keyCells window old done = some edge → ¬Holds done (keyCells window old) edge) :
    ∃ keys', rehashKey window capacity keys (old done) = some keys' ∧
      Rehashed window capacity (done+1) old keys' := by
  by_cases hw : (old done).window = window
  · have hcell : keyCells window old done = some (old done).edge := if_pos hw
    have habsent : ¬Holds capacity (keyCells window keys) (old done).edge := fun hh =>
      hnew _ hcell ((hr.holds _).mp hh)
    rw [used_succ,hcell,← hr.used] at hroom
    subst hc
    have hp : Probes (2^k) (edgeHome (2^k)) (keyCells window keys) (old done).edge
        (fun slot => (keys slot).window == window) (fun _ => false)
        (fun slot => (slot+1) &&& (2^k-1)) := by
      refine ⟨by positivity,edgeHome_lt _,fun slot _ => mask_next slot,fun slot _ => ?_,
        fun slot hs _ => ?_⟩
      · by_cases hs : (keys slot).window = window <;> simp [keyCells,hs]
      · simp only [Bool.false_eq_true,false_iff]
        exact fun hk => habsent ⟨slot,hs,hk⟩
    cases hresult : probe (fun slot => (keys slot).window == window) (fun _ => false)
        (fun slot => (slot+1) &&& (2^k-1)) (2^k) (edgeHome (2^k) (old done).edge) with
    | vacant slot =>
      obtain ⟨hlt,hfree,_,hkeep⟩ := hp.vacant hr.chained hresult
      refine ⟨Function.update keys slot (old done),?_,?_,fun edge => ?_,?_,fun i => ?_⟩
      · simp only [rehashKey,hw,ne_eq,not_true,if_false,home_edge,hresult]
      · rw [keyCells_update _ _ _ _ hw]
        exact hkeep
      · rw [keyCells_update _ _ _ _ hw,holds_update hlt hfree,hr.holds,holds_succ,hcell,
          Option.some_inj,eq_comm]
      · rw [keyCells_update _ _ _ _ hw,used_update hlt hfree,hr.used,used_succ,hcell]
        simp
      · by_cases hi : i = slot
        · subst hi
          simp [hw]
        · simpa [hi] using hr.stale i
    | found slot => exact absurd ⟨slot,hp.found hresult⟩ habsent
    | exhausted =>
      have := hp.exhausted_used hresult
      simp only [Option.isSome_some,if_true] at hroom
      omega
  · have hcell : keyCells window old done = none := if_neg hw
    refine ⟨keys,by simp [rehashKey,hw],hr.chained,fun edge => ?_,?_,hr.stale⟩
    · rw [hr.holds,holds_succ,hcell]
      simp
    · rw [hr.used,used_succ,hcell]
      simp

theorem rehash_slots (ht : KeySlots s.nextWindow s.windowKeyCapacity s.windowKeys edges)
    (hwindow : 1 ≤ s.nextWindow) (hk : 9 ≤ k) (hc : capacity = 2^k)
    (hroom : edges.length ≤ capacity) :
    ∃ keys, s.rehash capacity = some keys ∧ KeySlots s.nextWindow capacity keys edges := by
  have hextends : ∀ done ≤ s.windowKeyCapacity, ∃ keys,
      (List.range done).foldlM (fun keys index =>
        rehashKey s.nextWindow capacity keys (s.windowKeys index)) (fun _ => {}) = some keys ∧
      Rehashed s.nextWindow capacity done s.windowKeys keys := by
    intro done
    induction done with
    | zero =>
      intro _
      have hcells : keyCells s.nextWindow (fun _ => ({} : TransitionKey)) = fun _ => none := by
        funext slot
        exact if_neg (by simp; omega)
      refine ⟨fun _ => {},rfl,?_,?_,?_,fun _ => by simp⟩
      · rw [hcells]
        exact chained_empty _ _
      · simp [Holds,hcells]
      · rw [hcells,used_empty]
        rfl
    | succ done ih =>
      intro hdone
      obtain ⟨keys,hfold,hr⟩ := ih (by omega)
      have hused := used_mono hdone (keyCells s.nextWindow s.windowKeys)
      rw [ht.used] at hused
      obtain ⟨keys',hstep,hr'⟩ := rehashKey_step hc hr (by omega) (by
        rintro edge hcell ⟨slot,hs,hk⟩
        have := ht.chained.unique slot done edge (by omega) (by omega) hk hcell
        omega)
      refine ⟨keys',?_,hr'⟩
      rw [List.range_succ,List.foldlM_append,hfold]
      simpa using hstep
  obtain ⟨keys,hfold,hr⟩ := hextends _ le_rfl
  refine ⟨keys,hfold,.inr ⟨k,hk,hc⟩,hr.chained,fun edge => ?_,?_,hr.stale⟩
  · rw [hr.holds,ht.holds]
  · rw [hr.used,ht.used]

def Stream.grownCapacity (s : Stream) : Nat :=
  if s.windowKeyCapacity = 0 ∨ (s.windowDistinct+1)*2 > s.windowKeyCapacity then
    if s.windowKeyCapacity = 0 then 512 else s.windowKeyCapacity*2
  else s.windowKeyCapacity

/-- The growth test leaves room for one more row than the window counts. -/
theorem grownCapacity_room (hd : s.windowDistinct*2 ≤ s.windowKeyCapacity)
    (hsize : s.windowKeyCapacity = 0 ∨ ∃ k, 9 ≤ k ∧ s.windowKeyCapacity = 2^k) :
    (s.windowDistinct+1)*2 ≤ s.grownCapacity ∧ s.windowKeyCapacity ≤ s.grownCapacity := by
  unfold Stream.grownCapacity
  rcases hsize with hz | ⟨k,hk,hc⟩
  · simp [hz]
    omega
  · have hpos : 2^9 ≤ 2^k := Nat.pow_le_pow_right (by omega) hk
    rw [if_neg (by omega : s.windowKeyCapacity ≠ 0)]
    split <;> omega

theorem grown_slots (hs : KeySlots s.nextWindow s.windowKeyCapacity s.windowKeys edges)
    (hwindow : 1 ≤ s.nextWindow) :
    ∃ keys, KeySlots s.nextWindow s.grownCapacity keys edges ∧
      whenever (s.windowKeyCapacity = 0 ∨ (s.windowDistinct+1)*2 > s.windowKeyCapacity)
          (growTransitionKeys (if s.windowKeyCapacity = 0 then 512 else s.windowKeyCapacity*2)) s =
        .ok () { s with windowKeys := keys, windowKeyCapacity := s.grownCapacity } := by
  by_cases hg : s.windowKeyCapacity = 0 ∨ (s.windowDistinct+1)*2 > s.windowKeyCapacity
  · have hused : edges.length ≤ s.windowKeyCapacity := hs.used ▸ used_le _ _
    obtain ⟨k,hk,hc,hmore⟩ : ∃ k, 9 ≤ k ∧
        (if s.windowKeyCapacity = 0 then 512 else s.windowKeyCapacity*2) = 2^k ∧
        s.windowKeyCapacity ≤ if s.windowKeyCapacity = 0 then 512 else s.windowKeyCapacity*2 := by
      rcases hs.size with hz | ⟨k,hk,hc⟩
      · exact ⟨9,le_rfl,by simp [hz],by simp [hz]⟩
      · have hpos : 2^9 ≤ 2^k := Nat.pow_le_pow_right (by omega) hk
        rw [if_neg (by omega : s.windowKeyCapacity ≠ 0)]
        exact ⟨k+1,by omega,by rw [hc,pow_succ],by omega⟩
    obtain ⟨keys,hrehash,hslots⟩ := rehash_slots hs hwindow hk hc (by omega)
    rw [Stream.grownCapacity,if_pos hg,whenever_of hg]
    exact ⟨keys,hslots,growTransitionKeys_eq_ok.mpr ⟨keys,hrehash,rfl⟩⟩
  · rw [Stream.grownCapacity,if_neg hg,whenever_of_not hg]
    exact ⟨s.windowKeys,hs,rfl⟩

/-- The search loop of `remember_transition` with what it does at its end. -/
def Stream.storeKey (s : Stream) (key : TransitionKey) : EStateM.Result Fault Stream Unit :=
  match s.findKey key with
  | .vacant slot => .ok () { s with windowKeys := Function.update s.windowKeys slot key }
  | .found _ => .error (.failure "Duplicate block transition row") s
  | .exhausted => .error .divergence s

theorem rememberTransition_eq {s : Stream} {edges : List Edge}
    (hs : KeySlots s.nextWindow s.windowKeyCapacity s.windowKeys edges)
    (hwindow : 1 ≤ s.nextWindow) (hlt : s.windowDistinct < maxTransitionSlots)
    (source a b : Nat) :
    ∃ keys, KeySlots s.nextWindow s.grownCapacity keys edges ∧
      rememberTransition source a b s =
        Stream.storeKey { s with windowKeys := keys, windowKeyCapacity := s.grownCapacity }
          ⟨s.nextWindow,a,b,source⟩ := by
  obtain ⟨keys,hslots,hgrow⟩ := grown_slots hs hwindow
  refine ⟨keys,hslots,?_⟩
  rw [rememberTransition,get_bind,refuse_of_not (not_le.mpr hlt),pure_bind,bind_of_ok hgrow,
    get_bind,Stream.storeKey]
  dsimp only
  cases Stream.findKey { s with windowKeys := keys, windowKeyCapacity := s.grownCapacity }
    ⟨s.nextWindow,a,b,source⟩ <;> rfl

/-- `remember_transition` succeeds exactly for a row that is new in the open window. -/
theorem rememberTransition_spec {source a b : Nat}
    (ht : KeyTable s.nextWindow s.windowKeyCapacity s.windowKeys edges)
    (hwindow : 1 ≤ s.nextWindow) (hd : s.windowDistinct = edges.length) :
    ((source,a,b) ∉ edges → edges.length < maxTransitionSlots →
      ∃ t, rememberTransition source a b s = .ok () t) ∧
    ∀ t, rememberTransition source a b s = .ok () t →
      (source,a,b) ∉ edges ∧ edges.length < maxTransitionSlots ∧ ∃ keys capacity,
        t = { s with windowKeys := keys, windowKeyCapacity := capacity } ∧
        KeyTable s.nextWindow capacity keys (edges ++ [(source,a,b)]) := by
  have hroom := (grownCapacity_room (hd ▸ ht.fits) ht.size).1
  rw [hd] at hroom
  have hstores (hlt : edges.length < maxTransitionSlots) : ∃ keys,
      KeyTable s.nextWindow s.grownCapacity keys edges ∧
      rememberTransition source a b s =
        Stream.storeKey { s with windowKeys := keys, windowKeyCapacity := s.grownCapacity }
          ⟨s.nextWindow,a,b,source⟩ := by
    obtain ⟨keys,hslots,heq⟩ := rememberTransition_eq ht.toKeySlots hwindow (hd ▸ hlt) source a b
    exact ⟨keys,⟨hslots,by omega⟩,heq⟩
  constructor
  · intro hnew hlt
    obtain ⟨keys,htable,heq⟩ := hstores hlt
    obtain ⟨slot,hslot⟩ := (@findKey_vacant
      { s with windowKeys := keys, windowKeyCapacity := s.grownCapacity } edges
      ⟨s.nextWindow,a,b,source⟩ htable hroom rfl).1 hnew
    rw [heq,Stream.storeKey,hslot]
    exact ⟨_,rfl⟩
  · intro t hr
    have hlt : edges.length < maxTransitionSlots := hd ▸ (rememberTransition_eq_ok.mp hr).1
    obtain ⟨keys,htable,heq⟩ := hstores hlt
    rw [heq,Stream.storeKey] at hr
    split at hr
    · rename_i slot hslot
      cases hr
      obtain ⟨hnew,hkeep⟩ := (@findKey_vacant
        { s with windowKeys := keys, windowKeyCapacity := s.grownCapacity } edges
        ⟨s.nextWindow,a,b,source⟩ htable hroom rfl).2 slot hslot
      exact ⟨hnew,hlt,_,_,rfl,hkeep⟩
    · cases hr
    · cases hr

def rowEdges (source : Nat) (rows : List TransitionRow) : List Edge :=
  rows.map fun row => (source,row.fromAddress,row.destination)

theorem transitionRows_edges {source : Nat} {observation : Bool} {rows : List TransitionRow}
    {t : Stream} (ht : KeyTable s.nextWindow s.windowKeyCapacity s.windowKeys edges)
    (hwindow : 1 ≤ s.nextWindow) (hd : s.windowDistinct = edges.length)
    (hr : transitionRows source observation rows s = .ok () t) :
    (edges.Nodup → (edges ++ rowEdges source rows).Nodup) ∧ t.nextWindow = s.nextWindow ∧
      t.windowDistinct = (edges ++ rowEdges source rows).length ∧
      KeyTable t.nextWindow t.windowKeyCapacity t.windowKeys (edges ++ rowEdges source rows) := by
  induction rows generalizing s edges with
  | nil =>
    obtain ⟨_,rfl⟩ := pure_eq_ok.mp hr
    simpa [rowEdges] using ⟨hd,ht⟩
  | cons row rows ih =>
    simp only [transitionRows,bind_eq_ok,exists_unit,transitionRow_eq_ok] at hr
    obtain ⟨_,⟨r,hkeys,_,_,_,rfl⟩,hr⟩ := hr
    obtain ⟨hnew,_,keys,capacity,rfl,htable⟩ := (rememberTransition_spec ht hwindow hd).2 r hkeys
    obtain ⟨q,hq,hr⟩ : ∃ q, q = Stream.addRows { s with windowKeys := keys, windowKeyCapacity :=
        capacity } source observation [row] keys capacity ∧
        transitionRows source observation rows q = .ok () t := ⟨_,rfl,hr⟩
    have hedges : KeyTable q.nextWindow q.windowKeyCapacity q.windowKeys
        (edges ++ [(source,row.fromAddress,row.destination)]) := by rw [hq]; exact htable
    have hrest := ih hedges (by rw [hq]; exact hwindow) (by rw [hq]; simp [Stream.addRows,hd]) hr
    simp only [List.append_assoc] at hrest
    refine ⟨fun hnodup => hrest.1 ?_,by rw [hrest.2.1,hq]; rfl,hrest.2.2⟩
    refine List.nodup_append.mpr ⟨hnodup,List.nodup_singleton _,?_⟩
    rintro edge hedge _ hother rfl
    exact hnew (List.mem_singleton.mp hother ▸ hedge)

end Cpu2Tensor
