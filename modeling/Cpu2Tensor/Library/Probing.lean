import Mathlib

/-!
# Open addressing with linear probing

A table is a function from slot numbers to the key a slot holds now; a slot whose content is
stale counts as free.  A probe walks from the home slot of a key until it meets a free slot or
the key.
-/

namespace Cpu2Tensor.Library

inductive Probe
  | vacant (slot : Nat)
  | found (slot : Nat)
  | exhausted
  deriving DecidableEq, Repr

def probe (busy hit : Nat → Bool) (advance : Nat → Nat) : Nat → Nat → Probe
  | 0, _ => .exhausted
  | fuel+1, slot =>
    if busy slot = false then .vacant slot
    else if hit slot then .found slot
    else probe busy hit advance fuel (advance slot)

section Table
variable {K : Type*} {capacity : Nat} {home : K → Nat} {cells : Nat → Option K}

/-- Stored keys occupy one slot each, with no free slot between a key and its home. -/
structure Chained (capacity : Nat) (home : K → Nat) (cells : Nat → Option K) : Prop where
  reach : ∀ slot key, slot < capacity → cells slot = some key →
    ∃ d < capacity, slot = (home key+d) % capacity ∧
      ∀ e < d, cells ((home key+e) % capacity) ≠ none
  unique : ∀ i j key, i < capacity → j < capacity →
    cells i = some key → cells j = some key → i = j

def Holds (capacity : Nat) (cells : Nat → Option K) (key : K) : Prop :=
  ∃ slot < capacity, cells slot = some key

def used (capacity : Nat) (cells : Nat → Option K) : Nat :=
  ((Finset.range capacity).filter fun slot => (cells slot).isSome).card

theorem chained_empty (capacity : Nat) (home : K → Nat) :
    Chained capacity home (fun _ => none) :=
  ⟨fun _ _ _ h => (nomatch h),fun _ _ _ _ _ h => (nomatch h)⟩

theorem used_empty (capacity : Nat) : used capacity (fun _ => (none : Option K)) = 0 := by
  simp [used]

theorem used_succ (n : Nat) (cells : Nat → Option K) :
    used (n+1) cells = used n cells + if (cells n).isSome then 1 else 0 := by
  unfold used
  rw [Finset.range_add_one,Finset.filter_insert]
  split
  · rw [Finset.card_insert_of_notMem (by simp)]
  · rfl

theorem used_mono {m n : Nat} (h : m ≤ n) (cells : Nat → Option K) :
    used m cells ≤ used n cells :=
  Finset.card_le_card (Finset.filter_subset_filter _ (Finset.range_mono h))

theorem used_le (capacity : Nat) (cells : Nat → Option K) : used capacity cells ≤ capacity := by
  have h := Finset.card_filter_le (Finset.range capacity) fun slot => (cells slot).isSome
  rwa [Finset.card_range] at h

/-- The slots a probe of `length` slots passes and the slot it stops at, as offsets from the
start. -/
private def ProbePath (capacity : Nat) (busy hit : Nat → Bool) (start length : Nat) :
    Probe → Prop
  | .vacant slot => ∃ d < length, slot = (start+d) % capacity ∧ busy slot = false ∧
      ∀ e < d, busy ((start+e) % capacity) = true ∧ hit ((start+e) % capacity) = false
  | .found slot => ∃ d < length, slot = (start+d) % capacity ∧ hit slot = true ∧ busy slot = true
  | .exhausted => ∀ e < length,
      busy ((start+e) % capacity) = true ∧ hit ((start+e) % capacity) = false

private theorem probe_path (busy hit : Nat → Bool) (advance : Nat → Nat) (start : Nat)
    (hc : 0 < capacity) (hadvance : ∀ slot < capacity, advance slot = (slot+1) % capacity)
    (fuel d : Nat)
    (hpassed : ∀ e < d, busy ((start+e) % capacity) = true ∧ hit ((start+e) % capacity) = false) :
    ProbePath capacity busy hit start (d+fuel)
      (probe busy hit advance fuel ((start+d) % capacity)) := by
  induction fuel generalizing d with
  | zero => exact hpassed
  | succ fuel ih =>
    rw [probe]
    by_cases hb : busy ((start+d) % capacity) = false
    · rw [if_pos hb]
      exact ⟨d,by omega,rfl,hb,hpassed⟩
    · rw [if_neg hb]
      have hb' : busy ((start+d) % capacity) = true := by simpa using hb
      by_cases hh : hit ((start+d) % capacity) = true
      · rw [if_pos hh]
        exact ⟨d,by omega,rfl,hh,hb'⟩
      · rw [if_neg hh,hadvance _ (Nat.mod_lt _ hc),Nat.mod_add_mod,Nat.add_assoc]
        have hnext := ih (d+1) (by
          intro e he
          rcases Nat.lt_succ_iff_lt_or_eq.mp he with he | rfl
          · exact hpassed e he
          · exact ⟨hb',by simpa using hh⟩)
        rwa [show d+1+fuel = d+(fuel+1) by omega] at hnext

private theorem exists_offset (start slot : Nat) (hs : slot < capacity) :
    ∃ d < capacity, (start+d) % capacity = slot := by
  refine ⟨(slot+(capacity-start%capacity)) % capacity,Nat.mod_lt _ (by omega),?_⟩
  have hm := Nat.mod_lt start (by omega : 0 < capacity)
  rw [Nat.add_mod_mod,← Nat.mod_add_mod,
    show start%capacity+(slot+(capacity-start%capacity)) = slot+capacity by omega,
    Nat.add_mod_right,Nat.mod_eq_of_lt hs]

/-- Hypotheses shared by the probe results: the probe reads the table, starts at the key's home
and visits every slot at most once. -/
structure Probes (capacity : Nat) (home : K → Nat) (cells : Nat → Option K) (key : K)
    (busy hit : Nat → Bool) (advance : Nat → Nat) : Prop where
  positive : 0 < capacity
  home_lt : home key < capacity
  advances : ∀ slot < capacity, advance slot = (slot+1) % capacity
  reads : ∀ slot < capacity, busy slot = (cells slot).isSome
  matches_key : ∀ slot < capacity, busy slot = true → (hit slot = true ↔ cells slot = some key)

section Results
variable {key : K} {busy hit : Nat → Bool} {advance : Nat → Nat}
  (hp : Probes capacity home cells key busy hit advance)
include hp

private theorem Probes.path :
    ProbePath capacity busy hit (home key) capacity
      (probe busy hit advance capacity (home key)) := by
  have h := probe_path busy hit advance (home key) hp.positive hp.advances capacity 0 (by omega)
  rwa [Nat.zero_add,Nat.add_zero,Nat.mod_eq_of_lt hp.home_lt] at h

theorem Probes.found {slot : Nat} (h : probe busy hit advance capacity (home key) = .found slot) :
    slot < capacity ∧ cells slot = some key := by
  have hpath := hp.path
  rw [h] at hpath
  obtain ⟨d,_,rfl,hh,hb⟩ := hpath
  have hlt := Nat.mod_lt (home key+d) hp.positive
  exact ⟨hlt,(hp.matches_key _ hlt hb).mp hh⟩

theorem Probes.exhausted (h : probe busy hit advance capacity (home key) = .exhausted)
    (slot : Nat) (hs : slot < capacity) : cells slot ≠ none ∧ cells slot ≠ some key := by
  have hpath := hp.path
  rw [h] at hpath
  obtain ⟨d,hd,rfl⟩ := exists_offset (home key) slot hs
  obtain ⟨hb,hh⟩ := hpath d hd
  have hr := hp.reads _ hs
  refine ⟨?_,fun hk => ?_⟩
  · intro hnone
    rw [hb,hnone] at hr
    cases hr
  · rw [(hp.matches_key _ hs hb).mpr hk] at hh
    cases hh

theorem Probes.exhausted_used (h : probe busy hit advance capacity (home key) = .exhausted) :
    used capacity cells = capacity := by
  have hall : (Finset.range capacity).filter (fun slot => (cells slot).isSome) =
      Finset.range capacity := by
    apply Finset.filter_true_of_mem
    intro slot hs
    exact Option.isSome_iff_ne_none.mpr (hp.exhausted h slot (Finset.mem_range.mp hs)).1
  rw [used,hall,Finset.card_range]

/-- A free slot met first is where the key goes: it is nowhere else, and storing it there keeps
every chain. -/
theorem Probes.vacant (ht : Chained capacity home cells) {slot : Nat}
    (h : probe busy hit advance capacity (home key) = .vacant slot) :
    slot < capacity ∧ cells slot = none ∧ ¬Holds capacity cells key ∧
      Chained capacity home (Function.update cells slot (some key)) := by
  have hpath := hp.path
  rw [h] at hpath
  obtain ⟨d,hd,rfl,hfree,hpassed⟩ := hpath
  have hlt := Nat.mod_lt (home key+d) hp.positive
  have hnone : cells ((home key+d) % capacity) = none := by
    have hr := hp.reads _ hlt
    rw [hfree] at hr
    simpa using hr.symm
  have hbusy : ∀ e < d, cells ((home key+e) % capacity) ≠ none := by
    intro e he hn
    have hr := hp.reads _ (Nat.mod_lt (home key+e) hp.positive)
    rw [(hpassed e he).1,hn] at hr
    cases hr
  have habsent : ¬Holds capacity cells key := by
    rintro ⟨slot,hs,hk⟩
    obtain ⟨d',hd',rfl,hchain⟩ := ht.reach slot key hs hk
    -- The chain of a stored copy of the key would run through the free slot or stop before it.
    rcases Nat.lt_trichotomy d' d with hlt' | rfl | hgt
    · have hmiss := (hpassed d' hlt').2
      rw [(hp.matches_key _ hs (hpassed d' hlt').1).mpr hk] at hmiss
      cases hmiss
    · rw [hnone] at hk
      cases hk
    · exact hchain d hgt hnone
  refine ⟨hlt,hnone,habsent,?_,?_⟩
  · intro slot other hs hk
    by_cases he : slot = (home key+d) % capacity
    · subst he
      rw [Function.update_self] at hk
      cases hk
      refine ⟨d,by omega,rfl,fun e he => ?_⟩
      by_cases hsame : (home key+e) % capacity = (home key+d) % capacity
      · rw [hsame,Function.update_self]
        simp
      · rw [Function.update_of_ne hsame]
        exact hbusy e he
    · rw [Function.update_of_ne he] at hk
      obtain ⟨d',hd',heq,hchain⟩ := ht.reach slot other hs hk
      refine ⟨d',hd',heq,fun e he' => ?_⟩
      by_cases hsame : (home other+e) % capacity = (home key+d) % capacity
      · rw [hsame,Function.update_self]
        simp
      · rw [Function.update_of_ne hsame]
        exact hchain e he'
  · intro i j other hi hj hki hkj
    by_cases hie : i = (home key+d) % capacity <;> by_cases hje : j = (home key+d) % capacity
    · rw [hie,hje]
    · rw [hie,Function.update_self] at hki
      rw [Function.update_of_ne hje] at hkj
      cases hki
      exact absurd ⟨j,hj,hkj⟩ habsent
    · rw [hje,Function.update_self] at hkj
      rw [Function.update_of_ne hie] at hki
      cases hkj
      exact absurd ⟨i,hi,hki⟩ habsent
    · rw [Function.update_of_ne hie] at hki
      rw [Function.update_of_ne hje] at hkj
      exact ht.unique i j other hi hj hki hkj

end Results

/-- Filling a free slot uses one more slot and stores exactly one more key. -/
theorem used_update {slot : Nat} (hs : slot < capacity) (hn : cells slot = none) (key : K) :
    used capacity (Function.update cells slot (some key)) = used capacity cells + 1 := by
  have hset : (Finset.range capacity).filter
        (fun i => (Function.update cells slot (some key) i).isSome) =
      insert slot ((Finset.range capacity).filter fun i => (cells i).isSome) := by
    ext i
    by_cases he : i = slot
    · subst he
      simp [hs]
    · simp [he]
  rw [used,hset,Finset.card_insert_of_notMem (by simp [hn]),used]

theorem holds_update {slot : Nat} (hs : slot < capacity) (hn : cells slot = none) (key other : K) :
    Holds capacity (Function.update cells slot (some key)) other ↔
      other = key ∨ Holds capacity cells other := by
  constructor
  · rintro ⟨i,hi,hk⟩
    by_cases he : i = slot
    · subst he
      rw [Function.update_self] at hk
      exact .inl (Option.some.inj hk).symm
    · rw [Function.update_of_ne he] at hk
      exact .inr ⟨i,hi,hk⟩
  · rintro (rfl | ⟨i,hi,hk⟩)
    · exact ⟨slot,hs,Function.update_self ..⟩
    · refine ⟨i,hi,?_⟩
      rw [Function.update_of_ne (fun he => by rw [he,hn] at hk; cases hk)]
      exact hk

end Table

end Cpu2Tensor.Library
