import Mathlib

/-!
# Rows of different lengths laid end to end

Elementwise operations on the flattened tensors of a batch of rows: what repetition, masking and
counting make of them, row by row.
-/

namespace Cpu2Tensor.Library

variable {ρ α β γ : Type}

/-- The entries `g r 0, …, g r (n r - 1)` of every row, one row after another. -/
def ragged (rows : List ρ) (n : ρ → Nat) (g : ρ → Nat → α) : List α :=
  rows.flatMap fun r => (List.range (n r)).map (g r)

variable {bound columns : Nat} {g : ρ → Nat → α} {indices : List Int} {n : ρ → Nat}
  {rows : List ρ}

theorem ragged_congr {h : ρ → Nat → α} (heq : ∀ r ∈ rows, ∀ i < n r, g r i = h r i) :
    ragged rows n g = ragged rows n h := by
  unfold ragged
  rw [List.flatMap_def,List.flatMap_def]
  congr 1
  apply List.map_congr_left
  intro r hr
  apply List.map_congr_left
  intro i hi
  exact heq r hr i (List.mem_range.mp hi)

theorem map_ragged (f : α → β) (rows : List ρ) (n : ρ → Nat) (g : ρ → Nat → α) :
    (ragged rows n g).map f = ragged rows n fun r i => f (g r i) := by
  simp only [ragged,List.map_flatMap,List.map_map]
  rfl

theorem zipWith_ragged (f : α → β → γ) (rows : List ρ) (n : ρ → Nat) (g : ρ → Nat → α)
    (h : ρ → Nat → β) :
    List.zipWith f (ragged rows n g) (ragged rows n h) =
      ragged rows n fun r i => f (g r i) (h r i) := by
  induction rows with
  | nil => rfl
  | cons r rest ih =>
    simp only [ragged,List.flatMap_cons] at ih ⊢
    rw [List.zipWith_append (by simp),ih,List.zipWith_map,List.zipWith_self]

theorem ragged_length (rows : List ρ) (n : ρ → Nat) (g : ρ → Nat → α) :
    (ragged rows n g).length = (rows.map n).sum := by
  simp [ragged,List.length_flatMap]

theorem mem_ragged {x : α} : x ∈ ragged rows n g ↔ ∃ r ∈ rows, ∃ i < n r, g r i = x := by
  simp [ragged]

/-- Every element as often as its count says. -/
def repeatInterleave (xs : List α) (counts : List Nat) : List α :=
  (List.zipWith (fun x n => List.replicate n x) xs counts).flatten

theorem repeatInterleave_map (rows : List ρ) (n : ρ → Nat) (x : ρ → α) :
    repeatInterleave (rows.map x) (rows.map n) = ragged rows n fun r _ => x r := by
  rw [repeatInterleave,List.zipWith_map,List.zipWith_self,ragged,List.flatMap_def]
  congr 1
  apply List.map_congr_left
  intro r _
  rw [List.map_const',List.length_range]

def maskSelect (xs : List α) (mask : List Bool) : List α :=
  (List.zip xs mask).filterMap fun (x,keep) => if keep then some x else none

theorem filterMap_range_succ_lt (n : Nat) (f : Nat → α) :
    (List.range n).filterMap (fun i => if i+1 < n then some (f i) else none) =
      (List.range (n-1)).map f := by
  cases n with
  | zero => rfl
  | succ n =>
    rw [List.range_succ,List.filterMap_append,Nat.add_sub_cancel]
    have hkeep : (List.range n).filterMap (fun i => if i+1 < n+1 then some (f i) else none) =
        (List.range n).filterMap fun i => some (f i) := by
      apply List.filterMap_congr
      intro i hi
      rw [if_pos (Nat.succ_lt_succ (List.mem_range.mp hi))]
    rw [hkeep,List.filterMap_eq_map']
    simp

theorem maskSelect_ragged (rows : List ρ) (n : ρ → Nat) (g : ρ → Nat → α) :
    maskSelect (ragged rows n g) (ragged rows n fun r i => decide (i+1 < n r)) =
      ragged rows (fun r => n r - 1) g := by
  rw [maskSelect,List.zip_eq_zipWith,zipWith_ragged]
  simp only [ragged,List.filterMap_flatMap,List.filterMap_map]
  rw [List.flatMap_def,List.flatMap_def]
  congr 1
  apply List.map_congr_left
  intro r _
  rw [← filterMap_range_succ_lt]
  apply List.filterMap_congr
  intro i _
  simp only [Function.comp_apply,decide_eq_true_eq]

def extent : List Int → Nat
  | [] => 0
  | i::rest => max (i.toNat+1) (extent rest)

/-- How often each index occurs, for at least `minlength` indices.  Negative ones are refused. -/
def bincount (indices : List Int) (minlength : Nat) : Option (List Nat) :=
  if indices.any (· < 0) then none
  else some ((List.range (max minlength (extent indices))).map fun (j : Nat) => indices.count (j : Int))

/-- A flat tensor as rows, when the sizes agree. -/
def reshape (rows columns : Nat) (flat : List α) : Option (List (List α)) :=
  if flat.length = rows*columns then
    some ((List.range rows).map fun r => (flat.drop (r*columns)).take columns)
  else none

theorem extent_le (h : ∀ i ∈ indices, 0 ≤ i ∧ i < bound) : extent indices ≤ bound := by
  induction indices with
  | nil => exact Nat.zero_le _
  | cons i rest ih =>
    have hrest := ih fun j hj => h j (List.mem_cons_of_mem _ hj)
    have hi := h i List.mem_cons_self
    rw [extent]
    omega

theorem take_drop_range {n start count : Nat} (h : start+count ≤ n) :
    ((List.range n).drop start).take count = (List.range count).map (start + ·) := by
  apply List.ext_getElem
  · simp only [List.length_take,List.length_drop,List.length_range,List.length_map]
    omega
  · intro i _ _
    simp

theorem reshape_bincount {rows : Nat} (h : ∀ i ∈ indices, 0 ≤ i ∧ i < (rows*columns : Nat)) :
    (bincount indices (rows*columns)).bind (reshape rows columns) =
      some ((List.range rows).map fun r => (List.range columns).map fun j =>
        indices.count ((r*columns+j : Nat) : Int)) := by
  have hpos : indices.any (· < 0) = false := by
    rw [List.any_eq_false]
    intro i hi
    have := (h i hi).1
    simpa using this
  have hextent : max (rows*columns) (extent indices) = rows*columns :=
    Nat.max_eq_left (extent_le h)
  rw [bincount,hpos,hextent]
  simp only [Bool.false_eq_true,if_false,Option.bind_some]
  rw [reshape,if_pos (by simp)]
  congr 1
  apply List.map_congr_left
  intro r hr
  have hr := List.mem_range.mp hr
  have hfits : r*columns+columns ≤ rows*columns := by
    rw [← Nat.succ_mul]
    exact Nat.mul_le_mul_right _ hr
  rw [← List.map_drop,← List.map_take,take_drop_range hfits,List.map_map]
  rfl

theorem reshape_flatten {rows : List (List α)} (h : ∀ row ∈ rows, row.length = columns) :
    reshape rows.length columns rows.flatten = some rows := by
  have hlength : rows.flatten.length = rows.length*columns := by
    rw [List.length_flatten,List.map_congr_left h,List.map_const',List.sum_replicate,smul_eq_mul]
  rw [reshape,if_pos hlength]
  congr 1
  clear hlength
  induction rows with
  | nil => rfl
  | cons row rest ih =>
    have hrow := h row List.mem_cons_self
    have hrest := ih fun r hr => h r (List.mem_cons_of_mem _ hr)
    rw [List.length_cons,List.range_succ_eq_map,List.map_cons,List.map_map,List.flatten_cons]
    congr 1
    · rw [Nat.zero_mul,List.drop_zero,← hrow]
      exact List.take_left ..
    · refine Eq.trans ?_ hrest
      apply List.map_congr_left
      intro k _
      have hdrop : (row ++ rest.flatten).drop (k.succ*columns) = rest.flatten.drop (k*columns) := by
        rw [Nat.succ_mul,Nat.add_comm,← List.drop_drop,← hrow,List.drop_left]
      rw [Function.comp_apply,hdrop]

theorem count_ragged {index : ρ → Nat} {bin : ρ → Nat → Nat} {base : Nat}
    (hindex : rows.map index = List.range' base rows.length)
    (hbin : ∀ r ∈ rows, ∀ i < n r, bin r i < columns) {k j : Nat} (hj : j < columns) {row : ρ}
    (hrow : rows[k]? = some row) :
    (ragged rows n fun r i => index r*columns+bin r i).count ((base+k)*columns+j) =
      ((List.range (n row)).map (bin row)).count j := by
  induction rows generalizing base k with
  | nil => cases hrow
  | cons r rest ih =>
    rw [List.map_cons,List.length_cons,List.range'_succ,List.cons.injEq] at hindex
    have hbin' : ∀ r ∈ rest, ∀ i < n r, bin r i < columns :=
      fun r hr => hbin r (List.mem_cons_of_mem _ hr)
    rw [ragged,List.flatMap_cons,List.count_append]
    cases k with
    | zero =>
      obtain rfl : r = row := Option.some.inj hrow
      rw [Nat.add_zero]
      have hlater : (ragged rest n fun r i => index r*columns+bin r i).count
          (base*columns+j) = 0 := by
        rw [List.count_eq_zero]
        intro hmem
        obtain ⟨r',hr',i,_,heq⟩ := mem_ragged.mp hmem
        have hge : base+1 ≤ index r' := by
          have hmem' := List.mem_map_of_mem (f := index) hr'
          rw [hindex.2] at hmem'
          exact (List.mem_range'_1.mp hmem').1
        have hmul := Nat.mul_le_mul_right columns hge
        rw [Nat.succ_mul] at hmul
        omega
      have hfirst : (List.range (n r)).map (fun i => index r*columns+bin r i) =
          ((List.range (n r)).map (bin r)).map (base*columns + ·) := by
        rw [List.map_map,hindex.1]
        rfl
      have hinj : Function.Injective (base*columns + ·) := fun a b h => Nat.add_left_cancel h
      rw [ragged] at hlater
      rw [hlater,hfirst,Nat.add_zero,List.count_map_of_injective _ _ hinj]
    | succ k =>
      have hfirst : ((List.range (n r)).map fun i => index r*columns+bin r i).count
          ((base+(k+1))*columns+j) = 0 := by
        rw [List.count_eq_zero,List.mem_map]
        intro hmem
        obtain ⟨i,hi,heq⟩ := hmem
        have hlt := hbin r List.mem_cons_self i (List.mem_range.mp hi)
        have hmul : (base+1)*columns ≤ (base+(k+1))*columns :=
          Nat.mul_le_mul_right columns (by omega)
        rw [Nat.succ_mul] at hmul
        rw [hindex.1] at heq
        omega
      have hlater := ih hindex.2 hbin' (k := k) hrow
      rw [ragged,show base+1+k = base+(k+1) by omega] at hlater
      rw [hfirst,hlater,Nat.zero_add]

theorem sum_count {indices : List Nat} (h : ∀ i ∈ indices, i < bound) :
    ((List.range bound).map fun j => indices.count j).sum = indices.length := by
  have hsum := Multiset.sum_count_eq_card (s := Finset.range bound) (m := (indices : Multiset Nat))
    fun i hi => Finset.mem_range.mpr (h i hi)
  simp only [Multiset.coe_count,Multiset.coe_card] at hsum
  rw [← hsum,Finset.sum_eq_multiset_sum,Finset.range_val,Multiset.range,Multiset.map_coe,
    Multiset.sum_coe]

end Cpu2Tensor.Library
