import Mathlib

/-!
# Bounded counting of a stream of keys

A counter with room for `capacity` keys keeps the keys that appear first, counts every occurrence
of a kept key and adds the occurrences of all other keys to one overflow number.
-/

namespace Cpu2Tensor.Library

section Counter
variable {K : Type*} [BEq K] [LawfulBEq K] {capacity : Nat}

/-- The distinct keys of a stream in the order of their first occurrence. -/
def firstOccurrences (stream : List K) : List K :=
  stream.foldl (fun seen key => if key ∈ seen then seen else seen ++ [key]) []

/-- The keys a counter with room for `capacity` keys keeps. -/
def retained (capacity : Nat) (stream : List K) : List K := (firstOccurrences stream).take capacity

def overflowCount (capacity : Nat) (stream : List K) : Nat :=
  stream.countP (· ∉ retained capacity stream)

theorem firstOccurrences_snoc (stream : List K) (key : K) :
    firstOccurrences (stream ++ [key]) =
      if key ∈ firstOccurrences stream then firstOccurrences stream
      else firstOccurrences stream ++ [key] := by
  unfold firstOccurrences
  rw [List.foldl_append]
  rfl

@[simp] theorem mem_firstOccurrences (stream : List K) (key : K) :
    key ∈ firstOccurrences stream ↔ key ∈ stream := by
  induction stream using List.reverseRecOn with
  | nil => simp [firstOccurrences]
  | append_singleton stream last ih =>
    rw [firstOccurrences_snoc]
    split
    · rename_i hmem
      have hlast : last ∈ firstOccurrences stream := hmem
      simp only [ih,List.mem_append,List.mem_singleton]
      constructor
      · exact .inl
      · rintro (hkey | rfl)
        · exact hkey
        · exact ih.mp hlast
    · simp [ih]

theorem firstOccurrences_nodup (stream : List K) : (firstOccurrences stream).Nodup := by
  induction stream using List.reverseRecOn with
  | nil => exact .nil
  | append_singleton stream last ih =>
    rw [firstOccurrences_snoc]
    split
    · exact ih
    · rename_i hnew
      apply List.nodup_append.mpr
      refine ⟨ih,List.nodup_singleton _,?_⟩
      intro key hkey other hother heq
      subst heq
      exact hnew (List.mem_singleton.mp hother ▸ hkey)

theorem retained_nodup (stream : List K) : (retained capacity stream).Nodup :=
  (firstOccurrences_nodup stream).sublist (List.take_sublist _ _)

variable {key : K} {stream : List K}

theorem retained_of_length_lt (h : (retained capacity stream).length < capacity) :
    retained capacity stream = firstOccurrences stream := by
  apply List.take_of_length_le
  rw [retained,List.length_take] at h
  omega

theorem retained_snoc_of_mem (h : key ∈ retained capacity stream) :
    retained capacity (stream ++ [key]) = retained capacity stream := by
  have hmem : key ∈ firstOccurrences stream := List.mem_of_mem_take h
  rw [retained,firstOccurrences_snoc,if_pos hmem,retained]

theorem retained_snoc_of_lt (h : key ∉ retained capacity stream)
    (hlt : (retained capacity stream).length < capacity) :
    retained capacity (stream ++ [key]) = retained capacity stream ++ [key] := by
  have hall := retained_of_length_lt hlt
  rw [hall] at h hlt ⊢
  rw [retained,firstOccurrences_snoc,if_neg h]
  apply List.take_of_length_le
  simpa using Nat.succ_le_of_lt hlt

theorem retained_snoc_of_full (hfull : (retained capacity stream).length = capacity) :
    retained capacity (stream ++ [key]) = retained capacity stream := by
  rw [retained,firstOccurrences_snoc]
  split
  · rfl
  · rw [retained,List.length_take] at hfull
    rw [List.take_append_of_le_length (by omega),retained]

theorem overflowCount_snoc_of_mem (h : key ∈ retained capacity stream) :
    overflowCount capacity (stream ++ [key]) = overflowCount capacity stream := by
  rw [overflowCount,retained_snoc_of_mem h,List.countP_append]
  simp [h,overflowCount]

theorem overflowCount_snoc_of_lt (h : key ∉ retained capacity stream)
    (hlt : (retained capacity stream).length < capacity) :
    overflowCount capacity (stream ++ [key]) = overflowCount capacity stream := by
  have hall := retained_of_length_lt hlt
  have hkept : ∀ other ∈ stream, other ∈ retained capacity stream := by
    intro other hother
    rw [hall]
    exact (mem_firstOccurrences stream other).mpr hother
  rw [overflowCount,retained_snoc_of_lt h hlt,overflowCount]
  trans 0
  · apply List.countP_eq_zero.mpr
    intro other hother
    rcases List.mem_append.mp hother with hother | hother
    · simp [hkept other hother]
    · simp [List.mem_singleton.mp hother]
  · symm
    apply List.countP_eq_zero.mpr
    intro other hother
    simp [hkept other hother]

theorem overflowCount_snoc_of_full (h : key ∉ retained capacity stream)
    (hfull : (retained capacity stream).length = capacity) :
    overflowCount capacity (stream ++ [key]) = overflowCount capacity stream + 1 := by
  rw [overflowCount,retained_snoc_of_full hfull,List.countP_append]
  simp [h,overflowCount]

private theorem sum_counts (stream : List K) {keys : List K} (hn : keys.Nodup) :
    (keys.map (stream.count ·)).sum = stream.countP (· ∈ keys) := by
  induction keys with
  | nil => simp
  | cons key keys ih =>
    obtain ⟨hkey,hn⟩ := List.nodup_cons.mp hn
    rw [List.map_cons,List.sum_cons,ih hn]
    clear ih
    induction stream with
    | nil => rfl
    | cons head stream ih =>
      by_cases hhead : head = key
      · subst hhead
        simp only [List.count_cons_self,List.countP_cons,hkey,List.mem_cons_self,decide_true,
          decide_false,if_true,Bool.false_eq_true,if_false] at ih ⊢
        omega
      · simp only [List.count_cons_of_ne hhead,List.countP_cons,List.mem_cons,hhead,
          false_or] at ih ⊢
        omega

theorem retained_counts_add_overflow (capacity : Nat) (stream : List K) :
    ((retained capacity stream).map (stream.count ·)).sum + overflowCount capacity stream =
      stream.length := by
  rw [sum_counts stream (retained_nodup stream),overflowCount,
    List.length_eq_countP_add_countP (· ∈ retained capacity stream)]
  simp

end Counter

section Adjacent
variable {A : Type*}

def adjacentPairs (list : List A) : List (A × A) := list.zip list.tail

theorem adjacentPairs_snoc (list : List A) (last next : A) :
    adjacentPairs (list ++ [last] ++ [next]) = adjacentPairs (list ++ [last]) ++ [(last,next)] := by
  induction list with
  | nil => rfl
  | cons head rest ih =>
    cases rest with
    | nil => rfl
    | cons second rest => simpa [adjacentPairs] using ih

theorem adjacentPairs_length (list : List A) : (adjacentPairs list).length = list.length-1 := by
  simp [adjacentPairs]

end Adjacent

end Cpu2Tensor.Library
