import Mathlib

/-!
# Dictionaries that keep insertion order

A key keeps the place of its first insertion until it is removed.  The keys are distinct by
construction.
-/

namespace Cpu2Tensor.Library

variable {K V : Type} [DecidableEq K]

namespace Entries

def get? (k : K) : List (K × V) → Option V
  | [] => none
  | (key,value)::rest => if key = k then some value else get? k rest

def set (k : K) (v : V) : List (K × V) → List (K × V)
  | [] => [(k,v)]
  | (key,value)::rest => if key = k then (k,v)::rest else (key,value)::set k v rest

def pop (k : K) : List (K × V) → List (K × V)
  | [] => []
  | (key,value)::rest => if key = k then rest else (key,value)::pop k rest

variable {entries : List (K × V)} {k : K} {v : V}

theorem get?_of_not_mem (hk : k ∉ entries.map Prod.fst) : get? k entries = none := by
  induction entries with
  | nil => rfl
  | cons entry rest ih =>
    rw [List.map_cons,List.mem_cons,not_or] at hk
    rw [get?,if_neg (fun h => hk.1 h.symm),ih hk.2]

theorem get?_set (k other : K) (v : V) (entries : List (K × V)) :
    get? other (set k v entries) = if k = other then some v else get? other entries := by
  induction entries with
  | nil => simp [set,get?]
  | cons entry rest ih =>
    rw [set]
    split_ifs with hkey hother hother
    · rw [get?,if_pos hother]
    · rw [get?,if_neg hother,get?,if_neg (hkey ▸ hother)]
    · rw [get?,if_neg (hother ▸ hkey),ih,if_pos hother]
    · rw [get?,get?,ih,if_neg hother]

theorem keys_set (k : K) (v : V) (entries : List (K × V)) :
    (set k v entries).map Prod.fst =
      if k ∈ entries.map Prod.fst then entries.map Prod.fst else entries.map Prod.fst ++ [k] := by
  induction entries with
  | nil => rfl
  | cons entry rest ih =>
    rw [set]
    split_ifs with hkey hmem hmem
    · simp [hkey]
    · simp [hkey] at hmem
    · rw [List.map_cons,List.mem_cons] at hmem
      rw [List.map_cons,ih,if_pos (hmem.resolve_left (Ne.symm hkey)),List.map_cons]
    · rw [List.map_cons,List.mem_cons,not_or] at hmem
      rw [List.map_cons,ih,if_neg hmem.2,List.map_cons,List.cons_append]

theorem pop_sublist (k : K) (entries : List (K × V)) : (pop k entries).Sublist entries := by
  induction entries with
  | nil => exact .slnil
  | cons entry rest ih =>
    rw [pop]
    split_ifs
    · exact List.sublist_cons_self _ _
    · exact ih.cons_cons _

theorem get?_pop (hn : (entries.map Prod.fst).Nodup) (k other : K) :
    get? other (pop k entries) = if k = other then none else get? other entries := by
  induction entries with
  | nil => simp [pop,get?]
  | cons entry rest ih =>
    rw [List.map_cons,List.nodup_cons] at hn
    rw [pop]
    split_ifs with hkey hother hother
    · exact get?_of_not_mem (hother ▸ hkey ▸ hn.1)
    · rw [get?,if_neg (hkey ▸ hother)]
    · rw [get?,if_neg (hother ▸ hkey),ih hn.2,if_pos hother]
    · rw [get?,get?,ih hn.2,if_neg hother]

theorem get?_eq_some_of_mem (hn : (entries.map Prod.fst).Nodup) (hmem : (k,v) ∈ entries) :
    get? k entries = some v := by
  induction entries with
  | nil => cases hmem
  | cons entry rest ih =>
    rw [List.map_cons,List.nodup_cons] at hn
    rcases List.mem_cons.mp hmem with rfl | hrest
    · rw [get?,if_pos rfl]
    · rw [get?,if_neg ?_,ih hn.2 hrest]
      rintro rfl
      exact hn.1 (List.mem_map.mpr ⟨_,hrest,rfl⟩)

theorem mem_of_get? (h : get? k entries = some v) : (k,v) ∈ entries := by
  induction entries with
  | nil => cases h
  | cons entry rest ih =>
    rw [get?] at h
    split_ifs at h with hkey
    · obtain rfl := Option.some.inj h
      exact hkey ▸ List.mem_cons_self
    · exact List.mem_cons_of_mem _ (ih h)

theorem sum_set (f : V → Nat) (k : K) (v : V) (entries : List (K × V)) :
    ((set k v entries).map fun entry => f entry.2).sum + ((get? k entries).map f).getD 0 =
      (entries.map fun entry => f entry.2).sum + f v := by
  induction entries with
  | nil => simp [set,get?]
  | cons entry rest ih =>
    rw [set,get?]
    split_ifs with hkey
    · simp only [List.map_cons,List.sum_cons,Option.map_some,Option.getD_some]
      omega
    · simp only [List.map_cons,List.sum_cons]
      omega

theorem sum_pop (f : V → Nat) (h : get? k entries = some v) :
    ((pop k entries).map fun entry => f entry.2).sum + f v =
      (entries.map fun entry => f entry.2).sum := by
  induction entries with
  | nil => cases h
  | cons entry rest ih =>
    rw [get?] at h
    rw [pop]
    split_ifs at h ⊢ with hkey
    · obtain rfl := Option.some.inj h
      simp only [List.map_cons,List.sum_cons]
      omega
    · have hrest := ih h
      simp only [List.map_cons,List.sum_cons]
      omega

theorem pop_length (h : get? k entries = some v) : (pop k entries).length+1 = entries.length := by
  have hsum := sum_pop (fun _ => 1) h
  simpa using hsum

end Entries

/-- A dictionary in insertion order. -/
structure Dict (K V : Type) where
  entries : List (K × V) := []
  distinct : (entries.map Prod.fst).Nodup := by exact List.nodup_nil

namespace Dict

def get? (d : Dict K V) (k : K) : Option V := Entries.get? k d.entries

def set (d : Dict K V) (k : K) (v : V) : Dict K V where
  entries := Entries.set k v d.entries
  distinct := by
    rw [Entries.keys_set]
    split_ifs with hmem
    · exact d.distinct
    · exact List.nodup_append.mpr ⟨d.distinct,List.nodup_singleton k,
        fun other hother last hlast => by
          rw [List.mem_singleton.mp hlast]
          exact fun heq => hmem (heq ▸ hother)⟩

def pop (d : Dict K V) (k : K) : Dict K V where
  entries := Entries.pop k d.entries
  distinct := d.distinct.sublist ((Entries.pop_sublist k d.entries).map Prod.fst)

def keys (d : Dict K V) : List K := d.entries.map Prod.fst

/-- The dictionary with every value replaced, the keys and their order kept. -/
def mapValues (d : Dict K V) (f : K → V → V) : Dict K V where
  entries := d.entries.map fun entry => (entry.1,f entry.1 entry.2)
  distinct := by
    rw [List.map_map]
    exact d.distinct

def total (d : Dict K V) (f : V → Nat) : Nat := (d.entries.map fun entry => f entry.2).sum

@[simp] theorem get?_set (d : Dict K V) (k other : K) (v : V) :
    (d.set k v).get? other = if k = other then some v else d.get? other :=
  Entries.get?_set k other v d.entries

@[simp] theorem get?_empty (k : K) : ({} : Dict K V).get? k = none := rfl

theorem get?_eq_some_iff (d : Dict K V) (k : K) (v : V) :
    d.get? k = some v ↔ (k,v) ∈ d.entries :=
  ⟨Entries.mem_of_get?,Entries.get?_eq_some_of_mem d.distinct⟩

omit [DecidableEq K] in
theorem eq_of_entries {d e : Dict K V} (h : d.entries = e.entries) : d = e := by
  cases d
  cases e
  simp only at h
  subst h
  rfl

theorem mapValues_congr (d : Dict K V) {f g : K → V → V}
    (h : ∀ k v, d.get? k = some v → f k v = g k v) : d.mapValues f = d.mapValues g := by
  apply eq_of_entries
  apply List.map_congr_left
  intro entry hentry
  rw [h entry.1 entry.2 ((d.get?_eq_some_iff _ _).mpr hentry)]

theorem mapValues_eq_self (d : Dict K V) {f : K → V → V}
    (h : ∀ k v, d.get? k = some v → f k v = v) : d.mapValues f = d := by
  rw [d.mapValues_congr h]
  exact eq_of_entries (List.map_id _)

@[simp] theorem get?_pop (d : Dict K V) (k other : K) :
    (d.pop k).get? other = if k = other then none else d.get? other :=
  Entries.get?_pop d.distinct k other

theorem total_set (d : Dict K V) (f : V → Nat) (k : K) (v : V) :
    (d.set k v).total f + ((d.get? k).map f).getD 0 = d.total f + f v :=
  Entries.sum_set f k v d.entries

theorem total_pop (d : Dict K V) (f : V → Nat) {k : K} {v : V} (h : d.get? k = some v) :
    (d.pop k).total f + f v = d.total f :=
  Entries.sum_pop f h

end Dict

end Cpu2Tensor.Library
