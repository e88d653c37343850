import Mathlib

/-!
# Prefix codes

Words none of which starts another are read off a string from the left in one way only, also when
a rest follows that starts with none of them.
-/

namespace Cpu2Tensor.Library
open InformationTheory

variable {α : Type*} {words : Set (List α)}

/-- No word is empty and none starts another. -/
structure PrefixCode (words : Set (List α)) : Prop where
  nonempty : [] ∉ words
  apart : ∀ u ∈ words, ∀ v ∈ words, u <+: v → u = v

theorem PrefixCode.head_eq (h : PrefixCode words) {u v s t : List α} (hu : u ∈ words)
    (hv : v ∈ words) (heq : u ++ s = v ++ t) : u = v ∧ s = t := by
  have hword : u = v := by
    have hus : u <+: u ++ s := List.prefix_append ..
    have hvs : v <+: u ++ s := heq ▸ List.prefix_append ..
    rcases List.prefix_or_prefix_of_prefix hus hvs with huv | hvu
    · exact h.apart u hu v hv huv
    · exact (h.apart v hv u hu hvu).symm
  subst hword
  exact ⟨rfl,List.append_cancel_left heq⟩

/-- Two readings agree, each followed by a rest that no word starts. -/
theorem PrefixCode.flatten_append_inj (h : PrefixCode words) {us vs : List (List α)}
    {s t : List α} (hus : ∀ u ∈ us, u ∈ words) (hvs : ∀ v ∈ vs, v ∈ words)
    (hs : ∀ w ∈ words, ¬ w <+: s) (ht : ∀ w ∈ words, ¬ w <+: t)
    (heq : us.flatten ++ s = vs.flatten ++ t) : us = vs ∧ s = t := by
  induction us generalizing vs with
  | nil =>
    cases vs with
    | nil => exact ⟨rfl,heq⟩
    | cons v vs =>
      have hstart : v <+: s := by
        rw [List.flatten_nil,List.nil_append,List.flatten_cons,List.append_assoc] at heq
        exact heq ▸ List.prefix_append ..
      exact absurd hstart (hs v (hvs v List.mem_cons_self))
  | cons u us ih =>
    cases vs with
    | nil =>
      have hstart : u <+: t := by
        rw [List.flatten_nil,List.nil_append,List.flatten_cons,List.append_assoc] at heq
        exact heq ▸ List.prefix_append ..
      exact absurd hstart (ht u (hus u List.mem_cons_self))
    | cons v vs =>
      rw [List.flatten_cons,List.flatten_cons,List.append_assoc,List.append_assoc] at heq
      have hhead := h.head_eq (hus u List.mem_cons_self) (hvs v List.mem_cons_self) heq
      have hrest := ih (fun w hw => hus w (List.mem_cons_of_mem u hw))
        (fun w hw => hvs w (List.mem_cons_of_mem v hw)) hhead.2
      exact ⟨by rw [hhead.1,hrest.1],hrest.2⟩

theorem PrefixCode.uniquelyDecodable (h : PrefixCode words) : UniquelyDecodable words := by
  intro us vs hus hvs heq
  have hnil : ∀ w ∈ words, ¬ w <+: [] := by
    intro w hw hstart
    rw [List.prefix_nil] at hstart
    exact h.nonempty (hstart ▸ hw)
  exact (h.flatten_append_inj hus hvs hnil hnil (by rw [heq])).1

end Cpu2Tensor.Library
