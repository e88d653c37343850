import Mathlib

/-!
# Lists that grow at their end

A property of each entry that may speak about the entries before it.
-/

namespace Cpu2Tensor.Library

variable {α : Type} {P : List α → α → Prop}

/-- `P` relates every entry of the list to the entries before it. -/
def History (P : List α → α → Prop) (list : List α) : Prop :=
  ∀ before a after, list = before ++ a::after → P before a

theorem history_nil : History P [] := by
  intro before a after heq
  simp at heq

variable {list more : List α}

theorem history_snoc {a : α} : History P (list ++ [a]) ↔ History P list ∧ P list a := by
  constructor
  · intro h
    refine ⟨fun before b after heq => h before b (after ++ [a]) ?_,h list a [] rfl⟩
    rw [heq,List.append_assoc,List.cons_append]
  · rintro ⟨hlist,ha⟩ before b after heq
    cases after using List.reverseRecOn with
    | nil =>
      obtain ⟨rfl,hb⟩ := List.append_inj' heq rfl
      cases hb
      exact ha
    | append_singleton after last =>
      rw [← List.cons_append,← List.append_assoc] at heq
      obtain ⟨rfl,_⟩ := List.append_inj' heq rfl
      exact hlist before b after rfl

theorem History.left (h : History P (list ++ more)) : History P list := by
  intro before a after heq
  exact h before a (after ++ more) (by rw [heq,List.append_assoc,List.cons_append])

theorem History.append (h : History P list)
    (hmore : ∀ before a after, more = before ++ a::after → P (list ++ before) a) :
    History P (list ++ more) := by
  induction more using List.reverseRecOn with
  | nil =>
    rw [List.append_nil]
    exact h
  | append_singleton more a ih =>
    rw [← List.append_assoc,history_snoc]
    refine ⟨ih fun before b after heq => hmore before b (after ++ [a]) ?_,hmore more a [] rfl⟩
    rw [heq,List.append_assoc,List.cons_append]

theorem History.pairwise {R : α → α → Prop}
    (h : History (fun before a => ∀ old ∈ before, R old a) list) : list.Pairwise R := by
  induction list using List.reverseRecOn with
  | nil => exact .nil
  | append_singleton list a ih =>
    obtain ⟨hlist,ha⟩ := history_snoc.mp h
    refine List.pairwise_append.mpr ⟨ih hlist,List.pairwise_singleton _ _,?_⟩
    intro old hold last hlast
    rw [List.mem_singleton.mp hlast]
    exact ha old hold

theorem History.imp {Q : List α → α → Prop} (h : History P list)
    (hpq : ∀ before a, P before a → Q before a) : History Q list :=
  fun before a after heq => hpq before a (h before a after heq)

end Cpu2Tensor.Library
