import Cpu2Tensor.Library.Interaction

/-!
# Routines

A dialogue over a local state that only its own thread sees.  Its weakest precondition speaks of
the local state and of the state of a protocol.
-/

namespace Cpu2Tensor.Library

abbrev Routine (L Q : Type) (A : Q → Type) (R : Type) := StateT L (Dialogue Q A R)

namespace Routine

variable {L Q : Type} {A : Q → Type} {R S α β : Type} {P : Protocol Q A S}

def request (q : Q) : Routine L Q A R (A q) := StateT.lift (Dialogue.request q)

def stop (r : R) : Routine L Q A R α := StateT.lift (throw r)

def wp (P : Protocol Q A S) (x : Routine L Q A R α) (post : α → L → S → Prop)
    (early : R → S → Prop) (l : L) (s : S) : Prop :=
  Dialogue.wp P (x.run l) (fun r t => post r.1 r.2 t) early s

variable {early : R → S → Prop} {l : L} {s : S}

@[simp] theorem wp_get (post : L → L → S → Prop) :
    wp P (get : Routine L Q A R L) post early l s ↔ post l l s := Iff.rfl

@[simp] theorem wp_modify (f : L → L) (post : PUnit → L → S → Prop) :
    wp P (modify f : Routine L Q A R PUnit) post early l s ↔ post ⟨⟩ (f l) s := Iff.rfl

@[simp] theorem wp_bind (x : Routine L Q A R α) (f : α → Routine L Q A R β)
    (post : β → L → S → Prop) :
    wp P (x >>= f) post early l s ↔
      wp P x (fun a l' t => wp P (f a) post early l' t) early l s := by
  change Dialogue.wp P (x.run l >>= fun r => (f r.1).run r.2) _ early s ↔ _
  rw [Dialogue.wp_bind]
  rfl

theorem wp_mono {x : Routine L Q A R α} {post post' : α → L → S → Prop} {early' : R → S → Prop}
    (h : wp P x post early l s) (himp : ∀ a l' t, post a l' t → post' a l' t)
    (hearly : ∀ r t, early r t → early' r t) : wp P x post' early' l s :=
  Dialogue.wp_mono h (fun r t => himp r.1 r.2 t) hearly

theorem wp_ite {p : Prop} [Decidable p] {x y : Routine L Q A R α} {post : α → L → S → Prop}
    (hx : p → wp P x post early l s) (hy : ¬p → wp P y post early l s) :
    wp P (if p then x else y) post early l s := by
  split
  · exact hx ‹p›
  · exact hy ‹¬p›

theorem wp_forM_range {n : Nat} {f : Nat → Routine L Q A R PUnit} {I : Nat → L → S → Prop}
    (hstep : ∀ k < n, ∀ l s, I k l s → wp P (f k) (fun _ l' t => I (k+1) l' t) early l s)
    (h : I 0 l s) : wp P ((List.range n).forM f) (fun _ l' t => I n l' t) early l s := by
  have hfrom : ∀ count k l s, k+count = n → I k l s →
      wp P ((List.range' k count).forM f) (fun _ l' t => I n l' t) early l s := by
    intro count
    induction count with
    | zero =>
      intro k l s hk hi
      rw [Nat.add_zero] at hk
      exact hk ▸ hi
    | succ count ih =>
      intro k l s hk hi
      rw [List.range'_succ]
      change wp P (f k >>= fun _ => (List.range' (k+1) count).forM f) _ early l s
      rw [wp_bind]
      apply wp_mono (hstep k (by omega) l s hi)
      · intro _ l' t ht
        exact ih (k+1) l' t (by omega) ht
      · exact fun _ _ hr => hr
  rw [List.range_eq_range']
  exact hfrom n 0 l s (Nat.zero_add n) h

end Routine

end Cpu2Tensor.Library
