import Cpu2Tensor.Library.Checked

/-!
# Computations that end

A checked computation ends when no run of it stops with `divergence`.  The rules carry an
invariant of the state along, which has to hold after a failure as well as after a success: a
caller may go on with the state that a failure leaves behind.
-/

namespace Cpu2Tensor.Library

section Rules

variable {σ α β : Type} {stuck : Prop} {P : σ → Prop}

/-- Started in `s` the computation leaves a state of the invariant, and returns unless `stuck`. -/
structure EndsAt (stuck : Prop) (P : σ → Prop) (x : Checked σ α) (s : σ) : Prop where
  result : outcome (x s) (fun fault t => (fault = .divergence → stuck) ∧ P t) fun _ t => P t

/-- From every state of the invariant the computation keeps it, and returns unless `stuck`. -/
structure Ends (stuck : Prop) (P : σ → Prop) (x : Checked σ α) : Prop where
  at_state : ∀ s, P s → EndsAt stuck P x s

abbrev Total (x : Checked σ α) : Prop := Ends False (fun _ => True) x

variable {bad : Prop} {s : σ} {x : Checked σ α}

theorem EndsAt.mono {stuck' : Prop} (hx : EndsAt stuck P x s) (hs : stuck → stuck') :
    EndsAt stuck' P x s := by
  obtain ⟨hx⟩ := hx
  constructor
  cases hr : x s with
  | ok a t =>
    rw [hr] at hx
    exact hx
  | error fault t =>
    rw [hr] at hx
    exact ⟨fun hd => hs (hx.1 hd),hx.2⟩

variable {_ : Decidable bad} {f : α → Checked σ β} {message : String} {p : Prop}

theorem EndsAt.bind (hx : EndsAt stuck P x s)
    (hf : ∀ a t, x s = .ok a t → P t → EndsAt stuck P (f a) t) : EndsAt stuck P (x >>= f) s := by
  obtain ⟨hx⟩ := hx
  constructor
  cases hr : x s with
  | ok a t =>
    rw [hr] at hx
    rw [bind_of_ok hr]
    exact (hf a t hr hx).result
  | error fault t =>
    rw [hr] at hx
    rw [bind_of_error hr]
    exact hx

theorem EndsAt.get_bind {f : σ → Checked σ α} (hf : EndsAt stuck P (f s) s) :
    EndsAt stuck P (get >>= f) s := ⟨hf.result⟩

theorem Ends.bind (hx : Ends stuck P x) (hf : ∀ a, Ends stuck P (f a)) :
    Ends stuck P (x >>= f) := by
  constructor
  intro s hs
  exact (hx.at_state s hs).bind fun a t _ ht => (hf a).at_state t ht

theorem Ends.get_bind {f : σ → Checked σ α} (hf : ∀ s, P s → Ends stuck P (f s)) :
    Ends stuck P (get >>= f) :=
  ⟨fun s hs => .get_bind ((hf s hs).at_state s hs)⟩

theorem ends_get : Ends stuck P (get : Checked σ σ) := ⟨fun _ hs => ⟨hs⟩⟩

theorem ends_pure (a : α) : Ends stuck P (pure a : Checked σ α) := ⟨fun _ hs => ⟨hs⟩⟩

theorem ends_failure (message : String) :
    Ends stuck P (throw (.failure message) : Checked σ α) :=
  ⟨fun _ hs => ⟨by simp,hs⟩⟩

theorem ends_set {r : σ} (hr : P r) : Ends stuck P (set r : Checked σ PUnit) := ⟨fun _ _ => ⟨hr⟩⟩

theorem ends_modify {f : σ → σ} (hf : ∀ s, P s → P (f s)) :
    Ends stuck P (modify f : Checked σ PUnit) :=
  ⟨fun s hs => ⟨hf s hs⟩⟩

theorem total_set (r : σ) : Total (set r : Checked σ PUnit) := ends_set trivial

theorem total_modify (f : σ → σ) : Total (modify f : Checked σ PUnit) :=
  ends_modify fun _ _ => trivial

theorem ends_ite {_ : Decidable p} {y : Checked σ α} (hx : Ends stuck P x) (hy : Ends stuck P y) :
    Ends stuck P (if p then x else y) := by
  split
  · exact hx
  · exact hy

theorem ends_refuse (message : String) : Ends stuck P (refuse bad message : Checked σ Unit) :=
  ends_ite (ends_failure message) (ends_pure ())

theorem Ends.check_bind {f : Unit → Checked σ α} (hf : ¬bad → Ends stuck P (f ())) :
    Ends stuck P (refuse bad message >>= f) := by
  by_cases hb : bad
  · constructor
    intro s hs
    constructor
    rw [Library.refuse_bind hb]
    exact ⟨by simp,hs⟩
  · rw [refuse_of_not hb]
    exact (ends_pure ()).bind fun _ => hf hb

theorem Ends.refuse_bind {f : Unit → Checked σ α} (hf : Ends stuck P (f ())) :
    Ends stuck P (refuse bad message >>= f) :=
  .check_bind fun _ => hf

theorem ends_refuseSome (fault : Option String) :
    Ends stuck P (refuseSome fault : Checked σ Unit) := by
  cases fault with
  | none => exact ends_pure ()
  | some message => exact ends_failure message

theorem ends_whenever {_ : Decidable p} {x : Checked σ Unit} (hx : Ends stuck P x) :
    Ends stuck P (whenever p x) :=
  ends_ite hx (ends_pure ())

end Rules

end Cpu2Tensor.Library
