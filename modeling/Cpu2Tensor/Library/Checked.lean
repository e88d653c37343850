import Mathlib

/-!
# Checked computations

A computation over a state that may stop with a fault.  A fault keeps the state written so far.
What a successful run establishes is read off with one equivalence for each operation.
-/

namespace Cpu2Tensor.Library

/-- Why a call did not succeed: an error result, or a loop that never ends. -/
inductive Fault
  | failure (message : String)
  | divergence
  deriving DecidableEq, Repr

abbrev Checked (σ α : Type) := EStateM Fault σ α

/-- Stop with `message` when a check finds something bad. -/
def refuse {σ : Type} (bad : Prop) [Decidable bad] (message : String) : Checked σ Unit :=
  if bad then throw (.failure message) else pure ()

/-- Stop with the message a scan returned, if any. -/
def refuseSome {σ : Type} : Option String → Checked σ Unit
  | some message => throw (.failure message)
  | none => pure ()

/-- Run a step of the computation only when `p` holds. -/
def whenever {σ : Type} (p : Prop) [Decidable p] (x : Checked σ Unit) : Checked σ Unit :=
  if p then x else pure ()

/-- Go on from the result of a computation outside of it. -/
def outcome {σ α β : Type} (result : EStateM.Result Fault σ α) (stopped : Fault → σ → β)
    (done : α → σ → β) : β :=
  match result with
  | .error fault s => stopped fault s
  | .ok a s => done a s

variable {α β σ : Type}

@[simp] theorem outcome_ok (a : α) (s : σ) (stopped : Fault → σ → β) (done : α → σ → β) :
    outcome (.ok a s) stopped done = done a s := rfl

@[simp] theorem outcome_error (fault : Fault) (s : σ) (stopped : Fault → σ → β) (done : α → σ → β) :
    outcome (.error fault s) stopped done = stopped fault s := rfl

@[simp] theorem exists_unit {p : Unit → Prop} : (∃ a, p a) ↔ p () :=
  ⟨fun ⟨⟨⟩,h⟩ => h,fun h => ⟨(),h⟩⟩

theorem bind_of_ok {ε σ α β : Type} {x : EStateM ε σ α} {s t : σ} {a : α} (hx : x s = .ok a t)
    (f : α → EStateM ε σ β) : (x >>= f) s = f a t := by
  change EStateM.bind x f s = _
  rw [EStateM.bind,hx]

theorem bind_of_error {ε : Type} {x : EStateM ε σ α} {s t : σ} {e : ε} (hx : x s = .error e t)
    (f : α → EStateM ε σ β) : (x >>= f) s = .error e t := by
  change EStateM.bind x f s = _
  rw [EStateM.bind,hx]

section Inversion

variable {σ α β : Type} {s t : σ} {b : α} {bad p : Prop} {fault : Fault} {x : Checked σ α} {a : α}
  {f : α → Checked σ β} {message : String} {r : σ}

@[simp] theorem bind_eq_ok {b : β} :
    (x >>= f) s = .ok b t ↔ ∃ a r, x s = .ok a r ∧ f a r = .ok b t := by
  change EStateM.bind x f s = _ ↔ _
  unfold EStateM.bind
  cases x s <;> simp

@[simp] theorem map_eq_ok {f : α → β} {b : β} :
    (f <$> x) s = .ok b t ↔ ∃ a, x s = .ok a t ∧ f a = b := by
  change EStateM.map f x s = _ ↔ _
  unfold EStateM.map
  cases x s <;> simp [and_comm]

@[simp] theorem pure_eq_ok : (pure a : Checked σ α) s = .ok b t ↔ a = b ∧ s = t := by
  change EStateM.Result.ok a s = _ ↔ _
  simp

@[simp] theorem throw_eq_ok : (throw fault : Checked σ α) s = .ok b t ↔ False := by
  change EStateM.Result.error fault s = _ ↔ _
  simp

@[simp] theorem get_eq_ok {b : σ} : (get : Checked σ σ) s = .ok b t ↔ s = b ∧ s = t := by
  change EStateM.Result.ok s s = _ ↔ _
  simp

@[simp] theorem set_eq_ok {b : PUnit} : (set r : Checked σ PUnit) s = .ok b t ↔ t = r := by
  change EStateM.Result.ok PUnit.unit r = _ ↔ _
  simp [eq_comm]

@[simp] theorem modify_eq_ok {f : σ → σ} {b : PUnit} :
    (modify f : Checked σ PUnit) s = .ok b t ↔ t = f s := by
  change EStateM.Result.ok PUnit.unit (f s) = _ ↔ _
  simp [eq_comm]

@[simp] theorem refuse_eq_ok [Decidable bad] {b : Unit} :
    (refuse bad message : Checked σ Unit) s = .ok b t ↔ ¬bad ∧ s = t := by
  unfold refuse
  split <;> simp [*]

@[simp] theorem refuseSome_eq_ok {fault : Option String} {b : Unit} :
    (refuseSome fault : Checked σ Unit) s = .ok b t ↔ fault = none ∧ s = t := by
  cases fault <;> simp [refuseSome]

@[simp] theorem ite_eq_ok [Decidable p] {y : Checked σ α} :
    (if p then x else y) s = .ok b t ↔ (p ∧ x s = .ok b t) ∨ (¬p ∧ y s = .ok b t) := by
  split <;> simp [*]

@[simp] theorem whenever_eq_ok [Decidable p] {x : Checked σ Unit} {b : Unit} :
    whenever p x s = .ok b t ↔ (p → x s = .ok b t) ∧ (¬p → s = t) := by
  unfold whenever
  split <;> simp [*]

theorem get_bind (f : σ → Checked σ α) : (get >>= f) s = f s s := rfl

theorem refuse_of_not [Decidable bad] (hn : ¬bad) (message : String) :
    (refuse bad message : Checked σ Unit) = pure () :=
  if_neg hn

theorem refuse_bind [Decidable bad] (h : bad) (message : String) (f : Unit → Checked σ α) :
    (refuse bad message >>= f) s = .error (.failure message) s := by
  rw [refuse,if_pos h]
  rfl

theorem whenever_of [Decidable p] (h : p) (x : Checked σ Unit) : whenever p x = x :=
  if_pos h

theorem whenever_of_not [Decidable p] (h : ¬p) (x : Checked σ Unit) : whenever p x = pure () :=
  if_neg h

theorem bind_eq_error :
    (x >>= f) s = .error fault t ↔
      x s = .error fault t ∨ ∃ a r, x s = .ok a r ∧ f a r = .error fault t := by
  change EStateM.bind x f s = _ ↔ _
  unfold EStateM.bind
  cases x s <;> simp

theorem pure_eq_error : (pure a : Checked σ α) s = .error fault t ↔ False := by
  change EStateM.Result.ok a s = _ ↔ _
  simp

theorem get_eq_error : (get : Checked σ σ) s = .error fault t ↔ False := by
  change EStateM.Result.ok s s = _ ↔ _
  simp

theorem set_eq_error : (set r : Checked σ PUnit) s = .error fault t ↔ False := by
  change EStateM.Result.ok PUnit.unit r = _ ↔ _
  simp

theorem modify_eq_error {f : σ → σ} : (modify f : Checked σ PUnit) s = .error fault t ↔ False := by
  change EStateM.Result.ok PUnit.unit (f s) = _ ↔ _
  simp

theorem refuse_eq_error [Decidable bad] :
    (refuse bad message : Checked σ Unit) s = .error fault t ↔
      bad ∧ fault = .failure message ∧ s = t := by
  unfold refuse
  split
  · change EStateM.Result.error _ s = _ ↔ _
    simp [*,eq_comm]
  · rw [pure_eq_error]
    simp [*]

end Inversion

end Cpu2Tensor.Library
