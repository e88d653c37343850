import Cpu2Tensor.Library.Bytes
import Cpu2Tensor.Library.Checked

/-!
# Guarded computations

A checked computation with the memory accesses of its steps written beside them.  The guarded
computation traps at the first access outside of its buffer; when it agrees with the plain one, no
access is.
-/

namespace Cpu2Tensor.Library

/-- `size` places of a buffer of `limit` places, from `offset` on. -/
structure Access where
  offset : Nat
  size : Nat
  limit : Nat
  deriving DecidableEq, Repr

def Access.Fits (a : Access) : Prop := a.offset+a.size ≤ a.limit

instance (a : Access) : Decidable a.Fits := inferInstanceAs (Decidable (_ ≤ _))

def readAt (bytes : Bytes) (offset size : Nat) : Access := ⟨offset,size,bytes.length⟩

def indexOf (i count : Nat) : Access := ⟨i,1,count⟩

/-- The operand of an unsigned subtraction from `limit`, which wraps unless it fits. -/
def subtrahend (value limit : Nat) : Access := ⟨value,0,limit⟩

def AllFit (accesses : List Access) : Prop := ∀ a ∈ accesses, a.Fits

instance (accesses : List Access) : Decidable (AllFit accesses) :=
  inferInstanceAs (Decidable (∀ a ∈ accesses, _))

section AllFit

variable {as bs : List Access} {a : Access}

@[simp] theorem allFit_nil : AllFit [] := by simp [AllFit]

@[simp] theorem allFit_cons : AllFit (a::as) ↔ a.Fits ∧ AllFit as := by simp [AllFit]

@[simp] theorem allFit_append : AllFit (as ++ bs) ↔ AllFit as ∧ AllFit bs := by
  simp [AllFit,or_imp,forall_and]

variable {limit offset size : Nat} {α : Type}

theorem allFit_flatMap {list : List α} {f : α → List Access} :
    AllFit (list.flatMap f) ↔ ∀ x ∈ list, AllFit (f x) := by
  simp only [AllFit,List.mem_flatMap]
  exact ⟨fun h x hx a ha => h a ⟨x,hx,ha⟩,fun h a ⟨x,hx,ha⟩ => h x hx a ha⟩

theorem allFit_map {list : List α} {f : α → Access} :
    AllFit (list.map f) ↔ ∀ x ∈ list, (f x).Fits := by
  simp [AllFit]

theorem allFit_ite {p : Prop} {_ : Decidable p} :
    AllFit (if p then as else bs) ↔ (p → AllFit as) ∧ (¬p → AllFit bs) := by
  split <;> simp_all

@[simp] theorem readAt_fits {bytes : Bytes} :
    (readAt bytes offset size).Fits ↔ offset+size ≤ bytes.length := Iff.rfl

@[simp] theorem indexOf_fits {i count : Nat} : (indexOf i count).Fits ↔ i < count := Iff.rfl

@[simp] theorem subtrahend_fits {value : Nat} :
    (subtrahend value limit).Fits ↔ value ≤ limit := Iff.rfl

@[simp] theorem access_fits : (⟨offset,size,limit⟩ : Access).Fits ↔ offset+size ≤ limit := Iff.rfl

end AllFit

inductive Trap
  | bounds
  | fault (fault : Fault)
  deriving DecidableEq, Repr

abbrev Guarded (σ α : Type) := EStateM Trap σ α

section Guarded

variable {σ α β : Type}

def unguarded (x : Checked σ α) : Guarded σ α := fun s =>
  match x s with
  | .ok a t => .ok a t
  | .error fault t => .error (.fault fault) t

/-- A step that makes some accesses, which may depend on the state. -/
def guarded (accesses : σ → List Access) (x : Checked σ α) : Guarded σ α := fun s =>
  if AllFit (accesses s) then unguarded x s else .error .bounds s

def touch (accesses : List Access) : Guarded σ Unit := guarded (fun _ => accesses) (pure ())

/-- Started in `s` the guarded computation does what the plain one does. -/
structure Agrees (x : Guarded σ α) (y : Checked σ α) (s : σ) : Prop where
  eq : x s = unguarded y s

theorem agrees_unguarded (x : Checked σ α) (s : σ) : Agrees (unguarded x) x s := ⟨rfl⟩

variable {f : Unit → Guarded σ β} {s : σ}

theorem agrees_guarded {accesses : σ → List Access} {x : Checked σ α} (hfit : AllFit (accesses s)) :
    Agrees (guarded accesses x) x s := ⟨if_pos hfit⟩

theorem Agrees.bind {x : Guarded σ α} {y : Checked σ α} {f : α → Guarded σ β}
    {g : α → Checked σ β} (hx : Agrees x y s) (hf : ∀ a t, y s = .ok a t → Agrees (f a) (g a) t) :
    Agrees (x >>= f) (y >>= g) s := by
  have heq := hx.eq
  constructor
  unfold unguarded at heq ⊢
  cases hy : y s with
  | ok a t =>
    rw [hy] at heq
    rw [bind_of_ok heq,bind_of_ok hy]
    exact (hf a t hy).eq
  | error fault t =>
    rw [hy] at heq
    rw [bind_of_error heq,bind_of_error hy]

theorem Agrees.touch_bind {accesses : List Access} {y : Checked σ β} (hfit : AllFit accesses)
    (hf : Agrees (f ()) y s) : Agrees (touch accesses >>= f) y s := by
  constructor
  have hpure : touch accesses s = .ok () s := by
    rw [touch,guarded,if_pos hfit]
    rfl
  rw [bind_of_ok hpure]
  exact hf.eq

theorem Agrees.check_bind {bad : Prop} {_ : Decidable bad} {message : String}
    {g : Unit → Checked σ β} (hf : ¬bad → Agrees (f ()) (g ()) s) :
    Agrees (unguarded (refuse bad message) >>= f) (refuse bad message >>= g) s := by
  refine (agrees_unguarded _ s).bind fun _ t ht => ?_
  obtain ⟨hn,rfl⟩ := refuse_eq_ok.mp ht
  exact hf hn

theorem Agrees.get_bind {f : σ → Guarded σ β} {g : σ → Checked σ β} (hf : Agrees (f s) (g s) s) :
    Agrees (get >>= f) (get >>= g) s := ⟨hf.eq⟩

theorem agrees_pure (a : α) (s : σ) : Agrees (pure a) (pure a) s := ⟨rfl⟩

end Guarded

end Cpu2Tensor.Library
