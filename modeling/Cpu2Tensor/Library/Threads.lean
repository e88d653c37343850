import Cpu2Tensor.Library.Routine
import Mathlib

/-!
# Threads

Threads run routines on a shared state.  A step lets one thread perform its next request, so that
a run is any interleaving of their requests; its log says who did what in which order.
-/

namespace Cpu2Tensor.Library

/-- Between calls a thread keeps its local state, in a call it is at some place of the routine. -/
inductive Thread (Q : Type) (A : Q → Type) (R L : Type)
  | idle (l : L)
  | busy (program : Program Q A (Except R (Unit × L)))

inductive Event (Q : Type) (A : Q → Type) (R C : Type)
  | enter (i : Nat) (call : C)
  | did (i : Nat) (entry : Sigma A)
  | leave (i : Nat)
  | quit (i : Nat) (reason : R)

structure Pool (Q : Type) (A : Q → Type) (R L C σ : Type) where
  shared : σ
  threads : Nat → Thread Q A R L
  log : List (Event Q A R C) := []
  /-- A thread has ended the process. -/
  finished : Bool := false

/-- The routine of each call and the answers of the shared state; a request that gets no answer
yet waits.  Background steps are those of no thread. -/
structure Workload (Q : Type) (A : Q → Type) (R L C B σ : Type) where
  routine : Nat → C → Routine L Q A R Unit
  perform : Nat → (q : Q) → σ → Option (A q × σ)
  background : B → σ → Option σ

inductive Step (C B : Type)
  | enter (i : Nat) (call : C)
  | advance (i : Nat)
  | background (b : B)

variable {Q : Type} {A : Q → Type} {R L C B σ : Type}

namespace Pool

variable (W : Workload Q A R L C B σ)

def enter (p : Pool Q A R L C σ) (i : Nat) (call : C) : Option (Pool Q A R L C σ) :=
  match p.threads i with
  | .idle l => some { p with
      threads := Function.update p.threads i (.busy ((W.routine i call).run l).run)
      log := p.log ++ [.enter i call] }
  | .busy _ => none

def advance (p : Pool Q A R L C σ) (i : Nat) : Option (Pool Q A R L C σ) :=
  match p.threads i with
  | .idle _ => none
  | .busy (.ask q next) => (W.perform i q p.shared).map fun r => { p with
      shared := r.2
      threads := Function.update p.threads i (.busy (next r.1))
      log := p.log ++ [.did i ⟨q,r.1⟩] }
  | .busy (.done (.ok (_,l))) => some { p with
      threads := Function.update p.threads i (.idle l)
      log := p.log ++ [.leave i] }
  | .busy (.done (.error reason)) => some { p with
      finished := true
      log := p.log ++ [.quit i reason] }

def step (p : Pool Q A R L C σ) (s : Step C B) : Option (Pool Q A R L C σ) :=
  if p.finished then none
  else match s with
    | .enter i call => p.enter W i call
    | .advance i => p.advance W i
    | .background b => (W.background b p.shared).map fun shared => { p with shared }

def run : List (Step C B) → Pool Q A R L C σ → Option (Pool Q A R L C σ)
  | [], p => some p
  | s::steps, p => (p.step W s).bind (run steps)

inductive Stepped (p : Pool Q A R L C σ) : Pool Q A R L C σ → Prop
  | enter (i : Nat) (call : C) (l : L) (hidle : p.threads i = .idle l) : Stepped p { p with
      threads := Function.update p.threads i (.busy ((W.routine i call).run l).run)
      log := p.log ++ [.enter i call] }
  | did (i : Nat) (q : Q) (next : A q → Program Q A (Except R (Unit × L))) (answer : A q)
      (shared : σ) (hbusy : p.threads i = .busy (.ask q next))
      (hperform : W.perform i q p.shared = some (answer,shared)) : Stepped p { p with
      shared
      threads := Function.update p.threads i (.busy (next answer))
      log := p.log ++ [.did i ⟨q,answer⟩] }
  | leave (i : Nat) (l : L) (hbusy : p.threads i = .busy (.done (.ok ((),l)))) : Stepped p { p with
      threads := Function.update p.threads i (.idle l)
      log := p.log ++ [.leave i] }
  | quit (i : Nat) (reason : R) (hbusy : p.threads i = .busy (.done (.error reason))) :
    Stepped p { p with finished := true, log := p.log ++ [.quit i reason] }
  | background (b : B) (shared : σ) (hback : W.background b p.shared = some shared) :
    Stepped p { p with shared }

variable {W} {p t : Pool Q A R L C σ}

theorem stepped {s : Step C B} (h : p.step W s = some t) : Stepped W p t := by
  unfold step at h
  split at h
  · cases h
  · cases s with
    | enter i call =>
      simp only [enter] at h
      split at h
      · rename_i l hidle
        cases h
        exact .enter i call l hidle
      · cases h
    | advance i =>
      simp only [advance] at h
      split at h
      · cases h
      · rename_i q next hbusy
        obtain ⟨⟨answer,shared⟩,hperform,rfl⟩ := Option.map_eq_some_iff.mp h
        exact .did i q next answer shared hbusy hperform
      · rename_i l hbusy
        cases h
        exact .leave i l hbusy
      · rename_i reason hbusy
        cases h
        exact .quit i reason hbusy
    | background b =>
      obtain ⟨shared,hback,rfl⟩ := Option.map_eq_some_iff.mp h
      exact .background b shared hback

theorem run_induct {I : Pool Q A R L C σ → Prop} (hstep : ∀ p t, I p → Stepped W p t → I t)
    {steps : List (Step C B)} (h : I p) (hr : p.run W steps = some t) : I t := by
  induction steps generalizing p with
  | nil =>
    cases hr
    exact h
  | cons s steps ih =>
    obtain ⟨u,hs,hr⟩ := Option.bind_eq_some_iff.mp hr
    exact ih (hstep p u h (stepped hs)) hr

end Pool

/-- The calls of one thread with the requests each has made. -/
structure Account (A : Q → Type) (C : Type) where
  past : List (C × List (Sigma A)) := []
  current : Option (C × List (Sigma A)) := none

def Account.after (i : Nat) (a : Account A C) : Event Q A R C → Account A C
  | .enter j call => if j = i then { a with current := some (call,[]) } else a
  | .did j entry =>
    if j = i then { a with current := a.current.map fun c => (c.1,c.2 ++ [entry]) } else a
  | .leave j => if j = i then { past := a.past ++ a.current.toList } else a
  | .quit _ _ => a

def account (i : Nat) (log : List (Event Q A R C)) : Account A C := log.foldl (Account.after i) {}

theorem account_snoc (i : Nat) (log : List (Event Q A R C)) (event : Event Q A R C) :
    account i (log ++ [event]) = (account i log).after i event := by
  rw [account,List.foldl_append]
  rfl

def Event.thread : Event Q A R C → Nat
  | .enter i _ | .did i _ | .leave i | .quit i _ => i

theorem Account.after_other {i : Nat} (a : Account A C) {event : Event Q A R C}
    (h : event.thread ≠ i) : a.after i event = a := by
  cases event with
  | enter j call => exact if_neg h
  | did j entry => exact if_neg h
  | leave j => exact if_neg h
  | quit j reason => rfl

/-- The calls of a thread, last the one it is in. -/
def Account.calls (a : Account A C) : List (C × List (Sigma A)) := a.past ++ a.current.toList

def Account.made (a : Account A C) : List (Sigma A) := a.calls.flatMap Prod.snd

/-- A run over the requests it has made. -/
def trailProtocol (asks : List (Sigma A) → Q → Prop) : Protocol Q A (List (Sigma A)) where
  pre := asks
  next trail q answer after := after = trail ++ [⟨q,answer⟩]

/-- What a thread guarantees: `ready` between its calls, given those it has made, and `asks` at
each request, given those of the same call. -/
structure Contract (W : Workload Q A R L C B σ) where
  ready : Nat → List (C × List (Sigma A)) → L → Prop
  asks : Nat → List (C × List (Sigma A)) → C → List (Sigma A) → Q → Prop
  keeps : ∀ i past call l, ready i past l →
    Routine.wp (trailProtocol (asks i past call)) (W.routine i call)
      (fun _ l' trail => ready i (past ++ [(call,trail)]) l') (fun _ _ => True) l []

namespace Contract

variable {W : Workload Q A R L C B σ} (K : Contract W)

/-- A thread at some place of a run keeps the contract from there on. -/
def Holds (i : Nat) (a : Account A C) : Thread Q A R L → Prop
  | .idle l => a.current = none ∧ K.ready i a.past l
  | .busy program => ∃ call trail, a.current = some (call,trail) ∧
      Program.wp (trailProtocol (K.asks i a.past call)) program
        (fun r after => match r with
          | .ok (_,l) => K.ready i (a.past ++ [(call,after)]) l
          | .error _ => True) trail

variable {K} {p t : Pool Q A R L C σ}

theorem Holds.request {i : Nat} {q : Q} {next : A q → Program Q A (Except R (Unit × L))}
    {a : Account A C} (h : K.Holds i a (.busy (.ask q next))) :
    ∃ call trail, a.current = some (call,trail) ∧ K.asks i a.past call trail q := by
  obtain ⟨call,trail,hcurrent,hasks,_⟩ := h
  exact ⟨call,trail,hcurrent,hasks⟩

theorem Holds.other {i j : Nat} {log : List (Event Q A R C)} {thread : Thread Q A R L}
    (h : K.Holds i (account i log) thread) (hne : j ≠ i) {event : Event Q A R C}
    (hevent : (∃ call, event = .enter j call) ∨ (∃ entry, event = .did j entry) ∨
      event = .leave j) : K.Holds i (account i (log ++ [event])) thread := by
  rw [account_snoc]
  obtain ⟨call,rfl⟩ | ⟨entry,rfl⟩ | rfl := hevent <;> simp only [Account.after,if_neg hne] <;>
    exact h

theorem holds_step (h : ∀ i, K.Holds i (account i p.log) (p.threads i))
    (hs : Pool.Stepped W p t) : ∀ i, K.Holds i (account i t.log) (t.threads i) := by
  intro i
  have hi := h i
  cases hs with
  | enter j call l hidle =>
    by_cases hne : j = i
    · subst hne
      rw [hidle] at hi
      dsimp only
      rw [Function.update_self,account_snoc]
      simp only [Account.after,if_pos]
      refine ⟨call,[],rfl,Program.wp_mono (K.keeps j _ call l hi.2) fun r after hr => ?_⟩
      cases r with
      | ok r => exact hr
      | error reason => trivial
    · dsimp only
      rw [Function.update_of_ne (Ne.symm hne)]
      exact hi.other hne (.inl ⟨call,rfl⟩)
  | did j q next answer shared hbusy hperform =>
    by_cases hne : j = i
    · subst hne
      rw [hbusy] at hi
      dsimp only
      rw [Function.update_self,account_snoc]
      obtain ⟨call,trail,hcurrent,_,hnext⟩ := hi
      refine ⟨call,trail ++ [⟨q,answer⟩],?_,?_⟩
      · simp [Account.after,hcurrent]
      · simp only [Account.after,if_pos]
        exact hnext answer _ rfl
    · dsimp only
      rw [Function.update_of_ne (Ne.symm hne)]
      exact hi.other hne (.inr (.inl ⟨_,rfl⟩))
  | leave j l hbusy =>
    by_cases hne : j = i
    · subst hne
      rw [hbusy] at hi
      dsimp only
      rw [Function.update_self,account_snoc]
      obtain ⟨call,trail,hcurrent,hready⟩ := hi
      simp only [Account.after,if_pos,hcurrent,Option.toList_some]
      exact ⟨rfl,hready⟩
    · dsimp only
      rw [Function.update_of_ne (Ne.symm hne)]
      exact hi.other hne (.inr (.inr rfl))
  | quit j reason hbusy =>
    dsimp only
    rw [account_snoc]
    exact hi
  | background b shared hback => exact hi

/-- An invariant of the whole pool may use what every thread guarantees. -/
theorem run_induct {I : Pool Q A R L C σ → Prop}
    (hstep : ∀ p t, I p → (∀ i, K.Holds i (account i p.log) (p.threads i)) →
      Pool.Stepped W p t → I t)
    {steps : List (Step C B)} (h : I p) (hthreads : ∀ i, K.Holds i (account i p.log) (p.threads i))
    (hr : p.run W steps = some t) : I t ∧ ∀ i, K.Holds i (account i t.log) (t.threads i) := by
  refine Pool.run_induct (I := fun p => I p ∧ ∀ i, K.Holds i (account i p.log) (p.threads i))
    (fun p t hp hs => ?_) ⟨h,hthreads⟩ hr
  exact ⟨hstep p t hp.1 hp.2 hs,holds_step hp.2 hs⟩

end Contract

end Cpu2Tensor.Library
