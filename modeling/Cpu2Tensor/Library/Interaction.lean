import Mathlib

/-!
# Programs that ask their environment

A program is a tree of requests.  It says nothing about who answers them: a run is a choice of
answers, and a weakest precondition is taken with respect to a protocol that says which answers
the environment may give and what the program must guarantee when it asks.
-/

namespace Cpu2Tensor.Library

/-- A program with result `α` that asks requests `q : Q` and goes on with the answer. -/
inductive Program (Q : Type) (A : Q → Type) (α : Type) where
  | done (a : α)
  | ask (q : Q) (next : A q → Program Q A α)

namespace Program

variable {Q : Type} {A : Q → Type} {α β : Type}

def bind : Program Q A α → (α → Program Q A β) → Program Q A β
  | .done a, f => f a
  | .ask q next, f => .ask q fun answer => (next answer).bind f

instance : Monad (Program Q A) where
  pure := .done
  bind := bind

def request (q : Q) : Program Q A (A q) := .ask q .done

/-- What was asked so far, with the answers. -/
abbrev Log (Q : Type) (A : Q → Type) := List (Sigma A)

/-- Run against an environment that answers from the whole history. -/
def run (oracle : Log Q A → (q : Q) → A q) : Program Q A α → Log Q A → α × Log Q A
  | .done a, log => (a,log)
  | .ask q next, log => (next (oracle log q)).run oracle (log ++ [⟨q,oracle log q⟩])

end Program

/-- What a program guarantees when it asks in state `s`, and how an answer moves the state. -/
structure Protocol (Q : Type) (A : Q → Type) (S : Type) where
  pre : S → Q → Prop
  next : S → (q : Q) → A q → S → Prop

namespace Program

variable {Q : Type} {A : Q → Type} {S α β : Type} {P : Protocol Q A S}

/-- Every run of the program from `s` keeps the protocol and ends with `post`. -/
def wp (P : Protocol Q A S) : Program Q A α → (α → S → Prop) → S → Prop
  | .done a, post, s => post a s
  | .ask q next, post, s => P.pre s q ∧ ∀ answer t, P.next s q answer t → wp P (next answer) post t

theorem wp_bind (x : Program Q A α) (f : α → Program Q A β) (post : β → S → Prop) (s : S) :
    wp P (x >>= f) post s ↔ wp P x (fun a t => wp P (f a) post t) s := by
  change wp P (x.bind f) post s ↔ _
  induction x generalizing s with
  | done a => rfl
  | ask q next ih => simp only [bind,wp,ih]

theorem wp_mono {x : Program Q A α} {post post' : α → S → Prop} {s : S} (h : wp P x post s)
    (himp : ∀ a t, post a t → post' a t) : wp P x post' s := by
  induction x generalizing s with
  | done a => exact himp a s h
  | ask q next ih => exact ⟨h.1,fun answer t ht => ih answer (h.2 answer t ht)⟩

end Program

/-- A program that may end early with a result `R`. -/
abbrev Dialogue (Q : Type) (A : Q → Type) (R : Type) := ExceptT R (Program Q A)

namespace Dialogue

variable {Q : Type} {A : Q → Type} {R S α β : Type} {P : Protocol Q A S}

def request (q : Q) : Dialogue Q A R (A q) := ExceptT.lift (Program.request q)

/-- Weakest precondition with a second condition for an early end. -/
def wp (P : Protocol Q A S) (x : Dialogue Q A R α) (post : α → S → Prop) (early : R → S → Prop)
    (s : S) : Prop :=
  Program.wp P x.run (fun r t => match r with | .ok a => post a t | .error e => early e t) s

variable {early : R → S → Prop} {s : S}

theorem wp_request (q : Q) (post : A q → S → Prop) :
    wp P (request q : Dialogue Q A R (A q)) post early s ↔
      P.pre s q ∧ ∀ answer t, P.next s q answer t → post answer t := Iff.rfl

theorem wp_bind (x : Dialogue Q A R α) (f : α → Dialogue Q A R β) (post : β → S → Prop) :
    wp P (x >>= f) post early s ↔ wp P x (fun a t => wp P (f a) post early t) early s := by
  change Program.wp P (x.run >>= ExceptT.bindCont f) _ s ↔ _
  rw [Program.wp_bind]
  unfold wp
  constructor <;> intro h <;> apply Program.wp_mono h <;> intro r t ht <;> cases r <;> exact ht

theorem wp_mono {x : Dialogue Q A R α} {post post' : α → S → Prop} {early' : R → S → Prop}
    (h : wp P x post early s) (himp : ∀ a t, post a t → post' a t)
    (hearly : ∀ e t, early e t → early' e t) : wp P x post' early' s := by
  apply Program.wp_mono h
  intro r t ht
  cases r with
  | ok a => exact himp a t ht
  | error e => exact hearly e t ht

end Dialogue

namespace Program

variable {Q : Type} {A : Q → Type} {α : Type}

/-- The protocol of a program whose state is the log itself, while `assume` holds of it. -/
def logProtocol (assume : Log Q A → Prop) : Protocol Q A (Log Q A) where
  pre _ _ := True
  next log q answer after := after = log ++ [⟨q,answer⟩] ∧ assume after

theorem run_log_extends (oracle : Log Q A → (q : Q) → A q) (x : Program Q A α) (log : Log Q A) :
    log <+: (x.run oracle log).2 := by
  induction x generalizing log with
  | done a => exact List.prefix_rfl
  | ask q next ih => exact (List.prefix_append _ _).trans (ih _ _)

theorem wp_log_extends {assume : Log Q A → Prop} {post : α → Log Q A → Prop} {x : Program Q A α}
    {log : Log Q A} (h : wp (logProtocol assume) x post log) :
    wp (logProtocol assume) x (fun a after => log <+: after ∧ post a after) log := by
  induction x generalizing log with
  | done a => exact ⟨List.prefix_rfl,h⟩
  | ask q next ih =>
    refine ⟨h.1,fun answer after hafter => wp_mono (ih answer (h.2 answer after hafter)) ?_⟩
    rintro a last ⟨hlast,hpost⟩
    exact ⟨(hafter.1 ▸ List.prefix_append log _).trans hlast,hpost⟩

/-- A run whose log keeps the assumption ends with the postcondition. -/
theorem wp_run {assume : Log Q A → Prop} {post : α → Log Q A → Prop}
    (hdown : ∀ before after, before <+: after → assume after → assume before)
    (oracle : Log Q A → (q : Q) → A q) (x : Program Q A α) (log : Log Q A)
    (h : wp (logProtocol assume) x post log) (ha : assume (x.run oracle log).2) :
    post (x.run oracle log).1 (x.run oracle log).2 := by
  induction x generalizing log with
  | done a => exact h
  | ask q next ih =>
    apply ih
    · apply h.2
      exact ⟨rfl,hdown _ _ (run_log_extends oracle _ _) ha⟩
    · exact ha

/-- The protocol of a program whose calls move a state: the program keeps `guarantee` when it asks,
the environment keeps `assume` when it answers. -/
def foldProtocol {S : Type} (after : S → Sigma A → S) (guarantee : S → Q → Prop)
    (assume : S → Sigma A → Prop) : Protocol Q A S where
  pre := guarantee
  next s q answer t := t = after s ⟨q,answer⟩ ∧ assume s ⟨q,answer⟩

/-- In a run whose answers keep the assumption every request keeps the guarantee, and the run ends
with the postcondition. -/
theorem wp_run_fold {S : Type} {after : S → Sigma A → S} {guarantee : S → Q → Prop}
    {assume : S → Sigma A → Prop} {post : α → S → Prop}
    (oracle : Log Q A → (q : Q) → A q) (x : Program Q A α) (log : Log Q A) (s : S)
    (h : wp (foldProtocol after guarantee assume) x post s)
    (ha : ∀ trail entry rest, (x.run oracle log).2 = log ++ trail ++ entry :: rest →
      assume (trail.foldl after s) entry) :
    (∀ trail entry rest, (x.run oracle log).2 = log ++ trail ++ entry :: rest →
        guarantee (trail.foldl after s) entry.1) ∧
      ∃ trail, (x.run oracle log).2 = log ++ trail ∧
        post (x.run oracle log).1 (trail.foldl after s) := by
  induction x generalizing log s with
  | done a =>
    refine ⟨fun trail entry rest hlog => ?_,[],(List.append_nil _).symm,h⟩
    have hlen := congrArg List.length hlog
    simp [run] at hlen
  | ask q next ih =>
    obtain ⟨hpre,hnext⟩ := h
    obtain ⟨rest₀,hextends⟩ := run_log_extends oracle (next (oracle log q))
      (log ++ [⟨q,oracle log q⟩])
    have hrun : ((ask q next).run oracle log).2 =
        log ++ [] ++ (⟨q,oracle log q⟩ : Sigma A) :: rest₀ := by
      simpa [run] using hextends.symm
    have hstep := hnext (oracle log q) _ ⟨rfl,ha [] _ _ hrun⟩
    have hshift : ∀ trail entry rest, ((next (oracle log q)).run oracle
        (log ++ [⟨q,oracle log q⟩])).2 = log ++ [⟨q,oracle log q⟩] ++ trail ++ entry :: rest →
        assume (trail.foldl after (after s ⟨q,oracle log q⟩)) entry := by
      intro trail entry rest hlog
      exact ha (⟨q,oracle log q⟩ :: trail) entry rest (by simpa [run] using hlog)
    obtain ⟨hguarantee,trail,htrail,hpost⟩ := ih _ _ _ hstep hshift
    refine ⟨?_,⟨q,oracle log q⟩ :: trail,by simpa [run] using htrail,hpost⟩
    intro trail entry rest hlog
    cases trail with
    | nil =>
      rw [hrun,List.append_nil] at hlog
      obtain ⟨rfl,_⟩ := List.cons_eq_cons.mp (List.append_cancel_left hlog)
      exact hpre
    | cons first trail =>
      rw [hrun] at hlog
      have hfirst : first = ⟨q,oracle log q⟩ := by
        simp only [List.append_assoc,List.cons_append] at hlog
        exact (List.cons_eq_cons.mp (List.append_cancel_left hlog)).1.symm
      subst hfirst
      exact hguarantee trail entry rest (by rw [← hrun] at hlog; simpa [run] using hlog)

end Program

namespace Dialogue

variable {Q : Type} {A : Q → Type} {R β : Type}

theorem wp_log_bind {assume : Program.Log Q A → Prop} {post : β → Program.Log Q A → Prop}
    {early : R → Program.Log Q A → Prop} {log : Program.Log Q A} {q : Q}
    {f : A q → Dialogue Q A R β}
    (h : ∀ answer, assume (log ++ [⟨q,answer⟩]) →
      wp (Program.logProtocol assume) (f answer) post early (log ++ [⟨q,answer⟩])) :
    wp (Program.logProtocol assume) (request q >>= f) post early log := by
  rw [wp_bind,wp_request]
  refine ⟨trivial,?_⟩
  rintro answer after ⟨rfl,ha⟩
  exact h answer ha

end Dialogue

end Cpu2Tensor.Library
