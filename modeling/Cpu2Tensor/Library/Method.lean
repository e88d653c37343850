import Cpu2Tensor.Library.Interaction

/-!
# Methods of an object

A method asks its environment, changes the object it belongs to and may raise.  What it changed
before it raised stays, so that handlers see the object as it was left.  A weakest precondition
speaks of the outcome, of the object and of the state of a protocol.
-/

namespace Cpu2Tensor.Library

abbrev Method (L Q : Type) (A : Q → Type) (E : Type) := ExceptT E (StateT L (Program Q A))

namespace Method

variable {L Q : Type} {A : Q → Type} {E S α β : Type} {P : Protocol Q A S}

def request (q : Q) : Method L Q A E (A q) := ExceptT.lift (StateT.lift (Program.request q))

def attempt (x : Method L Q A E α) : Method L Q A E (Except E α) :=
  ExceptT.lift x.run

/-- Run the handler when the method raises, and raise again. -/
def onError (handler : Method L Q A E PUnit) (x : Method L Q A E α) : Method L Q A E α :=
  attempt x >>= fun outcome =>
    match outcome with
    | .ok a => pure a
    | .error e => handler >>= fun _ => throw e

def andFinally (x : Method L Q A E α) (last : Method L Q A E PUnit) : Method L Q A E α :=
  attempt x >>= fun outcome =>
    last >>= fun _ =>
      match outcome with
      | .ok a => pure a
      | .error e => throw e

def collect (f : α → Method L Q A E β) : List α → Method L Q A E (List β)
  | [] => pure []
  | a :: rest => f a >>= fun b => collect f rest >>= fun bs => pure (b :: bs)

def wp (P : Protocol Q A S) (x : Method L Q A E α) (post : Except E α → L → S → Prop) (l : L)
    (s : S) : Prop :=
  Program.wp P (x.run.run l) (fun r t => post r.1 r.2 t) s

variable {l : L} {s : S}

@[simp] theorem wp_pure (a : α) (post : Except E α → L → S → Prop) :
    wp P (pure a : Method L Q A E α) post l s ↔ post (.ok a) l s := Iff.rfl

@[simp] theorem wp_throw (e : E) (post : Except E α → L → S → Prop) :
    wp P (throw e : Method L Q A E α) post l s ↔ post (.error e) l s := Iff.rfl

@[simp] theorem wp_get (post : Except E L → L → S → Prop) :
    wp P (get : Method L Q A E L) post l s ↔ post (.ok l) l s := Iff.rfl

@[simp] theorem wp_modify (f : L → L) (post : Except E PUnit → L → S → Prop) :
    wp P (modify f : Method L Q A E PUnit) post l s ↔ post (.ok ⟨⟩) (f l) s := Iff.rfl

theorem wp_request (q : Q) (post : Except E (A q) → L → S → Prop) :
    wp P (request q : Method L Q A E (A q)) post l s ↔
      P.pre s q ∧ ∀ answer t, P.next s q answer t → post (.ok answer) l t := Iff.rfl

@[simp] theorem wp_attempt (x : Method L Q A E α) (post : Except E (Except E α) → L → S → Prop) :
    wp P (attempt x) post l s ↔ wp P x (fun r l' t => post (.ok r) l' t) l s := by
  change Program.wp P (x.run.run l >>= fun r => pure (Except.ok r.1,r.2)) _ s ↔ _
  rw [Program.wp_bind]
  rfl

/-- What follows a method: the next one when it returns, and the same outcome when it raises. -/
def follows (P : Protocol Q A S) (f : α → Method L Q A E β) (post : Except E β → L → S → Prop) :
    Except E α → L → S → Prop
  | .ok a,l,s => wp P (f a) post l s
  | .error e,l,s => post (.error e) l s

@[simp] theorem follows_ok (f : α → Method L Q A E β) (post : Except E β → L → S → Prop) (a : α) :
    follows P f post (.ok a) l s ↔ wp P (f a) post l s := Iff.rfl

@[simp] theorem follows_error (f : α → Method L Q A E β) (post : Except E β → L → S → Prop)
    (e : E) : follows P f post (.error e) l s ↔ post (.error e) l s := Iff.rfl

@[simp] theorem wp_bind (x : Method L Q A E α) (f : α → Method L Q A E β)
    (post : Except E β → L → S → Prop) :
    wp P (x >>= f) post l s ↔ wp P x (follows P f post) l s := by
  change Program.wp P ((x.run >>= ExceptT.bindCont f).run l) _ s ↔ _
  rw [StateT.run_bind,Program.wp_bind]
  unfold wp
  constructor <;> intro h <;> apply Program.wp_mono h <;> rintro ⟨r,l'⟩ t ht <;> cases r <;> exact ht

variable {list : List α} {post : Except E α → L → S → Prop} {x : Method L Q A E α}

theorem wp_mono {post' : Except E α → L → S → Prop} (h : wp P x post l s)
    (himp : ∀ r l' t, post r l' t → post' r l' t) : wp P x post' l s :=
  Program.wp_mono h fun r t => himp r.1 r.2 t

theorem wp_onError (handler : Method L Q A E PUnit) (x : Method L Q A E α)
    (post : Except E α → L → S → Prop) :
    wp P (onError handler x) post l s ↔
      wp P x (fun r l' t => match r with
        | .ok a => post (.ok a) l' t
        | .error e => wp P handler (follows P (fun _ => throw e) post) l' t) l s := by
  rw [onError,wp_bind,wp_attempt]
  constructor <;> intro h <;> apply wp_mono h <;> intro r l' t ht <;> cases r <;> simpa using ht

theorem wp_andFinally (x : Method L Q A E α) (last : Method L Q A E PUnit)
    (post : Except E α → L → S → Prop) :
    wp P (andFinally x last) post l s ↔
      wp P x (fun r l' t => wp P last (fun r' l' t => match r' with
        | .ok _ => post r l' t
        | .error e => post (.error e) l' t) l' t) l s := by
  rw [andFinally,wp_bind,wp_attempt]
  constructor <;> intro h <;> apply wp_mono h <;> intro r l' t ht
  · rw [follows_ok,wp_bind] at ht
    apply wp_mono ht
    intro r' l' t ht
    cases r' <;> cases r <;> exact ht
  · rw [follows_ok,wp_bind]
    apply wp_mono ht
    intro r' l' t ht
    cases r' <;> cases r <;> exact ht

theorem wp_ite {p : Prop} [Decidable p] {y : Method L Q A E α} (hx : p → wp P x post l s)
    (hy : ¬p → wp P y post l s) : wp P (if p then x else y) post l s := by
  split
  · exact hx ‹p›
  · exact hy ‹¬p›

/-- A loop over a list, with an invariant that speaks of the entries left. -/
theorem wp_forM {f : α → Method L Q A E PUnit} {post : Except E PUnit → L → S → Prop}
    (I : List α → L → S → Prop)
    (hstep : ∀ a rest l s, I (a :: rest) l s → wp P (f a) (fun r l' t => match r with
      | .ok _ => I rest l' t
      | .error e => post (.error e) l' t) l s) (hdone : ∀ l s, I [] l s → post (.ok ⟨⟩) l s)
    (h : I list l s) : wp P (list.forM f) post l s := by
  induction list generalizing l s with
  | nil => exact hdone l s h
  | cons a rest ih =>
    change wp P (f a >>= fun _ => rest.forM f) post l s
    rw [wp_bind]
    apply wp_mono (hstep a rest l s h)
    intro r l' t ht
    cases r with
    | ok _ => exact ih ht
    | error e => exact ht

/-- A collecting loop keeps an invariant, whether it returns or raises. -/
theorem wp_collect {f : α → Method L Q A E β} (I : L → S → Prop)
    (hstep : ∀ a l s, I l s → wp P (f a) (fun _ l' t => I l' t) l s) (h : I l s) :
    wp P (collect f list) (fun _ l' t => I l' t) l s := by
  induction list generalizing l s with
  | nil => exact h
  | cons a rest ih =>
    rw [collect,wp_bind]
    apply wp_mono (hstep a l s h)
    intro r l' t ht
    cases r with
    | error e => exact ht
    | ok b =>
      rw [follows_ok,wp_bind]
      apply wp_mono (ih ht)
      intro r l' t ht
      cases r <;> exact ht

end Method

namespace Program

variable {Q : Type} {A : Q → Type} {α : Type}

theorem run_answers (oracle : Log Q A → (q : Q) → A q) (x : Program Q A α) (log : Log Q A)
    {trail rest : Log Q A} {entry : Sigma A}
    (h : (x.run oracle log).2 = log ++ trail ++ entry :: rest) :
    entry.2 = oracle (log ++ trail) entry.1 := by
  induction x generalizing log trail with
  | done a =>
    have hlen := congrArg List.length h
    simp [run] at hlen
  | ask q next ih =>
    obtain ⟨more,hmore⟩ := run_log_extends oracle (next (oracle log q)) (log ++ [⟨q,oracle log q⟩])
    cases trail with
    | nil =>
      simp only [run,← hmore,List.append_assoc,List.append_nil,List.append_cancel_left_eq,
        List.singleton_append] at h
      obtain ⟨rfl,_⟩ := List.cons_eq_cons.mp h
      rw [List.append_nil]
    | cons first trail =>
      have hfirst : first = ⟨q,oracle log q⟩ := by
        simp only [run,← hmore,List.append_assoc,List.append_cancel_left_eq,
          List.cons_append] at h
        exact (List.cons_eq_cons.mp h).1.symm
      subst hfirst
      have hnext : ((next (oracle log q)).run oracle (log ++ [⟨q,oracle log q⟩])).2 =
          log ++ [⟨q,oracle log q⟩] ++ trail ++ entry :: rest := by
        simpa [run] using h
      simpa using ih _ _ hnext

end Program

end Cpu2Tensor.Library
