import Cpu2Tensor.Hardware.Capture

/-!
# What the methods of a capture leave alone

Most calls of a capture neither open nor close anything.  A method made of such calls keeps every
preorder on the object and on the state of a protocol that its calls keep.
-/

namespace Cpu2Tensor.Hardware
open Library

/-- A call that neither opens nor closes anything. -/
def Call.quiet : Call → Prop
  | openEvent .. => False
  | mmap .. => False
  | closeDescriptor _ => False
  | closeMapping _ => False
  | _ => True

/-- Quiet calls are allowed by the protocol and relate its states. -/
class Frame {S : Type} (P : Protocol Call Call.Answer S) (T : S → S → Prop) : Prop
    extends IsPreorder S T where
  quiet : ∀ s c, c.quiet → P.pre s c ∧ ∀ answer t, P.next s c answer t → T s t

section Rules

variable {σ S α β : Type} {P : Protocol Call Call.Answer S} {T : S → S → Prop} {l : σ} {s : S}

/-- A method that relates the object and the state of the protocol to what they were, however it
ends. -/
def Preserves (P : Protocol Call Call.Answer S) (R : σ → σ → Prop) (T : S → S → Prop)
    (x : Capturing σ α) : Prop :=
  ∀ l s, Method.wp P x (fun _ l' s' => R l l' ∧ T s s') l s

theorem Preserves.wp {R : σ → σ → Prop} {x : Capturing σ α} (h : Preserves P R T x)
    {post : Except HardwareError α → σ → S → Prop}
    (hpost : ∀ r l' s', R l l' → T s s' → post r l' s') : Method.wp P x post l s := by
  apply Method.wp_mono (h l s)
  rintro r l' s' ⟨hr,ht⟩
  exact hpost r l' s' hr ht

theorem Preserves.still {R : σ → σ → Prop} {x : Capturing σ α} (h : Preserves P R Eq x)
    {post : Except HardwareError α → σ → S → Prop} (hpost : ∀ r l', R l l' → post r l' s) :
    Method.wp P x post l s := by
  apply h.wp
  rintro r l' _ hr rfl
  exact hpost r l' hr

theorem Preserves.same {x : Capturing σ α} (h : Preserves P Eq Eq x)
    {post : Except HardwareError α → σ → S → Prop} (hpost : ∀ r, post r l s) :
    Method.wp P x post l s := by
  apply h.still
  rintro r _ rfl
  exact hpost r

variable {R : σ → σ → Prop}

theorem preserves_ite {p : Prop} [Decidable p] {x y : Capturing σ α} (hx : Preserves P R T x)
    (hy : Preserves P R T y) : Preserves P R T (if p then x else y) := by
  split
  · exact hx
  · exact hy

variable [IsPreorder σ R] [Frame P T]

theorem preserves_pure (a : α) : Preserves P R T (pure a : Capturing σ α) :=
  fun l s => ⟨refl_of R l,refl_of T s⟩

theorem preserves_throw (error : HardwareError) : Preserves P R T (throw error : Capturing σ α) :=
  fun l s => ⟨refl_of R l,refl_of T s⟩

theorem Preserves.bind {x : Capturing σ α} {f : α → Capturing σ β} (hx : Preserves P R T x)
    (hf : ∀ a, Preserves P R T (f a)) :
    Preserves P R T (x >>= f) := by
  intro l s
  rw [Method.wp_bind]
  apply hx.wp
  intro r l₁ s₁ h₁ t₁
  cases r with
  | error e => exact ⟨h₁,t₁⟩
  | ok a =>
    rw [Method.follows_ok]
    apply (hf a).wp
    exact fun _ l₂ s₂ h₂ t₂ => ⟨trans_of R h₁ h₂,trans_of T t₁ t₂⟩

theorem preserves_raiseIf (bad : Prop) [Decidable bad] (error : HardwareError) :
    Preserves P R T (raiseIf bad error : Capturing σ Unit) :=
  preserves_ite (preserves_throw error) (preserves_pure ())

theorem preserves_settle (result : Except HardwareError α) :
    Preserves P R T (settle result : Capturing σ α) := by
  cases result with
  | ok a => exact preserves_pure a
  | error error => exact preserves_throw error

theorem preserves_whenSome {value : Option α} {f : α → Capturing σ Unit}
    (hf : ∀ a, Preserves P R T (f a)) : Preserves P R T (whenSome value f) := by
  cases value with
  | none => exact preserves_pure ()
  | some a => exact hf a

theorem preserves_forM {list : List α} {f : α → Capturing σ PUnit}
    (hf : ∀ a, Preserves P R T (f a)) :
    Preserves P R T (list.forM f) := by
  intro l s
  refine Method.wp_forM (fun _ l' s' => R l l' ∧ T s s') ?_ (fun _ _ h => h)
    ⟨refl_of R l,refl_of T s⟩
  rintro a rest l₁ s₁ ⟨h₁,t₁⟩
  apply (hf a).wp
  intro r l₂ s₂ h₂ t₂
  cases r <;> exact ⟨trans_of R h₁ h₂,trans_of T t₁ t₂⟩

theorem preserves_collect {list : List α} {f : α → Capturing σ β}
    (hf : ∀ a, Preserves P R T (f a)) :
    Preserves P R T (Method.collect f list) := by
  intro l s
  refine Method.wp_collect (fun l' s' => R l l' ∧ T s s') ?_ ⟨refl_of R l,refl_of T s⟩
  rintro a l₁ s₁ ⟨h₁,t₁⟩
  exact (hf a).wp fun _ _ _ h₂ t₂ => ⟨trans_of R h₁ h₂,trans_of T t₁ t₂⟩

theorem preserves_andFinally {x : Capturing σ α} {last : Capturing σ PUnit}
    (hx : Preserves P R T x) (hlast : Preserves P R T last) :
    Preserves P R T (Method.andFinally x last) := by
  intro l s
  rw [Method.wp_andFinally]
  apply hx.wp
  intro r l₁ s₁ h₁ t₁
  apply hlast.wp
  intro r' l₂ s₂ h₂ t₂
  cases r' <;> exact ⟨trans_of R h₁ h₂,trans_of T t₁ t₂⟩

theorem preserves_call (c : Call) (hc : c.quiet) :
    Preserves P R T (call c : Capturing σ c.Answer) := by
  intro l s
  rw [call,Method.wp_request]
  obtain ⟨hpre,hnext⟩ := Frame.quiet (P := P) (T := T) s c hc
  exact ⟨hpre,fun answer t ht => ⟨refl_of R l,hnext answer t ht⟩⟩

theorem preserves_ioctl (fd : Nat) (control : Control) (argument : Nat) :
    Preserves P R T (ioctl fd control argument : Capturing σ Unit) := by
  apply (preserves_call (.ioctl fd control argument) trivial).bind
  intro answer
  cases answer with
  | true => exact preserves_pure ()
  | false => exact preserves_throw _

theorem preserves_eventAttribute (signal : Signal) :
    Preserves P R T (eventAttribute signal : Capturing σ Unit) :=
  (preserves_call (.eventAttribute signal) trivial).bind preserves_settle

theorem preserves_listTasks (pid : Nat) : Preserves P R T (listTasks pid : Capturing σ (List Nat)) := by
  apply (preserves_call (.listTasks pid) trivial).bind
  intro answer
  cases answer with
  | some tids => exact preserves_pure _
  | none => exact preserves_throw _

theorem preserves_eventId (fd : Nat) : Preserves P R T (eventId fd : Capturing σ Nat) := by
  apply (preserves_call (.eventId fd) trivial).bind
  intro answer
  split
  · exact preserves_throw _
  · exact preserves_throw _
  · exact preserves_pure _

theorem preserves_readCounterGroup (fd : Nat) (identifiers : List Nat) :
    Preserves P R T (readCounterGroup fd identifiers : Capturing σ Reading) :=
  (preserves_call (.read fd _) trivial).bind fun _ => preserves_settle _

theorem preserves_readSampledEvent (fd : Nat) :
    Preserves P R T (readSampledEvent fd : Capturing σ SampledStatus) :=
  (preserves_call (.read fd _) trivial).bind fun _ => preserves_settle _

theorem preserves_readMappedBatch (page data : Nat) (aux : Option Nat) (dataPages : Nat)
    (signal : Signal) (source : Nat) :
    Preserves P R T (readMappedBatch page data aux dataPages signal source : Capturing σ HardwareBatch) := by
  apply (preserves_call (.contents data) trivial).bind
  intro bytes
  apply (preserves_raiseIf _ _).bind
  intro _
  apply (preserves_settle _).bind
  intro records
  cases aux with
  | none => exact preserves_settle _
  | some mapping =>
    apply (preserves_call (.contents mapping) trivial).bind
    intro auxBytes
    apply (preserves_raiseIf _ _).bind
    intro _
    exact (preserves_settle _).bind fun _ => preserves_settle _

end Rules

namespace PerfMultimodalCapture

variable {page : Nat} {config : HardwareMultimodalConfig} {S : Type}
  {P : Protocol Call Call.Answer S} {T : S → S → Prop} [Frame P T]
  {R : PerfMultimodalCapture → PerfMultimodalCapture → Prop} [IsPreorder PerfMultimodalCapture R]

theorem preserves_arm (fd argument : Nat) :
    Preserves P R T (ioctl fd .reset argument >>= fun _ => ioctl fd .enable argument) :=
  (preserves_ioctl _ _ _).bind fun _ => preserves_ioctl _ _ _

theorem preserves_armSource (source : MultimodalSource) :
    Preserves P R T (armSource source) := by
  apply (preserves_whenSome fun fd => preserves_arm fd 0).bind
  intro _
  apply (preserves_whenSome fun fd => preserves_arm fd 0).bind
  intro _
  exact preserves_whenSome fun leader => preserves_arm leader groupFlag

theorem preserves_readFinal (source : MultimodalSource) :
    Preserves P R T (readFinal source) := by
  unfold readFinal
  split
  · exact preserves_pure _
  · exact (preserves_readCounterGroup _ _).bind fun _ => preserves_pure _

theorem preserves_mappedBatch (data aux : Option Nat) (signal : Signal) (source : Nat) :
    Preserves P R T (mappedBatch page config data aux signal source) := by
  cases data with
  | none => exact preserves_pure _
  | some data => exact (preserves_readMappedBatch _ _ _ _ _ _).bind fun _ => preserves_pure _

theorem preserves_finalCounters (source : MultimodalSource)
    (finals : List (Option (Nat × Reading))) : Preserves P R T (finalCounters source finals) := by
  apply preserves_ite (preserves_pure _)
  split
  · exact preserves_throw _
  · exact (preserves_settle _).bind fun _ => preserves_pure _

theorem preserves_sourceBatch (envelope : HardwareCaptureEnvelope)
    (finals : List (Option (Nat × Reading))) (source : MultimodalSource) :
    Preserves P R T (sourceBatch page config envelope finals source) :=
  (preserves_mappedBatch _ _ _ _).bind fun _ => (preserves_mappedBatch _ _ _ _).bind fun _ =>
    (preserves_finalCounters _ _).bind fun _ => preserves_pure _

end PerfMultimodalCapture

end Cpu2Tensor.Hardware
