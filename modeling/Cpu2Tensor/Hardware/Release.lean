import Cpu2Tensor.Hardware.Frame
import Cpu2Tensor.Library.History

/-!
# Captures release what they acquire

The ledger of a capture lists the descriptors and mappings that are open.  A capture closes only
what the ledger lists, and what the ledger lists between two calls is what the capture's events
own.
-/

namespace Cpu2Tensor.Hardware
open Library

inductive Resource
  | descriptor (fd : Nat)
  | mapping (mapping : Nat)
  deriving DecidableEq, Repr

def acquired : Sigma Call.Answer → Option Resource
  | ⟨.openEvent ..,.ok fd⟩ => some (.descriptor fd)
  | ⟨.mmap ..,some mapping⟩ => some (.mapping mapping)
  | _ => none

def disposed : Call → Option Resource
  | .closeDescriptor fd => some (.descriptor fd)
  | .closeMapping mapping => some (.mapping mapping)
  | _ => none

def recorded (live : List Resource) (entry : Sigma Call.Answer) : List Resource :=
  match acquired entry,disposed entry.1 with
  | some resource,_ => resource :: live
  | none,some resource => live.erase resource
  | none,none => live

def Disposable (live : List Resource) (call : Call) : Prop :=
  ∀ resource, disposed call = some resource → resource ∈ live

def ledger : Protocol Call Call.Answer (List Resource) :=
  Program.foldProtocol recorded Disposable fun _ _ => True

instance : Frame ledger Eq where
  quiet live c hc := by
    cases c with
    | openEvent | mmap | closeDescriptor | closeMapping => exact hc.elim
    | _ =>
      refine ⟨nofun,?_⟩
      rintro answer t ⟨rfl,-⟩
      rfl

section Rules

variable {σ : Type} {l : σ} {live : List Resource}
  {post : Except HardwareError Nat → σ → List Resource → Prop}

theorem wp_openEvent {event : PerfEvent} {tid cpu group : Int}
    (hok : ∀ fd, post (.ok fd) l (.descriptor fd :: live))
    (herror : ∀ error, post (.error error) l live) :
    Method.wp ledger (openEvent event tid cpu group) post l live := by
  rw [openEvent,Method.wp_bind,call,Method.wp_request]
  refine ⟨fun _ h => (by cases h),?_⟩
  rintro answer t ⟨rfl,-⟩
  cases answer with
  | ok fd => exact hok fd
  | error text => exact herror _

theorem wp_mmap {fd length offset : Nat}
    (hok : ∀ mapping, post (.ok mapping) l (.mapping mapping :: live))
    (herror : ∀ error, post (.error error) l live) :
    Method.wp ledger (mmap fd length offset) post l live := by
  rw [mmap,Method.wp_bind,call,Method.wp_request]
  refine ⟨fun _ h => (by cases h),?_⟩
  rintro answer t ⟨rfl,-⟩
  cases answer with
  | some mapping => exact hok mapping
  | none => exact herror _

variable {post : Except HardwareError Unit → σ → List Resource → Prop} {rest : List Resource}

theorem wp_closeDescriptor {fd : Nat} (h : live.Perm (.descriptor fd :: rest))
    (hpost : ∀ live', live'.Perm rest → post (.ok ()) l live') :
    Method.wp ledger (closeDescriptor fd) post l live := by
  rw [closeDescriptor,call,Method.wp_request]
  refine ⟨?_,?_⟩
  · rintro resource ⟨⟩
    exact h.mem_iff.mpr (by simp)
  · rintro answer t ⟨rfl,-⟩
    apply hpost
    have := h.erase (.descriptor fd)
    rwa [List.erase_cons_head] at this

theorem wp_closeMapping {mapping : Nat} (h : live.Perm (.mapping mapping :: rest))
    (hpost : ∀ live', live'.Perm rest → post (.ok ()) l live') :
    Method.wp ledger (closeMapping mapping) post l live := by
  rw [closeMapping,call,Method.wp_request]
  refine ⟨?_,?_⟩
  · rintro resource ⟨⟩
    exact h.mem_iff.mpr (by simp)
  · rintro answer t ⟨rfl,-⟩
    apply hpost
    have := h.erase (.mapping mapping)
    rwa [List.erase_cons_head] at this

theorem wp_raiseIf {bad : Prop} [Decidable bad] {error : HardwareError}
    (hbad : bad → post (.error error) l live) (hgood : ¬bad → post (.ok ()) l live) :
    Method.wp ledger (raiseIf bad error) post l live := by
  rw [raiseIf]
  exact Method.wp_ite hbad hgood

theorem wp_tryIoctl {fd : Nat} {control : Control} {argument : Nat}
    (hpost : post (.ok ()) l live) :
    Method.wp ledger (tryIoctl fd control argument) post l live := by
  rw [tryIoctl,Method.wp_bind,call,Method.wp_request]
  refine ⟨fun _ h => (by cases h),?_⟩
  rintro answer t ⟨rfl,-⟩
  exact hpost

theorem wp_tryIoctls {value : Option Nat} {control : Control} {argument : Nat}
    (hpost : post (.ok ()) l live) :
    Method.wp ledger (whenSome value fun fd => tryIoctl fd control argument) post l live := by
  cases value with
  | none => exact hpost
  | some fd => exact wp_tryIoctl hpost

theorem wp_closeMappings {value : Option Nat}
    (h : live.Perm (value.toList.map .mapping ++ rest))
    (hpost : ∀ live', live'.Perm rest → post (.ok ()) l live') :
    Method.wp ledger (whenSome value closeMapping) post l live := by
  cases value with
  | none => exact hpost live h
  | some mapping => exact wp_closeMapping h hpost

theorem wp_closeDescriptors {value : Option Nat}
    (h : live.Perm (value.toList.map .descriptor ++ rest))
    (hpost : ∀ live', live'.Perm rest → post (.ok ()) l live') :
    Method.wp ledger (whenSome value closeDescriptor) post l live := by
  cases value with
  | none => exact hpost live h
  | some fd => exact wp_closeDescriptor h hpost

end Rules

/-- What the two capture classes have in common, seen from their callers. -/
structure CaptureClass (σ : Type) where
  initial : σ
  owned : σ → List Resource
  emptied : σ → Prop
  running : σ → Bool
  stopped : σ → Bool
  enter : Capturing σ Unit
  stop : Capturing σ Unit
  close : Capturing σ Unit

namespace CaptureClass

variable {σ : Type} (C : CaptureClass σ)

def Idle (l : σ) : Prop := C.running l = false ∧ C.stopped l = false

/-- What holds between two calls. -/
def Sound (l : σ) (live : List Resource) : Prop :=
  live.Perm (C.owned l) ∧ (C.Idle l → C.emptied l)

def Released (l : σ) (live : List Resource) : Prop :=
  C.emptied l ∧ C.running l = false ∧ live = []

/-- What holds after `enter`: an entry that fails gives everything up. -/
def Entered (l : σ) (r : Except HardwareError Unit) (l' : σ) (live' : List Resource) : Prop :=
  C.Sound l' live' ∧ (C.Idle l → (∃ error, r = .error error) → C.Released l' live')

structure Contract : Prop where
  initial : C.Sound C.initial []
  enter : ∀ l live, C.Sound l live → Method.wp ledger C.enter (C.Entered l) l live
  stop : ∀ l live, C.Sound l live →
    Method.wp ledger C.stop (fun _ l' live' => C.Sound l' live') l live
  close : ∀ l live, C.Sound l live → Method.wp ledger C.close (fun r l' live' =>
    r = .ok () ∧ C.Sound l' live' ∧ C.Released l' live') l live

structure Closing : Prop where
  owned : ∀ l, C.emptied l → C.owned l = []
  close : ∀ l live, live.Perm (C.owned l) → Method.wp ledger C.close (fun r l' live' =>
    r = .ok () ∧ C.Released l' live') l live

variable {C} (hC : C.Closing) {l : σ} {live : List Resource}
include hC

theorem Closing.sound (h : C.Released l live) : C.Sound l live := by
  obtain ⟨hemptied,_,rfl⟩ := h
  refine ⟨?_,fun _ => hemptied⟩
  rw [hC.owned l hemptied]

theorem Closing.released (h : live.Perm (C.owned l)) : Method.wp ledger C.close (fun r l' live' =>
    r = .ok () ∧ C.Sound l' live' ∧ C.Released l' live') l live := by
  apply Method.wp_mono (hC.close l live h)
  rintro r l' live' ⟨hr,hreleased⟩
  exact ⟨hr,hC.sound hreleased,hreleased⟩

theorem Closing.wp_enter {x : Capturing σ Unit} {error : HardwareError} (h : C.Sound l live)
    (hx : C.Released l live → Method.wp ledger x (C.Entered l) l live) :
    Method.wp ledger (get >>= fun c => raiseIf (C.running c ∨ C.stopped c) error >>= fun _ => x)
      (C.Entered l) l live := by
  rw [Method.wp_bind,Method.wp_get,Method.follows_ok,Method.wp_bind]
  apply wp_raiseIf
  · intro hbusy
    refine ⟨h,fun hidle => ?_⟩
    rw [hidle.1,hidle.2] at hbusy
    simp at hbusy
  · intro hfree
    have hidle : C.running l = false ∧ C.stopped l = false := by simpa [not_or] using hfree
    have hlive := h.1
    rw [hC.owned l (h.2 hidle)] at hlive
    exact hx ⟨h.2 hidle,hidle.1,hlive.eq_nil⟩

theorem Closing.wp_opened {start : σ} {x : Capturing σ Unit}
    (hx : Method.wp ledger x (fun r l' live' => live'.Perm (C.owned l') ∧
      (r = .ok () → C.running l' = true)) l live) :
    Method.wp ledger (Method.onError C.close x) (C.Entered start) l live := by
  rw [Method.wp_onError]
  apply Method.wp_mono hx
  rintro r l' live' ⟨hlive,hrunning⟩
  cases r with
  | ok _ =>
    refine ⟨⟨hlive,fun hidle => ?_⟩,fun _ herror => by simp at herror⟩
    exact absurd (hidle.1.symm.trans (hrunning rfl)) (by simp)
  | error error =>
    apply Method.wp_mono (hC.released hlive)
    rintro r l' live' ⟨rfl,hsound,hreleased⟩
    exact ⟨hsound,fun _ _ => hreleased⟩

end CaptureClass

def CaptureEvent.handles (e : CaptureEvent) : List Resource :=
  e.aux.toList.map .mapping ++ [.mapping e.data,.descriptor e.fd]

namespace PerfCapture

def owned (c : PerfCapture) : List Resource := c.events.flatMap (·.handles)

variable {c : PerfCapture} {live : List Resource}

private theorem wp_closeEvent {e : CaptureEvent} {rest : List Resource}
    (h : live.Perm (e.handles ++ rest)) :
    Method.wp ledger (closeEvent e) (fun r c' live' => r = .ok () ∧ c' = c ∧ live'.Perm rest)
      c live := by
  rw [CaptureEvent.handles,List.append_assoc] at h
  rw [closeEvent,Method.wp_bind]
  apply wp_tryIoctl
  rw [Method.follows_ok,Method.wp_bind]
  apply wp_closeMappings h
  intro live₁ h₁
  rw [Method.follows_ok,Method.wp_bind]
  apply wp_closeMapping h₁
  intro live₂ h₂
  rw [Method.follows_ok]
  apply wp_closeDescriptor h₂
  exact fun live₃ h₃ => ⟨rfl,rfl,h₃⟩

/-- `close` closes all that the events own and forgets them; it does not raise. -/
theorem wp_close (h : live.Perm c.owned) :
    Method.wp ledger close (fun r c' live' => r = .ok () ∧
      c' = { c with events := [], running := false } ∧ live' = []) c live := by
  rw [close,Method.wp_bind,Method.wp_get,Method.follows_ok,Method.wp_bind]
  refine Method.wp_forM (fun events c' live' => c' = c ∧
    live'.Perm (events.flatMap CaptureEvent.handles)) ?_ ?_ ⟨rfl,h⟩
  · rintro e rest _ live ⟨rfl,hlive⟩
    apply Method.wp_mono (wp_closeEvent hlive)
    rintro _ _ _ ⟨rfl,rfl,hrest⟩
    exact ⟨rfl,hrest⟩
  · rintro _ live ⟨rfl,hlive⟩
    exact ⟨rfl,rfl,hlive.eq_nil⟩

variable {page : Nat} {config : HardwareConfig}

private theorem wp_mapAux {fd data : Nat}
    {post : Except HardwareError (Option Nat) → PerfCapture → List Resource → Prop}
    (hok : ∀ aux : Option Nat, post (.ok aux) c (aux.toList.map .mapping ++ live))
    (herror : ∀ error, post (.error error) c live) :
    Method.wp ledger (mapAux page config fd data) post c live := by
  rw [mapAux]
  apply Method.wp_ite
  · intro _
    rw [Method.wp_bind]
    apply (preserves_call (.packAux _ _ _) trivial).same
    intro r
    cases r with
    | error error => exact herror error
    | ok _ =>
      rw [Method.follows_ok,Method.wp_bind]
      apply wp_mmap
      · exact fun aux => hok (some aux)
      · exact herror
  · exact fun _ => hok none

private theorem wp_openTarget (target : Target) (h : live.Perm c.owned) :
    Method.wp ledger (openTarget page config target) (fun _ c' live' => live'.Perm c'.owned)
      c live := by
  rw [openTarget,Method.wp_bind]
  apply wp_openEvent
  · intro fd
    rw [Method.follows_ok,Method.wp_onError,Method.wp_bind]
    apply wp_mmap
    · intro data
      rw [Method.follows_ok,Method.wp_onError,Method.wp_bind]
      apply wp_mapAux
      · intro aux
        rw [Method.follows_ok,Method.wp_modify]
        have howned : owned { c with events := c.events ++ [⟨fd,target.source,data,aux⟩] } =
            c.owned ++ (aux.toList.map .mapping ++ [.mapping data,.descriptor fd]) := by
          simp [owned,CaptureEvent.handles]
        have hlive : aux.toList.map .mapping ++ .mapping data :: .descriptor fd :: live =
            (aux.toList.map .mapping ++ [.mapping data,.descriptor fd]) ++ live := by simp
        rw [howned,hlive]
        exact List.perm_append_comm.trans (h.append_right _)
      · intro error
        -- the inner handler unmaps the data, the outer one closes the descriptor
        apply wp_closeMapping ((h.cons _).cons _)
        intro live₁ h₁
        rw [Method.follows_ok,Method.wp_throw]
        apply wp_closeDescriptor h₁
        exact fun live₂ h₂ => h₂
    · intro error
      apply wp_closeDescriptor (h.cons _)
      exact fun live₁ h₁ => h₁
  · exact fun error => h

private theorem wp_openAll (targets : List Target) (h : live.Perm c.owned) :
    Method.wp ledger (openAll page config targets) (fun r c' live' =>
      live'.Perm c'.owned ∧ (r = .ok () → c'.running = true)) c live := by
  rw [openAll,Method.wp_bind]
  refine Method.wp_forM (fun _ c' live' => live'.Perm c'.owned) ?_ ?_ h
  · intro target rest c' live' hlive
    apply Method.wp_mono (wp_openTarget target hlive)
    intro r c'' live'' hlive'
    cases r with
    | ok _ => exact hlive'
    | error e => exact ⟨hlive',nofun⟩
  · intro c' live' hlive
    rw [Method.follows_ok,Method.wp_bind,Method.wp_get,Method.follows_ok,Method.wp_bind]
    apply (preserves_forM fun e => (preserves_ioctl _ _ _).bind fun _ => preserves_ioctl _ _ _).same
    intro r
    cases r with
    | ok _ => exact ⟨hlive,fun _ => rfl⟩
    | error e => exact ⟨hlive,nofun⟩

end PerfCapture

def perfCapture (page : Nat) (config : HardwareConfig) : CaptureClass PerfCapture where
  initial := {}
  owned := PerfCapture.owned
  emptied c := c.events = []
  running := PerfCapture.running
  stopped := PerfCapture.stopped
  enter := PerfCapture.enter page config
  stop := PerfCapture.stop page config >>= fun _ => pure ()
  close := PerfCapture.close

namespace PerfCapture

variable {page : Nat} {config : HardwareConfig} {c : PerfCapture} {live : List Resource}

private theorem closing : (perfCapture page config).Closing where
  owned c hevents := by
    change c.events = [] at hevents
    change c.owned = []
    rw [owned,hevents]
    rfl
  close c live h := by
    apply Method.wp_mono (wp_close h)
    rintro r _ _ ⟨rfl,rfl,rfl⟩
    exact ⟨rfl,rfl,rfl,rfl⟩

private theorem preserves_targets : Preserves ledger Eq Eq (targets config) :=
  preserves_ite (preserves_pure _) ((preserves_listTasks _).bind fun _ => preserves_pure _)

private theorem sound_enter (h : (perfCapture page config).Sound c live) :
    Method.wp ledger (enter page config) ((perfCapture page config).Entered c) c live := by
  refine closing.wp_enter h fun hreleased => ?_
  rw [Method.wp_bind]
  apply (preserves_eventAttribute _).same
  intro r
  cases r with
  | error error => exact ⟨h,fun _ _ => hreleased⟩
  | ok _ =>
    rw [Method.follows_ok,Method.wp_bind]
    apply preserves_targets.same
    intro r
    cases r with
    | error error => exact ⟨h,fun _ _ => hreleased⟩
    | ok targets => exact closing.wp_opened (wp_openAll targets h.1)

private theorem sound_stop (h : (perfCapture page config).Sound c live) :
    Method.wp ledger (stop page config >>= fun _ => pure ())
      (fun _ c' live' => (perfCapture page config).Sound c' live') c live := by
  have hstopped (c' : PerfCapture) (hevents : c'.events = c.events) (hs : c'.stopped = true) :
      (perfCapture page config).Sound c' live := by
    refine ⟨?_,fun hidle => absurd (hidle.2.symm.trans hs) (by simp)⟩
    rw [show (perfCapture page config).owned c' = c.owned by
      rw [show (perfCapture page config).owned c' = c'.owned from rfl,owned,hevents]; rfl]
    exact h.1
  rw [Method.wp_bind,stop,Method.wp_bind,Method.wp_get,Method.follows_ok,Method.wp_bind]
  apply wp_raiseIf
  · exact fun _ => h
  · intro _
    rw [Method.follows_ok,Method.wp_bind,Method.wp_modify,Method.follows_ok,Method.wp_bind]
    apply (preserves_forM fun e => preserves_ioctl _ _ _).same
    intro r
    cases r with
    | error error => exact hstopped _ rfl rfl
    | ok _ =>
      rw [Method.follows_ok,Method.wp_bind,Method.wp_modify,Method.follows_ok]
      apply (preserves_collect fun e => preserves_readMappedBatch _ _ _ _ _ _).same
      intro r
      cases r with
      | error error => exact hstopped _ rfl rfl
      | ok batches => exact hstopped _ rfl rfl

theorem contract : (perfCapture page config).Contract where
  initial := ⟨.nil,fun _ => rfl⟩
  enter _ _ h := sound_enter h
  stop _ _ h := sound_stop h
  close _ _ h := closing.released h.1

end PerfCapture

/-- What a source owns, in the order it is closed. -/
def MultimodalSource.handles (s : MultimodalSource) : List Resource :=
  s.counterFds.map .descriptor ++ (s.pebsData.toList.map .mapping ++
    (s.ptAux.toList.map .mapping ++ (s.ptData.toList.map .mapping ++
      (s.pebsFd.toList.map .descriptor ++ s.ptFd.toList.map .descriptor))))

namespace PerfMultimodalCapture

def owned (c : PerfMultimodalCapture) : List Resource :=
  c.sources.flatMap MultimodalSource.handles

variable {c : PerfMultimodalCapture} {live : List Resource}

private theorem wp_closeSource {s : MultimodalSource} {rest : List Resource}
    (h : live.Perm (s.handles ++ rest)) :
    Method.wp ledger (closeSource s) (fun r c' live' => r = .ok () ∧ c' = c ∧ live'.Perm rest)
      c live := by
  simp only [MultimodalSource.handles,List.append_assoc] at h
  rw [closeSource,Method.wp_bind]
  refine Method.wp_forM (fun fds c' live' => c' = c ∧ live'.Perm (fds.map .descriptor ++ _)) ?_ ?_
    ⟨rfl,h⟩
  · rintro fd fds _ live ⟨rfl,hlive⟩
    rw [Method.wp_bind]
    apply wp_tryIoctl
    rw [Method.follows_ok]
    exact wp_closeDescriptor hlive fun live' hlive' => ⟨rfl,hlive'⟩
  · rintro _ live ⟨rfl,hlive⟩
    rw [Method.follows_ok,Method.wp_bind]
    apply wp_tryIoctls
    rw [Method.follows_ok,Method.wp_bind]
    apply wp_tryIoctls
    rw [Method.follows_ok,Method.wp_bind]
    apply wp_closeMappings hlive
    intro live₁ h₁
    rw [Method.follows_ok,Method.wp_bind]
    apply wp_closeMappings h₁
    intro live₂ h₂
    rw [Method.follows_ok,Method.wp_bind]
    apply wp_closeMappings h₂
    intro live₃ h₃
    rw [Method.follows_ok,Method.wp_bind]
    apply wp_closeDescriptors h₃
    intro live₄ h₄
    rw [Method.follows_ok]
    exact wp_closeDescriptors h₄ fun live₅ h₅ => ⟨rfl,rfl,h₅⟩

theorem wp_close (h : live.Perm c.owned) :
    Method.wp ledger close (fun r c' live' => r = .ok () ∧
      c' = { c with sources := [], running := false } ∧ live' = []) c live := by
  rw [close,Method.wp_bind,Method.wp_get,Method.follows_ok,Method.wp_bind]
  refine Method.wp_forM (fun sources c' live' => c' = c ∧
    live'.Perm (sources.flatMap MultimodalSource.handles)) ?_ ?_ ⟨rfl,h⟩
  · rintro e rest _ live ⟨rfl,hlive⟩
    apply Method.wp_mono (wp_closeSource hlive)
    rintro _ _ _ ⟨rfl,rfl,hrest⟩
    exact ⟨rfl,hrest⟩
  · rintro _ live ⟨rfl,hlive⟩
    exact ⟨rfl,rfl,hlive.eq_nil⟩

variable {page : Nat} {config : HardwareMultimodalConfig} {front : List MultimodalSource}
  {s : MultimodalSource}

/-- The source being opened is the last one, and the ledger lists what all of them own. -/
structure Opening (front : List MultimodalSource) (s : MultimodalSource)
    (c : PerfMultimodalCapture) (live : List Resource) : Prop where
  sources : c.sources = front ++ [s]
  live : live.Perm (front.flatMap MultimodalSource.handles ++ s.handles)

private theorem Opening.accounted (h : Opening front s c live) : live.Perm c.owned := by
  rw [owned,h.sources,List.flatMap_append,List.flatMap_singleton]
  exact h.live

private theorem modify_last (f : MultimodalSource → MultimodalSource) :
    (front ++ [s]).modify ((front ++ [s]).length-1) f = front ++ [f s] := by
  rw [List.length_append,List.length_singleton,Nat.add_sub_cancel]
  induction front with
  | nil => rfl
  | cons first front ih => simpa using ih

private theorem Opening.update {f : MultimodalSource → MultimodalSource} {live' : List Resource}
    (h : Opening front s c live)
    (hlive : live'.Perm (front.flatMap MultimodalSource.handles ++ (f s).handles)) :
    Opening front (f s) { c with sources := c.sources.modify (c.sources.length-1) f } live' := by
  refine ⟨?_,hlive⟩
  rw [h.sources]
  exact modify_last f

private theorem wp_assign {f : MultimodalSource → MultimodalSource} {resource : Resource}
    {post : Except HardwareError Unit → PerfMultimodalCapture → List Resource → Prop}
    (h : Opening front s c live) (hf : (resource :: s.handles).Perm (f s).handles)
    (hpost : ∀ s' c', s' = f s → Opening front s' c' (resource :: live) →
      post (.ok ()) c' (resource :: live)) :
    Method.wp ledger (updateLast f) post c (resource :: live) := by
  rw [updateLast,Method.wp_modify]
  apply hpost _ _ rfl
  have hcons := (h.live.cons resource).trans List.perm_middle.symm
  exact h.update (hcons.trans (hf.append_left _))

private theorem count_handles (s : MultimodalSource) (r : Resource) :
    s.handles.count r = (s.counterFds.map Resource.descriptor).count r +
      (s.pebsData.toList.map Resource.mapping).count r +
      (s.ptAux.toList.map Resource.mapping).count r +
      (s.ptData.toList.map Resource.mapping).count r +
      (s.pebsFd.toList.map Resource.descriptor).count r +
      (s.ptFd.toList.map Resource.descriptor).count r := by
  simp only [MultimodalSource.handles,List.count_append]
  omega

private theorem handles_assigned {s t : MultimodalSource} {resource : Resource}
    (h : ∀ r, t.handles.count r = s.handles.count r+[resource].count r) :
    (resource :: s.handles).Perm t.handles := by
  rw [List.perm_iff_count]
  intro r
  rw [h,← List.singleton_append,List.count_append,Nat.add_comm]

private theorem handles_ptFd (hs : s.ptFd = none) (fd : Nat) :
    (.descriptor fd :: s.handles).Perm { s with ptFd := some fd }.handles := by
  apply handles_assigned
  simp [count_handles,hs]

private theorem handles_ptData (hs : s.ptData = none) (mapping : Nat) :
    (.mapping mapping :: s.handles).Perm { s with ptData := some mapping }.handles := by
  apply handles_assigned
  simp [count_handles,hs]
  omega

private theorem handles_ptAux (hs : s.ptAux = none) (mapping : Nat) :
    (.mapping mapping :: s.handles).Perm { s with ptAux := some mapping }.handles := by
  apply handles_assigned
  simp [count_handles,hs]
  omega

private theorem handles_pebsFd (hs : s.pebsFd = none) (fd : Nat) :
    (.descriptor fd :: s.handles).Perm { s with pebsFd := some fd }.handles := by
  apply handles_assigned
  simp [count_handles,hs]
  omega

private theorem handles_pebsData (hs : s.pebsData = none) (mapping : Nat) :
    (.mapping mapping :: s.handles).Perm { s with pebsData := some mapping }.handles := by
  apply handles_assigned
  simp [count_handles,hs]
  omega

private theorem handles_counterFds {fds : List Nat} (hs : s.counterFds = fds) (fd : Nat) :
    (.descriptor fd :: s.handles).Perm { s with counterFds := fds ++ [fd] }.handles := by
  apply handles_assigned
  simp [count_handles,hs]
  omega

/-- What the openings of a source leave, however they end: the fields of the modalities that
come later are as they were. -/
private def PtOpened (front : List MultimodalSource) (s : MultimodalSource)
    (c : PerfMultimodalCapture) (live : List Resource) : Prop :=
  ∃ s', Opening front s' c live ∧ s'.pebsFd = s.pebsFd ∧ s'.pebsData = s.pebsData ∧
    s'.counterFds = s.counterFds

private theorem wp_unmapPt {t : MultimodalSource} {data : Nat} {error : HardwareError}
    (h : Opening front t c (.mapping data :: live)) (ht : t = { s with ptData := some data })
    (hbefore : live.Perm (front.flatMap MultimodalSource.handles ++ s.handles))
    (hdata : s.ptData = none) :
    Method.wp ledger (closeMapping data >>= fun _ =>
        updateLast fun source => { source with ptData := none })
      (Method.follows ledger (fun _ => throw error)
        (fun (_ : Except HardwareError Unit) c' live' => PtOpened front s c' live'))
      c (.mapping data :: live) := by
  rw [Method.wp_bind]
  apply wp_closeMapping (.refl _)
  intro live' hlive'
  rw [Method.follows_ok,updateLast,Method.wp_modify,Method.follows_ok,Method.wp_throw]
  subst ht
  refine ⟨_,h.update ?_,rfl,rfl,rfl⟩
  have hhandles : { s with ptData := none }.handles = s.handles := by
    simp [MultimodalSource.handles,hdata]
  exact (hlive'.trans hbefore).trans (by rw [← hhandles])

private theorem wp_openAux {t : MultimodalSource} {fd data offset size : Nat}
    (h : Opening front t c (.mapping data :: live)) (ht : t = { s with ptData := some data })
    (hbefore : live.Perm (front.flatMap MultimodalSource.handles ++ s.handles))
    (hdata : s.ptData = none) (haux : s.ptAux = none) :
    Method.wp ledger (Method.onError (closeMapping data >>= fun _ =>
        updateLast fun source => { source with ptData := none }) do
      call (.packAux data offset size)
      let aux ← mmap fd size offset
      updateLast fun source => { source with ptAux := some aux })
      (fun _ c' live' => PtOpened front s c' live') c (.mapping data :: live) := by
  rw [Method.wp_onError,Method.wp_bind]
  apply (preserves_call (.packAux _ _ _) trivial).same
  intro r
  cases r with
  | error error => exact wp_unmapPt h ht hbefore hdata
  | ok _ =>
    rw [Method.follows_ok,Method.wp_bind]
    apply wp_mmap
    · intro aux
      have hnone : t.ptAux = none := ht ▸ haux
      rw [Method.follows_ok]
      apply wp_assign h (handles_ptAux hnone aux)
      intro s' c' hs' h'
      subst hs' ht
      exact ⟨_,h',rfl,rfl,rfl⟩
    · exact fun error => wp_unmapPt h ht hbefore hdata

private theorem wp_openPt (tid : Nat) (h : Opening front s c live) (hfd : s.ptFd = none)
    (hdata : s.ptData = none) (haux : s.ptAux = none) :
    Method.wp ledger (openPt page config tid) (fun _ c' live' => PtOpened front s c' live')
      c live := by
  rw [openPt,Method.wp_bind]
  apply (preserves_eventAttribute _).same
  intro r
  cases r with
  | error error => exact ⟨s,h,rfl,rfl,rfl⟩
  | ok _ =>
    rw [Method.follows_ok,Method.wp_bind]
    apply wp_openEvent _ fun _ => ⟨s,h,rfl,rfl,rfl⟩
    intro fd
    rw [Method.follows_ok,Method.wp_bind]
    apply wp_assign h (handles_ptFd hfd fd)
    intro s₁ c₁ hs₁ h₁
    obtain ⟨hdata₁,haux₁⟩ : s₁.ptData = none ∧ s₁.ptAux = none := by
      subst hs₁
      exact ⟨hdata,haux⟩
    have hlater : ∀ c' live', PtOpened front s₁ c' live' → PtOpened front s c' live' := by
      subst hs₁
      exact fun _ _ h => h
    rw [Method.follows_ok,Method.wp_bind]
    apply wp_mmap _ fun _ => hlater _ _ ⟨s₁,h₁,rfl,rfl,rfl⟩
    intro data
    rw [Method.follows_ok,Method.wp_bind]
    apply wp_assign h₁ (handles_ptData hdata₁ data)
    intro s₂ c₂ hs₂ h₂
    rw [Method.follows_ok]
    apply Method.wp_mono (wp_openAux h₂ hs₂ h₁.live hdata₁ haux₁)
    exact fun _ c' live' h => hlater c' live' h

private def PebsOpened (front : List MultimodalSource) (s : MultimodalSource)
    (c : PerfMultimodalCapture) (live : List Resource) : Prop :=
  ∃ s', Opening front s' c live ∧ s'.counterFds = s.counterFds

private theorem wp_openPebs (tid : Nat) (h : Opening front s c live) (hfd : s.pebsFd = none)
    (hdata : s.pebsData = none) :
    Method.wp ledger (openPebs page config tid) (fun _ c' live' => PebsOpened front s c' live')
      c live := by
  rw [openPebs,Method.wp_bind]
  apply (preserves_eventAttribute _).same
  intro r
  cases r with
  | error error => exact ⟨s,h,rfl⟩
  | ok _ =>
    rw [Method.follows_ok,Method.wp_bind]
    apply wp_openEvent _ fun _ => ⟨s,h,rfl⟩
    intro fd
    rw [Method.follows_ok,Method.wp_bind]
    apply wp_assign h (handles_pebsFd hfd fd)
    intro s₁ c₁ hs₁ h₁
    have hdata₁ : s₁.pebsData = none := hs₁ ▸ hdata
    have hfds₁ : s₁.counterFds = s.counterFds := by rw [hs₁]
    rw [Method.follows_ok,Method.wp_bind]
    apply wp_mmap _ fun _ => ⟨s₁,h₁,hfds₁⟩
    intro data
    rw [Method.follows_ok]
    apply wp_assign h₁ (handles_pebsData hdata₁ data)
    intro s₂ c₂ hs₂ h₂
    exact ⟨s₂,h₂,by rw [hs₂]; exact hfds₁⟩

private theorem wp_openCounters (tid : Nat) (signals : List Counter) {fds : List Nat}
    (h : Opening front s c live) (hfds : s.counterFds = fds) :
    Method.wp ledger (openCounters tid fds signals)
      (fun _ c' live' => ∃ s', Opening front s' c' live') c live := by
  induction signals generalizing fds s c live with
  | nil => exact ⟨s,h⟩
  | cons signal rest ih =>
    rw [openCounters,Method.wp_bind]
    apply wp_openEvent _ fun _ => ⟨s,h⟩
    intro fd
    rw [Method.follows_ok,Method.wp_bind]
    apply wp_assign h (handles_counterFds hfds fd)
    intro s₁ c₁ hs₁ h₁
    exact ih h₁ (by rw [hs₁])

private theorem wp_openGroup (tid : Nat) (h : Opening front s c live) (hfds : s.counterFds = []) :
    Method.wp ledger (openGroup tid) (fun _ c' live' => ∃ s', Opening front s' c' live')
      c live := by
  rw [openGroup,Method.wp_bind]
  apply Method.wp_mono (wp_openCounters tid counterSignals h hfds)
  rintro r c' live' ⟨s',h'⟩
  cases r with
  | error error => exact ⟨s',h'⟩
  | ok fds =>
    rw [Method.follows_ok,Method.wp_bind]
    apply (preserves_collect preserves_eventId).same
    intro r
    cases r with
    | error error => exact ⟨s',h'⟩
    | ok identifiers => exact ⟨_,h'.update (f := fun source =>
        { source with counterIds := identifiers }) h'.live⟩

private theorem wp_whenRequested {modality : Modality} {x : Capturing PerfMultimodalCapture Unit}
    {post : Except HardwareError Unit → PerfMultimodalCapture → List Resource → Prop}
    (hx : Method.wp ledger x post c live) (hskip : post (.ok ()) c live) :
    Method.wp ledger (whenRequested config modality x) post c live :=
  Method.wp_ite (fun _ => hx) fun _ => hskip

private theorem wp_openSource (tid : Nat) (h : live.Perm c.owned) :
    Method.wp ledger (openSource page config tid) (fun _ c' live' => live'.Perm c'.owned)
      c live := by
  rw [openSource,Method.wp_bind,Method.wp_modify,Method.follows_ok,Method.wp_bind]
  have h₀ : Opening c.sources { tid := tid } { c with sources := c.sources ++ [{ tid := tid }] }
      live := ⟨rfl,by rw [show MultimodalSource.handles { tid := tid } = [] from rfl,
        List.append_nil]; exact h⟩
  have hpt : Method.wp ledger (whenRequested config .intelPt (openPt page config tid))
      (fun _ c' live' => PtOpened c.sources { tid := tid } c' live')
      { c with sources := c.sources ++ [{ tid := tid }] } live :=
    wp_whenRequested (wp_openPt tid h₀ rfl rfl rfl) ⟨_,h₀,rfl,rfl,rfl⟩
  apply Method.wp_mono hpt
  rintro r c₁ live₁ ⟨s₁,h₁,hfd,hdata,hfds⟩
  cases r with
  | error error => exact h₁.accounted
  | ok _ =>
    rw [Method.follows_ok,Method.wp_bind]
    have hpebs : Method.wp ledger (whenRequested config .memoryLoads (openPebs page config tid))
        (fun _ c' live' => PebsOpened c.sources s₁ c' live') c₁ live₁ :=
      wp_whenRequested (wp_openPebs tid h₁ hfd hdata) ⟨_,h₁,rfl⟩
    apply Method.wp_mono hpebs
    rintro r c₂ live₂ ⟨s₂,h₂,hfds₂⟩
    cases r with
    | error error => exact h₂.accounted
    | ok _ =>
      rw [Method.follows_ok]
      have hgroup : Method.wp ledger (whenRequested config .counters (openGroup tid))
          (fun _ c' live' => ∃ s', Opening c.sources s' c' live') c₂ live₂ :=
        wp_whenRequested (wp_openGroup tid h₂ (hfds₂.trans hfds)) ⟨_,h₂⟩
      apply Method.wp_mono hgroup
      rintro r c₃ live₃ ⟨s₃,h₃⟩
      exact h₃.accounted

/-- The capture as far as its resources are concerned. -/
structure Alike (c c' : PerfMultimodalCapture) : Prop where
  owned : c'.owned = c.owned
  stopped : c'.stopped = c.stopped

instance : IsPreorder PerfMultimodalCapture Alike where
  refl _ := ⟨rfl,rfl⟩
  trans _ _ _ h₁ h₂ := ⟨h₂.owned.trans h₁.owned,h₂.stopped.trans h₁.stopped⟩

private theorem flatMap_modify {f : MultimodalSource → MultimodalSource}
    (hf : ∀ s, (f s).handles = s.handles) (sources : List MultimodalSource) (index : Nat) :
    (sources.modify index f).flatMap MultimodalSource.handles =
      sources.flatMap MultimodalSource.handles := by
  induction sources generalizing index with
  | nil => simp
  | cons s sources ih =>
    cases index with
    | zero => simp [hf]
    | succ index => simp [ih]

private theorem alike_updateSource {f : MultimodalSource → MultimodalSource}
    (hf : ∀ s, (f s).handles = s.handles) (index : Nat) :
    Preserves ledger Alike Eq (updateSource index f) := by
  intro c live
  rw [updateSource,Method.wp_modify]
  exact ⟨⟨flatMap_modify hf _ _,rfl⟩,rfl⟩

private theorem alike_modify {f : PerfMultimodalCapture → PerfMultimodalCapture}
    (hf : ∀ c, Alike c (f c)) : Preserves ledger Alike Eq (modify f : Capturing _ PUnit) :=
  fun c _ => ⟨hf c,rfl⟩

private theorem alike_readBaseline (entry : MultimodalSource × Nat) :
    Preserves ledger Alike Eq (readBaseline entry) := by
  apply preserves_whenSome
  intro leader
  apply (preserves_readCounterGroup _ _).bind
  intro start
  exact alike_updateSource (by exact fun _ => rfl) _

private theorem alike_disarmSource (entry : MultimodalSource × Nat) :
    Preserves ledger Alike Eq (disarmSource entry) := by
  apply (preserves_whenSome fun leader => preserves_ioctl leader .disable groupFlag).bind
  intro _
  apply Preserves.bind
  · apply preserves_whenSome
    intro fd
    apply (preserves_ioctl _ _ _).bind
    intro _
    apply (preserves_readSampledEvent _).bind
    intro status
    exact alike_updateSource (by exact fun _ => rfl) _
  · intro _
    exact preserves_whenSome fun fd => preserves_ioctl fd .disable 0

private theorem alike_disarm (sources : List MultimodalSource) :
    Preserves ledger Alike Eq (disarm sources) :=
  (preserves_forM alike_disarmSource).bind fun _ => alike_modify fun _ => ⟨rfl,rfl⟩

private theorem wp_openAll (tids : List Nat) (h : live.Perm c.owned) :
    Method.wp ledger (openAll page config tids) (fun r c' live' =>
      live'.Perm c'.owned ∧ (r = .ok () → c'.running = true)) c live := by
  rw [openAll,Method.wp_bind]
  refine Method.wp_forM (fun _ c' live' => live'.Perm c'.owned) ?_ ?_ h
  · intro tid rest c' live' hlive
    apply Method.wp_mono (wp_openSource tid hlive)
    intro r c'' live'' hlive'
    cases r with
    | ok _ => exact hlive'
    | error e => exact ⟨hlive',nofun⟩
  · intro c₁ live₁ h₁
    rw [Method.follows_ok,Method.wp_bind]
    apply (preserves_call .clock trivial).same
    intro r
    cases r with
    | error error => exact ⟨h₁,nofun⟩
    | ok before =>
      rw [Method.follows_ok,Method.wp_bind,Method.wp_modify,Method.follows_ok,Method.wp_bind,
        Method.wp_get,Method.follows_ok,Method.wp_bind]
      apply (preserves_forM preserves_armSource).same
      intro r
      cases r with
      | error error => exact ⟨h₁,nofun⟩
      | ok _ =>
        rw [Method.follows_ok,Method.wp_bind]
        apply (preserves_call .clock trivial).same
        intro r
        cases r with
        | error error => exact ⟨h₁,nofun⟩
        | ok after =>
          rw [Method.follows_ok,Method.wp_bind,Method.wp_modify,Method.follows_ok,Method.wp_bind]
          apply (preserves_forM alike_readBaseline).still
          intro r c₂ h₂
          have h₂ : live₁.Perm c₂.owned := h₁.trans (by rw [h₂.owned]; rfl)
          cases r with
          | error error => exact ⟨h₂,nofun⟩
          | ok _ => exact ⟨h₂,fun _ => rfl⟩

end PerfMultimodalCapture

def perfMultimodalCapture (page : Nat) (config : HardwareMultimodalConfig) :
    CaptureClass PerfMultimodalCapture where
  initial := {}
  owned := PerfMultimodalCapture.owned
  emptied c := c.sources = []
  running := PerfMultimodalCapture.running
  stopped := PerfMultimodalCapture.stopped
  enter := PerfMultimodalCapture.enter page config
  stop := PerfMultimodalCapture.stop page config >>= fun _ => pure ()
  close := PerfMultimodalCapture.close

namespace PerfMultimodalCapture

variable {page : Nat} {config : HardwareMultimodalConfig} {c : PerfMultimodalCapture}
  {live : List Resource}

private theorem closing : (perfMultimodalCapture page config).Closing where
  owned c hsources := by
    change c.sources = [] at hsources
    change c.owned = []
    rw [owned,hsources]
    rfl
  close c live h := by
    apply Method.wp_mono (wp_close h)
    rintro r _ _ ⟨rfl,rfl,rfl⟩
    exact ⟨rfl,rfl,rfl,rfl⟩

private theorem sound_enter (h : (perfMultimodalCapture page config).Sound c live) :
    Method.wp ledger (enter page config) ((perfMultimodalCapture page config).Entered c) c live := by
  refine closing.wp_enter h fun hreleased => ?_
  rw [Method.wp_bind]
  apply (preserves_listTasks _).same
  intro r
  cases r with
  | error error => exact ⟨h,fun _ _ => hreleased⟩
  | ok tids => exact closing.wp_opened (wp_openAll tids h.1)

private theorem sound_stop (h : (perfMultimodalCapture page config).Sound c live) :
    Method.wp ledger (stop page config >>= fun _ => pure ())
      (fun _ c' live' => (perfMultimodalCapture page config).Sound c' live') c live := by
  have hstopped (c' : PerfMultimodalCapture) (halike : Alike { c with stopped := true } c') :
      (perfMultimodalCapture page config).Sound c' live := by
    refine ⟨?_,fun hidle => absurd (hidle.2.symm.trans halike.stopped) (by simp)⟩
    show live.Perm c'.owned
    rw [halike.owned]
    exact h.1
  rw [Method.wp_bind,stop,Method.wp_bind,Method.wp_get,Method.follows_ok,Method.wp_bind]
  apply wp_raiseIf
  · exact fun _ => h
  · intro _
    rw [Method.follows_ok,Method.wp_bind,Method.wp_modify,Method.follows_ok,Method.wp_bind]
    apply (preserves_call .clock trivial).same
    intro r
    cases r with
    | error error => exact hstopped _ ⟨rfl,rfl⟩
    | ok stopBefore =>
      rw [Method.follows_ok,Method.wp_bind]
      apply (preserves_andFinally (preserves_collect preserves_readFinal) (alike_disarm _)).still
      intro r c₁ h₁
      cases r with
      | error error => exact hstopped c₁ h₁
      | ok finals =>
        rw [Method.follows_ok,Method.wp_bind]
        apply (preserves_call .clock trivial).same
        intro r
        cases r with
        | error error => exact hstopped c₁ h₁
        | ok stopAfter =>
          rw [Method.follows_ok,Method.wp_bind,Method.wp_get,Method.follows_ok]
          apply (preserves_collect (preserves_sourceBatch _ _)).same
          intro r
          cases r <;> exact hstopped c₁ h₁

theorem contract : (perfMultimodalCapture page config).Contract where
  initial := ⟨.nil,fun _ => rfl⟩
  enter _ _ h := sound_enter h
  stop _ _ h := sound_stop h
  close _ _ h := closing.released h.1

end PerfMultimodalCapture

inductive Operation
  | enter | stop | close
  deriving DecidableEq, Repr

namespace CaptureClass

variable {σ : Type} (C : CaptureClass σ)

def perform : Operation → Capturing σ Unit
  | .enter => C.enter
  | .stop => C.stop
  | .close => C.close

def calls (operations : List Operation) : Capturing σ Unit :=
  operations.forM fun operation => Method.attempt (C.perform operation) >>= fun _ => pure ()

/-- Some calls and a last one: the capture before the last call, and how that call ended. -/
def lastCall (operations : List Operation) (last : Operation) :
    Capturing σ (σ × Except HardwareError Unit) := do
  C.calls operations
  let before ← get
  let outcome ← Method.attempt (C.perform last)
  pure (before,outcome)

/-- A call after which nothing may be left: `close`, or an `__enter__` of a capture that was
neither running nor stopped, if it raised. -/
def Finishes (last : Operation) (before : σ) (outcome : Except HardwareError Unit) : Prop :=
  last = .close ∨ (last = .enter ∧ C.Idle before ∧ ∃ error, outcome = .error error)

variable {C}

private theorem sound_perform (hC : C.Contract) (operation : Operation) {l : σ}
    {live : List Resource} (h : C.Sound l live) :
    Method.wp ledger (C.perform operation) (fun r l' live' => C.Sound l' live' ∧
      (operation = .close → r = .ok ()) ∧ (C.Finishes operation l r → C.Released l' live'))
      l live := by
  cases operation with
  | enter =>
    apply Method.wp_mono (hC.enter l live h)
    rintro r l' live' ⟨hsound,hreleased⟩
    refine ⟨hsound,nofun,?_⟩
    rintro (hclose | ⟨-,hidle,herror⟩)
    · cases hclose
    · exact hreleased hidle herror
  | stop =>
    apply Method.wp_mono (hC.stop l live h)
    intro r l' live' hsound
    refine ⟨hsound,nofun,?_⟩
    rintro (hclose | ⟨henter,-⟩)
    · cases hclose
    · cases henter
  | close =>
    apply Method.wp_mono (hC.close l live h)
    rintro r l' live' ⟨hr,hsound,hreleased⟩
    exact ⟨hsound,fun _ => hr,fun _ => hreleased⟩

private theorem sound_lastCall (hC : C.Contract) (operations : List Operation)
    (last : Operation) :
    Method.wp ledger (C.lastCall operations last) (fun r l' live' => ∃ before outcome,
      r = .ok (before,outcome) ∧ (last = .close → outcome = .ok ()) ∧
        (C.Finishes last before outcome → C.Released l' live')) C.initial [] := by
  rw [lastCall,Method.wp_bind,calls]
  refine Method.wp_forM (fun _ l live => C.Sound l live) ?_ ?_ hC.initial
  · intro operation rest l live h
    rw [Method.wp_bind,Method.wp_attempt]
    apply Method.wp_mono (sound_perform hC operation h)
    exact fun r l' live' hr => hr.1
  · intro l live h
    rw [Method.follows_ok,Method.wp_bind,Method.wp_get,Method.follows_ok,Method.wp_bind,
      Method.wp_attempt]
    apply Method.wp_mono (sound_perform hC last h)
    rintro r l' live' ⟨-,hclose,hreleased⟩
    exact ⟨l,r,rfl,hclose,hreleased⟩

end CaptureClass

def stillOpen (log : Program.Log Call Call.Answer) : List Resource := log.foldl recorded []

/-- Every close is of something that is open. -/
def ClosesOnlyOpen (log : Program.Log Call Call.Answer) : Prop :=
  History (fun before entry => Disposable (stillOpen before) entry.1) log

private theorem disposed_of_acquired {entry : Sigma Call.Answer} {resource : Resource}
    (h : acquired entry = some resource) : disposed entry.1 = none := by
  unfold acquired at h
  split at h
  · rfl
  · rfl
  · cases h

theorem opened_perm {log : Program.Log Call Call.Answer} (h : ClosesOnlyOpen log) :
    (log.filterMap acquired).Perm (stillOpen log ++ log.filterMap (disposed ·.1)) := by
  induction log using List.reverseRecOn with
  | nil => exact .nil
  | append_singleton log entry ih =>
    obtain ⟨hlog,hentry⟩ := history_snoc.mp h
    have ih := ih hlog
    have hopen : stillOpen (log ++ [entry]) = recorded (stillOpen log) entry := by
      rw [stillOpen,List.foldl_append]
      rfl
    rw [hopen,recorded,List.filterMap_append,List.filterMap_append]
    cases hacquired : acquired entry with
    | some resource =>
      have hdisposed := disposed_of_acquired hacquired
      simp only [List.filterMap_cons,hacquired,hdisposed,List.filterMap_nil,List.append_nil]
      exact (List.perm_append_singleton resource _).trans (ih.cons resource)
    | none =>
      cases hdisposed : disposed entry.1 with
      | none => simpa [hacquired,hdisposed] using ih
      | some resource =>
        simp only [List.filterMap_cons,hacquired,hdisposed,List.filterMap_nil,List.append_nil]
        have hmem : resource ∈ stillOpen log := hentry resource hdisposed
        have herase := (List.perm_cons_erase hmem).append_right (log.filterMap (disposed ·.1))
        rw [← List.append_assoc]
        exact ih.trans (herase.trans (List.perm_append_singleton resource _).symm)

/-- In every run of calls on a capture nothing is closed that is not open, and after a call that
finishes nothing is left: every descriptor and mapping has been closed exactly once, the events
are gone and the capture is not running. -/
def CaptureClass.AllOrNothing {σ : Type} (C : CaptureClass σ)
    (oracle : Program.Log Call Call.Answer → (c : Call) → c.Answer) : Prop :=
  ∀ operations last, ∃ before outcome after log,
    ((C.lastCall operations last).run.run C.initial).run oracle [] =
      ((.ok (before,outcome),after),log) ∧
    ClosesOnlyOpen log ∧ (last = .close → outcome = .ok ()) ∧
    (C.Finishes last before outcome → C.emptied after ∧ C.running after = false ∧
      stillOpen log = [] ∧ (log.filterMap acquired).Perm (log.filterMap (disposed ·.1)))

private theorem allOrNothing_of_contract {σ : Type} {C : CaptureClass σ} (hC : C.Contract)
    (oracle : Program.Log Call Call.Answer → (c : Call) → c.Answer) : C.AllOrNothing oracle := by
  intro operations last
  obtain ⟨hguarantee,trail,htrail,before,outcome,hresult,hclose,hreleased⟩ :=
    Program.wp_run_fold oracle _ [] _ (C.sound_lastCall hC operations last)
      fun _ _ _ _ => trivial
  rw [List.nil_append] at htrail
  have hcloses : ClosesOnlyOpen trail := by
    intro before entry after hlog
    exact hguarantee before entry after (by rw [htrail,hlog,List.nil_append])
  refine ⟨before,outcome,_,trail,Prod.ext (Prod.ext hresult rfl) htrail,hcloses,hclose,?_⟩
  intro hfinishes
  obtain ⟨hemptied,hrunning,hopen⟩ := hreleased hfinishes
  have hperm := opened_perm hcloses
  rw [show stillOpen trail = [] from hopen,List.nil_append] at hperm
  exact ⟨hemptied,hrunning,hopen,hperm⟩

/-- Both kinds of capture are entered wholly or not at all, whatever the kernel answers. -/
theorem captures_allOrNothing (page : Nat) (config : HardwareConfig)
    (multimodal : HardwareMultimodalConfig)
    (oracle : Program.Log Call Call.Answer → (c : Call) → c.Answer) :
    (perfCapture page config).AllOrNothing oracle ∧
      (perfMultimodalCapture page multimodal).AllOrNothing oracle :=
  ⟨allOrNothing_of_contract PerfCapture.contract oracle,
    allOrNothing_of_contract PerfMultimodalCapture.contract oracle⟩

/-- A kernel on which the event of the first processor opens and every other one does not. -/
private def oneProcessor : Program.Log Call Call.Answer → (c : Call) → c.Answer
  | _,.eventAttribute _ => .ok ()
  | _,.listTasks _ => none
  | _,.openEvent _ _ cpu _ => if cpu = 0 then .ok 3 else .error "Operation not permitted"
  | _,.mmap .. => some 0
  | _,.packAux .. => ()
  | _,.ioctl .. => true
  | _,.eventId _ => none
  | _,.read .. => none
  | _,.contents _ => []
  | _,.clock => 0
  | _,.closeDescriptor _ => ()
  | _,.closeMapping _ => ()

private def twoProcessors : HardwareConfig where
  scope := .kernel
  signal := .cycles
  pid := 0
  cpus := [0,1]
  dataPages := 1
  auxPages := 1

private def noModality : HardwareMultimodalConfig := ⟨1,[],1,1⟩

/-- The second open fails, and the descriptor and the mapping of the first are given back. -/
theorem captures_allOrNothing_secondOpen :
    (∃ error, ((((perfCapture 4096 twoProcessors).lastCall [] .enter).run.run {}).run
      oneProcessor []).1 = (.ok ({},.error error),{})) ∧
    (perfCapture 4096 twoProcessors).AllOrNothing oneProcessor :=
  ⟨⟨_,rfl⟩,(captures_allOrNothing 4096 twoProcessors noModality oneProcessor).1⟩

end Cpu2Tensor.Hardware
