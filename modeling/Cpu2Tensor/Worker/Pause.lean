import Cpu2Tensor.Wire.Codec
import Cpu2Tensor.Worker.Kernel

/-!
# The pause of the world

The kernel worker stops the guest over QMP, has the plugin drain its trace, forwards the plugin's
request to the client, delivers the client's action and resumes the guest.  What the channels have
seen is a view of the log; the worker keeps the counts of the view in step.
-/

namespace Cpu2Tensor
open Library

/-- The text of a QMP command. -/
def commandText (name : String) (id : Nat) : Bytes :=
  textBytes ("\x7b\"execute\":\"" ++ name ++ "\",\"id\":" ++ toString id ++ "\x7d\n")

def isCommand (name : String) (bytes : Bytes) : Bool :=
  (textBytes ("\x7b\"execute\":\"" ++ name ++ "\"")).isPrefixOf bytes

abbrev isStop (bytes : Bytes) : Bool := isCommand "stop" bytes

abbrev isResume (bytes : Bytes) : Bool := isCommand "cont" bytes

/-- The frame is the plugin's request after a drain. -/
def isRequest (bytes : Bytes) : Bool :=
  match decodeHeader (bytes.take headerBytes) with
  | .ok h => h.kind == .kernelRequest
  | .error _ => false

/-- The message answers a command. -/
def QmpMessage.isResponse (message : QmpMessage) : Bool :=
  message.valid && !message.greeting && message.id.isSome

def GuestLine.isReady (line : GuestLine) : Bool := line.event == "ready"

/-- What has gone over the channels: the commands sent to QMP, the number of its answers, the
requested drains, the forwarded requests, the delivered actions and the guest's ready events. -/
structure PauseView where
  sent : List Bytes := []
  answers : Nat := 0
  drains : Nat := 0
  requests : Nat := 0
  actions : Nat := 0
  readies : Nat := 0
  deriving DecidableEq, Repr

namespace PauseView

/-- The view once a channel has taken all the bytes of a write. -/
def handed (v : PauseView) : Channel → Bytes → PauseView
  | .qmp, bytes => { v with sent := v.sent ++ [bytes] }
  | .serial, _ => { v with actions := v.actions+1 }
  | .client, bytes => if isRequest bytes then { v with requests := v.requests+1 } else v

def after (v : PauseView) : Sigma KernelAnswer → PauseView
  | ⟨.send channel bytes sent,.taken count _⟩ =>
    if sent+count = bytes.length then v.handed channel bytes else v
  | ⟨.readQmp,.ok lines⟩ => { v with answers := v.answers + lines.lines.countP QmpMessage.isResponse }
  | ⟨.readSerial,.ok lines⟩ => { v with readies := v.readies + lines.lines.countP GuestLine.isReady }
  | ⟨.requestDrain,.ok ()⟩ => { v with drains := v.drains+1 }
  | _ => v

/-- Commands are answered in the order in which they are sent. -/
def stopsAcknowledged (v : PauseView) : Nat := (v.sent.take v.answers).countP isStop

/-- The guest is stopped: the last command was a stop, and it is answered. -/
def Stopped (v : PauseView) : Prop :=
  (∃ stop, v.sent.getLast? = some stop ∧ isStop stop = true) ∧ v.sent.length ≤ v.answers

/-- At most one command is outstanding, and the counts of the protocol's steps differ by at most
one, each step following the one before. -/
structure Balanced (v : PauseView) : Prop where
  outstanding : v.sent.length ≤ v.answers+1
  actions : v.actions ≤ v.requests
  requests : v.requests ≤ v.drains
  drains : v.drains ≤ v.stopsAcknowledged
  stops : v.stopsAcknowledged ≤ v.actions+1

/-- The next action may be read and delivered: its own stop, drain and request are done, the guest
asked for it once, and it is stopped. -/
structure ReadyForAction (v : PauseView) : Prop where
  stops : v.stopsAcknowledged = v.actions+1
  drains : v.drains = v.actions+1
  requests : v.requests = v.actions+1
  readies : v.readies = v.actions+1
  stopped : v.Stopped

theorem ReadyForAction.balanced {v : PauseView} (h : v.ReadyForAction) : v.Balanced :=
  ⟨h.stopped.2.trans (Nat.le_succ _),h.requests ▸ Nat.le_succ _,(h.requests.trans h.drains.symm).le,
    (h.drains.trans h.stops.symm).le,h.stops.le⟩

end PauseView

def pauseView (log : KernelLog) : PauseView := log.foldl PauseView.after {}

/-- The calls that read action bytes from the client or write them to the guest. -/
def actionCall : KernelCall → Bool
  | .receiveAction _ | .send .serial _ _ => true
  | _ => false

/-- QEMU starts paused: the guest says nothing before the first cont is sent. -/
def PausedStart (v : PauseView) : Sigma KernelAnswer → Prop
  | ⟨.readSerial,.ok lines⟩ => lines.lines ≠ [] → ∃ command ∈ v.sent, isResume command = true
  | _ => True

def StartsPaused (log : KernelLog) : Prop :=
  ∀ before entry rest, log = before ++ entry :: rest → PausedStart (pauseView before) entry

/-- The protocol at every point of a run. -/
structure PauseProtocol (log : KernelLog) : Prop where
  balanced : ∀ before, before <+: log → (pauseView before).Balanced
  actions : ∀ before entry rest, log = before ++ entry :: rest → actionCall entry.1 = true →
    (pauseView before).ReadyForAction

theorem textBytes_append (a b : String) : textBytes (a ++ b) = textBytes a ++ textBytes b := by
  simp [textBytes]

theorem isCommand_commandText (name : String) (id : Nat) :
    isCommand name (commandText name id) = true := by
  have hquote : "\",\"id\":" = "\"" ++ ",\"id\":" := by decide
  simp only [isCommand,commandText,hquote,textBytes_append,List.append_assoc]
  simp

theorem isStop_resume (id : Nat) : isStop (commandText "cont" id) = false := by
  simp only [isStop,isCommand,commandText,textBytes_append,List.append_assoc]
  rfl

theorem isStop_capabilities (id : Nat) : isStop (commandText "qmp_capabilities" id) = false := by
  simp only [isStop,isCommand,commandText,textBytes_append,List.append_assoc]
  rfl

theorem commandText_ne_nil (name : String) (id : Nat) : commandText name id ≠ [] := by
  simp only [commandText,textBytes_append,List.append_assoc]
  simp [textBytes]

/-- The variables of the loop that carry the protocol. -/
structure Control where
  greeting : Bool
  requested : Bool
  draining : Bool
  pending : Nat
  nextId : Nat
  command : Command

def KernelState.control (k : KernelState) : Control :=
  ⟨k.greeting,k.requested,k.draining,k.pending,k.nextId,k.command⟩

/-- How the variables go with the view, when `answered` of the answers and `ready` of the ready
events are processed. -/
structure InStep (c : Control) (answered ready : Nat) (v : PauseView) : Prop where
  answered_le : answered ≤ v.answers
  ready_le : ready ≤ v.readies
  ids : c.nextId = v.sent.length+1
  idle : c.pending = 0 → answered = v.sent.length
  waiting : c.pending ≠ 0 → c.pending = v.sent.length ∧ answered+1 = v.sent.length ∧
    ∃ last, v.sent.getLast? = some last ∧ (c.command = .stop ↔ isStop last = true)
  requests : v.requests = v.actions
  stops : v.sent.countP isStop =
    v.actions + if c.draining = true ∨ (c.pending ≠ 0 ∧ c.command = .stop) then 1 else 0
  drains : v.drains = v.actions + if c.draining = true then 1 else 0
  readies : ready = v.actions + if c.requested = true then 1 else 0
  draining : c.draining = true → c.pending = 0 ∧ c.requested = true ∧
    ∃ last, v.sent.getLast? = some last ∧ isStop last = true
  stopping : c.pending ≠ 0 → c.command = .stop → c.requested = true
  greeting : c.greeting = false → v.sent = []
  unresumed : (∀ command ∈ v.sent, isResume command = false) → c.requested = false

namespace InStep

variable {c : Control} {answered ready : Nat} {v : PauseView}

private theorem stops_le (h : InStep c answered ready v) :
    v.actions + (if c.draining = true then 1 else 0) ≤ v.stopsAcknowledged := by
  have hle : (v.sent.take answered).countP isStop ≤ v.stopsAcknowledged := by
    apply List.Sublist.countP_le
    exact List.take_sublist_take_left h.answered_le
  refine le_trans ?_ hle
  by_cases hpending : c.pending = 0
  · rw [h.idle hpending,List.take_length,h.stops]
    simp [hpending]
  · obtain ⟨_,hlen,last,hlast,hstop⟩ := h.waiting hpending
    have hdraining : c.draining ≠ true := fun hd => hpending (h.draining hd).1
    have hsplit : v.sent = v.sent.take answered ++ [last] := by
      obtain ⟨before,hbefore⟩ := List.getLast?_eq_some_iff.mp hlast
      rw [hbefore] at hlen ⊢
      rw [List.take_left' (by simpa using hlen.symm)]
    have hstops := h.stops
    rw [hsplit,List.countP_append,List.countP_singleton] at hstops
    simp only [hdraining,hpending,ne_eq,not_false_eq_true,true_and] at hstops ⊢
    grind

theorem balanced (h : InStep c answered ready v) : v.Balanced := by
  have hstops : v.stopsAcknowledged ≤ v.actions+1 := by
    have hle : v.stopsAcknowledged ≤ v.sent.countP isStop :=
      List.Sublist.countP_le (List.take_sublist _ _)
    have htotal := h.stops
    split_ifs at htotal <;> omega
  have hdrains := h.drains
  refine ⟨?_,h.requests.ge,?_,?_,hstops⟩
  · have hanswered := h.answered_le
    by_cases hpending : c.pending = 0
    · have hidle := h.idle hpending
      omega
    · have hwaiting := (h.waiting hpending).2.1
      omega
  · rw [h.requests,hdrains]
    exact Nat.le_add_right _ _
  · rw [hdrains]
    exact h.stops_le

theorem readyForAction (h : InStep c v.answers v.readies v) (hdraining : c.draining = true) :
    ({ v with requests := v.requests+1 } : PauseView).ReadyForAction := by
  obtain ⟨hpending,hrequested,hlast⟩ := h.draining hdraining
  have hidle := h.idle hpending
  have hstops := h.stops
  have hdrains := h.drains
  have hreadies := h.readies
  simp only [hdraining,hrequested,true_or,if_true] at hstops hdrains hreadies
  refine ⟨?_,hdrains,by simp [h.requests],hreadies,hlast,hidle.ge⟩
  change (v.sent.take v.answers).countP isStop = _
  rw [hidle,List.take_length,hstops]

end InStep

def pauseProtocol : Protocol KernelCall KernelAnswer PauseView :=
  Program.foldProtocol PauseView.after
    (fun v q => v.Balanced ∧ (actionCall q = true → v.ReadyForAction)) PausedStart

/-- Every run of the step from the view keeps the protocol and returns with `post`. -/
structure Pauses {α : Type} (x : Worker α) (post : α → PauseView → Prop) (v : PauseView) : Prop where
  wp : Dialogue.wp pauseProtocol x post (fun _ t => t.Balanced) v

section Rules
variable {α β : Type} {v : PauseView}

theorem pauses_pure {a : α} {post : α → PauseView → Prop} (h : post a v) : Pauses (pure a) post v := ⟨h⟩

theorem pauses_throw {e : KernelEnd} {post : α → PauseView → Prop} (hb : v.Balanced) :
    Pauses (throw e) post v := ⟨hb⟩

theorem pauses_bind {x : Worker α} {f : α → Worker β} {middle : α → PauseView → Prop}
    {post : β → PauseView → Prop} (hx : Pauses x middle v)
    (hf : ∀ a t, middle a t → Pauses (f a) post t) :
    Pauses (x >>= f) post v := by
  refine ⟨(Dialogue.wp_bind x f post).mpr ?_⟩
  exact Dialogue.wp_mono hx.wp (fun a t h => (hf a t h).wp) (fun _ _ h => h)

theorem pauses_mono {x : Worker α} {post post' : α → PauseView → Prop} (hx : Pauses x post v)
    (himp : ∀ a t, post a t → post' a t) : Pauses x post' v :=
  ⟨Dialogue.wp_mono hx.wp himp (fun _ _ h => h)⟩

theorem pauses_call {q : KernelCall} {post : KernelAnswer q → PauseView → Prop} (hb : v.Balanced)
    (ha : actionCall q = true → v.ReadyForAction)
    (h : ∀ answer, PausedStart v ⟨q,answer⟩ → post answer (v.after ⟨q,answer⟩)) :
    Pauses (call q) post v := by
  refine ⟨⟨⟨hb,ha⟩,?_⟩⟩
  rintro answer t ⟨rfl,hstart⟩
  exact h answer hstart

/-- The calls that leave the view as it is and deliver no action. -/
def quietCall : KernelCall → Bool
  | .send _ _ _ | .readQmp | .readSerial | .requestDrain | .receiveAction _ => false
  | _ => true

theorem after_quiet {q : KernelCall} (hq : quietCall q = true) (answer : KernelAnswer q) :
    v.after ⟨q,answer⟩ = v := by
  cases q <;> first | rfl | cases hq

theorem pauses_quiet {q : KernelCall} (hq : quietCall q = true) (hb : v.Balanced) :
    Pauses (call q) (fun _ t => t = v) v := by
  apply pauses_call hb
  · intro ha
    cases q <;> simp_all [actionCall,quietCall]
  · intro answer _
    exact after_quiet hq answer

theorem pauses_now (site : ClockSite) (hb : v.Balanced) :
    Pauses (now site) (fun _ t => t = v) v := pauses_quiet rfl hb

theorem pauses_stopIf {bad : Prop} [Decidable bad] {message : String} (hb : v.Balanced) :
    Pauses (stopIf bad message) (fun _ t => ¬bad ∧ t = v) v := by
  unfold stopIf
  split
  · exact pauses_throw hb
  · next h => exact pauses_pure ⟨h,rfl⟩

theorem pauses_then {x : Worker α} {f : α → Worker β} {post : β → PauseView → Prop}
    (hx : Pauses x (fun _ t => t = v) v) (hf : ∀ a, Pauses (f a) post v) : Pauses (x >>= f) post v :=
  pauses_bind hx fun a _ h => h ▸ hf a

end Rules

section Writes
variable {v : PauseView}

/-- A write either hands all its bytes over or changes nothing. -/
def Written (v : PauseView) (channel : Channel) (bytes : Bytes) :
    Except String Bool → PauseView → Prop
  | .ok false, t => t = v.handed channel bytes
  | _, t => t = v

theorem sendLoop_pauses {channel : Channel} {bytes : Bytes} (hb : v.Balanced)
    (hh : (v.handed channel bytes).Balanced) (ha : channel = .serial → v.ReadyForAction)
    (deadline : Int) (fuel : Nat) {sent : Nat} (hlt : sent < bytes.length) :
    Pauses (sendLoop channel bytes deadline fuel sent) (Written v channel bytes) v := by
  induction fuel generalizing sent with
  | zero => exact pauses_throw hb
  | succ fuel ih =>
    rw [sendLoop,if_neg (by omega)]
    have hsend : Pauses (call (.send channel bytes sent)) (fun answer t =>
        t = v.after ⟨.send channel bytes sent,answer⟩) v := by
      apply pauses_call hb
      · intro hcall
        cases channel with
        | serial => exact ha rfl
        | client | qmp => cases hcall
      · exact fun _ _ => rfl
    apply pauses_bind hsend
    rintro answer t rfl
    cases answer with
    | taken count bounds =>
      simp only [PauseView.after]
      split_ifs with hall
      · -- Everything is handed over: the next pass returns.
        cases fuel with
        | zero => exact pauses_throw hh
        | succ fuel =>
          rw [sendLoop,if_pos hall.ge]
          exact pauses_pure rfl
      · exact ih (by omega)
    | interrupted => exact ih hlt
    | nothing => exact pauses_pure rfl
    | closed => exact pauses_pure rfl
    | failed => exact pauses_pure rfl
    | again =>
      apply pauses_then (pauses_now .sendRetry hb)
      intro time
      dsimp only
      split
      · exact pauses_pure rfl
      · apply pauses_then (pauses_quiet (q := .pollSend channel _) rfl hb)
        intro answer
        cases answer with
        | ready | timedOut | interrupted => exact ih hlt
        | closed | failed => exact pauses_pure rfl

theorem sendBytes_pauses (channel : Channel) {bytes : Bytes} (hb : v.Balanced)
    (hh : (v.handed channel bytes).Balanced) (ha : channel = .serial → v.ReadyForAction)
    (fuel : Nat) (hne : bytes ≠ []) (timeout : Int) :
    Pauses (sendBytes fuel channel bytes timeout) (Written v channel bytes) v := by
  apply pauses_then (pauses_now .sendStart hb)
  intro start
  exact sendLoop_pauses hb hh ha _ fuel (List.length_pos_iff.mpr hne)

theorem reportDeadline_pauses (progress : KernelTerminalProgress) (hb : v.Balanced) :
    Pauses (reportDeadline progress) (fun _ t => t = v) v := by
  unfold reportDeadline
  split
  · apply pauses_then (pauses_quiet rfl hb)
    exact fun _ => pauses_pure rfl
  · exact pauses_pure rfl

/-- A write under the deadline: what it returns for a success is what the write itself did. -/
theorem withinDeadline_pauses {α : Type} {k : KernelState} {timeout : Int}
    {write : Int → Worker (Except String α)} {after : Except String α → PauseView → Prop}
    (hb : v.Balanced) (hwrite : ∀ timeout, Pauses (write timeout) after v)
    (hafter : ∀ result t, after result t → t.Balanced) :
    Pauses (withinDeadline k timeout write) (fun result t =>
      (∀ value, result = .ok value → after result t) ∧ t.Balanced) v := by
  have hfailed : ∀ message t, t.Balanced → Pauses (pure (.error message) : Worker (Except String α))
      (fun result t => (∀ value, result = .ok value → after result t) ∧ t.Balanced) t :=
    fun _ _ ht => pauses_pure ⟨by simp,ht⟩
  unfold withinDeadline
  split
  · exact pauses_mono (hwrite timeout) fun result t h => ⟨fun _ _ => h,hafter result t h⟩
  · apply pauses_then (pauses_now .beforeSend hb)
    intro before
    dsimp only
    split
    · apply pauses_then (reportDeadline_pauses _ hb)
      exact fun _ => hfailed _ v hb
    · apply pauses_bind (hwrite _)
      intro result t h
      have ht := hafter result t h
      cases result with
      | ok value => exact pauses_pure ⟨fun _ _ => h,ht⟩
      | error message =>
        apply pauses_then (pauses_now .afterSend ht)
        intro time
        split
        · apply pauses_then (reportDeadline_pauses _ ht)
          exact fun _ => hfailed _ t ht
        · exact hfailed _ t ht

theorem sendClient_pauses {k : KernelState} {bytes : Bytes} (hb : v.Balanced)
    (hh : (v.handed .client bytes).Balanced) (fuel : Nat) (hne : bytes ≠ []) (timeout : Int) :
    Pauses (sendClient fuel k bytes timeout) (fun result t =>
      (result = .ok false → t = v.handed .client bytes) ∧ t.Balanced) v := by
  have hwrite : ∀ timeout, Pauses (sendBytes fuel .client bytes timeout)
      (Written v .client bytes) v :=
    fun timeout => sendBytes_pauses .client hb hh (by simp) fuel hne timeout
  apply pauses_mono (withinDeadline_pauses hb hwrite ?_)
  · rintro result t ⟨hok,ht⟩
    refine ⟨fun hr => ?_,ht⟩
    have hwritten := hok false hr
    rw [hr] at hwritten
    exact hwritten
  · intro result t ht
    cases result with
    | error message => exact ht ▸ hb
    | ok closed => cases closed <;> exact ht ▸ (by assumption)

theorem forward_pauses {k : KernelState} {bytes : Bytes} (hb : v.Balanced)
    (hh : (v.handed .client bytes).Balanced) (fuel : Nat) (hne : bytes ≠ []) (timeout : Int) :
    Pauses (forward fuel k bytes timeout) (fun _ t => t = v.handed .client bytes) v := by
  apply pauses_bind (sendClient_pauses hb hh fuel hne timeout)
  rintro result t ⟨hok,ht⟩
  cases result with
  | error message => exact pauses_throw ht
  | ok closed =>
    cases closed with
    | true => exact pauses_throw ht
    | false => exact pauses_pure (hok rfl)

theorem sendQmp_pauses {o : KernelOptions} {k : KernelState} {name : String} {id : Nat}
    (hb : v.Balanced) (hh : (v.handed .qmp (commandText name id)).Balanced) (fuel : Nat) :
    Pauses (sendQmp fuel o k name id) (fun result t =>
      (result = .ok () → t = v.handed .qmp (commandText name id)) ∧ t.Balanced) v := by
  have hwrite : ∀ timeout, Pauses (qmpCommand fuel name id timeout) (fun result t =>
      (result = .ok () → t = v.handed .qmp (commandText name id)) ∧ t.Balanced) v := by
    intro timeout
    apply pauses_bind
      (sendBytes_pauses .qmp hb hh (by simp) fuel (commandText_ne_nil name id) timeout)
    intro result t ht
    cases result with
    | error message => exact pauses_pure ⟨by simp,ht ▸ hb⟩
    | ok closed =>
      cases closed with
      | true => exact pauses_pure ⟨by simp,ht ▸ hb⟩
      | false => exact pauses_pure ⟨fun _ => ht,ht ▸ hh⟩
  apply pauses_mono (withinDeadline_pauses hb hwrite fun _ _ h => h.2)
  rintro result t ⟨hok,ht⟩
  exact ⟨fun hr => (hok () hr).1 hr,ht⟩

theorem issue_pauses {o : KernelOptions} {k : KernelState} {command : Command} {name : String}
    (hb : v.Balanced) (hh : (v.handed .qmp (commandText name k.nextId)).Balanced) (fuel : Nat) :
    Pauses (issue fuel o k command name) (fun after t =>
      t = v.handed .qmp (commandText name k.nextId) ∧
        after.control =
          { k.control with pending := k.nextId, nextId := k.nextId+1, command }) v := by
  apply pauses_then (pauses_now .control hb)
  intro time
  apply pauses_bind (sendQmp_pauses hb hh fuel)
  rintro result t ⟨hok,ht⟩
  cases result with
  | error message => exact pauses_throw ht
  | ok value => exact pauses_pure ⟨hok rfl,rfl⟩

end Writes

namespace InStep

variable {c : Control} {answered ready : Nat} {v : PauseView}

theorem greeted_of_pending (h : InStep c answered ready v) (hpending : c.pending ≠ 0) :
    c.greeting = true ∧ c.draining = false := by
  constructor
  · by_contra hgreeting
    have hlen := (h.waiting hpending).2.1
    simp [h.greeting (by simpa using hgreeting)] at hlen
  · by_contra hd
    exact hpending (h.draining (by simpa using hd)).1

theorem issue (h : InStep c answered ready v) (hpending : c.pending = 0)
    (hdraining : c.draining = false) (hgreeting : c.greeting = true) (command : Command)
    (bytes : Bytes) (hstop : command = .stop ↔ isStop bytes = true)
    (hrequested : command = .stop → c.requested = true) :
    InStep { c with pending := c.nextId, nextId := c.nextId+1, command } answered ready
      (v.handed .qmp bytes) := by
  have hids := h.ids
  have hidle := h.idle hpending
  have hstops := h.stops
  simp only [hdraining,hpending,ne_eq,not_true_eq_false,false_and,or_false,Bool.false_eq_true,
    if_false] at hstops
  constructor <;> simp only [PauseView.handed]
  case answered_le => exact h.answered_le
  case ready_le => exact h.ready_le
  case ids => simp [hids]
  case idle => omega
  case waiting =>
    intro _
    exact ⟨by simp [hids],by simp [hidle],bytes,by simp,hstop⟩
  case requests => exact h.requests
  case stops =>
    have hne : c.nextId ≠ 0 := by omega
    rw [List.countP_append,List.countP_singleton,hstops]
    simp only [hdraining,hne,Bool.false_eq_true,false_or,ne_eq,not_false_eq_true,true_and,hstop]
    rfl
  case drains => exact h.drains
  case readies => exact h.readies
  case draining => simp [hdraining]
  case stopping => exact fun _ => hrequested
  case greeting => simp [hgreeting]
  case unresumed =>
    intro hnone
    exact h.unresumed fun other hother => hnone other (List.mem_append_left _ hother)

theorem completed (h : InStep c answered ready v) (hpending : c.pending ≠ 0)
    (hcommand : c.command ≠ .stop) (hmore : answered+1 ≤ v.answers) :
    InStep { c with command := .none, pending := 0 } (answered+1) ready v := by
  have hdraining := (h.greeted_of_pending hpending).2
  have hstops := h.stops
  simp only [hcommand,and_false,or_false] at hstops
  constructor
  case answered_le => exact hmore
  case ready_le => exact h.ready_le
  case ids => exact h.ids
  case idle => exact fun _ => (h.waiting hpending).2.1
  case waiting => simp
  case requests => exact h.requests
  case stops => simpa using hstops
  case drains => exact h.drains
  case readies => exact h.readies
  case draining => simp [hdraining]
  case stopping => simp
  case greeting => exact h.greeting
  case unresumed => exact h.unresumed

theorem stopped (h : InStep c answered ready v) (hpending : c.pending ≠ 0)
    (hcommand : c.command = .stop) (hmore : answered+1 ≤ v.answers) :
    InStep { c with command := .none, pending := 0, draining := true } (answered+1) ready
      { v with drains := v.drains+1 } := by
  have hdraining := (h.greeted_of_pending hpending).2
  obtain ⟨_,hlen,last,hlast,hstop⟩ := h.waiting hpending
  have hstops := h.stops
  have hdrains := h.drains
  simp only [hpending,hcommand,ne_eq,not_false_eq_true,true_and,or_true,if_true] at hstops
  simp only [hdraining,Bool.false_eq_true,if_false] at hdrains
  constructor
  case answered_le => exact hmore
  case ready_le => exact h.ready_le
  case ids => exact h.ids
  case idle => exact fun _ => hlen
  case waiting => simp
  case requests => exact h.requests
  case stops => simpa using hstops
  case drains => simp [hdrains]
  case readies => exact h.readies
  case draining => exact fun _ => ⟨rfl,h.stopping hpending hcommand,last,hlast,hstop.mp hcommand⟩
  case stopping => simp
  case greeting => exact h.greeting
  case unresumed => exact h.unresumed

theorem delivered (h : InStep c answered ready v) (hdraining : c.draining = true) :
    InStep { c with draining := false, requested := false } answered ready
      { v with requests := v.requests+1, actions := v.actions+1 } := by
  obtain ⟨hpending,hrequested,_⟩ := h.draining hdraining
  have hstops := h.stops
  have hdrains := h.drains
  have hreadies := h.readies
  simp only [hdraining,hrequested,true_or,if_true] at hstops hdrains hreadies
  constructor
  case answered_le => exact h.answered_le
  case ready_le => exact h.ready_le
  case ids => exact h.ids
  case idle => exact h.idle
  case waiting => exact fun hne => absurd hpending hne
  case requests => simp [h.requests]
  case stops => simp [hstops,hpending]
  case drains => simp [hdrains]
  case readies => simp [hreadies]
  case draining => simp
  case stopping => exact fun hne => absurd hpending hne
  case greeting => exact h.greeting
  case unresumed => simp

theorem requested (h : InStep c answered ready v) (hrequested : c.requested = false)
    (hmore : ready+1 ≤ v.readies) (hresumed : ∃ command ∈ v.sent, isResume command = true) :
    InStep { c with requested := true } answered (ready+1) v := by
  have hreadies := h.readies
  simp only [hrequested,Bool.false_eq_true,if_false] at hreadies
  constructor
  case answered_le => exact h.answered_le
  case ready_le => exact hmore
  case ids => exact h.ids
  case idle => exact h.idle
  case waiting => exact h.waiting
  case requests => exact h.requests
  case stops => exact h.stops
  case drains => exact h.drains
  case readies => simp [hreadies]
  case draining => exact fun hd => ⟨(h.draining hd).1,rfl,(h.draining hd).2.2⟩
  case stopping => exact fun _ _ => rfl
  case greeting => exact h.greeting
  case unresumed =>
    intro hnone
    obtain ⟨command,hmem,hresume⟩ := hresumed
    simp [hnone command hmem] at hresume

theorem greeted_of_draining (h : InStep c answered ready v) (hdraining : c.draining = true) :
    c.greeting = true := by
  by_contra hgreeting
  obtain ⟨_,_,last,hlast,_⟩ := h.draining hdraining
  simp [h.greeting (by simpa using hgreeting)] at hlast

theorem more (h : InStep c answered ready v) (answers readies : Nat) :
    InStep c answered ready
      { v with answers := v.answers+answers, readies := v.readies+readies } :=
  ⟨h.answered_le.trans (Nat.le_add_right _ _),h.ready_le.trans (Nat.le_add_right _ _),h.ids,h.idle,
    h.waiting,h.requests,h.stops,h.drains,h.readies,h.draining,h.stopping,h.greeting,h.unresumed⟩

theorem greeted (h : InStep c answered ready v) (hgreeting : c.greeting = false) :
    c.pending = 0 ∧ c.draining = false ∧ InStep { c with greeting := true } answered ready v := by
  have hsent := h.greeting hgreeting
  refine ⟨?_,?_,h.answered_le,h.ready_le,h.ids,h.idle,h.waiting,h.requests,h.stops,h.drains,
    h.readies,h.draining,h.stopping,by simp,h.unresumed⟩
  · by_contra hpending
    have hlen := (h.waiting hpending).2.1
    simp [hsent] at hlen
  · by_contra hd
    obtain ⟨_,_,last,hlast,_⟩ := h.draining (by simpa using hd)
    simp [hsent] at hlast

end InStep

section Steps
variable {o : KernelOptions} {fuel : Nat} {v : PauseView}

theorem issue_inStep {k : KernelState} {answered ready : Nat}
    (h : InStep k.control answered ready v) (hpending : k.pending = 0)
    (hdraining : k.draining = false) (hgreeting : k.greeting = true) (command : Command)
    (name : String) (hstop : command = .stop ↔ isStop (commandText name k.nextId) = true)
    (hrequested : command = .stop → k.requested = true) :
    Pauses (issue fuel o k command name) (fun after t =>
      InStep after.control answered ready t ∧ t.answers = v.answers ∧ t.readies = v.readies) v := by
  have hissued := h.issue hpending hdraining hgreeting command _ hstop hrequested
  apply pauses_mono (issue_pauses h.balanced hissued.balanced fuel)
  rintro after t ⟨rfl,hcontrol⟩
  rw [hcontrol]
  exact ⟨hissued,rfl,rfl⟩

theorem actionLoop_pauses (hb : v.Balanced) (hr : v.ReadyForAction) (deadline : Int) (fuel : Nat)
    (bytes : Bytes) (needed : Nat) :
    Pauses (actionLoop deadline fuel bytes needed)
      (fun result t => result ≠ .error (.ok false) ∧ t = v) v := by
  induction fuel generalizing bytes needed with
  | zero => exact pauses_throw hb
  | succ fuel ih =>
    rw [actionLoop]
    split
    · exact pauses_pure ⟨by simp,rfl⟩
    · apply pauses_then (pauses_now .action hb)
      intro time
      dsimp only
      split
      · exact pauses_pure ⟨by simp,rfl⟩
      · apply pauses_then (pauses_quiet (q := .pollAction _) rfl hb)
        intro polled
        cases polled with
        | interrupted => exact ih bytes needed
        | timedOut | closed | failed => exact pauses_pure ⟨by simp,rfl⟩
        | ready =>
          have hreceive : Pauses (call (.receiveAction (needed-bytes.length))) (fun _ t => t = v) v :=
            pauses_call hb (fun _ => hr) fun _ _ => rfl
          apply pauses_then hreceive
          intro answer
          cases answer with
          | finished | closed | failed => exact pauses_pure ⟨by simp,rfl⟩
          | interrupted => exact ih bytes needed
          | data more bounds =>
            dsimp only
            split
            · split
              · exact pauses_pure ⟨by simp,rfl⟩
              · exact ih _ _
            · exact ih _ _

theorem action_pauses (hb : v.Balanced) (hr : v.ReadyForAction)
    (hh : ({ v with actions := v.actions+1 } : PauseView).Balanced) (timeout : Int) :
    Pauses (action fuel timeout) (fun result t =>
      (result = .ok false → t = { v with actions := v.actions+1 }) ∧ t.Balanced) v := by
  apply pauses_then (pauses_now .action hb)
  intro begun
  apply pauses_bind (actionLoop_pauses hb hr _ fuel [] 4)
  rintro result _ ⟨hresult,rfl⟩
  cases result with
  | error result => exact pauses_pure ⟨fun hfalse => absurd (congrArg _ hfalse) hresult,hb⟩
  | ok bytes =>
    dsimp only
    split
    · exact pauses_pure ⟨by simp,hb⟩
    · next hnewline =>
      split
      · exact pauses_pure ⟨by simp,hb⟩
      · have hne : bytes.drop 4 ≠ [] := by
          intro hnil
          simp [hnil] at hnewline
        apply pauses_bind (sendBytes_pauses .serial hb hh (fun _ => hr) fuel hne timeout)
        intro result t ht
        cases result with
        | error message => exact pauses_pure ⟨by simp,ht ▸ hb⟩
        | ok closed =>
          cases closed with
          | true => exact pauses_pure ⟨by simp,ht ▸ hb⟩
          | false => exact pauses_pure ⟨fun _ => ht,ht ▸ hh⟩

/-- The variables and the view agree, with everything processed that was read. -/
def Aligned (k : KernelState) (v : PauseView) : Prop := InStep k.control v.answers v.readies v

theorem restartDeadline_pauses {k : KernelState} (hb : v.Balanced) :
    Pauses (restartDeadline o k) (fun after t => after.control = k.control ∧ t = v) v := by
  apply pauses_then (pauses_now .control hb)
  exact fun _ => pauses_pure ⟨rfl,rfl⟩

theorem answerRequest_pauses {k : KernelState} (h : Aligned k v) (hdraining : k.draining = true) :
    Pauses (answerRequest fuel o k) Aligned { v with requests := v.requests+1 } := by
  have hdelivered := h.delivered hdraining
  have hready := h.readyForAction hdraining
  have hgreeting : k.greeting = true := h.greeted_of_draining hdraining
  apply pauses_bind (action_pauses hready.balanced hready hdelivered.balanced o.timeoutMs)
  rintro result t ⟨hok,ht⟩
  cases result with
  | error message => exact pauses_throw ht
  | ok closed =>
    cases closed with
    | true => exact pauses_throw ht
    | false =>
      obtain rfl := hok rfl
      apply pauses_bind (issue_inStep hdelivered (h.draining hdraining).1 rfl hgreeting .resume
        "cont" (by simp [isStop_resume]) (by simp) (k := { k with draining := false, requested := false }))
      rintro after t ⟨hafter,hanswers,hreadies⟩
      apply pauses_mono (restartDeadline_pauses hafter.balanced)
      rintro last t ⟨hlast,rfl⟩
      unfold Aligned
      rw [hlast,hanswers,hreadies]
      exact hafter

theorem pauses_onlyIf {condition : Prop} [Decidable condition]
    {step : KernelState → Worker KernelState} {k : KernelState}
    {post : KernelState → PauseView → Prop} (hstep : condition → Pauses (step k) post v)
    (hkeep : ¬condition → post k v) :
    Pauses (onlyIf condition step k) post v := by
  unfold onlyIf
  split
  · next h => exact hstep h
  · next h => exact pauses_pure (hkeep h)

theorem handed_client {h : Header} {bytes : Bytes}
    (hd : decodeHeader (bytes.take headerBytes) = .ok h) :
    v.handed .client bytes =
      if h.kind = .kernelRequest then { v with requests := v.requests+1 } else v := by
  simp [PauseView.handed,isRequest,hd]

theorem forwardFrame_pauses {k : KernelState} (h : Aligned k v) {hd : Header}
    (hdecode : decodeHeader (k.frame.take headerBytes) = .ok hd) (remaining : Int) :
    Pauses (forwardFrame fuel o remaining k hd) Aligned v := by
  have hne : k.frame ≠ [] := by
    intro hnil
    rw [hnil] at hdecode
    cases hdecode
  have hhanded := handed_client (v := v) hdecode
  apply pauses_bind (pauses_stopIf h.balanced)
  rintro _ t ⟨hseal,rfl⟩
  split
  · next herror =>
    rw [if_neg (by simp [herror])] at hhanded
    apply pauses_bind (sendClient_pauses h.balanced (by rw [hhanded]; exact h.balanced) fuel hne
      remaining)
    rintro _ t ⟨_,ht⟩
    exact pauses_throw ht
  · by_cases hrequest : hd.kind = .kernelRequest
    · have hdraining : k.draining = true := by
        by_contra hnot
        exact hseal ⟨hrequest,.inr (by simpa using hnot)⟩
      rw [if_pos hrequest] at hhanded
      have hready := h.readyForAction hdraining
      apply pauses_bind (forward_pauses h.balanced (by rw [hhanded]; exact hready.balanced) fuel hne
        remaining)
      rintro _ t rfl
      rw [if_pos hrequest,hhanded]
      exact answerRequest_pauses (k := { k with progress := k.progress.after hd }) h hdraining
    · rw [if_neg hrequest] at hhanded
      apply pauses_bind (forward_pauses h.balanced (by rw [hhanded]; exact h.balanced) fuel hne
        remaining)
      rintro _ t rfl
      rw [if_neg hrequest,hhanded]
      exact pauses_pure h

theorem validate_pauses {k : KernelState} {hd : Header} (hb : v.Balanced) :
    Pauses (validate k hd) (fun after t =>
      (after.control = k.control ∧ after.frame = k.frame) ∧ t = v) v := by
  unfold validate
  split
  · exact pauses_pure ⟨⟨rfl,rfl⟩,rfl⟩
  · exact pauses_throw hb
  · exact pauses_throw hb

theorem negotiate_pauses {k : KernelState} {hd : Header} (hb : v.Balanced) :
    Pauses (negotiate o k hd) (fun after t =>
      (after.control = k.control ∧ after.frame = k.frame) ∧ t = v) v := by
  unfold negotiate
  split
  · exact pauses_pure ⟨⟨rfl,rfl⟩,rfl⟩
  · split
    · exact pauses_throw hb
    · exact pauses_pure ⟨⟨rfl,rfl⟩,rfl⟩

theorem Aligned.congr {k after : KernelState} (h : Aligned k v) (hc : after.control = k.control) :
    Aligned after v := by
  unfold Aligned
  rw [hc]
  exact h

theorem frameReady_pauses {k : KernelState} (h : Aligned k v) (remaining : Int) :
    Pauses (frameReady fuel o remaining k) Aligned v := by
  apply pauses_bind (pauses_stopIf h.balanced)
  rintro _ t ⟨_,rfl⟩
  split
  · exact pauses_throw h.balanced
  · next hd hdecode =>
    apply pauses_bind (validate_pauses h.balanced)
    rintro k₁ t ⟨⟨hc₁,hf₁⟩,rfl⟩
    apply pauses_bind (negotiate_pauses h.balanced)
    rintro k₂ t ⟨⟨hc₂,hf₂⟩,rfl⟩
    have h₂ : Aligned k₂ t := h.congr (hc₂.trans hc₁)
    have hkeep : Pauses (keepOrForward fuel o remaining k₂ hd) Aligned t := by
      unfold keepOrForward
      split
      · exact pauses_pure h₂
      · exact forwardFrame_pauses h₂ (by rw [hf₂,hf₁]; exact hdecode) remaining
    apply pauses_bind hkeep
    intro k₃ t h₃
    exact pauses_pure h₃

theorem readTrace_pauses {k : KernelState} (hb : v.Balanced) :
    Pauses (readTrace o k) (fun after t => after.control = k.control ∧ t = v) v := by
  apply pauses_then (pauses_quiet (q := .readTrace _) rfl hb)
  intro answer
  cases answer with
  | data bytes bounds => exact restartDeadline_pauses hb
  | finished | interrupted => exact pauses_pure ⟨rfl,rfl⟩
  | closed | failed => exact pauses_throw hb

theorem completeHeader_pauses {k : KernelState} (hb : v.Balanced) :
    Pauses (completeHeader k) (fun after t => after.control = k.control ∧ t = v) v := by
  unfold completeHeader
  split
  · split
    · exact pauses_throw hb
    · exact pauses_pure ⟨rfl,rfl⟩
  · exact pauses_pure ⟨rfl,rfl⟩

theorem traceReady_pauses {k : KernelState} (h : Aligned k v) (remaining : Int) :
    Pauses (traceReady fuel o remaining k) Aligned v := by
  apply pauses_bind (readTrace_pauses h.balanced)
  rintro k₁ t ⟨hc₁,rfl⟩
  apply pauses_bind (completeHeader_pauses h.balanced)
  rintro k₂ t ⟨hc₂,rfl⟩
  have h₂ : Aligned k₂ t := h.congr (hc₂.trans hc₁)
  apply pauses_bind (pauses_onlyIf (fun _ => frameReady_pauses h₂ remaining) fun _ => h₂)
  intro k₃ t h₃
  apply pauses_bind (pauses_stopIf h₃.balanced)
  rintro _ t ⟨_,rfl⟩
  exact pauses_pure h₃

theorem commandCompleted_pauses {k : KernelState} {answered : Nat}
    (h : InStep k.control answered v.readies v) (hpending : k.pending ≠ 0)
    (hmore : answered+1 ≤ v.answers) :
    Pauses (commandCompleted fuel o k.command { k with command := .none, pending := 0 })
      (fun after t => InStep after.control (answered+1) t.readies t ∧ t.answers = v.answers) v := by
  by_cases hstop : k.command = .stop
  · rw [hstop]
    have hstopped := h.stopped hpending hstop hmore
    have hdrain : Pauses (call .requestDrain) (fun answer t =>
        (answer = .ok () → t = { v with drains := v.drains+1 }) ∧ t.Balanced) v := by
      apply pauses_call h.balanced (by simp [actionCall])
      intro (answer : Except String Unit) _
      cases answer with
      | error message => exact ⟨by simp,h.balanced⟩
      | ok value => exact ⟨fun _ => rfl,hstopped.balanced⟩
    apply pauses_bind hdrain
    rintro answer t ⟨hok,ht⟩
    cases answer with
    | error message => exact pauses_throw ht
    | ok value =>
      obtain rfl := hok rfl
      exact pauses_pure ⟨hstopped,rfl⟩
  · have hcompleted := h.completed hpending hstop hmore
    obtain ⟨hgreeting,hdraining⟩ := h.greeted_of_pending hpending
    match hcommand : k.command with
    | .none => exact pauses_pure ⟨hcompleted,rfl⟩
    | .resume => exact pauses_pure ⟨hcompleted,rfl⟩
    | .stop => exact absurd hcommand hstop
    | .capabilities =>
      apply pauses_mono (issue_inStep hcompleted rfl hdraining hgreeting .resume "cont"
        (by simp [isStop_resume]) (by simp) (k := { k with command := .none, pending := 0 }))
      rintro after t ⟨hafter,hanswers,hreadies⟩
      exact ⟨hreadies ▸ hafter,hanswers⟩

theorem qmpMessage_pauses {k : KernelState} {answered : Nat} {message : QmpMessage}
    (h : InStep k.control answered v.readies v)
    (hmore : answered + (if message.isResponse = true then 1 else 0) ≤ v.answers) :
    Pauses (qmpMessage fuel o k message) (fun after t =>
      InStep after.control (answered + if message.isResponse = true then 1 else 0) t.readies t ∧
        t.answers = v.answers) v := by
  apply pauses_bind (pauses_stopIf h.balanced)
  rintro _ t ⟨hvalid,rfl⟩
  split
  · next hgreeting =>
    apply pauses_bind (pauses_stopIf h.balanced)
    rintro _ t ⟨hfirst,rfl⟩
    obtain ⟨hpending,hdraining,hgreeted⟩ := h.greeted (Bool.eq_false_iff.mpr hfirst)
    apply pauses_mono (issue_inStep hgreeted hpending hdraining rfl .capabilities
      "qmp_capabilities" (by simp [isStop_capabilities]) (by simp) (k := { k with greeting := true }))
    rintro after t ⟨hafter,hanswers,hreadies⟩
    simpa [QmpMessage.isResponse,hgreeting,hreadies,hanswers] using hafter
  · next hgreeting =>
    split
    · next hid =>
      have hresponse : message.isResponse = true := by
        simp [QmpMessage.isResponse,hgreeting,hid,hvalid]
      rw [if_pos hresponse] at hmore ⊢
      apply pauses_bind (pauses_stopIf h.balanced)
      rintro _ t ⟨hexpected,rfl⟩
      exact commandCompleted_pauses h (fun hpending => hexpected (.inr (.inl hpending))) hmore
    · next hid =>
      have hresponse : message.isResponse = false := by
        simp [QmpMessage.isResponse,hid]
      simp only [hresponse,Bool.false_eq_true,if_false,add_zero]
      split
      · exact pauses_throw h.balanced
      · exact pauses_pure ⟨h,rfl⟩

theorem qmpMessages_pauses (messages : List QmpMessage) {k : KernelState} {answered : Nat}
    (h : InStep k.control answered v.readies v)
    (hmore : answered + messages.countP QmpMessage.isResponse = v.answers) :
    Pauses (qmpMessages fuel o messages k) Aligned v := by
  induction messages generalizing k answered v with
  | nil =>
    obtain rfl : answered = v.answers := by simpa using hmore
    exact pauses_pure h
  | cons message messages ih =>
    rw [List.countP_cons] at hmore
    apply pauses_bind (qmpMessage_pauses h (by omega))
    rintro k₁ t ⟨h₁,hanswers⟩
    apply pauses_bind (restartDeadline_pauses h₁.balanced)
    rintro k₂ t ⟨hc,rfl⟩
    exact ih (hc ▸ h₁) (by omega)

theorem qmpReady_pauses {k : KernelState} (h : Aligned k v) : Pauses (qmpReady fuel o k) Aligned v := by
  have hread : Pauses (call .readQmp) (fun answer t =>
      t = v.after ⟨.readQmp,answer⟩) v :=
    pauses_call h.balanced (by simp [actionCall]) fun _ _ => rfl
  apply pauses_bind hread
  rintro answer t rfl
  cases answer with
  | error message => exact pauses_throw h.balanced
  | ok lines =>
    exact qmpMessages_pauses lines.lines (h.more _ 0) (k := { k with qmpEof := lines.eof }) rfl

theorem guestEvent_pauses {k : KernelState} {ready : Nat} {line : GuestLine}
    (h : InStep k.control v.answers ready v)
    (hmore : ready + (if line.isReady = true then 1 else 0) ≤ v.readies)
    (hresumed : ∃ command ∈ v.sent, isResume command = true) :
    Pauses (guestEvent o k line) (fun after t =>
      InStep after.control v.answers (ready + if line.isReady = true then 1 else 0) v ∧ t = v) v := by
  unfold guestEvent
  by_cases hready : line.event = "ready"
  · have hisReady : line.isReady = true := by simp [GuestLine.isReady,hready]
    rw [if_pos hisReady] at hmore ⊢
    rw [if_neg (by rw [hready]; decide),if_pos hready]
    split
    · exact pauses_throw h.balanced
    · next hexpected =>
      have hrequested : k.requested = false := by
        by_contra hr
        exact hexpected (.inr (.inr (.inl (by simpa using hr))))
      exact pauses_pure ⟨h.requested hrequested hmore hresumed,rfl⟩
  · have hisReady : line.isReady = false := by simp [GuestLine.isReady,hready]
    have hkeep : ∀ after : KernelState, after.control = k.control → Pauses (pure after)
        (fun after t => InStep after.control v.answers ready v ∧ t = v) v :=
      fun after hc => pauses_pure ⟨hc ▸ h,rfl⟩
    simp only [hisReady,Bool.false_eq_true,if_false,add_zero]
    rw [if_neg hready]
    split_ifs
    all_goals first | exact pauses_throw h.balanced | exact hkeep _ rfl

theorem handed_encoded {h : Header} (hkind : h.kind ≠ .kernelRequest) (payload : Bytes) :
    v.handed .client (encodeHeader h ++ payload) = v := by
  have htake : (encodeHeader h ++ payload).take headerBytes = encodeHeader h := by
    rw [List.take_left' (encodeHeader_length h)]
  have hother : isRequest (encodeHeader h ++ payload) = false := by
    rw [isRequest,htake,decodeHeader_encodeHeader]
    cases headerFault h with
    | none => simp [hkind]
    | some message => rfl
  simp [PauseView.handed,hother]

theorem forwardEvent_pauses {k : KernelState} {line : GuestLine} (hb : v.Balanced) :
    Pauses (forwardEvent fuel o k line) (fun _ t => t = v) v := by
  have hhanded : v.handed .client (encodeHeader (guestEventHeader line.jsonSize) ++
      line.payload.take line.jsonSize) = v := handed_encoded (by simp [guestEventHeader]) _
  unfold forwardEvent
  split
  · apply pauses_mono (forward_pauses hb (hhanded.symm ▸ hb) fuel (by simp [encodeHeader,store]) _)
    rintro _ t rfl
    exact hhanded
  · exact pauses_pure rfl

theorem serialLine_pauses {k : KernelState} {ready : Nat} {line : GuestLine}
    (h : InStep k.control v.answers ready v)
    (hmore : ready + (if line.isReady = true then 1 else 0) ≤ v.readies)
    (hresumed : ∃ command ∈ v.sent, isResume command = true) :
    Pauses (serialLine fuel o k line) (fun after t =>
      InStep after.control v.answers (ready + if line.isReady = true then 1 else 0) v ∧ t = v) v := by
  have hstop : ∀ (bad : Prop) [Decidable bad] (message : String),
      Pauses (stopIf bad message) (fun _ t => t = v) v :=
    fun _ _ _ => pauses_mono (pauses_stopIf h.balanced) fun _ _ ht => ht.2
  apply pauses_then (hstop _ _)
  intro _
  apply pauses_then (hstop _ _)
  intro _
  apply pauses_then (hstop _ _)
  intro _
  apply pauses_then (hstop _ _)
  intro _
  apply pauses_then (hstop _ _)
  intro _
  apply pauses_bind (guestEvent_pauses h hmore hresumed)
  rintro k₁ t ⟨h₁,rfl⟩
  apply pauses_then (forwardEvent_pauses h.balanced)
  intro _
  apply pauses_mono (restartDeadline_pauses h.balanced)
  rintro k₂ t ⟨hc,rfl⟩
  exact ⟨hc ▸ h₁,rfl⟩

theorem serialLines_pauses (lines : List GuestLine) {k : KernelState} {ready : Nat}
    (h : InStep k.control v.answers ready v)
    (hmore : ready + lines.countP GuestLine.isReady = v.readies)
    (hresumed : lines ≠ [] → ∃ command ∈ v.sent, isResume command = true) :
    Pauses (serialLines fuel o lines k) Aligned v := by
  induction lines generalizing k ready with
  | nil =>
    obtain rfl : ready = v.readies := by simpa using hmore
    exact pauses_pure h
  | cons line lines ih =>
    rw [List.countP_cons] at hmore
    apply pauses_bind (serialLine_pauses h (by omega) (hresumed (by simp)))
    rintro k₁ t ⟨h₁,rfl⟩
    exact ih h₁ (by omega) fun _ => hresumed (by simp)

theorem serialReady_pauses {k : KernelState} (h : Aligned k v) :
    Pauses (serialReady fuel o k) Aligned v := by
  have hread : Pauses (call .readSerial) (fun answer t =>
      PausedStart v ⟨.readSerial,answer⟩ ∧ t = v.after ⟨.readSerial,answer⟩) v :=
    pauses_call h.balanced (by simp [actionCall]) fun _ hstart => ⟨hstart,rfl⟩
  apply pauses_bind hread
  rintro answer t ⟨hstart,rfl⟩
  cases answer with
  | error message => exact pauses_throw h.balanced
  | ok lines =>
    exact serialLines_pauses lines.lines (h.more 0 _) rfl hstart
      (k := { k with serialEof := lines.eof, serialUnterminated := lines.unterminated })

/-- The first passes of `kernelLoop`. -/
def kernelPasses (fuel : Nat) (o : KernelOptions) : Nat → KernelState → Worker KernelState
  | 0, k => return k
  | passes+1, k => do
    let k ← kernelPass fuel o k
    kernelPasses fuel o passes k

theorem consoleReady_pauses {k : KernelState} (h : Aligned k v) : Pauses (consoleReady k) Aligned v := by
  apply pauses_then (pauses_quiet (q := .readConsole) rfl h.balanced)
  intro answer
  cases answer with
  | data bytes bounds => exact pauses_pure h
  | interrupted | finished => exact pauses_pure h
  | closed | failed => exact pauses_throw h.balanced

theorem requestStop_pauses {k : KernelState} (h : Aligned k v) :
    Pauses (requestStop fuel o k) Aligned v := by
  unfold requestStop
  split
  · next hask =>
    obtain ⟨_,hrequested,hpending,hdraining⟩ := hask
    have hgreeting : k.greeting = true := by
      by_contra hg
      have hsent := h.greeting (Bool.eq_false_iff.mpr hg)
      have hunrequested : k.requested = false := h.unresumed (by simp [hsent])
      simp [hunrequested] at hrequested
    apply pauses_mono (issue_inStep h hpending hdraining hgreeting .stop "stop"
      (by simp [isStop,isCommand_commandText]) fun _ => hrequested)
    rintro after t ⟨hafter,hanswers,hreadies⟩
    unfold Aligned
    rw [hanswers,hreadies]
    exact hafter
  · exact pauses_pure h

theorem reapChild_pauses {k : KernelState} (h : Aligned k v) : Pauses (reapChild k) Aligned v := by
  unfold reapChild
  split
  · exact pauses_pure h
  · apply pauses_then (pauses_quiet (q := .waitChild) rfl h.balanced)
    intro answer
    cases answer with
    | ended status => exact pauses_pure h
    | running | interrupted => exact pauses_pure h
    | failed => exact pauses_throw h.balanced

theorem finishRun_pauses {k : KernelState} (hb : v.Balanced) (remaining : Int)
    {post : Unit → PauseView → Prop} :
    Pauses (finishRun fuel remaining k) post v := by
  have hhanded : v.handed .client (encodeHeader { kind := .complete } ++ []) = v :=
    handed_encoded (by decide) _
  rw [List.append_nil] at hhanded
  apply pauses_bind (pauses_stopIf hb)
  rintro _ t ⟨_,rfl⟩
  apply pauses_bind (pauses_stopIf hb)
  rintro _ t ⟨_,rfl⟩
  apply pauses_bind (forward_pauses hb (hhanded.symm ▸ hb) fuel (by decide +kernel) remaining)
  rintro _ t rfl
  exact pauses_throw (hhanded.symm ▸ hb)

theorem timeLeft_pauses {k : KernelState} (hb : v.Balanced) : Pauses (timeLeft k) (fun _ t => t = v) v := by
  apply pauses_then (pauses_now .loop hb)
  intro current
  split
  · apply pauses_then (reportDeadline_pauses _ hb)
    exact fun _ => pauses_throw hb
  · apply pauses_bind (pauses_stopIf hb)
    rintro _ t ⟨_,rfl⟩
    exact pauses_pure rfl

theorem checkControl_pauses {k : KernelState} (hb : v.Balanced) :
    Pauses (checkControl k) (fun _ t => t = v) v := by
  unfold checkControl
  split
  · apply pauses_then (pauses_now .control hb)
    intro time
    exact pauses_mono (pauses_stopIf hb) fun _ _ ht => ht.2
  · exact pauses_pure rfl

theorem channelsReady_pauses {k : KernelState} (h : Aligned k v) (remaining : Int)
    (watches : Watches) :
    Pauses (channelsReady fuel o remaining watches k) Aligned v := by
  apply pauses_bind (pauses_onlyIf (fun _ => traceReady_pauses h remaining) fun _ => h)
  intro k₁ t h₁
  apply pauses_bind (pauses_onlyIf (fun _ => qmpReady_pauses h₁) fun _ => h₁)
  intro k₂ t h₂
  apply pauses_bind (pauses_onlyIf (fun _ => consoleReady_pauses h₂) fun _ => h₂)
  intro k₃ t h₃
  apply pauses_bind (pauses_onlyIf (fun _ => serialReady_pauses h₃) fun _ => h₃)
  intro k₄ t h₄
  apply pauses_bind (pauses_stopIf h₄.balanced)
  rintro _ t ⟨_,rfl⟩
  apply pauses_bind (requestStop_pauses h₄)
  exact fun _ _ h₅ => reapChild_pauses h₅

theorem kernelPass_pauses {k : KernelState} (h : Aligned k v) : Pauses (kernelPass fuel o k) Aligned v := by
  apply pauses_then (timeLeft_pauses h.balanced)
  intro remaining
  split
  · apply pauses_bind (finishRun_pauses h.balanced remaining)
    exact fun _ _ hfalse => False.elim hfalse
  · apply pauses_then (checkControl_pauses h.balanced)
    intro _
    apply pauses_then (pauses_quiet (q := .pollChannels _) rfl h.balanced)
    intro answer
    cases answer with
    | interrupted => exact pauses_pure h
    | failed => exact pauses_throw h.balanced
    | ready watches =>
      dsimp only
      split
      · exact pauses_throw h.balanced
      · exact pauses_throw h.balanced
      · exact channelsReady_pauses h remaining watches

theorem kernelPasses_pauses (passes : Nat) {k : KernelState} (h : Aligned k v) :
    Pauses (kernelPasses fuel o passes k) Aligned v := by
  induction passes generalizing k v with
  | zero => exact pauses_pure h
  | succ passes ih => exact pauses_bind (kernelPass_pauses h) fun _ _ h₁ => ih h₁

theorem kernelLoop_pauses (passes : Nat) {k : KernelState} (h : Aligned k v)
    {post : Unit → PauseView → Prop} :
    Pauses (kernelLoop fuel o passes k) post v := by
  induction passes generalizing k v with
  | zero => exact pauses_throw h.balanced
  | succ passes ih => exact pauses_bind (kernelPass_pauses h) fun _ _ h₁ => ih h₁

theorem setup_pauses (failures : List String) (hb : v.Balanced) :
    Pauses (setup failures) (fun _ t => t = v) v := by
  induction failures with
  | nil => exact pauses_pure rfl
  | cons failure failures ih =>
    apply pauses_then (pauses_quiet (q := .setup failure) rfl hb)
    intro (succeeded : Bool)
    apply pauses_bind (pauses_stopIf hb)
    rintro _ t ⟨_,rfl⟩
    exact ih

theorem kernelStart_pauses : Pauses (kernelStart o) Aligned {} := by
  have hstart : ∀ k : KernelState, k.control = ⟨false,false,false,0,1,.none⟩ → Aligned k {} := by
    intro k hk
    unfold Aligned
    rw [hk]
    constructor <;> simp
  have hb : ({} : PauseView).Balanced := by constructor <;> simp [PauseView.stopsAcknowledged]
  apply pauses_bind (pauses_stopIf hb)
  rintro _ t ⟨_,rfl⟩
  apply pauses_then (setup_pauses setupFailures hb)
  intro _
  apply pauses_then (pauses_now .start hb)
  intro deadline
  have hmaximum : Pauses (startMaximum o) (fun _ t => t = {}) {} := by
    unfold startMaximum
    split
    · exact pauses_pure rfl
    · exact pauses_then (pauses_now .startMaximum hb) fun _ => pauses_pure rfl
  apply pauses_then hmaximum
  exact fun maximum => pauses_pure (hstart _ rfl)

end Steps

/-- The state at the head of the loop after some passes, with the calls made so far. -/
def LoopHead (fuel : Nat) (o : KernelOptions) (passes : Nat)
    (oracle : KernelLog → (q : KernelCall) → KernelAnswer q) (k : KernelState)
    (log : KernelLog) : Prop :=
  (kernelStart o >>= kernelPasses fuel o passes).run.run oracle [] = (.ok k,log)

private theorem Pauses.run {α : Type} {x : Worker α} {post : α → PauseView → Prop}
    (hx : Pauses x post {}) (oracle : KernelLog → (q : KernelCall) → KernelAnswer q)
    (hstart : StartsPaused (x.run.run oracle []).2) :
    (∀ before entry rest, (x.run.run oracle []).2 = before ++ entry :: rest →
        (pauseView before).Balanced ∧
          (actionCall entry.1 = true → (pauseView before).ReadyForAction)) ∧
      (∀ a, (x.run.run oracle []).1 = .ok a → post a (pauseView (x.run.run oracle []).2)) ∧
      ∀ e, (x.run.run oracle []).1 = .error e → (pauseView (x.run.run oracle []).2).Balanced := by
  have hwp := hx.wp
  unfold Dialogue.wp pauseProtocol at hwp
  obtain ⟨hguarantee,trail,htrail,hend⟩ := Program.wp_run_fold oracle x.run [] _ hwp hstart
  rw [List.nil_append] at htrail
  refine ⟨fun before entry rest hlog => hguarantee before entry rest hlog,?_,?_⟩
  · intro a ha
    rw [ha] at hend
    rw [htrail]
    exact hend
  · intro e he
    rw [he] at hend
    rw [htrail]
    exact hend

/-- In every run of the worker in which the guest is silent before the first cont, the steps of the
protocol stay balanced and an action is read and delivered only at its own forwarded request while
the guest is stopped; at the head of the loop draining means stopped. -/
theorem runKernel_pause_protocol (fuel : Nat) (o : KernelOptions)
    (oracle : KernelLog → (q : KernelCall) → KernelAnswer q)
    (hstart : StartsPaused (kernelLog fuel o oracle)) :
    PauseProtocol (kernelLog fuel o oracle) ∧
      ∀ passes k log, LoopHead fuel o passes oracle k log → StartsPaused log →
        k.draining = true → (pauseView log).Stopped ∧ k.pending = 0 := by
  constructor
  · have hrun : Pauses (runKernel fuel o) (fun _ v => v.Balanced) {} :=
      pauses_bind kernelStart_pauses fun _ _ h => kernelLoop_pauses fuel h
    obtain ⟨hentries,hok,herror⟩ := hrun.run oracle hstart
    refine ⟨?_,fun before entry rest hlog => (hentries before entry rest hlog).2⟩
    rintro before ⟨rest,hlog⟩
    cases rest with
    | nil =>
      rw [List.append_nil] at hlog
      rw [hlog]
      match hend : ((runKernel fuel o).run.run oracle []).1 with
      | .ok a => exact hok a hend
      | .error e => exact herror e hend
    | cons entry rest => exact (hentries before entry rest hlog.symm).1
  · intro passes k log hhead hpaused hdraining
    have hrun : Pauses (kernelStart o >>= kernelPasses fuel o passes) Aligned {} :=
      pauses_bind kernelStart_pauses fun _ _ h => kernelPasses_pauses passes h
    have hlog := congrArg Prod.snd hhead
    obtain ⟨_,hok,_⟩ := hrun.run oracle (hlog ▸ hpaused)
    have haligned := hok k (congrArg Prod.fst hhead)
    rw [hlog] at haligned
    obtain ⟨hpending,_,hlast⟩ := haligned.draining hdraining
    exact ⟨⟨hlast,(haligned.idle hpending).ge⟩,hpending⟩

/-- How often a call of this kind was made. -/
def callsOf (kind : KernelCall → Bool) (log : KernelLog) : Nat := log.countP fun entry => kind entry.1

/-- The messages and lines of one round, in the order of the polls that report them. -/
def roundWatches : List Watches :=
  [{ trace := true },{ qmp := true },{ qmp := true },{ qmp := true, serial := true },
    { serial := true },{ qmp := true },{ trace := true }]

def roundMessages : List QmpMessage :=
  [{ greeting := true },{ id := some (some 1), hasReturn := true },
    { id := some (some 2), hasReturn := true },{ id := some (some 3), hasReturn := true }]

def roundLines : List GuestLine :=
  [{ payload := [123,125], jsonSize := 2, bounded := by decide, event := "start",
      mode := some "interactive" },
    { payload := [123,125], jsonSize := 2, bounded := by decide, event := "ready" }]

def roundFrames : List Header :=
  [{ kind := .hello, detail := 2 ||| featureSystem ||| featureKernel },
    { kind := .kernelRequest, detail := 127 }]

/-- An environment that plays one round: the guest starts and asks, and the client sends `A`. -/
def roundOracle (log : KernelLog) : (q : KernelCall) → KernelAnswer q
  | .setup _ => true
  | .now _ => (0 : Int)
  | .send _ bytes sent =>
    if h : bytes.length-sent ≠ 0 then
      SendAnswer.taken (bytes.length-sent) ⟨Nat.pos_of_ne_zero h,le_rfl⟩
    else SendAnswer.nothing
  | .pollSend _ _ => PollAnswer.ready
  | .sendReport _ => SendAnswer.nothing
  | .pollChannels _ =>
    .ready ((roundWatches[callsOf (fun q => q matches .pollChannels _) log]?).getD {})
  | .readTrace limit =>
    match roundFrames[callsOf (fun q => q matches .readTrace _) log]? with
    | some h =>
      if hlimit : limit = headerBytes then
        ReadAnswer.data (encodeHeader h) (by simp [hlimit,headerBytes])
      else ReadAnswer.finished
    | none => ReadAnswer.finished
  | .readQmp =>
    .ok { lines := (roundMessages[callsOf (fun q => q matches .readQmp) log]?).toList }
  | .readConsole => ReadAnswer.interrupted
  | .readSerial =>
    .ok { lines := (roundLines[callsOf (fun q => q matches .readSerial) log]?).toList }
  | .pollAction _ => PollAnswer.ready
  | .receiveAction limit =>
    if h : limit = 4 then ReadAnswer.data [2,0,0,0] (by simp [h])
    else if h : limit = 2 then ReadAnswer.data [65,10] (by simp [h])
    else ReadAnswer.finished
  | .requestDrain => Except.ok ()
  | .waitChild => WaitAnswer.running

def interacting : KernelOptions := { timeoutMs := 1000, maximumMs := 0, interactive := true }

/-- `PausedStart`, computed. -/
def pausedStart (v : PauseView) : Sigma KernelAnswer → Bool
  | ⟨.readSerial,.ok lines⟩ => lines.lines.isEmpty || v.sent.any isResume
  | _ => true

def startsPausedFrom : PauseView → KernelLog → Bool
  | _, [] => true
  | v, entry::log => pausedStart v entry && startsPausedFrom (v.after entry) log

private theorem pausedStart_sound {v : PauseView} {entry : Sigma KernelAnswer}
    (h : pausedStart v entry = true) : PausedStart v entry := by
  unfold PausedStart
  split
  · next lines =>
    intro hlines
    simpa [pausedStart,hlines] using h
  · trivial

private theorem startsPausedFrom_sound (log : KernelLog) (v : PauseView)
    (h : startsPausedFrom v log = true) (before : KernelLog) (entry : Sigma KernelAnswer)
    (rest : KernelLog) (hlog : log = before ++ entry :: rest) :
    PausedStart (before.foldl PauseView.after v) entry := by
  induction before generalizing log v with
  | nil =>
    subst hlog
    rw [List.nil_append,startsPausedFrom,Bool.and_eq_true] at h
    exact pausedStart_sound h.1
  | cons first before ih =>
    subst hlog
    rw [List.cons_append,startsPausedFrom,Bool.and_eq_true] at h
    exact ih _ _ h.2 rfl

/-- The round keeps the protocol and delivers its action. -/
theorem runKernel_pause_protocol_round :
    PauseProtocol (kernelLog 12 interacting roundOracle) ∧
      (pauseView (kernelLog 12 interacting roundOracle)).actions = 1 := by
  refine ⟨(runKernel_pause_protocol 12 interacting roundOracle ?_).1,by decide +kernel⟩
  exact startsPausedFrom_sound _ {} (by decide +kernel)

end Cpu2Tensor
