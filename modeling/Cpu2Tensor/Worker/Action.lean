import Cpu2Tensor.Client.Stdio
import Cpu2Tensor.Worker.Kernel

/-!
# Kernel actions from client to guest

The worker's `action` reads what `KernelEnv.step` sends, in whatever pieces it arrives, and writes
the command to the guest's serial channel.
-/

namespace Cpu2Tensor
open Library

def receivedBy : Sigma KernelAnswer → Bytes
  | ⟨.receiveAction _,.data bytes _⟩ => bytes
  | _ => []

def received (log : KernelLog) : Bytes := log.flatMap receivedBy

def deliveredBy : Sigma KernelAnswer → Bytes
  | ⟨.send .serial bytes sent,.taken count _⟩ => (bytes.drop sent).take count
  | _ => []

def delivered (log : KernelLog) : Bytes := log.flatMap deliveredBy

@[simp] theorem received_snoc (log : KernelLog) (entry : Sigma KernelAnswer) :
    received (log ++ [entry]) = received log ++ receivedBy entry := by
  simp [received]

@[simp] theorem delivered_snoc (log : KernelLog) (entry : Sigma KernelAnswer) :
    delivered (log ++ [entry]) = delivered log ++ deliveredBy entry := by
  simp [delivered]

theorem received_extends {log more : KernelLog} (h : log <+: more) :
    received log <+: received more := by
  obtain ⟨rest,rfl⟩ := h
  simp [received]

def actionFaults : List String :=
  ["Kernel action needs 2..127 bytes","Kernel command needs a newline",
    "Kernel command must be a single printable ASCII line"]

/-- An answer that neither fails nor delays the action. -/
def PromptAnswer (start timeout : Int) : Sigma KernelAnswer → Prop
  | ⟨.now _,(time : Int)⟩ => start ≤ time ∧ time < start+timeout
  | ⟨.pollAction _,answer⟩ => answer = PollAnswer.ready
  | ⟨.receiveAction _,answer⟩ => ∃ bytes bounds, answer = .data bytes bounds
  | ⟨.send _ _ _,answer⟩ => ∃ count bounds, answer = .taken count bounds
  | _ => True

def Prompt (timeout : Int) (log : KernelLog) : Prop :=
  ∃ start, ∀ entry ∈ log, PromptAnswer start timeout entry

def actionRun (fuel : Nat) (timeout : Int) (oracle : KernelLog → (q : KernelCall) → KernelAnswer q) :
    Except KernelEnd (Except String Bool) × KernelLog :=
  (action fuel timeout).run.run oracle []

/-- How a run of `action` for the command `a` may end. -/
structure ForwardedAction (wire a : Bytes) (fuel : Nat) (timeout : Int)
    (result : Except KernelEnd (Except String Bool)) (log : KernelLog) : Prop where
  unblamed : ∀ message ∈ actionFaults, result ≠ .ok (.error message)
  serial : delivered log <+: a
  complete : Prompt timeout log → wire.length < fuel → result = .ok (.ok false) ∧ delivered log = a

/-- Whatever pieces of `wire` the receive calls return, the worker forwards `a`. -/
def ForwardsAction (wire a : Bytes) : Prop :=
  ∀ fuel timeout oracle, received (actionRun fuel timeout oracle).2 <+: wire →
    ForwardedAction wire a fuel timeout (actionRun fuel timeout oracle).1
      (actionRun fuel timeout oracle).2

section Reading
variable {a : Bytes} {timeout deadline : Int}

private def wireOf (a : Bytes) : Bytes := store a.length 4 ++ a

private theorem wireOf_length (a : Bytes) : (wireOf a).length = 4+a.length := by
  simp [wireOf]

variable {budget : Nat} {bytes : Bytes} {entry : Sigma KernelAnswer}

private theorem load_received (h127 : a.length ≤ 127) (hb : bytes <+: wireOf a)
    (hlen : bytes.length = 4) : load bytes 4 = a.length := by
  obtain ⟨rest,hrest⟩ := hb
  rw [← load_append bytes rest 4 hlen.ge,hrest]
  exact load_store_of_lt (by omega) a

variable {log : KernelLog}

private theorem Prompt.of_snoc (hp : Prompt timeout (log ++ [entry])) : Prompt timeout log := by
  obtain ⟨start,hstart⟩ := hp
  exact ⟨start,fun other hother => hstart other (List.mem_append_left _ hother)⟩

private theorem Prompt.last (hp : Prompt timeout (log ++ [entry])) :
    ∃ start, PromptAnswer start timeout entry := by
  obtain ⟨start,hstart⟩ := hp
  exact ⟨start,hstart entry (List.mem_append_right _ (List.mem_singleton_self _))⟩

private def StartedAt (timeout deadline : Int) (log : KernelLog) : Prop :=
  ∃ begun : Int, (⟨.now .action,begun⟩ : Sigma KernelAnswer) ∈ log ∧ deadline = begun+timeout

private theorem StartedAt.snoc (hs : StartedAt timeout deadline log) (entry : Sigma KernelAnswer) :
    StartedAt timeout deadline (log ++ [entry]) := by
  obtain ⟨begun,hmem,hdeadline⟩ := hs
  exact ⟨begun,List.mem_append_left _ hmem,hdeadline⟩

private theorem StartedAt.late (hs : StartedAt timeout deadline log) {time : Int}
    (hlate : deadline - time ≤ 0) :
    ¬Prompt timeout (log ++ [(⟨.now .action,time⟩ : Sigma KernelAnswer)]) := by
  intro hp
  obtain ⟨begun,hmem,hdeadline⟩ := hs
  obtain ⟨start,hstart⟩ := hp
  have hbegun := hstart _ (List.mem_append_left _ hmem)
  have htime := hstart _ (List.mem_append_right _ (List.mem_singleton_self _))
  simp only [PromptAnswer] at hbegun htime
  omega

private def ReadAction (a : Bytes) (timeout deadline : Int) :
    Except (Except String Bool) Bytes → KernelLog → Prop
  | .ok bytes, log => bytes = wireOf a ∧ delivered log = [] ∧ StartedAt timeout deadline log
  | .error result, log =>
    (∀ message ∈ actionFaults, result ≠ .error message) ∧ delivered log = [] ∧ ¬Prompt timeout log

/-- The log while the action is read: `bytes` have come, the serial channel has got nothing, and
a prompt environment has let every pass of the loop receive something. -/
private structure ReadingAction (a : Bytes) (timeout deadline : Int) (budget fuel : Nat)
    (bytes : Bytes) (log : KernelLog) : Prop where
  received : received log = bytes
  part : bytes <+: wireOf a
  undelivered : delivered log = []
  started : StartedAt timeout deadline log
  progress : Prompt timeout log → budget ≤ fuel+bytes.length

private theorem ReadingAction.quiet {fuel : Nat}
    (h : ReadingAction a timeout deadline budget fuel bytes log) (entry : Sigma KernelAnswer)
    (hr : receivedBy entry = []) (hd : deliveredBy entry = []) :
    ReadingAction a timeout deadline budget fuel bytes (log ++ [entry]) :=
  ⟨by rw [received_snoc,h.received,hr,List.append_nil],h.part,
    by rw [delivered_snoc,h.undelivered,hd,List.append_nil],h.started.snoc entry,
    fun hp => h.progress hp.of_snoc⟩

private theorem actionLoop_reads (h2 : 2 ≤ a.length) (h127 : a.length ≤ 127) (fuel : Nat) :
    ∀ (bytes : Bytes) (needed : Nat) (log : KernelLog),
      ReadingAction a timeout deadline budget fuel bytes log →
      (needed = 4 ∧ bytes.length < 4 ∨ needed = 4+a.length ∧ 4 ≤ bytes.length) →
      Dialogue.wp (Program.logProtocol fun log => received log <+: wireOf a)
        (actionLoop deadline fuel bytes needed) (ReadAction a timeout deadline)
        (fun _ log => delivered log = [] ∧ (Prompt timeout log → budget ≤ (wireOf a).length))
        log := by
  induction fuel with
  | zero =>
    intro bytes needed log h _
    refine ⟨h.undelivered,fun hp => ?_⟩
    have hlen := h.part.length_le
    have hbudget := h.progress hp
    omega
  | succ fuel ih =>
    intro bytes needed log h hn
    have hwire := wireOf_length a
    rw [actionLoop]
    split_ifs with hdone
    · have hle := h.part.length_le
      exact ⟨h.part.eq_of_length (by omega),h.undelivered,h.started⟩
    · apply Dialogue.wp_log_bind
      intro (time : Int) _
      have hclock := h.quiet ⟨.now .action,time⟩ rfl rfl
      dsimp only
      split_ifs with hlate
      · exact ⟨by simp [actionFaults],hclock.undelivered,h.started.late hlate⟩
      · apply Dialogue.wp_log_bind
        intro (polled : PollAnswer) _
        have hpoll := hclock.quiet ⟨.pollAction (deadline-time),polled⟩ rfl rfl
        have hready : polled ≠ .ready → ¬Prompt timeout
            (log ++ [⟨.now .action,time⟩] ++ [⟨.pollAction (deadline-time),polled⟩]) := by
          intro hne hp
          obtain ⟨_,hanswer⟩ := hp.last
          exact hne hanswer
        cases polled with
        | timedOut => exact ⟨by simp [actionFaults],hpoll.undelivered,hready (by simp)⟩
        | closed => exact ⟨by simp [actionFaults],hpoll.undelivered,hready (by simp)⟩
        | failed => exact ⟨by simp [actionFaults],hpoll.undelivered,hready (by simp)⟩
        | interrupted =>
          exact ih bytes needed _ ⟨hpoll.received,h.part,hpoll.undelivered,hpoll.started,
            fun hp => absurd hp (hready (by simp))⟩ hn
        | ready =>
          apply Dialogue.wp_log_bind
          intro (answer : ReadAnswer (needed-bytes.length)) hfeeds
          have hfailed : (∀ more bounds, answer ≠ .data more bounds) →
              ¬Prompt timeout (log ++ [⟨.now .action,time⟩] ++
                [⟨.pollAction (deadline-time),.ready⟩] ++
                [⟨.receiveAction (needed-bytes.length),answer⟩]) := by
            intro hne hp
            obtain ⟨_,more,bounds,hanswer⟩ := hp.last
            exact hne more bounds hanswer
          have hquiet : receivedBy ⟨.receiveAction (needed-bytes.length),answer⟩ = [] →
              ReadingAction a timeout deadline budget (fuel+1) bytes _ :=
            fun hr => hpoll.quiet ⟨.receiveAction (needed-bytes.length),answer⟩ hr rfl
          cases answer with
          | finished => exact ⟨by simp [actionFaults],(hquiet rfl).undelivered,hfailed (by simp)⟩
          | closed => exact ⟨by simp [actionFaults],(hquiet rfl).undelivered,hfailed (by simp)⟩
          | failed => exact ⟨by simp [actionFaults],(hquiet rfl).undelivered,hfailed (by simp)⟩
          | interrupted =>
            have hr := hquiet rfl
            exact ih bytes needed _ ⟨hr.received,h.part,hr.undelivered,hr.started,
              fun hp => absurd hp (hfailed (by simp))⟩ hn
          | data more bounds =>
            have hpart : bytes ++ more <+: wireOf a := by
              rwa [received_snoc,hpoll.received] at hfeeds
            have hmore : ReadingAction a timeout deadline budget fuel (bytes ++ more) _ :=
              ⟨by rw [received_snoc,hpoll.received]; rfl,hpart,
                by rw [delivered_snoc,hpoll.undelivered]; rfl,
                hpoll.started.snoc ⟨.receiveAction (needed-bytes.length),.data more bounds⟩,?_⟩
            · dsimp only
              split_ifs with hlength hshort
              · rw [load_received h127 hpart hlength.1] at hshort
                omega
              · rw [load_received h127 hpart hlength.1]
                exact ih _ _ _ hmore (.inr ⟨by rw [hlength.2],hlength.1.ge⟩)
              · refine ih _ _ _ hmore ?_
                rw [List.length_append] at hlength ⊢
                omega
            · intro hp
              have hbudget := h.progress hp.of_snoc.of_snoc.of_snoc
              rw [List.length_append]
              omega

end Reading

section Writing
variable {line : Bytes} {timeout deadline : Int} {assume : KernelLog → Prop}

private structure WrittenAction (line : Bytes) (timeout : Int) (result : Except String Bool)
    (log : KernelLog) : Prop where
  serial : delivered log <+: line
  unblamed : ∀ message ∈ actionFaults, result ≠ .error message
  complete : Prompt timeout log → result = .ok false ∧ delivered log = line

/-- `sent` bytes of the line are delivered, and a prompt environment took some in every pass. -/
private structure WritingAction (line : Bytes) (timeout : Int) (budget fuel sent : Nat)
    (log : KernelLog) : Prop where
  delivered : delivered log = line.take sent
  progress : Prompt timeout log → budget ≤ fuel+sent ∧ sent ≤ line.length

variable {budget : Nat} {log : KernelLog} {fuel sent : Nat}

private theorem WritingAction.quiet (h : WritingAction line timeout budget fuel sent log)
    (entry : Sigma KernelAnswer) (hd : deliveredBy entry = []) :
    WritingAction line timeout budget fuel sent (log ++ [entry]) :=
  ⟨by rw [delivered_snoc,h.delivered,hd,List.append_nil],fun hp => h.progress hp.of_snoc⟩

private theorem WritingAction.failed (h : WritingAction line timeout budget fuel sent log)
    {result : Except String Bool} (hu : ∀ message ∈ actionFaults, result ≠ .error message)
    (hp : ¬Prompt timeout log) : WrittenAction line timeout result log :=
  ⟨h.delivered ▸ List.take_prefix _ _,hu,fun hprompt => absurd hprompt hp⟩

private theorem sendLoop_writes (fuel : Nat) :
    ∀ (sent : Nat) (log : KernelLog), WritingAction line timeout budget fuel sent log →
      Dialogue.wp (Program.logProtocol assume) (sendLoop .serial line deadline fuel sent)
        (WrittenAction line timeout)
        (fun _ log => delivered log <+: line ∧ (Prompt timeout log → budget ≤ line.length)) log := by
  induction fuel with
  | zero =>
    intro sent log h
    refine ⟨h.delivered ▸ List.take_prefix _ _,fun hp => ?_⟩
    have hbounds := h.progress hp
    omega
  | succ fuel ih =>
    intro sent log h
    rw [sendLoop]
    split_ifs with hdone
    · have hall : delivered log = line := by rw [h.delivered,List.take_of_length_le hdone]
      exact ⟨hall ▸ List.prefix_rfl,by simp,fun _ => ⟨rfl,hall⟩⟩
    · apply Dialogue.wp_log_bind
      intro (answer : SendAnswer (line.length-sent)) _
      have hfailed : (∀ count bounds, answer ≠ .taken count bounds) →
          ¬Prompt timeout (log ++ [⟨.send .serial line sent,answer⟩]) := by
        intro hne hp
        obtain ⟨_,count,bounds,hanswer⟩ := hp.last
        exact hne count bounds hanswer
      have hquiet : deliveredBy ⟨.send .serial line sent,answer⟩ = [] →
          WritingAction line timeout budget (fuel+1) sent _ :=
        h.quiet ⟨.send .serial line sent,answer⟩
      cases answer with
      | nothing => exact (hquiet rfl).failed (by simp) (hfailed (by simp))
      | closed => exact (hquiet rfl).failed (by simp) (hfailed (by simp))
      | failed => exact (hquiet rfl).failed (by simp [actionFaults]) (hfailed (by simp))
      | interrupted =>
        exact ih sent _ ⟨(hquiet rfl).delivered,fun hp => absurd hp (hfailed (by simp))⟩
      | taken count bounds =>
        refine ih (sent+count) _ ⟨?_,fun hp => ?_⟩
        · rw [delivered_snoc,h.delivered,List.take_add]
          rfl
        · have hbounds := h.progress hp.of_snoc
          omega
      | again =>
        have hwaits := hquiet rfl
        apply Dialogue.wp_log_bind
        intro (time : Int) _
        have hclock := hwaits.quiet ⟨.now .sendRetry,time⟩ rfl
        have hslow : ¬Prompt timeout (log ++ [⟨.send .serial line sent,.again⟩] ++
            [⟨.now .sendRetry,time⟩]) :=
          fun hp => hfailed (by simp) hp.of_snoc
        dsimp only
        split_ifs with hlate
        · exact hclock.failed (by simp [actionFaults]) hslow
        · apply Dialogue.wp_log_bind
          intro (polled : PollAnswer) _
          have hpoll := hclock.quiet ⟨.pollSend .serial (deadline-time),polled⟩ rfl
          have hunprompt : ¬Prompt timeout (log ++ [⟨.send .serial line sent,.again⟩] ++
              [⟨.now .sendRetry,time⟩] ++ [⟨.pollSend .serial (deadline-time),polled⟩]) :=
            fun hp => hslow hp.of_snoc
          have hretry : WritingAction line timeout budget fuel sent _ :=
            ⟨hpoll.delivered,fun hp => absurd hp hunprompt⟩
          cases polled with
          | ready => exact ih sent _ hretry
          | timedOut => exact ih sent _ hretry
          | interrupted => exact ih sent _ hretry
          | closed => exact hpoll.failed (by simp) hunprompt
          | failed => exact hpoll.failed (by simp [actionFaults]) hunprompt

private theorem sendBytes_writes (fuel : Nat) (hd : delivered log = []) :
    Dialogue.wp (Program.logProtocol assume) (sendBytes fuel .serial line timeout)
      (WrittenAction line timeout)
      (fun _ log => delivered log <+: line ∧ (Prompt timeout log → fuel ≤ line.length)) log := by
  unfold sendBytes
  apply Dialogue.wp_log_bind
  intro (begun : Int) _
  apply sendLoop_writes fuel 0
  refine ⟨?_,fun _ => ⟨le_rfl,Nat.zero_le _⟩⟩
  rw [delivered_snoc,hd]
  rfl

end Writing

variable {a : Bytes}

private theorem kernelStep_eq_ok {e : StdioEnv} {result : StdioEnv × Bytes}
    (h : KernelEnv.step e a = .ok result) :
    a.getLast? = some 10 ∧ a.dropLast.any (fun byte => !printable byte) = false ∧
      e.step a = .ok result := by
  unfold KernelEnv.step at h
  split_ifs at h with hline
  rw [not_or,not_or,not_not] at hline
  refine ⟨hline.1,?_,h⟩
  rw [List.any_eq_false]
  intro byte hbyte
  have hchar := (List.any_eq_false.mp (Bool.eq_false_iff.mpr hline.2.2)) byte hbyte
  simp only [printable]
  grind

private theorem action_forwards (h2 : 2 ≤ a.length) (h127 : a.length ≤ 127)
    (hnewline : a.getLast? = some 10)
    (hprintable : a.dropLast.any (fun byte => !printable byte) = false) (fuel : Nat)
    (timeout : Int) :
    Dialogue.wp (Program.logProtocol fun log => received log <+: wireOf a) (action fuel timeout)
      (fun result => ForwardedAction (wireOf a) a fuel timeout (.ok result))
      (fun e => ForwardedAction (wireOf a) a fuel timeout (.error e)) [] := by
  unfold action
  apply Dialogue.wp_log_bind
  intro (begun : Int) _
  dsimp only
  rw [Dialogue.wp_bind]
  have hstart : ReadingAction a timeout (begun+timeout) fuel fuel [] [⟨.now .action,begun⟩] :=
    ⟨rfl,List.nil_prefix,rfl,⟨begun,List.mem_singleton_self _,rfl⟩,fun _ => le_rfl⟩
  apply Dialogue.wp_mono (actionLoop_reads h2 h127 fuel [] 4 _ hstart (.inl ⟨rfl,by simp⟩))
  · intro result log hread
    cases result with
    | error result =>
      obtain ⟨hunblamed,hdelivered,hslow⟩ := hread
      refine ⟨fun message hm => ?_,hdelivered ▸ List.nil_prefix,fun hp => absurd hp hslow⟩
      simpa using hunblamed message hm
    | ok bytes =>
      obtain ⟨rfl,hdelivered,_⟩ := hread
      have hline : (wireOf a).drop 4 = a := by
        rw [wireOf,List.drop_left' (by simp)]
      dsimp only
      rw [hline,if_neg (by simpa using hnewline),hprintable,if_neg (by simp)]
      rw [Dialogue.wp_bind]
      apply Dialogue.wp_mono (sendBytes_writes fuel hdelivered)
      · intro written log hwritten
        cases written with
        | error message =>
          refine ⟨fun fault hf => ?_,hwritten.serial,fun hp => ?_⟩
          · simpa using hwritten.unblamed fault hf
          · exact absurd (hwritten.complete hp).1 (by simp)
        | ok closed =>
          cases closed with
          | true =>
            refine ⟨by simp [actionFaults],hwritten.serial,fun hp => ?_⟩
            exact absurd (hwritten.complete hp).1 (by simp)
          | false => exact ⟨by simp,hwritten.serial,fun hp _ => ⟨rfl,(hwritten.complete hp).2⟩⟩
      · intro e log hread
        refine ⟨by simp,hread.1,fun hp hfuel => ?_⟩
        have hbudget := hread.2 hp
        have hlen := wireOf_length a
        omega
  · intro e log hread
    refine ⟨by simp,hread.1 ▸ List.nil_prefix,fun hp hfuel => ?_⟩
    have hbudget := hread.2 hp
    omega

/-- An environment in which every call succeeds at once and the receive calls return `wire`, at
most `piece` bytes at a time. -/
def promptClient (wire : Bytes) (piece : Nat) (log : KernelLog) :
    (q : KernelCall) → KernelAnswer q
  | .setup _ => true
  | .now _ => (0 : Int)
  | .send _ bytes sent =>
    if h : 0 < bytes.length-sent then SendAnswer.taken (bytes.length-sent) ⟨h,le_rfl⟩
    else SendAnswer.nothing
  | .pollSend _ _ => PollAnswer.ready
  | .sendReport bytes =>
    if h : 0 < bytes.length then SendAnswer.taken bytes.length ⟨h,le_rfl⟩ else SendAnswer.nothing
  | .pollChannels _ => WatchAnswer.ready {}
  | .readTrace _ => ReadAnswer.finished
  | .readQmp => Except.ok {}
  | .readConsole => ReadAnswer.finished
  | .readSerial => Except.ok {}
  | .pollAction _ => PollAnswer.ready
  | .receiveAction limit =>
    let bytes := (wire.drop (received log).length).take (min piece limit)
    if h : 0 < bytes.length then
      ReadAnswer.data bytes ⟨h,(List.length_take_le _ _).trans (min_le_right _ _)⟩
    else ReadAnswer.finished
  | .requestDrain => Except.ok ()
  | .waitChild => WaitAnswer.running

/-- The worker forwards what `KernelEnv.step` sends exactly when the command has two bytes. -/
theorem kernelStep_forwarded_iff (e : StdioEnv) (a : Bytes) (sent : StdioEnv × Bytes)
    (hlimit : e.maxActionBytes = 127) (hstep : KernelEnv.step e a = .ok sent) :
    ForwardsAction sent.2 a ↔ 2 ≤ a.length := by
  obtain ⟨hnewline,hprintable,hstdio⟩ := kernelStep_eq_ok hstep
  obtain ⟨⟨_,_,_,_,hmin,hmax⟩,rfl⟩ := StdioEnv.step_eq_ok.mp hstdio
  change ForwardsAction (wireOf a) a ↔ _
  constructor
  · intro hforwards
    by_contra hshort
    have ha : a = [10] := by
      match a,hmin,hshort with
      | [byte],_,_ => simpa using hnewline
      | _ :: _ :: _,_,hshort => simp at hshort
    subst ha
    have hend := hforwards 10 1 (promptClient (wireOf [10]) 4) (by decide +kernel)
    exact hend.unblamed _ (List.mem_cons_self ..) rfl
  · intro h2 fuel timeout oracle hreceived
    have hwp := action_forwards h2 (hlimit ▸ hmax) hnewline hprintable fuel timeout
    have hend := Program.wp_run (fun before after hextends hafter => ?_) oracle
      (action fuel timeout).run [] hwp hreceived
    · change ForwardedAction _ _ _ _ ((action fuel timeout).run.run oracle []).1 _
      revert hend
      cases ((action fuel timeout).run.run oracle []).1 <;> exact id
    · exact (received_extends hextends).trans hafter

def atRequest : StdioEnv :=
  { className := "KernelEnv", connection := some 1, run := 1, needsInput := true,
    maxActionBytes := 127 }

/-- The shortest command, a character and a newline, is forwarded. -/
theorem kernelStep_forwards_pair :
    ∃ sent, KernelEnv.step atRequest [65,10] = .ok sent ∧ ForwardsAction sent.2 [65,10] :=
  ⟨({ atRequest with needsInput := false, maxActionBytes := 0 },[2,0,0,0,65,10]),rfl,
    (kernelStep_forwarded_iff atRequest [65,10] _ rfl rfl).mpr (by decide)⟩

/-- The client lets a bare newline through, and it ends the run of the worker. -/
theorem kernelStep_newline_ends_run :
    KernelEnv.step atRequest [10] =
        .ok ({ atRequest with needsInput := false, maxActionBytes := 0 },[1,0,0,0,10]) ∧
      (actionRun 10 1000 (promptClient [1,0,0,0,10] 4)).1 =
        .ok (.error "Kernel action needs 2..127 bytes") :=
  ⟨rfl,rfl⟩

end Cpu2Tensor
