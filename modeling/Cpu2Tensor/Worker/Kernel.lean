import Cpu2Tensor.Library.Interaction
import Cpu2Tensor.Stream.Accept

/-!
# The kernel worker

`run_kernel` of `kernel.cpp` as a program that asks the operating system: the clock, the polls,
the reads and the writes of its channels.  A line of QMP or of the guest's serial channel comes as
the fields the worker reads from its JSON.
-/

namespace Cpu2Tensor
open Library

inductive ClockSite
  | start | startMaximum | loop | sendStart | sendRetry | beforeSend | afterSend | control | action
  deriving DecidableEq, Repr

inductive Channel
  | client | qmp | serial
  deriving DecidableEq, Repr

inductive KernelCall
  | setup (failure : String)
  | now (site : ClockSite)
  | send (channel : Channel) (bytes : Bytes) (sent : Nat)
  | pollSend (channel : Channel) (timeout : Int)
  | sendReport (bytes : Bytes)
  | pollChannels (timeout : Int)
  | readTrace (limit : Nat)
  | readQmp
  | readConsole
  | readSerial
  | pollAction (timeout : Int)
  | receiveAction (limit : Nat)
  | requestDrain
  | waitChild
  deriving DecidableEq, Repr

/-- The result of `send` for `limit` bytes; `closed` are the errors of a vanished peer. -/
inductive SendAnswer (limit : Nat)
  | taken (count : Nat) (bounds : 0 < count ∧ count ≤ limit)
  | nothing | interrupted | again | closed | failed

/-- The result of `read` or `recv` for `limit` bytes; `closed` is a reset peer. -/
inductive ReadAnswer (limit : Nat)
  | data (bytes : Bytes) (bounds : 0 < bytes.length ∧ bytes.length ≤ limit)
  | finished | interrupted | closed | failed

inductive PollAnswer
  | ready | timedOut | interrupted | closed | failed

/-- What the poll of the main loop reports for the client. -/
inductive ClientEvents
  | quiet | input | gone
  deriving DecidableEq, Repr

structure Watches where
  trace : Bool := false
  qmp : Bool := false
  serial : Bool := false
  console : Bool := false
  client : ClientEvents := .quiet

inductive WatchAnswer
  | ready (watches : Watches)
  | interrupted
  | failed

/-- The fields of a QMP message that the worker looks at. -/
structure QmpMessage where
  valid : Bool := true
  greeting : Bool := false
  /-- `some none` is an id that is not an integer. -/
  id : Option (Option Int) := none
  hasError : Bool := false
  hasReturn : Bool := false
  hasEvent : Bool := false

inductive GuestSuffix
  | none | kernelPrintk | invalid
  deriving DecidableEq, Repr

/-- A line of the guest's serial channel, split and parsed. -/
structure GuestLine where
  marked : Bool := true
  payload : Bytes := []
  jsonSize : Nat := 0
  bounded : jsonSize ≤ payload.length := by decide
  suffix : GuestSuffix := .none
  problem : Option String := none
  event : String := ""
  mode : Option String := none
  ok : Option Bool := none

/-- The complete lines after a read, whether the channel ended, and whether part of a line is
left in the buffer. -/
structure Lines (Line : Type) where
  lines : List Line := []
  eof : Bool := false
  unterminated : Bool := false

inductive ChildStatus
  | exited (code : Nat)
  | signaled
  deriving DecidableEq, Repr

inductive WaitAnswer
  | ended (status : ChildStatus)
  | running | interrupted | failed

def KernelAnswer : KernelCall → Type
  | .setup _ => Bool
  | .now _ => Int
  | .send _ bytes sent => SendAnswer (bytes.length-sent)
  | .pollSend _ _ => PollAnswer
  | .sendReport bytes => SendAnswer bytes.length
  | .pollChannels _ => WatchAnswer
  | .readTrace limit => ReadAnswer limit
  | .readQmp => Except String (Lines QmpMessage)
  | .readConsole => ReadAnswer 4096
  | .readSerial => Except String (Lines GuestLine)
  | .pollAction _ => PollAnswer
  | .receiveAction limit => ReadAnswer limit
  | .requestDrain => Except String Unit
  | .waitChild => WaitAnswer

/-- How a run ends: with the result of `run_kernel`, or not within the given number of passes. -/
inductive KernelEnd
  | returned (result : Except String Bool)
  | unfinished

abbrev Worker := Dialogue KernelCall KernelAnswer KernelEnd

/-- The calls of a run with their answers. -/
abbrev KernelLog := Program.Log KernelCall KernelAnswer

def call (request : KernelCall) : Worker (KernelAnswer request) := Dialogue.request request

def now (site : ClockSite) : Worker Int := call (.now site)

def leave {α : Type} (result : Except String Bool) : Worker α := throw (.returned result)

def failWith {α : Type} (message : String) : Worker α := leave (.error message)

def stopIf (bad : Prop) [Decidable bad] (message : String) : Worker Unit :=
  if bad then failWith message else pure ()

structure KernelTerminalProgress where
  helloSent : Bool := false
  dataSent : Bool := false
  startConfigured : Bool := false
  startObserved : Bool := false
  stopConfigured : Bool := false
  stopObserved : Bool := false
  version : Nat := wireVersion

def executionFrame (kind : Kind) : Bool :=
  kind ∈ [Kind.blocks,.registers,.memory,.addressContext,.mixed,.blockTransitions,
    .transitionWindow,.observationSummary,.reducedContext]

def observationFrame (kind : Kind) : Bool := executionFrame kind || kind == .executableLayout

def KernelTerminalProgress.flags (progress : KernelTerminalProgress) : UInt8 :=
  (if progress.helloSent then terminalHello else 0) |||
    (if progress.dataSent then terminalData else 0) |||
    (if progress.startConfigured then terminalStartConfigured else 0) |||
    (if progress.startObserved then terminalStartObserved else 0) |||
    (if progress.stopConfigured then terminalStopConfigured else 0) |||
    (if progress.stopObserved then terminalStopObserved else 0)

def reportHeader (progress : KernelTerminalProgress) : Header :=
  { kind := .terminalReport
    detail := terminalReportDetail maxRunDeadline progress.flags }

/-- One attempt without blocking; a v2 stream has no report. -/
def reportDeadline (progress : KernelTerminalProgress) : Worker Unit := do
  if progress.version = wireVersion then
    let _ ← call (.sendReport (encodeHeader (reportHeader progress)))

/-- The loop of `send_bytes`: `true` is a peer that has gone. -/
def sendLoop (channel : Channel) (bytes : Bytes) (deadline : Int) :
    Nat → Nat → Worker (Except String Bool)
  | 0, _ => throw .unfinished
  | fuel+1, sent => do
    if bytes.length ≤ sent then return .ok false
    else
      match ← call (.send channel bytes sent) with
      | .taken count _ => sendLoop channel bytes deadline fuel (sent+count)
      | .interrupted => sendLoop channel bytes deadline fuel sent
      | .again =>
        let remaining := deadline - (← now .sendRetry)
        if remaining ≤ 0 then return .error "Kernel transport write timed out"
        else
          match ← call (.pollSend channel remaining) with
          | .ready | .timedOut | .interrupted => sendLoop channel bytes deadline fuel sent
          | .closed => return .ok true
          | .failed => return .error "Kernel transport write failed"
      | .nothing | .closed => return .ok true
      | .failed => return .error "Kernel transport write failed"

def sendBytes (fuel : Nat) (channel : Channel) (bytes : Bytes) (timeout : Int) :
    Worker (Except String Bool) := do
  let deadline := (← now .sendStart) + timeout
  sendLoop channel bytes deadline fuel 0

def textBytes (text : String) : Bytes := text.toList.map fun letter => UInt8.ofNat letter.toNat

def qmpCommand (fuel : Nat) (name : String) (id : Nat) (timeout : Int) :
    Worker (Except String Unit) := do
  let text := "\x7b\"execute\":\"" ++ name ++ "\",\"id\":" ++ toString id ++ "\x7d\n"
  match ← sendBytes fuel .qmp (textBytes text) timeout with
  | .error message => return .error message
  | .ok true => return .error "QMP channel closed while sending a command"
  | .ok false => return .ok ()

inductive Command
  | none | capabilities | resume | stop
  deriving DecidableEq, Repr

structure KernelOptions where
  timeoutMs : Int
  maximumMs : Int
  interactive : Bool
  startPc : Bool := false
  stopPc : Bool := false
  arguments : List String := []

/-- The variables of `run_kernel` that outlive one pass of its loop. -/
structure KernelState where
  stream : Stream := {}
  frame : Bytes := []
  frameNeeded : Nat := headerBytes
  hello : Bool := false
  greeting : Bool := false
  requested : Bool := false
  draining : Bool := false
  sealed : Bool := false
  traceEof : Bool := false
  consoleEof : Bool := false
  guestComplete : Bool := false
  childDone : Bool := false
  guestStarted : Bool := false
  progress : KernelTerminalProgress
  childStatus : ChildStatus := .exited 0
  pending : Nat := 0
  nextId : Nat := 1
  command : Command := .none
  deadline : Int
  maximumDeadline : Int
  controlDeadline : Int := 0
  qmpEof : Bool := false
  serialEof : Bool := false
  serialUnterminated : Bool := false

def deadlineMessage : String := "Target exceeded --max-run-ms deadline"

/-- What `send_client` and `send_qmp` share: the write gets no more time than the run has left,
and a write that fails at the deadline turns into the report. -/
def withinDeadline {α : Type} (k : KernelState) (timeout : Int)
    (write : Int → Worker (Except String α)) : Worker (Except String α) := do
  if k.maximumDeadline = 0 then write timeout
  else
    let available := k.maximumDeadline - (← now .beforeSend)
    if available ≤ 0 then
      reportDeadline k.progress
      return .error deadlineMessage
    else
      match ← write (if available < timeout then available else timeout) with
      | .ok value => return .ok value
      | .error message =>
        if k.maximumDeadline ≤ (← now .afterSend) then
          reportDeadline k.progress
          return .error deadlineMessage
        else return .error message

def sendClient (fuel : Nat) (k : KernelState) (bytes : Bytes) (timeout : Int) :
    Worker (Except String Bool) :=
  withinDeadline k timeout (sendBytes fuel .client bytes)

def sendQmp (fuel : Nat) (o : KernelOptions) (k : KernelState) (name : String) (id : Nat) :
    Worker (Except String Unit) :=
  withinDeadline k o.timeoutMs (qmpCommand fuel name id)

/-- Send to the client, and end the run when the write failed or the client has gone. -/
def forward (fuel : Nat) (k : KernelState) (bytes : Bytes) (timeout : Int) : Worker Unit := do
  match ← sendClient fuel k bytes timeout with
  | .ok false => return
  | ended => leave ended

def issue (fuel : Nat) (o : KernelOptions) (k : KernelState) (command : Command) (name : String) :
    Worker KernelState := do
  let k := { k with pending := k.nextId, nextId := k.nextId+1, command }
  let k := { k with controlDeadline := (← now .control) + o.timeoutMs }
  match ← sendQmp fuel o k name k.pending with
  | .error message => failWith message
  | .ok () => return k

def onlyIf (condition : Prop) [Decidable condition] (step : KernelState → Worker KernelState)
    (k : KernelState) : Worker KernelState :=
  if condition then step k else pure k

def restartDeadline (o : KernelOptions) (k : KernelState) : Worker KernelState := do
  return { k with deadline := (← now .control) + o.timeoutMs }

def printable (byte : UInt8) : Bool := 32 ≤ byte ∧ byte ≤ 126

/-- Read the length and then the line of an action. -/
def actionLoop (deadline : Int) : Nat → Bytes → Nat → Worker (Except (Except String Bool) Bytes)
  | 0, _, _ => throw .unfinished
  | fuel+1, bytes, needed => do
    if needed ≤ bytes.length then return .ok bytes
    else
      let remaining := deadline - (← now .action)
      if remaining ≤ 0 then return .error (.error "Kernel action timed out")
      else
        match ← call (.pollAction remaining) with
        | .interrupted => actionLoop deadline fuel bytes needed
        | .timedOut | .closed | .failed =>
          return .error (.error "Cannot receive kernel action before timeout")
        | .ready =>
          match ← call (.receiveAction (needed-bytes.length)) with
          | .finished | .closed => return .error (.ok true)
          | .interrupted => actionLoop deadline fuel bytes needed
          | .failed => return .error (.error "Cannot receive kernel action")
          | .data more _ =>
            let bytes := bytes ++ more
            if bytes.length = 4 ∧ needed = 4 then
              let length := load bytes 4
              if length < 2 ∨ length > 127 then
                return .error (.error "Kernel action needs 2..127 bytes")
              else actionLoop deadline fuel bytes (needed+length)
            else actionLoop deadline fuel bytes needed

def action (fuel : Nat) (timeout : Int) : Worker (Except String Bool) := do
  let deadline := (← now .action) + timeout
  match ← actionLoop deadline fuel [] 4 with
  | .error result => return result
  | .ok bytes =>
    let line := bytes.drop 4
    if line.getLast? ≠ some 10 then return .error "Kernel command needs a newline"
    else if line.dropLast.any fun byte => !printable byte then
      return .error "Kernel command must be a single printable ASCII line"
    else
      match ← sendBytes fuel .serial line timeout with
      | .error message => return .error message
      | .ok true => return .error "Guest serial channel closed during action delivery"
      | .ok false => return .ok false

def readTrace (o : KernelOptions) (k : KernelState) : Worker KernelState := do
  match ← call (.readTrace (k.frameNeeded-k.frame.length)) with
  | .data bytes _ =>
    restartDeadline o { k with frame := k.frame ++ bytes }
  | .finished => return { k with traceEof := true }
  | .interrupted => return k
  | .closed | .failed => failWith "Cannot read kernel capture pipe"

/-- Once the header is there the payload is asked for. -/
def completeHeader (k : KernelState) : Worker KernelState :=
  if k.frame.length = headerBytes ∧ k.frameNeeded = headerBytes then
    match decodeHeader k.frame with
    | .error message => failWith message
    | .ok h => return { k with frameNeeded := k.frameNeeded+payloadSize h }
  else return k

def validate (k : KernelState) (h : Header) : Worker KernelState :=
  match accept h (some (k.frame.drop headerBytes)) k.stream with
  | .ok () stream => return { k with stream }
  | .error (.failure message) _ => failWith message
  | .error .divergence _ => throw .unfinished

def negotiate (o : KernelOptions) (k : KernelState) (h : Header) : Worker KernelState :=
  if k.hello then return k
  else if h.kind ≠ .hello ∨ ¬Has h.detail featureSystem ∨
      decide (Has h.detail featureKernel) ≠ o.interactive then
    failWith "Kernel plugin did not negotiate the requested system protocol"
  else return { k with hello := true }

/-- What the client has seen after a forwarded frame. -/
def KernelTerminalProgress.after (progress : KernelTerminalProgress) (h : Header) :
    KernelTerminalProgress :=
  let progress :=
    if h.kind = .hello then { progress with helloSent := true, version := h.version.toNat }
    else progress
  if observationFrame h.kind then
    { progress with
      dataSent := true
      startObserved := progress.startObserved ||
        (progress.startConfigured && executionFrame h.kind) }
  else progress

/-- The client answers a drained frontier with an action; then the guest goes on. -/
def answerRequest (fuel : Nat) (o : KernelOptions) (k : KernelState) : Worker KernelState := do
  match ← action fuel o.timeoutMs with
  | .ok false =>
    let k ← issue fuel o { k with draining := false, requested := false } .resume "cont"
    restartDeadline o k
  | ended => leave ended

def forwardFrame (fuel : Nat) (o : KernelOptions) (remaining : Int) (k : KernelState)
    (h : Header) : Worker KernelState := do
  stopIf (h.kind = .kernelRequest ∧ (o.interactive = false ∨ k.draining = false))
    "Unexpected kernel drain seal"
  if h.kind = .error then
    let _ ← sendClient fuel k k.frame remaining
    failWith "Kernel capture failed"
  else
    forward fuel k k.frame remaining
    let k := { k with progress := k.progress.after h }
    if h.kind = .kernelRequest then answerRequest fuel o k else return k

def keepOrForward (fuel : Nat) (o : KernelOptions) (remaining : Int) (k : KernelState)
    (h : Header) : Worker KernelState :=
  if h.kind = .complete then return { k with sealed := true }
  else forwardFrame fuel o remaining k h

/-- A whole frame: validate it, then keep the seal or forward it. -/
def frameReady (fuel : Nat) (o : KernelOptions) (remaining : Int) (k : KernelState) :
    Worker KernelState := do
  stopIf (k.sealed = true) "Kernel capture continued after its seal"
  match decodeHeader (k.frame.take headerBytes) with
  | .error message => failWith message
  | .ok h =>
    let k ← validate k h
    let k ← negotiate o k h
    let k ← keepOrForward fuel o remaining k h
    return { k with frame := [], frameNeeded := headerBytes }

def traceReady (fuel : Nat) (o : KernelOptions) (remaining : Int) (k : KernelState) :
    Worker KernelState := do
  let k ← readTrace o k
  let k ← completeHeader k
  let k ← onlyIf (k.frame.length = k.frameNeeded) (frameReady fuel o remaining) k
  stopIf (k.traceEof = true ∧ (k.sealed = false ∨ k.frame ≠ [])) "Incomplete kernel trace"
  return k

/-- The command that was outstanding has been answered. -/
def commandCompleted (fuel : Nat) (o : KernelOptions) (completed : Command) (k : KernelState) :
    Worker KernelState :=
  match completed with
  | .capabilities => issue fuel o k .resume "cont"
  | .stop => do
    match ← call .requestDrain with
    | .error message => failWith message
    | .ok () => return { k with draining := true }
  | .none | .resume => return { k with controlDeadline := 0 }

def qmpMessage (fuel : Nat) (o : KernelOptions) (k : KernelState) (message : QmpMessage) :
    Worker KernelState := do
  stopIf (message.valid = false) "Invalid bounded QMP response"
  if message.greeting then
    stopIf (k.greeting = true) "Repeated QMP greeting"
    issue fuel o { k with greeting := true } .capabilities "qmp_capabilities"
  else if message.id.isSome then
    stopIf (message.id ≠ some (some (k.pending : Int)) ∨ k.pending = 0 ∨ message.hasError = true ∨
      message.hasReturn = false) "Unexpected or failed QMP command response"
    commandCompleted fuel o k.command { k with command := .none, pending := 0 }
  else if message.hasEvent = false then failWith "Unknown QMP message"
  else return k

def qmpMessages (fuel : Nat) (o : KernelOptions) : List QmpMessage → KernelState →
    Worker KernelState
  | [], k => return k
  | message::messages, k => do
    let k ← qmpMessage fuel o k message
    let k ← restartDeadline o k
    qmpMessages fuel o messages k

def qmpReady (fuel : Nat) (o : KernelOptions) (k : KernelState) : Worker KernelState := do
  match ← call .readQmp with
  | .error message => failWith message
  | .ok lines => qmpMessages fuel o lines.lines { k with qmpEof := lines.eof }

def consoleReady (k : KernelState) : Worker KernelState := do
  match ← call .readConsole with
  | .data _ _ | .interrupted => return k
  | .finished => return { k with consoleEof := true }
  | .closed | .failed => failWith "Cannot read guest console channel"

def guestEvent (o : KernelOptions) (k : KernelState) (line : GuestLine) : Worker KernelState :=
  if line.event = "start" then
    if k.guestStarted then failWith "Guest reboot or repeated adapter start is unsupported"
    else if line.mode ≠ some (if o.interactive then "interactive" else "observe") then
      failWith "Guest protocol mode does not match the worker"
    else return { k with guestStarted := true }
  else if line.event = "ready" then
    if o.interactive = false ∨ k.guestStarted = false ∨ k.requested = true ∨
        k.guestComplete = true then
      failWith "Unexpected guest action request"
    else return { k with requested := true }
  else if line.event = "complete" then
    if k.guestStarted = false ∨ k.guestComplete = true ∨ k.requested = true ∨ k.draining = true ∨
        line.ok ≠ some true then
      failWith "Guest adapter reported an unsuccessful workload"
    else return { k with guestComplete := true }
  else if line.event ≠ "result" ∧ line.event ≠ "error" then failWith "Unknown guest adapter event"
  else if k.guestStarted = false ∨ k.guestComplete = true then
    failWith "Invalid guest event size or ordering"
  else return k

def eventCapacity : Nat := 1024

def guestEventHeader (size : Nat) : Header := { kind := .guestEvent, detail := UInt64.ofNat size }

def forwardEvent (fuel : Nat) (o : KernelOptions) (k : KernelState) (line : GuestLine) :
    Worker Unit :=
  if o.interactive then
    forward fuel k (encodeHeader (guestEventHeader line.jsonSize) ++
      line.payload.take line.jsonSize) o.timeoutMs
  else pure ()

def serialLine (fuel : Nat) (o : KernelOptions) (k : KernelState) (line : GuestLine) :
    Worker KernelState := do
  stopIf (line.marked = false) "Invalid guest protocol line"
  stopIf (line.jsonSize = 0 ∨ line.jsonSize > eventCapacity) "Invalid guest event size or ordering"
  stopIf (k.hello = false) "Invalid guest event size or ordering"
  stopIf (line.problem ≠ none) "Invalid guest adapter event"
  stopIf (line.suffix = .invalid) "Invalid guest adapter event"
  let k ← guestEvent o k line
  forwardEvent fuel o k line
  restartDeadline o k

def serialLines (fuel : Nat) (o : KernelOptions) : List GuestLine → KernelState →
    Worker KernelState
  | [], k => return k
  | line::lines, k => do
    let k ← serialLine fuel o k line
    serialLines fuel o lines k

def serialReady (fuel : Nat) (o : KernelOptions) (k : KernelState) : Worker KernelState := do
  match ← call .readSerial with
  | .error message => failWith message
  | .ok lines =>
    serialLines fuel o lines.lines
      { k with serialEof := lines.eof, serialUnterminated := lines.unterminated }

def requestStop (fuel : Nat) (o : KernelOptions) (k : KernelState) : Worker KernelState :=
  if o.interactive = true ∧ k.requested = true ∧ k.pending = 0 ∧ k.draining = false then
    issue fuel o k .stop "stop"
  else return k

def reapChild (k : KernelState) : Worker KernelState := do
  if k.childDone then return k
  else
    match ← call .waitChild with
    | .ended status => return { k with childDone := true, childStatus := status }
    | .running | .interrupted => return k
    | .failed => failWith "Cannot reap system QEMU"

/-- Everything has ended: check how, and complete the client's stream. -/
def finishRun (fuel : Nat) (remaining : Int) (k : KernelState) : Worker Unit := do
  stopIf (k.serialUnterminated = true ∨ k.guestComplete = false)
    "Guest exited without a successful adapter completion"
  stopIf (k.childStatus ≠ .exited 0) "System QEMU failed after capture completion"
  forward fuel k (encodeHeader { kind := .complete }) remaining
  leave (.ok false)

/-- The time a pass may wait, and the two deadlines it may have missed. -/
def timeLeft (k : KernelState) : Worker Int := do
  let current ← now .loop
  if k.maximumDeadline ≠ 0 ∧ k.maximumDeadline ≤ current then
    reportDeadline k.progress
    failWith deadlineMessage
  else
    let inactivity := k.deadline - current
    let remaining :=
      if k.maximumDeadline ≠ 0 ∧ k.maximumDeadline - current < inactivity then
        k.maximumDeadline - current
      else inactivity
    stopIf (remaining ≤ 0) "Kernel run timed out before capture or action boundary"
    return remaining

def checkControl (k : KernelState) : Worker Unit := do
  if k.controlDeadline ≠ 0 then
    stopIf (k.controlDeadline ≤ (← now .control)) "Kernel QMP command or trace drain timed out"

def channelsReady (fuel : Nat) (o : KernelOptions) (remaining : Int) (watches : Watches)
    (k : KernelState) : Worker KernelState := do
  let k ← onlyIf (watches.trace ∧ k.traceEof = false) (traceReady fuel o remaining) k
  let k ← onlyIf (watches.qmp ∧ k.qmpEof = false) (qmpReady fuel o) k
  let k ← onlyIf (watches.console ∧ k.consoleEof = false) consoleReady k
  let k ← onlyIf (watches.serial ∧ k.serialEof = false) (serialReady fuel o) k
  stopIf (k.serialEof ∧ k.serialUnterminated) "Guest serial channel ended inside a line"
  let k ← requestStop fuel o k
  reapChild k

def kernelPass (fuel : Nat) (o : KernelOptions) (k : KernelState) : Worker KernelState := do
  let remaining ← timeLeft k
  if k.sealed ∧ k.traceEof ∧ k.childDone ∧ k.consoleEof ∧ k.serialEof then
    finishRun fuel remaining k
    return k
  else
    checkControl k
    match ← call (.pollChannels (if remaining > 100 then 100 else remaining)) with
    | .interrupted => return k
    | .failed => failWith "Cannot poll kernel channels"
    | .ready watches =>
      match watches.client with
      | .gone => leave (.ok true)
      | .input => failWith "Kernel action arrived before a paused boundary"
      | .quiet => channelsReady fuel o remaining watches k

def kernelLoop (fuel : Nat) (o : KernelOptions) : Nat → KernelState → Worker Unit
  | 0, _ => throw .unfinished
  | passes+1, k => do
    let k ← kernelPass fuel o k
    kernelLoop fuel o passes k

def reservedOptions : List String :=
  ["qmp","monitor","mon","serial","nographic","daemonize","S","incoming","gdb","s"]

/-- The argument is one of the options that the worker owns. -/
def reservedArgument (argument : String) : Bool :=
  argument.toList.head? == some '-' &&
    reservedOptions.any fun option =>
      let name := argument.toList.dropWhile (· == '-')
      name == option.toList || (option.toList ++ ['=']).isPrefixOf name

/-- What must succeed before the loop, with the error of each step. -/
def setupFailures : List String :=
  ["Cannot accept kernel consumer","Cannot create kernel capture pipe",
    "Cannot create kernel drain pipe","Cannot create QMP channel",
    "Cannot create guest console channel","Cannot create guest serial channel",
    "Cannot configure kernel channels","Kernel plugin options too long",
    "Too many kernel QEMU arguments","Cannot start system QEMU"]

def setup : List String → Worker Unit
  | [] => return
  | failure::failures => do
    let succeeded : Bool ← call (.setup failure)
    stopIf (succeeded = false) failure
    setup failures

def startMaximum (o : KernelOptions) : Worker Int := do
  if o.maximumMs = 0 then return 0
  else return (← now .startMaximum) + o.maximumMs

/-- The part of `run_kernel` before its loop. -/
def kernelStart (o : KernelOptions) : Worker KernelState := do
  stopIf (o.arguments.any reservedArgument)
    "Kernel protocol owns QMP/serial/startup; remove conflicting QEMU option"
  setup setupFailures
  let deadline := (← now .start) + o.timeoutMs
  let maximumDeadline ← startMaximum o
  return {
    progress := { startConfigured := o.startPc, stopConfigured := o.stopPc }
    deadline
    maximumDeadline }

/-- `run_kernel`, cut off after `fuel` passes of any of its loops. -/
def runKernel (fuel : Nat) (o : KernelOptions) : Worker Unit := do
  let k ← kernelStart o
  kernelLoop fuel o fuel k

/-- The calls of a whole run of `run_kernel` in an environment that may answer anything. -/
def kernelLog (fuel : Nat) (o : KernelOptions) (oracle : KernelLog → (q : KernelCall) → KernelAnswer q) :
    KernelLog :=
  ((runKernel fuel o).run.run oracle []).2

end Cpu2Tensor
