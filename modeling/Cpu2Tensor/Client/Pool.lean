import Cpu2Tensor.Client.Collator
import Cpu2Tensor.Client.Native
import Cpu2Tensor.Client.Terminal

/-!
# The reader of one worker

`Pool._read` over a connection that is already made.  When the bytes of the worker arrive is up to
a schedule; the observer of wire frames does not raise.
-/

namespace Cpu2Tensor.Client
open Library

inductive TransportFault
  | timeout | reset | error
  deriving DecidableEq, Repr

def TransportFault.transport : TransportFault → TransportEnd
  | .timeout => .timeout
  | .reset => .reset
  | .error => .error

/-- The answer of the operating system to a receive or a peek. -/
inductive Arrival
  | bytes (limit : Nat)
  | fault (fault : TransportFault)
  deriving DecidableEq, Repr

/-- The answers to the calls on a connection, by their number. -/
structure Schedule where
  recv : Nat → Arrival
  peek : Nat → Arrival

/-- What the worker sends until it closes the connection and is not read yet, the number of calls
so far, and the frames that the observer saw. -/
structure Connection where
  rest : Bytes
  time : Nat := 0
  observed : List Bytes := []

inductive Stop
  | cleanEnd (truncated : Bool)
  | transport (fault : TransportFault)
  | raised (error : ReadError ClientError)
  | returned (outcome : TerminalOutcome)
  | hangs
  deriving DecidableEq, Repr

def valueError (message : String) : Stop := .raised (.other (.value message))

/-- A validator that fails raises a ValueError; one that loops does not return. -/
def faultStop : Fault → Stop
  | .failure message => valueError message
  | .divergence => .hangs

/-- `recv_into` of at most `size` bytes; no bytes are the end of the connection. -/
def recvInto (schedule : Schedule) (size : Nat) (c : Connection) : Except Stop (Bytes × Connection) :=
  match schedule.recv c.time with
  | .fault fault => .error (.transport fault)
  | .bytes limit =>
    let count := max 1 (min limit size)
    .ok (c.rest.take count,{ c with rest := c.rest.drop count, time := c.time+1 })

/-- The loop of `_receive`; every pass adds a byte. -/
def receiveLoop (schedule : Schedule) (size : Nat) (frameStarted : Bool) :
    Nat → Bytes → Connection → Except Stop (Bytes × Connection)
  | 0, data, c => if data.length < size then .error .hangs else .ok (data,c)
  | fuel+1, data, c =>
    if data.length < size then
      match recvInto schedule (size-data.length) c with
      | .error stop => .error stop
      | .ok (part,c) =>
        if part = [] then .error (.cleanEnd (frameStarted || data ≠ []))
        else receiveLoop schedule size frameStarted fuel (data ++ part) c
    else .ok (data,c)

def receive (schedule : Schedule) (size : Nat) (frameStarted : Bool) (c : Connection) :
    Except Stop (Bytes × Connection) :=
  receiveLoop schedule size frameStarted size [] c

def headerSize (header : Bytes) : Except Stop Nat :=
  match decodeHeader header with
  | .error message => .error (valueError message)
  | .ok h => .ok (payloadSize h)

def receiveFrame (schedule : Schedule) (c : Connection) : Except Stop (Bytes × Connection) := do
  let (header,c) ← receive schedule headerBytes false c
  let size ← headerSize header
  let (payload,c) ← receive schedule size true c
  return (header ++ payload,{ c with observed := c.observed ++ [header ++ payload] })

/-- `_complete_frame_is_ready`: two looks at the bytes that have arrived. -/
def completeFrameIsReady (schedule : Schedule) (c : Connection) : Except Stop Bool :=
  match schedule.peek c.time with
  | .fault fault => .error (.transport fault)
  | .bytes seen =>
    let header := c.rest.take (min seen headerBytes)
    if header.length < headerBytes then .ok false
    else
      match headerSize header with
      | .error stop => .error stop
      | .ok size =>
        match schedule.peek (c.time+1) with
        | .fault fault => .error (.transport fault)
        | .bytes seen =>
          .ok (decide ((c.rest.take (min seen (headerBytes+size))).length = headerBytes+size))

def kindField (frame : Bytes) : Nat := load (frame.drop 6) 2

/-- What is read ahead of a mixed frame: more mixed frames, the frame of another kind that ends
them, and the error that ends them. -/
structure Ahead where
  frames : List Bytes := []
  pending : Option Bytes := none
  deferred : Option Stop := none
  connection : Connection

def readAhead (schedule : Schedule) : Nat → Connection → Ahead
  | 0, c => { connection := c }
  | more+1, c =>
    match completeFrameIsReady schedule c with
    | .error stop => { deferred := some stop, connection := c }
    | .ok false => { connection := { c with time := c.time+2 } }
    | .ok true =>
      match receiveFrame schedule { c with time := c.time+2 } with
      | .error stop => { deferred := some stop, connection := c }
      | .ok (following,c) =>
        if kindField following ≠ Kind.mixed.code then { pending := some following, connection := c }
        else
          let ahead := readAhead schedule more c
          { ahead with frames := following::ahead.frames }

/-- The local variables of `_read` and what it has yielded. -/
structure Session where
  endpoint : String := ""
  helloReceived : Bool := false
  dataReceived : Bool := false
  startConfigured : Option Bool := none
  stopConfigured : Option Bool := none
  reducedObservation : Bool := false
  contextGrouping : Bool := false
  pendingSummaries : List Batch := []
  stream : Stream := {}
  names : Dict Nat Names := {}
  collator : Option Collator := none
  yielded : List Batch := []

abbrev SessionM := EStateM Stop Session

def emit (batches : List Batch) : SessionM Unit :=
  modify fun s => { s with yielded := s.yielded ++ batches }

/-- Hand a call to the collator and yield what it returns; without one a batch is yielded as it is. -/
def collate (request : Collator.Call) : SessionM Unit := do
  match (← get).collator with
  | none => emit request.added
  | some c =>
    match c.call request with
    | .error e => throw (.raised (.other e))
    | .ok (c,ready) =>
      modify fun s => { s with collator := some c }
      emit ready

def Session.makeOutcome (s : Session) (reason : TerminalReason) : TerminalOutcome where
  reason := reason
  endpoint := s.endpoint
  helloReceived := s.helloReceived
  dataReceived := s.dataReceived

def completedBoundary : Option Bool → BoundaryProgress
  | none => .unknown
  | some true => .observed
  | some false => .notConfigured

def reportedBoundary (flags configured observed : UInt8) : BoundaryProgress :=
  if flags &&& configured = 0 then .notConfigured
  else if flags &&& observed ≠ 0 then .observed
  else .notObserved

def Kind.isDelivered : Kind → Bool
  | .blocks | .registers | .memory | .addressContext | .executableLayout | .mixed
  | .blockTransitions | .transitionWindow | .observationSummary | .reducedContext
  | .contextFilter => true
  | _ => false

/-- What a decoded frame says about the progress of the trace. -/
def Session.progress (s : Session) (d : Decoded) : Session :=
  let detail := UInt64.ofNat d.detail
  if d.kind = .hello then
    { s with
      helloReceived := true
      startConfigured := some (decide (Has detail featureWindow))
      stopConfigured := some (decide (Has detail featureStop))
      contextGrouping := decide (Has detail featureAddressContext ∧ Has detail featureMixed ∧
        ¬Has detail (featureMemory ||| featureRegisters))
      reducedObservation := decide (Has detail featureObservationReduction) }
  else if Kind.isDelivered d.kind then { s with dataReceived := true }
  else s

/-- Later names of a register replace earlier ones. -/
def updatedNames (names : Option Names) (update : List (Nat × String)) : Names :=
  update.foldl (fun names entry => names.set entry.1 entry.2) (names.getD {})

def addNames (d : Decoded) : SessionM Unit :=
  match d.payload with
  | .schema update => modify fun s =>
    { s with names := s.names.set d.source (updatedNames (s.names.get? d.source) update) }
  | _ => throw (.raised (.other (.type "payload does not match its kind")))

def deliver (d : Decoded) : SessionM Unit := do
  let s ← get
  match batchOf d (s.names.get? d.source) s.reducedObservation with
  | .error e => throw (.raised (.other e))
  | .ok batch =>
    if d.kind = .observationSummary then
      modify fun s => { s with pendingSummaries := s.pendingSummaries ++ [batch] }
    else if s.reducedObservation = true ∧ (d.kind = .blockTransitions ∨ d.kind = .reducedContext) then
      emit [batch]
    else collate (.add batch)

def Session.completeOutcome (s : Session) (detail : Nat) : TerminalOutcome :=
  { s.makeOutcome (if detail = 0 then .complete else .targetExit) with
    start := completedBoundary s.startConfigured
    stop := completedBoundary s.stopConfigured
    complete := true }

def completeTrace (detail : Nat) : SessionM Unit := do
  collate .finish
  let s ← get
  if detail ≠ 0 then
    throw (.raised (.trace .terminal ("Target exited with code " ++ toString detail)
      (s.completeOutcome detail)))
  else
    emit s.pendingSummaries
    throw (.returned (s.completeOutcome detail))

def reportedFailure : Nat → Option (TerminalReason × String)
  | 1 => some (.captureFailure,"capture failed")
  | 2 => some (.targetKilled,"target was killed")
  | 3 => some (.unsupportedTarget,"target behavior is not supported")
  | 4 => some (.workerTransportFailure,"worker transport failed")
  | _ => none

def Session.failure (s : Session) (detail : Nat) : Stop :=
  match reportedFailure detail with
  | none => .raised (.other (.key detail))
  | some (reason,text) =>
    .raised (.trace .terminal ("Incomplete trace: " ++ text) (s.makeOutcome reason))

/-- `_raise_reported_terminal`; the connection is read once more and must be at its end. -/
def Session.reportedTerminal (s : Session) (detail : UInt64) (trailing : Arrival) (rest : Bytes) :
    Stop :=
  let version := detail.toUInt8
  let reasonCode := (detail >>> 8).toUInt8
  let flags := (detail >>> 16).toUInt8
  let helloReported := decide (flags &&& terminalHello ≠ 0)
  let dataReported := decide (flags &&& terminalData ≠ 0)
  let message := "Incomplete trace: target exceeded its max-run deadline"
  if version ≠ terminalReportVersion ∨ reasonCode ≠ 1 then
    valueError "Unknown terminal report version or reason"
  else if s.helloReceived ≠ helloReported ∨ s.dataReceived ≠ dataReported then
    valueError "Terminal report contradicts received trace progress"
  else if s.helloReceived = true ∧
      (s.startConfigured ≠ some (decide (flags &&& terminalStartConfigured ≠ 0)) ∨
        s.stopConfigured ≠ some (decide (flags &&& terminalStopConfigured ≠ 0))) then
    valueError "Terminal report contradicts Hello boundary configuration"
  else
    let outcome :=
      { s.makeOutcome .maxRunDeadline with
        helloReported := some helloReported
        dataReported := some dataReported
        start := reportedBoundary flags terminalStartConfigured terminalStartObserved
        stop := reportedBoundary flags terminalStopConfigured terminalStopObserved }
    match trailing with
    | .fault .timeout => .raised (.trace .timeout message { outcome with transport := .timeout })
    | .fault fault =>
      .raised (.trace .connection message { outcome with transport := fault.transport })
    | .bytes _ =>
      if rest ≠ [] then valueError "Trace contains data after its terminal report"
      else .raised (.trace .terminal message { outcome with transport := .clean })

/-- One decoded frame; a terminal report also looks at what follows it. -/
def handle (d : Decoded) (trailing : Arrival) (rest : Bytes) : SessionM Unit := do
  modify fun s => s.progress d
  let detail := UInt64.ofNat d.detail
  if d.kind = .hello ∧ Has detail featureStdio then
    throw (valueError "Use StdioEnv for an interactive worker")
  else if d.kind = .hello ∧ Has detail featureKernel then
    throw (valueError "Use KernelEnv for an interactive system worker")
  else if Kind.isDelivered d.kind then deliver d
  else
    match d.kind with
    | .registerSchema => addNames d
    | .sourceEnd => collate (.endSource d.source 0)
    | .complete => completeTrace d.detail
    | .error => do throw ((← get).failure d.detail)
    | .terminalReport => do throw ((← get).reportedTerminal detail trailing rest)
    | _ => pure ()

def handleAll (trailing : Arrival) (rest : Bytes) : List Decoded → SessionM Unit
  | [] => pure ()
  | d::decoded => do
    handle d trailing rest
    handleAll trailing rest decoded

structure Ended where
  connection : Connection
  session : Session
  stop : Stop

/-- Handle the frames of one pass; `next` is the rest of the loop. -/
def handlePass (c : Connection) (trailing : Arrival) (decoded : List Decoded) (s : Session)
    (next : Session → Ended) : Ended :=
  match handleAll trailing c.rest decoded s with
  | .error stop s => ⟨c,s,stop⟩
  | .ok _ s => next s

/-- One pass that starts with a mixed frame of a context-only trace. -/
def groupPass (schedule : Schedule) (frame : Bytes) (c : Connection) (s : Session)
    (next : Option Bytes → Connection → Session → Ended) : Ended :=
  let ahead := readAhead schedule (maxContextGroupFrames-1) c
  let (stream,result) := decodeContextFrames (frame::ahead.frames) s.stream
  match result with
  | .error e => ⟨ahead.connection,{ s with stream },.raised (.other e)⟩
  | .ok group =>
    handlePass ahead.connection (schedule.recv ahead.connection.time) group.outputs { s with stream }
      fun s =>
        match group.error with
        | some fault => ⟨ahead.connection,s,faultStop fault⟩
        | none =>
          match ahead.deferred with
          | some stop => ⟨ahead.connection,s,stop⟩
          | none => next ahead.pending ahead.connection s

def framePass (schedule : Schedule) (frame : Bytes) (c : Connection) (s : Session)
    (next : Option Bytes → Connection → Session → Ended) : Ended :=
  outcome (decode frame s.stream) (fun fault stream => ⟨c,{ s with stream },faultStop fault⟩)
    fun d stream => handlePass c (schedule.recv c.time) [d] { s with stream } (next none c)

/-- The loop of `_read`; a pass takes a frame from the connection or the pending one. -/
def readLoop (schedule : Schedule) : Nat → Option Bytes → Connection → Session → Ended
  | 0, _, c, s => ⟨c,s,.hangs⟩
  | fuel+1, pending, c, s =>
    match (pending.map fun frame => Except.ok (frame,c)).getD (receiveFrame schedule c) with
    | .error stop => ⟨c,s,stop⟩
    | .ok (frame,c) =>
      if s.contextGrouping = true ∧ kindField frame = Kind.mixed.code then
        groupPass schedule frame c s (readLoop schedule fuel)
      else framePass schedule frame c s (readLoop schedule fuel)

/-- How `read` ended: a normal return with its outcome, an exception, or not at all. -/
inductive Ending
  | returned (outcome : TerminalOutcome)
  | raised (error : ReadError ClientError)
  | hangs
  deriving DecidableEq, Repr

/-- The exception handlers of `_read`. -/
def Session.conclude (s : Session) : Stop → Ending
  | .cleanEnd true => .raised (.trace .terminal "Incomplete trace: worker disconnected inside a frame"
      { s.makeOutcome .truncatedStream with transport := .clean })
  | .cleanEnd false => .raised (.trace .terminal
      "Incomplete trace: worker disconnected before completion"
      { s.makeOutcome .unknownDisconnection with transport := .clean })
  | .transport .timeout => .raised (.trace .timeout "Trace connection timed out before completion"
      { s.makeOutcome .clientTimeout with transport := .timeout })
  | .transport fault => .raised (.trace .connection "Trace connection failed before completion"
      { s.makeOutcome .unknownDisconnection with transport := fault.transport })
  | .raised error => .raised error
  | .returned outcome => .returned outcome
  | .hangs => .hangs

/-- A whole read: how it ended, what it yielded and the frames that the observer saw. -/
structure ReadResult where
  ending : Ending
  yielded : List Batch
  observed : List Bytes

/-- `Pool.read` of a worker that sends `bytes` and then closes the connection.  A pass consumes a
frame, so there are fewer of them than bytes. -/
def poolRead (endpoint : String) (batchBytes : Nat) (schedule : Schedule) (bytes : Bytes) : ReadResult :=
  let collator : Option Collator := if batchBytes = 0 then none else some { targetBytes := batchBytes }
  let ended := readLoop schedule (bytes.length+1) none { rest := bytes } { endpoint, collator }
  ⟨ended.session.conclude ended.stop,ended.session.yielded,ended.connection.observed⟩

end Cpu2Tensor.Client
