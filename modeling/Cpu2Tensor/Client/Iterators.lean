import Cpu2Tensor.Client.Pool

/-!
# The observation iterators of an interactive client

`StdioEnv` and `KernelEnv` with every iterator they have returned.  An iterator is a generator: it
runs when it is asked for the next batch, is suspended at a batch, and its `finally` runs when it
ends or is closed.  What a worker sends on a connection, and when, is arbitrary.
-/

namespace Cpu2Tensor.Client
open Library

inductive Variant
  | stdio | kernel
  deriving DecidableEq, Repr

def Variant.className : Variant → String
  | .stdio => "StdioEnv"
  | .kernel => "KernelEnv"

def Variant.feature : Variant → UInt64
  | .stdio => featureStdio
  | .kernel => featureKernel

def Variant.requestKind : Variant → Kind
  | .stdio => .inputRequest
  | .kernel => .kernelRequest

/-- The workers behind the connections and the JSON parser.  `eventName` is the value of "event"
when the parsed value is an object whose "event" is a string. -/
structure World (V : Type) where
  bytes : Nat → Bytes
  schedule : Nat → Schedule
  loads : Bytes → Except ClientError V
  eventName : V → Option String

variable {V : Type}

/-- The fields of a client; the events are those of `KernelEnv`. -/
structure Interactive (V : Type) where
  variant : Variant
  env : StdioEnv
  names : Dict Nat Names := {}
  event : Option V := none
  result : Option V := none

namespace Interactive

def cancelRun (c : Interactive V) : Interactive V := { c with env := c.env.cancelRun }

/-- `KernelEnv._clear_events`; a `StdioEnv` has no events. -/
def clearEvents (c : Interactive V) : Interactive V := { c with event := none, result := none }

/-- The checks of `step`; `none` is an action that is not a bytes object. -/
def checkedStep (c : Interactive V) : Option Bytes → Except ClientError (StdioEnv × Bytes)
  | some action =>
    match c.variant with
    | .stdio => c.env.step action
    | .kernel => KernelEnv.step c.env action
  | none =>
    match c.variant with
    | .kernel => .error (.type "Kernel actions must be bytes")
    | .stdio =>
      if c.env.closed then .error (.runtime (c.env.className ++ " is closed"))
      else if c.env.reading then
        .error (.runtime "Consume all observations before taking an action")
      else if c.env.needsInput = false ∨ c.env.connection = none then
        .error (.runtime "The target is not waiting for input; call reset first")
      else .error (.type "Stdio actions must be bytes")

def guestEvent (world : World V) (c : Interactive V) (payload : Bytes) :
    Except ClientError (Interactive V) :=
  match c.variant with
  | .stdio => .error (.runtime "Unexpected guest adapter event")
  | .kernel =>
    match world.loads payload with
    | .error e => .error e
    | .ok event =>
      match world.eventName event with
      | none => .error (.value "Invalid guest adapter event")
      | some name =>
        .ok { c with
          event := some event
          result := if name = "result" then some event else c.result }

end Interactive

/-- Where a generator is: before its first line, at a `yield`, or at its end. -/
inductive Position
  | created
  | suspended (connection : Nat)
  | finished
  deriving DecidableEq, Repr

structure ObservationIterator where
  run : Nat
  first : Bool
  position : Position := .created
  deriving DecidableEq, Repr

/-- What went over a connection: a frame, or a receive that failed, for an iterator; or an action. -/
inductive Exchange
  | received (iterator connection : Nat) (frame : Option Bytes)
  | sent (connection : Nat) (bytes : Bytes)
  deriving DecidableEq, Repr

def Exchange.connection : Exchange → Nat
  | .received _ connection _ => connection
  | .sent connection _ => connection

/-- A client, its iterators and connections, and everything that went over the connections. -/
structure Episodes (V : Type) where
  client : Interactive V
  iterators : List ObservationIterator := []
  sockets : Nat → Connection
  connects : Nat := 0
  log : List Exchange := []

inductive Pass
  | again
  | yields (b : Batch)
  | returns (reachedBoundary : Bool)
  | raises (error : ClientError)

inductive Reply
  | iterator (index : Nat)
  | batch (b : Batch)
  | stopIteration
  | returned
  | raised (error : ClientError)

namespace Episodes

variable (world : World V)

def cancelled : ClientError := .runtime "This observation iterator belongs to a cancelled run"

def yieldsKind : Kind → Bool
  | .blocks | .registers | .memory | .addressContext | .executableLayout | .mixed
  | .blockTransitions | .transitionWindow => true
  | _ => false

/-- What a receive raises, as the handlers of `_read` word it; `none` does not return. -/
def receiveError (name : String) : Stop → Option ClientError
  | .cleanEnd _ => some (.runtime "Incomplete trace: worker disconnected before completion")
  | .transport .timeout =>
    some (.timeout (name ++ " connection timed out before an input request or exit"))
  | .transport _ =>
    some (.connection (name ++ " connection failed before an input request or exit"))
  | .raised (.other e) => some e
  | .raised (.trace _ message _) => some (.runtime message)
  | .returned _ | .hangs => none

def handleFrame (c : Interactive V) (d : Decoded) : Interactive V × Pass :=
  if d.kind = .registerSchema then
    match d.payload with
    | .schema update =>
      ({ c with names := c.names.set d.source (updatedNames (c.names.get? d.source) update) },.again)
    | _ => (c,.raises (.type "payload does not match its kind"))
  else if yieldsKind d.kind then
    match batchOf d (c.names.get? d.source) false with
    | .error e => (c,.raises e)
    | .ok b => (c,.yields b)
  else if d.kind = c.variant.requestKind then
    ({ c with env := { c.env with needsInput := true, maxActionBytes := d.detail } },.returns true)
  else if d.kind = .complete then
    ({ c with env := { c.env with exitCode := some d.detail } },.returns false)
  else if d.kind = .error then
    match reportedFailure d.detail with
    | none => (c,.raises (.key d.detail))
    | some (_,text) => (c,.raises (.runtime ("Incomplete trace: " ++ text)))
  else if d.kind = .guestEvent then
    match d.payload with
    | .bytes bytes =>
      match c.guestEvent world bytes with
      | .error e => (c,.raises e)
      | .ok c => (c,.again)
    | _ => (c,.raises (.type "payload does not match its kind"))
  else (c,.again)

def noteFrame (m : Episodes V) (index connection : Nat) (frame : Bytes) (socket : Connection) :
    Episodes V :=
  { m with
    sockets := Function.update m.sockets connection socket
    log := m.log ++ [.received index connection (some frame)] }

/-- One pass of the loop for iterator `index` of run `run`; `none` does not return. -/
def readPass (index run connection : Nat) (first : Bool) (m : Episodes V) :
    Option (Episodes V × Pass) :=
  let name := m.client.env.className
  if run ≠ m.client.env.run then some (m,.raises cancelled)
  else
    match receiveFrame (world.schedule connection) (m.sockets connection) with
    | .error stop =>
      (receiveError name stop).map fun e =>
        ({ m with log := m.log ++ [.received index connection none] },.raises e)
    | .ok (frame,socket) =>
      let m := m.noteFrame index connection frame socket
      match decode frame m.client.env.stream with
      | .error .divergence _ => none
      | .error (.failure message) stream =>
        some ({ m with client := { m.client with env := { m.client.env with stream } } },
          .raises (.value message))
      | .ok d stream =>
        let c := { m.client with env := { m.client.env with stream } }
        if first ∧ (d.kind ≠ .hello ∨ ¬Has (UInt64.ofNat d.detail) c.variant.feature) then
          some ({ m with client := c },
            .raises (.runtime (name ++ " requires a matching interactive worker")))
        else
          let (c,pass) := handleFrame world c d
          some ({ m with client := c },pass)

/-- The loop, for at most `passes` passes; the flag is whether the first frame is still to come. -/
def readLoop (index run connection : Nat) :
    Nat → Bool → Episodes V → Option (Episodes V × Bool × Pass)
  | 0, _, _ => none
  | passes+1, first, m =>
    match readPass world index run connection first m with
    | none => none
    | some (m,.again) => readLoop index run connection passes false m
    | some (m,pass) => some (m,false,pass)

def finishRun (run : Nat) (reachedBoundary : Bool) (m : Episodes V) : Episodes V :=
  if run = m.client.env.run then
    let c := { m.client with env := { m.client.env with reading := false } }
    { m with client := if reachedBoundary then c else c.cancelRun }
  else m

def setIterator (m : Episodes V) (index : Nat) (it : ObservationIterator) : Episodes V :=
  { m with iterators := m.iterators.set index it }

def leave (m : Episodes V) (index : Nat) (it : ObservationIterator) (reachedBoundary : Bool) :
    Episodes V :=
  (finishRun it.run reachedBoundary m).setIterator index { it with position := .finished }

/-- Run the body from the top of its loop to its next stop. -/
def resume (m : Episodes V) (index : Nat) (it : ObservationIterator) (connection passes : Nat) :
    Option (Episodes V × Reply) :=
  match readLoop world index it.run connection passes it.first m with
  | none => none
  | some (m,first,pass) =>
    match pass with
    | .again => none
    | .yields b =>
      some (m.setIterator index { it with first, position := .suspended connection },.batch b)
    | .returns reachedBoundary => some (m.leave index it reachedBoundary,.stopIteration)
    | .raises e => some (m.leave index it false,.raised e)

/-- `next` of an iterator, in a call of at most `passes` passes. -/
def next (m : Episodes V) (index passes : Nat) : Option (Episodes V × Reply) :=
  match m.iterators[index]? with
  | none => none
  | some it =>
    match it.position with
    | .finished => some (m,.stopIteration)
    | .suspended connection => resume world m index it connection passes
    | .created =>
      if it.run ≠ m.client.env.run then some (m.leave index it false,.raised cancelled)
      else
        match m.client.env.connection with
        | none => some (m.leave index it false,.raised cancelled)
        | some connection => resume world m index it connection passes

/-- `close` of an iterator: the body of a generator that was never started does not run at all. -/
def closeIterator (m : Episodes V) (index : Nat) : Option (Episodes V × Reply) :=
  match m.iterators[index]? with
  | none => none
  | some it =>
    match it.position with
    | .finished => some (m,.returned)
    | .created => some (m.setIterator index { it with position := .finished },.returned)
    | .suspended _ => some (m.leave index it false,.returned)

inductive Transport
  | ok | timeout | failed
  deriving DecidableEq, Repr

def addIterator (m : Episodes V) (first : Bool) : Episodes V × Reply :=
  ({ m with iterators := m.iterators ++ [{ run := m.client.env.run, first }] },
    .iterator m.iterators.length)

def restarted (c : Interactive V) : Interactive V :=
  let c := c.cancelRun.clearEvents
  { c with env := { c.env with exitCode := none, stream := {} }, names := {} }

def reset (m : Episodes V) (connect : Transport) : Episodes V × Reply :=
  let name := m.client.env.className
  if m.client.env.closed then (m,.raised (.runtime (name ++ " is closed")))
  else
    let c := restarted m.client
    match connect with
    | .timeout => ({ m with client := c },
        .raised (.timeout (name ++ " connection timed out while starting a run")))
    | .failed => ({ m with client := c },
        .raised (.connection (name ++ " connection failed while starting a run")))
    | .ok =>
      addIterator
        { m with
          client := { c with
            env := { c.env with connection := some m.connects, reading := true } }
          connects := m.connects+1 } true

def noteAction (m : Episodes V) (bytes : Bytes) : Episodes V :=
  { m with log := m.log ++ m.client.env.connection.toList.map fun connection =>
      .sent connection bytes }

def act (m : Episodes V) (action : Option Bytes) (send : Transport) : Episodes V × Reply :=
  let name := m.client.env.className
  match m.client.checkedStep action with
  | .error e => (m,.raised e)
  | .ok (env,bytes) =>
    let c := { m.client.clearEvents with env }
    let m := m.noteAction bytes
    match send with
    | .timeout => ({ m with client := c.cancelRun },
        .raised (.timeout (name ++ " connection timed out while sending an action")))
    | .failed => ({ m with client := c.cancelRun },
        .raised (.connection (name ++ " connection failed while sending an action")))
    | .ok => addIterator { m with client := { c with env := { env with reading := true } } } false

def close (m : Episodes V) : Episodes V :=
  let c := { m.client with env := { m.client.env with closed := true } }
  { m with client := c.cancelRun }

inductive Call
  | reset (connect : Transport)
  | step (action : Option Bytes) (send : Transport)
  | close
  | next (iterator passes : Nat)
  | closeIterator (iterator : Nat)

def step (m : Episodes V) : Call → Option (Episodes V × Reply)
  | .reset connect => some (m.reset connect)
  | .step action send => some (m.act action send)
  | .close => some (m.close,.returned)
  | .next iterator passes => m.next world iterator passes
  | .closeIterator iterator => m.closeIterator iterator

def run (m : Episodes V) : List Call → Option (Episodes V)
  | [] => some m
  | call::calls => (m.step world call).bind fun result => run result.1 calls

def initial (variant : Variant) : Episodes V where
  client := { variant, env := { className := variant.className } }
  sockets := fun connection => { rest := world.bytes connection }

end Episodes

end Cpu2Tensor.Client
