import Cpu2Tensor.Client.Stdio

/-!
# Terminal outcomes

The facts about a finished or interrupted trace, and the errors that carry them.
-/

namespace Cpu2Tensor.Client

inductive TerminalReason
  | complete | targetExit | maxRunDeadline | captureFailure | targetKilled | unsupportedTarget
  | workerTransportFailure | unknownDisconnection | truncatedStream | clientTimeout
  | connectionFailure
  deriving DecidableEq, Repr

inductive BoundaryProgress
  | unknown | notConfigured | notObserved | observed
  deriving DecidableEq, Repr

inductive TransportEnd
  | clean | reset | error | timeout | notObserved
  deriving DecidableEq, Repr

/-- The source is always None. -/
structure TerminalOutcome where
  reason : TerminalReason
  endpoint : String
  worker : Nat := 0
  helloReceived : Bool
  dataReceived : Bool
  helloReported : Option Bool := none
  dataReported : Option Bool := none
  start : BoundaryProgress := .unknown
  stop : BoundaryProgress := .unknown
  transport : TransportEnd := .notObserved
  complete : Bool := false
  deriving DecidableEq, Repr

/-- `TraceTerminalError` and the two classes below it. -/
inductive TerminalClass
  | terminal | connection | timeout
  deriving DecidableEq, Repr

/-- What a read raises: a terminal error, or another exception. -/
inductive ReadError (E : Type)
  | trace (cls : TerminalClass) (message : String) (outcome : TerminalOutcome)
  | other (error : E)
  deriving DecidableEq, Repr

def ReadError.message {E : Type} (text : E → String) : ReadError E → String
  | .trace _ message _ => message
  | .other error => text error

end Cpu2Tensor.Client
