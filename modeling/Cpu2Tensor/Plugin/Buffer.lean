import Cpu2Tensor.Stream.Accept

/-!
# The event buffer of a source

`append` and `flush`: rows gather behind a header until they are published as one frame.  Legacy
batching keeps one kind of row in a frame; mixed batching keeps runs of rows, each behind a run
header that grows with it.
-/

namespace Cpu2Tensor.Plugin
open Library

inductive FailureReason
  | capture | targetKilled | unsupportedTarget | transport
  deriving DecidableEq, Repr

/-- The arguments of `fail`, which ends the process. -/
structure Failure where
  reason : FailureReason
  message : String
  deriving DecidableEq, Repr

structure Buffer where
  payload : Bytes := []
  next : Nat := 0
  count : Nat := 0
  kind : Kind := .blocks
  runKind : Kind := .blocks
  runOffset : Nat := 0

namespace Buffer

def frame (index : Nat) (b : Buffer) : Frame where
  header :=
    { kind := b.kind
      source := UInt32.ofNat index
      count := UInt32.ofNat b.count
      sequence := if b.kind = .registerSchema then 0 else UInt64.ofNat (b.next - b.count)
      detail := if b.kind = .blocks then 0 else UInt64.ofNat b.payload.length }
  payload := some b.payload

/-- The frame that `flush` publishes, and the buffer after it. -/
def flush (index : Nat) (b : Buffer) : Option Frame × Buffer :=
  if b.count = 0 then (none,b) else (some (b.frame index),{ b with payload := [], count := 0 })

def opensRun (b : Buffer) (kind : Kind) : Bool := b.count == 0 || b.runKind != kind

def openRun (b : Buffer) (kind : Kind) : Buffer :=
  { b with
    runKind := kind
    runOffset := b.payload.length
    payload := b.payload ++ (store kind.code 2 ++ store 0 2 ++ store 0 4) }

/-- Count one row of `size` bytes in the header of the open run. -/
def growRun (b : Buffer) (size : Nat) : Buffer :=
  let rows := load (b.payload.drop (b.runOffset+2)) 2
  let bytes := load (b.payload.drop (b.runOffset+4)) 4
  let payload := patch b.payload (b.runOffset+2) (store (rows+1) 2)
  { b with payload := patch payload (b.runOffset+4) (store (bytes+size) 4) }

def separates (mixed : Bool) (kind : Kind) (size : Nat) (b : Buffer) : Bool :=
  if mixed = true ∧ kind ≠ .registerSchema then
    b.kind ≠ .mixed ∨ b.count = maxAddresses ∨
      b.payload.length + size + (if b.opensRun kind then 8 else 0) > maxPayloadBytes
  else
    b.kind ≠ kind ∨ b.payload.length + size > maxPayloadBytes ∨
      (kind = .blocks ∧ b.count = maxAddresses)

/-- The row at the end of the buffered ones.  Schema rows have no sequence number. -/
def push (mixed : Bool) (kind : Kind) (row : Bytes) (b : Buffer) : Except Failure Buffer :=
  if mixed = true ∧ kind ≠ .registerSchema then
    let b := { b with kind := .mixed }
    let b := if b.opensRun kind then b.openRun kind else b
    let b := b.growRun row.length
    if b.next = uint64Max then .error ⟨.capture,"cpu2tensor: source sequence overflow\n"⟩
    else .ok { b with next := b.next+1, count := b.count+1, payload := b.payload ++ row }
  else if kind ≠ .registerSchema ∧ b.next = uint64Max then
    .error ⟨.capture,"cpu2tensor: source event sequence overflow\n"⟩
  else .ok { b with
    kind
    next := if kind ≠ .registerSchema then b.next+1 else b.next
    count := b.count+1
    payload := b.payload ++ row }

/-- `append` and the stores into its row: the frame that had to be published first, if any, and
the buffer with the row. -/
def append (mixed : Bool) (index : Nat) (kind : Kind) (row : Bytes) (b : Buffer) :
    Option Frame × Except Failure Buffer :=
  let (frame,b) := if b.separates mixed kind row.length then b.flush index else (none,b)
  (frame,b.push mixed kind row)

end Buffer

end Cpu2Tensor.Plugin
