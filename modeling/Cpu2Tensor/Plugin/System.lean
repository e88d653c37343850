import Cpu2Tensor.Library.Threads
import Cpu2Tensor.Plugin.Callbacks

/-!
# The plugin and its vCPUs

What the callbacks share and how their calls act on it.  The threads of the vCPUs run one callback
after another in any interleaving of their calls.
-/

namespace Cpu2Tensor.Plugin
open Library

structure FilterTarget where
  source : Nat := 0
  gatePc : UInt64 := 0
  cr3 : UInt64 := 0
  pagingRoot : UInt64 := 0
  deriving DecidableEq, Repr

structure Shared where
  capture : CaptureState
  window : TransitionWindow
  latch : ContextLatch := .waiting
  target : FilterTarget := {}
  /-- The inline counters of memory accesses. -/
  memoryTotals : Nat → Nat := fun _ => 0
  admissions : Nat → Nat := fun _ => 0
  buffers : Nat → Buffer := fun _ => {}
  /-- Frames in the rings. -/
  queues : Nat → List Frame := fun _ => []
  /-- Frames in the pipe. -/
  written : List Frame := []

namespace Shared

/-- The frame of a flush goes to the ring of its source or to the pipe. -/
def publish (o : Options) (index : Nat) (frame : Option Frame) (s : Shared) : Shared :=
  match frame with
  | none => s
  | some frame =>
    if o.ringPublication then
      { s with queues := Function.update s.queues index (s.queues index ++ [frame]) }
    else { s with written := s.written ++ [frame] }

def setBuffer (index : Nat) (buffer : Buffer) (s : Shared) : Shared :=
  { s with buffers := Function.update s.buffers index buffer }

def onWindow (call : WindowM Unit) (s : Shared) : Except String Unit × Shared :=
  match call s.window with
  | .ok _ window => (.ok (),{ s with window })
  | .error (.failure message) window => (.error message,{ s with window })
  | .error .divergence window => (.error "",{ s with window })

def append (o : Options) (index : Nat) (kind : Kind) (row : Bytes) (s : Shared) :
    Except Failure Unit × Shared :=
  let (frame,result) := (s.buffers index).append o.mixedBatches index kind row
  match result with
  | .error failure => (.error failure,s.publish o index frame)
  | .ok buffer => (.ok (),(s.publish o index frame).setBuffer index buffer)

def flush (o : Options) (index : Nat) (s : Shared) : Shared :=
  let (frame,buffer) := (s.buffers index).flush index
  (s.publish o index frame).setBuffer index buffer

end Shared

/-- The answer to a call of a callback on source `index`.  Waiting for frames ends when the ring of
the source is drained. -/
def perform (o : Options) (index : Nat) : (call : Call) → Shared → Option (Answer call × Shared)
  | .loadCapture, s => some (s.capture,s)
  | .storeCapture state, s => some ((),{ s with capture := state })
  | .swapCapture expected desired, s =>
    some (s.capture,if s.capture = expected then { s with capture := desired } else s)
  | .beginWindow, s => some (s.onWindow TransitionWindow.begin)
  | .endWindow, s => some (s.onWindow TransitionWindow.end)
  | .abortWindow, s => some (s.onWindow TransitionWindow.abort)
  | .admitBlock, s => some (s.window.admitBlock,s)
  | .observeBlock address admission, s =>
    some (s.onWindow (TransitionWindow.observe index address.toNat admission))
  | .swapLatch expected desired, s =>
    some (s.latch,if s.latch = expected then { s with latch := desired } else s)
  | .storeTarget gatePc cr3 pagingRoot, s =>
    some ((),{ s with target := ⟨index,gatePc,cr3,pagingRoot⟩ })
  | .storeLatch latch, s => some ((),{ s with latch })
  | .loadLatch, s => some (s.latch,s)
  | .loadPagingRoot, s => some (s.target.pagingRoot,s)
  | .memoryTotal, s => some (s.memoryTotals index,s)
  | .setMemoryTotal total, s =>
    some ((),{ s with memoryTotals := Function.update s.memoryTotals index total })
  | .setAdmission value, s =>
    some ((),{ s with admissions := Function.update s.admissions index value })
  | .append kind row, s => some (s.append o index kind row)
  | .flush, s => some ((),s.flush o index)
  | .waitForFrames, s => if s.queues index = [] then some ((),s) else none
  | .next, s => some ((s.buffers index).next,s)
  | .count, s => some ((s.buffers index).count,s)
  | .sendHeader header, s => some ((),{ s with written := s.written ++ [⟨header,none⟩] })
  | .stopProcess, s => some (true,s)

/-- Steps of no callback: the collector writes the oldest frame of a ring, a vCPU executes an
access that its inline counter sees. -/
inductive Background
  | collect (index : Nat)
  | access (index : Nat)

def background : Background → Shared → Option Shared
  | .collect index, s =>
    match s.queues index with
    | [] => none
    | frame::frames => some { s with
        queues := Function.update s.queues index frames
        written := s.written ++ [frame] }
  | .access index, s => some { s with
      memoryTotals := Function.update s.memoryTotals index ((s.memoryTotals index+1) % 2^64) }

def workload (o : Options) : Workload Call Answer Failure Source Entry Background Shared where
  routine index entry := callback o index entry
  perform := perform o
  background := background

abbrev Machine := Pool Call Answer Failure Source Entry Shared

abbrev MachineEvent := Event Call Answer Failure Entry

def installed (o : Options) : Machine where
  shared :=
    { capture := o.initialCapture
      window := o.initialWindow
      written := [⟨{ kind := .hello, detail := o.features },none⟩] }
  threads := fun _ => .idle {}

def Machine.run (o : Options) (steps : List (Step Entry Background)) : Option Machine :=
  Pool.run (workload o) steps (installed o)

end Cpu2Tensor.Plugin
