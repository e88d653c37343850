import Cpu2Tensor.Library.Routine
import Cpu2Tensor.Plugin.Buffer
import Cpu2Tensor.Plugin.Config

/-!
# Sources and what their callbacks ask

A callback runs on the thread of its vCPU and owns the state of that source.  What it shares with
other threads, its event buffer and the pipe it reaches by calls; a run is made of them.
-/

namespace Cpu2Tensor.Plugin
open Library

/-- A register after its setup.  A register of the state hook is one of its 8-byte words. -/
structure Register where
  handle : Nat
  name : Bytes
  width : Nat
  rawField : Option Nat := none
  previous : Bytes := []
  sampled : Bool := false
  positive : 0 < width
  bounded : width ≤ maxRegisterBytes
  raw : rawField ≠ none → width = 8

inductive SourceState
  | unused | active | ended
  deriving DecidableEq, Repr

inductive ContextRelation
  | unknown | matching | foreign
  deriving DecidableEq, Repr

inductive ContextLatch
  | waiting | writing | known | unknown
  deriving DecidableEq, Repr

structure ContextFilterCounts where
  kept : Nat := 0
  dropped : Nat := 0
  matching : Nat := 0
  foreign : Nat := 0
  unknown : Nat := 0
  deriving DecidableEq, Repr

/-- The fields of `Source` besides its event buffer. -/
structure Source where
  filterCounts : ContextFilterCounts := {}
  filterMemoryTotal : Nat := 0
  filterRelation : ContextRelation := .unknown
  registers : List Register := []
  /-- The handles of cr0, cr3, cr4 and efer. -/
  controls : Nat → Option Nat := fun _ => none
  rawState : Nat → UInt64 := fun _ => 0
  context : List UInt64 := List.replicate 6 0
  contextSequence : Nat := 0
  contextSampled : Bool := false
  reducedBlocks : Nat := 0
  reducedContextChanges : Nat := 0
  reducedContexts : Nat := 0
  reducedContextOverflow : Nat := 0
  pcRegister : Option Nat := none
  state : SourceState := .unused
  recording : Bool := false
  richRecording : Bool := true

/-- What QEMU answers while a callback runs.  The vCPU does not run meanwhile, so that every read
of a callback sees one state of it. -/
structure Cpu where
  /-- `qemu_plugin_read_register`, by handle. -/
  register : Nat → Option Bytes
  /-- The words of the x86 state hook. -/
  state : Option (Nat → UInt64)

inductive Call
  | loadCapture
  | storeCapture (state : CaptureState)
  | swapCapture (expected desired : CaptureState)
  | beginWindow
  | endWindow
  | abortWindow
  | admitBlock
  | observeBlock (address : UInt64) (admission : BlockAdmission)
  | swapLatch (expected desired : ContextLatch)
  | storeTarget (gatePc cr3 pagingRoot : UInt64)
  | storeLatch (latch : ContextLatch)
  | loadLatch
  | loadPagingRoot
  | memoryTotal
  | setMemoryTotal (total : Nat)
  | setAdmission (value : Nat)
  | append (kind : Kind) (row : Bytes)
  | flush
  | waitForFrames
  | next
  | count
  | sendHeader (header : Header)
  | stopProcess
  deriving DecidableEq

/-- A compare-exchange answers with the value it found. -/
abbrev Answer : Call → Type
  | .loadCapture | .swapCapture .. => CaptureState
  | .beginWindow | .endWindow | .abortWindow | .observeBlock .. => Except String Unit
  | .admitBlock => BlockAdmission
  | .swapLatch .. | .loadLatch => ContextLatch
  | .loadPagingRoot => UInt64
  | .memoryTotal | .next | .count => Nat
  | .append .. => Except Failure Unit
  | .stopProcess => Bool
  | .storeCapture _ | .storeTarget .. | .storeLatch _ | .setMemoryTotal _ | .setAdmission _
  | .flush | .waitForFrames | .sendHeader _ => Unit

abbrev Trail := List (Sigma Answer)

abbrev Callback := Routine Source Call Answer Failure

def ask (call : Call) : Callback (Answer call) := Routine.request call

def fail {α : Type} (reason : FailureReason) (message : String) : Callback α :=
  Routine.stop ⟨reason,message⟩

def expect (result : Except String Unit) : Callback Unit :=
  match result with
  | .error message => fail .capture message
  | .ok _ => pure ()

def append (kind : Kind) (row : Bytes) : Callback Unit := do
  match ← ask (.append kind row) with
  | .error failure => Routine.stop failure
  | .ok _ => pure ()

def activeSource : Callback Unit := do
  if (← get).state ≠ .active then
    fail .unsupportedTarget "cpu2tensor: unexpected vCPU index or lifetime\n"

def textOf (bytes : Bytes) : String := String.ofList (bytes.map fun byte => Char.ofNat byte.toNat)

def widthMessage (name : Bytes) (width expected : Nat) : String :=
  "cpu2tensor: register " ++ textOf name ++ " has width " ++ toString width ++ "; expected " ++
    toString expected ++ " or an initial width of 1.." ++ toString maxRegisterBytes ++ " bytes\n"

/-- `read_register` with its result instead of the scratch bytes; `expected` is 0 at setup. -/
def readHandle (cpu : Cpu) (handle : Nat) (rawField : Option Nat) (name : Bytes)
    (expected : Nat) : Callback Bytes := do
  match rawField with
  | some field => return store ((← get).rawState field).toNat 8
  | none =>
    match cpu.register handle with
    | none => fail .capture "cpu2tensor: QEMU could not read a selected register\n"
    | some value =>
      if value.length = 0 ∨ value.length > maxRegisterBytes ∨
          (expected ≠ 0 ∧ value.length ≠ expected) then
        fail .unsupportedTarget (widthMessage name value.length expected)
      else return value

def readRegister (cpu : Cpu) (reg : Register) : Callback Bytes :=
  readHandle cpu reg.handle reg.rawField reg.name reg.width

def nameBytes (name : String) : Bytes := name.toList.map fun c => UInt8.ofNat c.toNat

def controlName : Nat → Bytes
  | 0 => nameBytes "cr0" | 1 => nameBytes "cr3" | 2 => nameBytes "cr4" | _ => nameBytes "efer"

/-- The word of a control register goes to its place among the words of the hook. -/
def readControl (cpu : Cpu) (control field : Nat) : Callback Unit := do
  -- Setup has found all four handles.
  let handle := ((← get).controls control).getD 0
  let value ← readHandle cpu handle none (controlName control) 8
  modify fun source =>
    { source with rawState := Function.update source.rawState field (UInt64.ofNat (load value 8)) }

def readContext (o : Options) (cpu : Cpu) (full : Bool) : Callback Unit := do
  if o.captureContext then
    if o.stateHook then
      match cpu.state with
      | none => fail .capture "cpu2tensor: x86 state read outside a supported callback\n"
      | some words => modify fun source => { source with
          rawState := fun field =>
            if field < if full then 28 else 8 then words field else source.rawState field }
    else
      readControl cpu 0 0
      readControl cpu 1 2
      readControl cpu 2 3
      readControl cpu 3 5

/-- The places of cr0, cr3, cr4, efer, the code segment base and the execution mode. -/
def contextFields : List Nat := [0,2,3,5,6,7]

def Source.fields (source : Source) : List UInt64 := contextFields.map source.rawState

def words (values : List UInt64) : Bytes := values.flatMap fun value => store value.toNat 8

def contextMask (o : Options) : Nat := if o.stateHook then 63 else 15

def emitReduced (o : Options) (pc : UInt64) : Callback Unit := do
  let source ← get
  if source.reducedContextChanges = uint64Max then
    fail .capture "cpu2tensor: reduced context change count overflow\n"
  else
    modify fun source => { source with reducedContextChanges := source.reducedContextChanges+1 }
    if source.reducedContexts < o.transitionCapacity then
      -- The position of the block, modulo `2^64`.
      append .reducedContext (store (source.reducedBlocks+uint64Max) 8 ++ store pc.toNat 8 ++
        words source.fields ++ store (contextMask o) 8)
      modify fun source => { source with reducedContexts := source.reducedContexts+1 }
    else if source.reducedContextOverflow = uint64Max then
      fail .capture "cpu2tensor: reduced context overflow count overflow\n"
    else
      modify fun source => { source with
        reducedContextOverflow := source.reducedContextOverflow+1 }

def emitContext (o : Options) (pc : UInt64) : Callback Unit := do
  let source ← get
  if o.captureContext = true ∧ (source.contextSampled = false ∨ source.context ≠ source.fields) then
    if o.reduceObservations then emitReduced o pc
    else
      append .addressContext (store pc.toNat 8 ++ words source.fields ++ store (contextMask o) 8)
      let next ← ask .next
      modify fun source => { source with contextSequence := next-1 }
    modify fun source => { source with context := source.fields, contextSampled := true }

inductive Checkpoint
  | block | syscall | exit
  deriving DecidableEq, Repr

def Checkpoint.code : Checkpoint → Nat
  | .block => 1 | .syscall => 2 | .exit => 3

def initialRegister : Nat := 256

def registerRow (pc : UInt64) (id : Nat) (reg : Register) (checkpoint : Checkpoint)
    (value : Bytes) : Bytes :=
  store pc.toNat 8 ++ store id 4 ++ store reg.width 2 ++
    store (checkpoint.code + if reg.sampled then 0 else initialRegister) 2 ++ value

def sampleRegister (cpu : Cpu) (pc : UInt64) (checkpoint : Checkpoint) (id : Nat) :
    Callback Unit := do
  match (← get).registers[id]? with
  | none => pure ()
  | some reg =>
    let value ← readRegister cpu reg
    if reg.sampled = true ∧ reg.previous = value then pure ()
    else
      append .registers (registerRow pc id reg checkpoint value)
      modify fun source => { source with
        registers := source.registers.set id { reg with previous := value, sampled := true } }

def sampleRegisters (cpu : Cpu) (pc : UInt64) (checkpoint : Checkpoint) : Callback Unit := do
  (List.range (← get).registers.length).forM (sampleRegister cpu pc checkpoint)

/-- The bytes of the program counter; setup has found its register. -/
def currentPc (cpu : Cpu) : Callback UInt64 := do
  let source ← get
  match source.pcRegister.bind fun id => source.registers[id]? with
  | none => return 0
  | some reg => return UInt64.ofNat (load (← readRegister cpu reg) 8)

def pagingRoot (cr3 : UInt64) : UInt64 := cr3 &&& ~~~0xfff

/-- `ContextFilter::latch`; the four stores between the two steps of the latch are one step. -/
def latch (gatePc cr3 : UInt64) : Callback Bool := do
  if (← ask (.swapLatch .waiting .writing)) ≠ .waiting then return false
  else
    ask (.storeTarget gatePc cr3 (pagingRoot cr3))
    ask (.storeLatch .known)
    return true

def relation (cr3 : UInt64) : Callback ContextRelation := do
  match ← ask .loadLatch with
  | .known =>
    return if pagingRoot cr3 = (← ask .loadPagingRoot) then .matching else .foreign
  | _ => return .unknown

def admits (o : Options) (relation : ContextRelation) : Bool :=
  relation == .matching || o.policy == .keep

/-- `ContextFilter::account` and its overflow checks. -/
def ContextFilterCounts.account (o : Options) (counts : ContextFilterCounts)
    (relation : ContextRelation) (count : Nat) : Option ContextFilterCounts :=
  let related := match relation with
    | .matching => counts.matching | .foreign => counts.foreign | .unknown => counts.unknown
  let decided := if admits o relation then counts.kept else counts.dropped
  if related > uint64Max - count ∨ decided > uint64Max - count then none
  else
    let counts := match relation with
      | .matching => { counts with matching := counts.matching + count }
      | .foreign => { counts with foreign := counts.foreign + count }
      | .unknown => { counts with unknown := counts.unknown + count }
    some (if admits o relation then { counts with kept := counts.kept + count }
      else { counts with dropped := counts.dropped + count })

def accountFilterMemory (o : Options) : Callback Unit := do
  if o.filters = true ∧ o.captureMemory = true then
    let total ← ask .memoryTotal
    let source ← get
    if total < source.filterMemoryTotal then
      fail .capture "cpu2tensor: context filter memory counter overflowed\n"
    else if source.recording then
      match source.filterCounts.account o source.filterRelation
          (total - source.filterMemoryTotal) with
      | none => fail .capture "cpu2tensor: context filter summary counter overflowed\n"
      | some counts => modify fun source =>
          { source with filterCounts := counts, filterMemoryTotal := total }
    else modify fun source => { source with filterMemoryTotal := total }

end Cpu2Tensor.Plugin
