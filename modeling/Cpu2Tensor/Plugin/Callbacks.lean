import Cpu2Tensor.Plugin.Selection
import Cpu2Tensor.Plugin.Source

/-!
# Callbacks of a vCPU

The callbacks QEMU makes on the thread of a vCPU: its start and end, block entries, memory
accesses, system calls and idling.
-/

namespace Cpu2Tensor.Plugin
open Library RegisterSelection

/-- The rich filter decides at each block which rows the block may have. -/
def refreshRelation (o : Options) : Callback Unit := do
  if o.filters then
    let relation ← relation ((← get).rawState 2)
    modify fun source => { source with
      filterRelation := relation
      richRecording := admits o relation }
    if o.captureMemory then ask (.setAdmission (if admits o relation then 1 else 0))
  else modify fun source => { source with richRecording := true }

def recordPc (o : Options) (pc : UInt64) : Callback Unit := do
  if o.captureBlocks then
    append .blocks (store pc.toNat 8)
    if (← ask .count) = maxAddresses then ask .flush

/-- The rows of `record_block`, once its context is read and its gate is latched. -/
def recordRows (o : Options) (cpu : Cpu) (pc : UInt64) : Callback Unit := do
  emitContext o pc
  refreshRelation o
  if (← get).richRecording then sampleRegisters cpu pc .block
  recordPc o pc

def observeBlock (o : Options) (pc : UInt64) (admission : BlockAdmission) : Callback Unit := do
  if o.reduceTransitions then
    if o.reduceObservations then
      if (← get).reducedBlocks = uint64Max then
        fail .capture "cpu2tensor: reduced block count overflow\n"
      else modify fun source => { source with reducedBlocks := source.reducedBlocks+1 }
    expect (← ask (.observeBlock pc admission))

/-- Only the first vCPU at the rich gate passes it. -/
def passGate (pc : UInt64) (latchContext : Bool) : Callback Bool := do
  if latchContext then latch pc ((← get).rawState 2) else return true

def recordBlock (o : Options) (cpu : Cpu) (pc : UInt64) (admission : BlockAdmission)
    (latchContext : Bool) : Callback Bool := do
  observeBlock o pc admission
  readContext o cpu ((← get).registers.length ≠ 0)
  if ← passGate pc latchContext then
    recordRows o cpu pc
    return true
  else
    modify fun source => { source with recording := false }
    return false

def setRecording (value : Bool) : Callback Unit :=
  modify fun source => { source with recording := value }

/-- A block while the rich gate is closed. -/
def enterGate (o : Options) (cpu : Cpu) (pc : UInt64) : Callback Unit := do
  setRecording false
  if o.richContextStartPc = some pc then
    setRecording true
    if ← recordBlock o cpu pc ⟨0,true⟩ true then ask (.storeCapture .running)

def admission (o : Options) : Callback BlockAdmission := do
  if o.reduceTransitions then ask .admitBlock else return ⟨0,true⟩

/-- The end of `block_entry`, for a block that is no marker. -/
def enterBlock (o : Options) (cpu : Cpu) (pc : UInt64) : Callback Unit := do
  let admission ← admission o
  let state ← ask .loadCapture
  setRecording (state == .running && admission.included)
  if state = .running ∧ admission.included = true then
    let _ ← recordBlock o cpu pc admission false

/-- The markers and the decision of `block_entry`. -/
def enterPlain (o : Options) (cpu : Cpu) (pc : UInt64) : Callback Unit := do
  if o.startPc = some pc then
    let _ ← ask (.swapCapture .waiting .running)
  if o.windowStartPc = some pc then
    expect (← ask .beginWindow)
    setRecording false
  else if o.windowEndPc = some pc then
    expect (← ask .endWindow)
    setRecording false
  else if o.windowAbortPc = some pc then
    expect (← ask .abortWindow)
    setRecording false
  else if o.stopPc = some pc then
    let _ ← ask (.swapCapture .running .stopped)
    setRecording false
  else enterBlock o cpu pc

def blockEntry (o : Options) (cpu : Cpu) (pc : UInt64) : Callback Unit := do
  activeSource
  accountFilterMemory o
  if o.filters then
    if (← ask .loadCapture) = .waiting then enterGate o cpu pc else enterPlain o cpu pc
  else enterPlain o cpu pc

/-- What `qemu_plugin_meminfo_t` tells about an access.  The physical address comes with whether
it is an I/O address; the value comes with the shift of its own type. -/
structure MemoryInfo where
  shift : Nat
  isStore : Bool
  bigEndian : Bool
  mapping : Option (UInt64 × Bool)
  valueShift : Nat
  value : Nat

def mappedBytes (size : Nat) (address : UInt64) : Nat := min size (4096 - address.toNat % 4096)

def contextColumns (o : Options) (info : MemoryInfo) (address : UInt64) (sequence : Nat) : Bytes :=
  match info.mapping with
  | none => store 0 8 ++ store 0 4 ++ store 0 4 ++ store sequence 8
  | some (physical,io) =>
    store physical.toNat 8 ++ store (mappedBytes (2^info.shift) address) 4 ++
      store (1 + if o.stateHook then (2 + if io then 4 else 0) else 0) 4 ++ store sequence 8

def memoryRow (o : Options) (info : MemoryInfo) (address pc : UInt64) (sequence : Nat) : Bytes :=
  store pc.toNat 8 ++ store address.toNat 8 ++ store (2^info.shift) 4 ++
    store ((if info.isStore then 1 else 0) + if info.bigEndian then 2 else 0) 4 ++
    (if o.captureContext then contextColumns o info address sequence else []) ++
    if o.captureValues then store (info.value % 256^(2^info.valueShift)) 16 else []

def recordAccess (o : Options) (cpu : Cpu) (info : MemoryInfo) (address pc : UInt64) :
    Callback Unit := do
  if info.shift ≥ 32 ∨ (o.captureValues = true ∧ info.shift > 4) then
    fail .unsupportedTarget "cpu2tensor: memory access width is unsupported\n"
  else
    if o.filters = false then
      readContext o cpu false
      emitContext o pc
    append .memory (memoryRow o info address pc (← get).contextSequence)
    if o.captureValues = true ∧ info.valueShift ≠ info.shift then
      fail .capture "cpu2tensor: QEMU memory value width does not match the access\n"

def memoryAccess (o : Options) (cpu : Cpu) (info : MemoryInfo) (address pc : UInt64) :
    Callback Unit := do
  activeSource
  if (← get).recording then
    if o.stopPc.isSome then
      if (← ask .loadCapture) = .running then recordAccess o cpu info address pc
    else recordAccess o cpu info address pc

/-- The capture bounds let a system call or the end of a vCPU sample registers. -/
def captureAllows (o : Options) : Callback Bool := do
  if o.stopPc.isSome then return (← ask .loadCapture) == .running
  else return true

structure Syscall where
  number : Int
  first : UInt64
  second : UInt64
  requested : UInt64

def Syscall.stdinFault (arm : Bool) (call : Syscall) : Option String :=
  if call.number = (if arm then 134 else 13) ∧ call.first = 18 ∧ call.second ≠ 0 then
    some "cpu2tensor: SIGCONT handlers need a later pause adapter\n"
  else if (call.number = (if arm then 57 else 3) ∧ call.first = 0) ∨
      (call.number = 436 ∧ call.first = 0) ∨
      ((call.number = (if arm then 24 else 292) ∨ (arm = false ∧ call.number = 33)) ∧
        call.second = 0) then
    some "cpu2tensor: stdin remapping needs a later adapter\n"
  else none

/-- A read of stdin, at which the process stops for its input. -/
def requestInput (index : Nat) (o : Options) (requested : UInt64) : Callback Unit := do
  ask .flush
  if o.ringPublication then ask .waitForFrames
  let next ← ask .next
  ask (.sendHeader
    { kind := .inputRequest
      source := UInt32.ofNat index
      sequence := UInt64.ofNat next
      detail := UInt64.ofNat (min requested.toNat maxActionBytes) })
  if ! (← ask .stopProcess) then
    fail .capture "cpu2tensor: cannot stop at stdin request\n"

def Syscall.startsProcess (arm : Bool) (call : Syscall) : Bool :=
  call.number = (if arm then 221 else 59) ∨ call.number = (if arm then 281 else 322) ∨
    (arm = false ∧ (call.number = 57 ∨ call.number = 58)) ∨
    (call.number = (if arm then 220 else 56) ∧ call.first &&& 0x10100 ≠ 0x10100)

def syscallRows (cpu : Cpu) : Callback Unit := do
  sampleRegisters cpu (← currentPc cpu) .syscall

def sampleSyscall (o : Options) (cpu : Cpu) : Callback Unit := do
  let source ← get
  if source.registers.length ≠ 0 ∧ (o.startPc = none ∨ source.recording = true) then
    if ← captureAllows o then
      if o.windowStartPc = none ∨ source.recording = true then syscallRows cpu

def checkStdin (o : Options) (arm : Bool) (call : Syscall) : Callback Unit := do
  if o.captureStdio then
    match call.stdinFault arm with
    | some message => fail .unsupportedTarget message
    | none => pure ()

def syscallEntry (index : Nat) (o : Options) (cpu : Cpu) (call : Syscall) : Callback Unit := do
  activeSource
  sampleSyscall o cpu
  let arm := o.architecture == .aarch64
  checkStdin o arm call
  if o.captureStdio = true ∧ call.number = (if arm then 63 else 0) ∧ call.first = 0 ∧
      call.requested ≠ 0 then
    requestInput index o call.requested
  if call.startsProcess arm then
    fail .unsupportedTarget "cpu2tensor: fork and exec need a later process contract\n"

def syscallReturn (number result : Int) : Callback Unit := do
  if number = 435 ∧ result ≥ 0 then
    fail .unsupportedTarget "cpu2tensor: successful clone3 is not supported\n"

def endSource (index : Nat) (o : Options) : Callback Unit := do
  accountFilterMemory o
  ask .flush
  if o.ringPublication then ask .waitForFrames
  let next ← ask .next
  ask (.sendHeader
    { kind := .sourceEnd, source := UInt32.ofNat index, sequence := UInt64.ofNat next })
  modify fun source => { source with registers := [], state := .ended }

/-- The context at the end of a vCPU, with the address of its events.  The program counter of the
registers is an offset into the code segment, event addresses are linear. -/
def exitContext (o : Options) (cpu : Cpu) : Callback UInt64 := do
  readContext o cpu true
  let offset ← currentPc cpu
  let source ← get
  let pc := offset +
    if o.captureContext = true ∧ source.rawState 7 ≠ 64 then source.rawState 6 else 0
  emitContext o pc
  return pc

def exitRows (o : Options) (cpu : Cpu) : Callback Unit := do
  let pc ← exitContext o cpu
  if o.filters then
    if admits o (← relation ((← get).rawState 2)) then sampleRegisters cpu pc .exit
  else sampleRegisters cpu pc .exit

def sampleExit (o : Options) (cpu : Cpu) : Callback Unit := do
  let source ← get
  let next ← ask .next
  if source.registers.length ≠ 0 ∧ (o.startPc = none ∨ next ≠ 0) ∧
      (o.filters = false ∨ source.recording = true) then
    if ← captureAllows o then
      if o.windowStartPc = none ∨ source.recording = true then exitRows o cpu

def sourceEnd (index : Nat) (o : Options) (cpu : Cpu) : Callback Unit := do
  activeSource
  sampleExit o cpu
  if o.reduceObservations then ask .flush else endSource index o

def sourceIdle : Callback Unit := do
  if (← get).state = .active then ask .flush

structure Descriptor where
  handle : Nat
  name : Option Bytes

def armNames : List Bytes :=
  ((List.range 31).map fun i => nameBytes ("x" ++ toString i)) ++
    ["sp","pc","cpsr"].map nameBytes

def x86Names : List Bytes :=
  ["rax","rbx","rcx","rdx","rsi","rdi","rbp","rsp","r8","r9","r10","r11","r12","r13","r14","r15",
    "rip","eflags","cs","ss","ds","es","fs","gs","fs_base","gs_base"].map nameBytes

def generalRegister (architecture : Architecture) (name : Bytes) : Bool :=
  (match architecture with | .aarch64 => armNames | .x8664 => x86Names).contains name

def unavailableX86Register (name : Bytes) (system : Bool) : Bool :=
  (system && name == nameBytes "eflags") ||
    listedRegister (nameBytes "ftag:fiseg:fioff:foseg:fooff:fop") name

def rawNames : List Bytes :=
  ["cr0","cr2","cr3","cr4","","efer","","","rax","rbx","rcx","rdx","rsi","rdi","rbp","rsp","r8",
    "r9","r10","r11","r12","r13","r14","r15","rip","fs_base","gs_base","k_gs_base"].map nameBytes

def pcName (o : Options) : Bytes :=
  nameBytes (match o.architecture with | .aarch64 => "pc" | .x8664 => "rip")

def selects (o : Options) (name : Bytes) : Bool :=
  match o.registerProfile with
  | .none => false
  | .general => generalRegister o.architecture name
  | .all => true
  | .selected => name == pcName o || listedRegister o.selectedRegisters name

def findControl (o : Options) (handle : Nat) (name : Bytes) : Callback Unit := do
  if o.captureContext then
    modify fun source => { source with controls := fun field =>
      if field < 4 ∧ name = controlName field then some handle else source.controls field }

def schemaRow (id width : Nat) (name : Bytes) : Bytes :=
  store id 4 ++ store width 4 ++ (name ++ List.replicate (64-name.length) 0)

def nameFault (source : Source) (name : Bytes) : Option String :=
  if name.length = 0 ∨ name.length ≥ 64 ∨ source.registers.length = maxRegisters then
    some "cpu2tensor: unsupported register name or count\n"
  else if name.any fun c => c.toNat > 127 then
    some "cpu2tensor: register names must be ASCII\n"
  else if source.registers.any fun reg => reg.name == name then
    some "cpu2tensor: QEMU exposes duplicate register names\n"
  else none

def rawField (o : Options) (name : Bytes) : Option Nat :=
  if o.captureContext = true ∧ o.stateHook = true then
    (List.range 28).find? fun field => rawNames.getD field [] == name
  else none

/-- A selected register becomes the next of the source, with its row in the schema. -/
def addRegister (o : Options) (cpu : Cpu) (handle : Nat) (name : Bytes) : Callback Unit := do
  let value ← readHandle cpu handle (rawField o name) name 0
  -- The read has checked the width.
  if h : 0 < value.length ∧ value.length ≤ maxRegisterBytes ∧
      (rawField o name ≠ none → value.length = 8) then
    if name = pcName o ∧ value.length ≠ 8 then
      fail .unsupportedTarget "cpu2tensor: unsupported program counter width\n"
    else
      let id := (← get).registers.length
      append .registerSchema (schemaRow id value.length name)
      modify fun source => { source with
        registers := source.registers ++
          [{ handle, name, width := value.length, rawField := rawField o name,
             positive := h.1, bounded := h.2.1, raw := h.2.2 }]
        pcRegister := if name = pcName o then some id else source.pcRegister }

def setupRegister (o : Options) (cpu : Cpu) (descriptor : Descriptor) : Callback Unit := do
  match descriptor.name with
  | none => fail .unsupportedTarget "cpu2tensor: QEMU exposes an unnamed register\n"
  | some name =>
    findControl o descriptor.handle name
    if selects o name then
      if o.architecture = .x8664 ∧ unavailableX86Register name o.captureSystem = true then
        if o.registerProfile = .selected ∧ listedRegister o.selectedRegisters name = true then
          fail .unsupportedTarget
            "cpu2tensor: requested register has no trustworthy backend value\n"
      else
        match nameFault (← get) name with
        | some message => fail .unsupportedTarget message
        | none => addRegister o cpu descriptor.handle name

def controlsMissing (source : Source) : Bool := (List.range 4).any fun field =>
  (source.controls field).isNone

/-- The check that every requested name was found, over a copy of the list. -/
def requestedMissing (o : Options) (source : Source) : Bool :=
  o.registerProfile == .selected &&
    ! requestedFound (source.registers.map Register.name)
      (strcpy (List.replicate 1024 0) o.selectedRegisters)

def setupFault (o : Options) (source : Source) : Option String :=
  if o.captureContext = true ∧ controlsMissing source = true then
    some "cpu2tensor: x86 paging controls unavailable\n"
  else if requestedMissing o source then some "cpu2tensor: requested register unavailable\n"
  else if o.registerProfile ≠ .none ∧ (source.registers = [] ∨ source.pcRegister = none) then
    some "cpu2tensor: selected registers or program counter unavailable\n"
  else none

def registerSetup (o : Options) (cpu : Cpu) (descriptors : Option (List Descriptor)) :
    Callback Unit := do
  if o.registerProfile = .none ∧ (o.captureContext = false ∨ o.stateHook = true) then pure ()
  else
    match descriptors with
    | none => fail .unsupportedTarget "cpu2tensor: QEMU exposes no register descriptors\n"
    | some descriptors =>
      descriptors.forM (setupRegister o cpu)
      match setupFault o (← get) with
      | some message => fail .unsupportedTarget message
      | none => ask .flush

def sourceStart (index : Nat) (o : Options) (cpu : Cpu) (descriptors : Option (List Descriptor)) :
    Callback Unit := do
  if (o.captureStdio = true ∧ index ≠ 0) ∨
      ((o.captureKernel = true ∨ o.reduceObservations = true) ∧ index ≥ o.systemCpus) ∨
      index ≥ maxSources ∨ (← get).state ≠ .unused then
    fail .unsupportedTarget "cpu2tensor: too many vCPUs or a reused vCPU index\n"
  else
    modify fun source => { source with state := .active }
    if o.filters = true ∧ o.captureMemory = true then
      ask (.setMemoryTotal 0)
      ask (.setAdmission 0)
    registerSetup o cpu descriptors

inductive Entry
  | start (cpu : Cpu) (descriptors : Option (List Descriptor))
  | block (cpu : Cpu) (pc : UInt64)
  | memory (cpu : Cpu) (info : MemoryInfo) (address pc : UInt64)
  | syscall (cpu : Cpu) (call : Syscall)
  | syscallReturn (number result : Int)
  | idle
  | exit (cpu : Cpu)

def callback (o : Options) (index : Nat) : Entry → Callback Unit
  | .start cpu descriptors => sourceStart index o cpu descriptors
  | .block cpu pc => blockEntry o cpu pc
  | .memory cpu info address pc => memoryAccess o cpu info address pc
  | .syscall cpu call => syscallEntry index o cpu call
  | .syscallReturn number result => syscallReturn number result
  | .idle => sourceIdle
  | .exit cpu => sourceEnd index o cpu

end Cpu2Tensor.Plugin
