import Cpu2Tensor.Hardware.Records
import Cpu2Tensor.Library.Method

/-!
# Hardware captures

`PerfCapture` and `PerfMultimodalCapture`.  The kernel answers every call of a capture as it
likes: an event may not open, a mapping or an ioctl may fail, a read may return anything.  The
attributes of an event are known by the name of the event; what they hold is left out.
-/

namespace Cpu2Tensor.Hardware
open Library

inductive Counter
  | instructions | cycles | refCycles
  deriving DecidableEq, Repr

def counterSignals : List Counter := [.instructions,.cycles,.refCycles]

/-- What `perf_event_open` is asked to count or to sample. -/
inductive PerfEvent
  | signal (signal : Signal)
  | counter (counter : Counter) (leader : Bool)
  deriving DecidableEq, Repr

inductive Control
  | reset | enable | disable
  deriving DecidableEq, Repr

def groupFlag : Nat := 1

inductive Call
  | eventAttribute (signal : Signal)
  | listTasks (pid : Nat)
  | openEvent (event : PerfEvent) (tid cpu group : Int)
  | mmap (fd length offset : Nat)
  | packAux (mapping offset size : Nat)
  | ioctl (fd : Nat) (control : Control) (argument : Nat)
  | eventId (fd : Nat)
  | read (fd size : Nat)
  | contents (mapping : Nat)
  | clock
  | closeDescriptor (fd : Nat)
  | closeMapping (mapping : Nat)
  deriving DecidableEq, Repr

/-- The answer to a call; one that can fail is an option or carries its error. -/
abbrev Call.Answer : Call → Type
  | eventAttribute _ => Except HardwareError Unit
  | listTasks _ => Option (List Nat)
  | openEvent .. => Except String Nat
  | mmap .. => Option Nat
  | packAux .. => Unit
  | ioctl .. => Bool
  | eventId _ => Option Nat
  | read .. => Option Bytes
  | contents _ => Bytes
  | clock => Nat
  | closeDescriptor _ => Unit
  | closeMapping _ => Unit

abbrev Capturing (σ : Type) := Method σ Call Call.Answer HardwareError

section Calls

variable {σ α : Type}

def call (c : Call) : Capturing σ c.Answer := Method.request c

def settle : Except HardwareError α → Capturing σ α
  | .ok a => pure a
  | .error error => throw error

def raiseIf (bad : Prop) [Decidable bad] (error : HardwareError) : Capturing σ Unit :=
  if bad then throw error else pure ()

def eventAttribute (signal : Signal) : Capturing σ Unit := call (.eventAttribute signal) >>= settle

def listTasks (pid : Nat) : Capturing σ (List Nat) := do
  match ← call (.listTasks pid) with
  | some tids => pure (tids.insertionSort (· ≤ ·))
  | none => throw (.captureError s!"Cannot enumerate process {pid} threads")

def openEvent (event : PerfEvent) (tid cpu group : Int) : Capturing σ Nat := do
  match ← call (.openEvent event tid cpu group) with
  | .ok fd => pure fd
  | .error text =>
    throw (.captureError s!"perf_event_open failed for tid={tid}, cpu={cpu}: {text}")

def mmap (fd length offset : Nat) : Capturing σ Nat := do
  match ← call (.mmap fd length offset) with
  | some mapping => pure mapping
  | none => throw .osError

def ioctl (fd : Nat) (control : Control) (argument : Nat) : Capturing σ Unit := do
  match ← call (.ioctl fd control argument) with
  | true => pure ()
  | false => throw .osError

def tryIoctl (fd : Nat) (control : Control) (argument : Nat) : Capturing σ Unit := do
  let _ ← call (.ioctl fd control argument)

def closeDescriptor (fd : Nat) : Capturing σ Unit := call (.closeDescriptor fd)

def closeMapping (mapping : Nat) : Capturing σ Unit := call (.closeMapping mapping)

def whenSome (value : Option α) (f : α → Capturing σ Unit) : Capturing σ Unit :=
  match value with
  | none => pure ()
  | some a => f a

def eventId (fd : Nat) : Capturing σ Nat := do
  match ← call (.eventId fd) with
  | none => throw (.captureError "Cannot identify a PMU group member")
  | some 0 => throw (.captureError "Perf returned an invalid PMU event identifier")
  | some identifier => pure identifier

structure Reading where
  values : List Nat
  enabled : Nat
  running : Nat
  deriving DecidableEq, Repr

def observeMembers : List (Nat × Nat) → List (Nat × Nat) → Except HardwareError (List (Nat × Nat))
  | observed,[] => .ok observed
  | observed,(identifier,value) :: rest =>
    if identifier ∈ observed.map Prod.fst then
      .error (.captureError "PMU counter group repeated an event identifier")
    else observeMembers (observed ++ [(identifier,value)]) rest

def counterGroup (identifiers : List Nat) : Option Bytes → Except HardwareError Reading
  | none => .error (.captureError "Cannot read the PMU counter group")
  | some payload =>
    if payload.length ≠ 24+16*identifiers.length then
      .error (.captureError "Pinned PMU counter group did not produce a complete read")
    else if load payload 8 ≠ identifiers.length then
      .error (.captureError "PMU counter group member count changed")
    else
      let member (index : Nat) : Nat × Nat :=
        (load (payload.drop (24+16*index+8)) 8,load (payload.drop (24+16*index)) 8)
      match observeMembers [] ((List.range identifiers.length).map member) with
      | .error error => .error error
      | .ok observed =>
        let seen := observed.map Prod.fst
        if (∀ identifier ∈ seen, identifier ∈ identifiers) ∧
            ∀ identifier ∈ identifiers, identifier ∈ seen then
          .ok ⟨identifiers.map fun identifier => (observed.lookup identifier).getD 0,
            load (payload.drop 8) 8,load (payload.drop 16) 8⟩
        else .error (.captureError "PMU counter group identity changed")

def readCounterGroup (fd : Nat) (identifiers : List Nat) : Capturing σ Reading :=
  call (.read fd (24+16*identifiers.length)) >>= fun payload =>
    settle (counterGroup identifiers payload)

/-- The count of a sampled event with the times enabled and running. -/
structure SampledStatus where
  count : Nat
  enabled : Nat
  running : Nat
  deriving DecidableEq, Repr

def sampledEvent : Option Bytes → Except HardwareError SampledStatus
  | none => .error (.captureError "Cannot read the PEBS scheduling status")
  | some payload =>
    if payload.length ≠ 24 then
      .error (.captureError "Pinned PEBS event did not produce a complete read")
    else
      let enabled := load (payload.drop 8) 8
      let running := load (payload.drop 16) 8
      if enabled = 0 ∨ running = 0 then
        .error (.captureError "Pinned PEBS event did not run")
      else if running ≠ enabled then
        .error (.captureError
          s!"PEBS event was multiplexed: enabled={enabled}, running={running}")
      else .ok ⟨load payload 8,enabled,running⟩

def readSampledEvent (fd : Nat) : Capturing σ SampledStatus :=
  call (.read fd 24) >>= fun payload => settle (sampledEvent payload)

def dataHeaderOffset : Nat := 1024

def readMappedBatch (page : Nat) (data : Nat) (aux : Option Nat) (dataPages : Nat)
    (signal : Signal) (source : Nat) : Capturing σ HardwareBatch := do
  let bytes ← call (.contents data)
  let word (index : Nat) := load (bytes.drop (dataHeaderOffset+8*index)) 8
  raiseIf (word 2 < page ∨ word 3 ≠ dataPages*page)
    (.captureError "Unexpected perf ring layout")
  let records ← settle (ringBytes bytes (word 0) (word 1) (word 2) (word 3))
  match aux with
  | none => settle (decodeRecords records signal source [])
  | some mapping =>
    let auxBytes ← call (.contents mapping)
    raiseIf (word 6 ≠ page*(1+dataPages) ∨ word 7 ≠ auxBytes.length)
      (.captureError "Unexpected perf AUX layout")
    let trace ← settle (ringBytes auxBytes (word 4) (word 5) 0 (word 7))
    settle (decodeRecords records signal source trace)

end Calls

inductive Scope
  | process | processKernel | kernel
  deriving DecidableEq, Repr

structure HardwareConfig where
  scope : Scope
  signal : Signal
  pid : Nat
  cpus : List Nat
  dataPages : Nat
  auxPages : Nat
  deriving DecidableEq, Repr

/-- A thread on any processor, or a processor with any thread. -/
inductive Target
  | thread (tid : Nat)
  | processor (cpu : Nat)
  deriving DecidableEq, Repr

def Target.tid : Target → Int
  | thread tid => tid
  | processor _ => -1

def Target.cpu : Target → Int
  | thread _ => -1
  | processor cpu => cpu

def Target.source : Target → Nat
  | thread tid => tid
  | processor cpu => cpu

structure CaptureEvent where
  fd : Nat
  source : Nat
  data : Nat
  aux : Option Nat
  deriving DecidableEq, Repr

structure PerfCapture where
  events : List CaptureEvent := []
  running : Bool := false
  stopped : Bool := false
  deriving DecidableEq, Repr

namespace PerfCapture

variable (page : Nat) (config : HardwareConfig)

def closeEvent (e : CaptureEvent) : Capturing PerfCapture Unit := do
  tryIoctl e.fd .disable 0
  whenSome e.aux closeMapping
  closeMapping e.data
  closeDescriptor e.fd

def close : Capturing PerfCapture Unit := do
  let c ← get
  c.events.forM closeEvent
  modify fun c => { c with events := [], running := false }

def targets : Capturing PerfCapture (List Target) :=
  if config.scope = .kernel then pure (config.cpus.map .processor)
  else listTasks config.pid >>= fun tids => pure (tids.map .thread)

def mapAux (fd data : Nat) : Capturing PerfCapture (Option Nat) :=
  if config.signal = .intelPt then do
    let offset := page*(1+config.dataPages)
    let size := page*config.auxPages
    call (.packAux data offset size)
    let aux ← mmap fd size offset
    pure (some aux)
  else pure none

/-- The body of the loop that opens the events: each handler gives up what it was given. -/
def openTarget (target : Target) : Capturing PerfCapture Unit := do
  let fd ← openEvent (.signal config.signal) target.tid target.cpu (-1)
  Method.onError (closeDescriptor fd) do
    let data ← mmap fd (page*(1+config.dataPages)) 0
    Method.onError (closeMapping data) do
      let aux ← mapAux page config fd data
      modify fun c => { c with events := c.events ++ [⟨fd,target.source,data,aux⟩] }

def arm (e : CaptureEvent) : Capturing PerfCapture Unit := do
  ioctl e.fd .reset 0
  ioctl e.fd .enable 0

def openAll (targets : List Target) : Capturing PerfCapture Unit := do
  targets.forM (openTarget page config)
  let c ← get
  c.events.forM arm
  modify fun c => { c with running := true }

def enter : Capturing PerfCapture Unit := do
  let c ← get
  raiseIf (c.running ∨ c.stopped) (.runtimeError "Create a new PerfCapture for each run")
  eventAttribute config.signal
  let targets ← targets config
  Method.onError close (openAll page config targets)

def stop : Capturing PerfCapture (List HardwareBatch) := do
  let c ← get
  raiseIf (¬c.running ∨ c.stopped)
    (.runtimeError "Capture must be running and stopped only once")
  modify fun c => { c with stopped := true }
  c.events.forM fun e => ioctl e.fd .disable 0
  modify fun c => { c with running := false }
  Method.collect (fun e => readMappedBatch page e.data e.aux config.dataPages config.signal e.source)
    c.events

end PerfCapture

inductive Modality
  | intelPt | memoryLoads | counters
  deriving DecidableEq, Repr

def modalities : List Modality := [.intelPt,.memoryLoads,.counters]

structure HardwareMultimodalConfig where
  pid : Nat
  modalities : List Modality
  dataPages : Nat
  auxPages : Nat
  deriving DecidableEq, Repr

structure HardwareCaptureEnvelope where
  armBeforeNs : Nat
  armAfterNs : Nat
  stopBeforeNs : Nat
  stopAfterNs : Nat
  deriving DecidableEq, Repr

structure HardwareSourceStatus where
  signal : Modality
  requested : Bool
  available : Bool
  lost : Bool
  timeEnabledNs : Option Nat
  timeRunningNs : Option Nat
  deriving DecidableEq, Repr

structure HardwareCounterBatch where
  source : Nat
  tid : Nat
  names : List Counter
  values : List Nat
  timeEnabledNs : Nat
  timeRunningNs : Nat
  available : Bool
  lost : Bool
  deriving DecidableEq, Repr

structure HardwareMultimodalBatch where
  source : Nat
  tid : Nat
  envelope : HardwareCaptureEnvelope
  status : List HardwareSourceStatus
  pt : Option HardwareBatch
  pebs : Option HardwareBatch
  counters : Option HardwareCounterBatch
  deriving DecidableEq, Repr

/-- A source; a descriptor that is -1 is none. -/
structure MultimodalSource where
  tid : Nat
  ptFd : Option Nat := none
  ptData : Option Nat := none
  ptAux : Option Nat := none
  pebsFd : Option Nat := none
  pebsData : Option Nat := none
  pebsStatus : SampledStatus := ⟨0,0,0⟩
  counterFds : List Nat := []
  counterIds : List Nat := []
  counterStart : Option Reading := none
  deriving DecidableEq, Repr

structure PerfMultimodalCapture where
  sources : List MultimodalSource := []
  running : Bool := false
  stopped : Bool := false
  armBeforeNs : Nat := 0
  armAfterNs : Nat := 0
  deriving DecidableEq, Repr

namespace PerfMultimodalCapture

variable (page : Nat) (config : HardwareMultimodalConfig)

/-- An assignment to a field of the source at an index. -/
def updateSource (index : Nat) (f : MultimodalSource → MultimodalSource) :
    Capturing PerfMultimodalCapture Unit :=
  modify fun c => { c with sources := c.sources.modify index f }

/-- An assignment to a field of the source that was appended last. -/
def updateLast (f : MultimodalSource → MultimodalSource) : Capturing PerfMultimodalCapture Unit :=
  modify fun c => { c with sources := c.sources.modify (c.sources.length-1) f }

def closeSource (source : MultimodalSource) : Capturing PerfMultimodalCapture Unit := do
  source.counterFds.forM fun fd => do
    tryIoctl fd .disable groupFlag
    closeDescriptor fd
  whenSome source.pebsFd fun fd => tryIoctl fd .disable 0
  whenSome source.ptFd fun fd => tryIoctl fd .disable 0
  whenSome source.pebsData closeMapping
  whenSome source.ptAux closeMapping
  whenSome source.ptData closeMapping
  whenSome source.pebsFd closeDescriptor
  whenSome source.ptFd closeDescriptor

def close : Capturing PerfMultimodalCapture Unit := do
  let c ← get
  c.sources.forM closeSource
  modify fun c => { c with sources := [], running := false }

def openPt (tid : Nat) : Capturing PerfMultimodalCapture Unit := do
  eventAttribute .intelPt
  let fd ← openEvent (.signal .intelPt) tid (-1) (-1)
  updateLast fun source => { source with ptFd := some fd }
  let data ← mmap fd (page*(1+config.dataPages)) 0
  updateLast fun source => { source with ptData := some data }
  Method.onError (closeMapping data >>= fun _ =>
      updateLast fun source => { source with ptData := none }) do
    call (.packAux data (page*(1+config.dataPages)) (page*config.auxPages))
    let aux ← mmap fd (page*config.auxPages) (page*(1+config.dataPages))
    updateLast fun source => { source with ptAux := some aux }

def openPebs (tid : Nat) : Capturing PerfMultimodalCapture Unit := do
  eventAttribute .memoryLoads
  let fd ← openEvent (.signal .memoryLoads) tid (-1) (-1)
  updateLast fun source => { source with pebsFd := some fd }
  let data ← mmap fd (page*(1+config.dataPages)) 0
  updateLast fun source => { source with pebsData := some data }

/-- The descriptor that leads the group, -1 before there is one. -/
def groupLeader : List Nat → Int
  | [] => -1
  | leader :: _ => leader

/-- The loop over the counter signals: the first event leads the group. -/
def openCounters (tid : Nat) : List Nat → List Counter → Capturing PerfMultimodalCapture (List Nat)
  | fds,[] => pure fds
  | fds,signal :: rest => do
    let fd ← openEvent (.counter signal fds.isEmpty) tid (-1) (groupLeader fds)
    updateLast fun source => { source with counterFds := fds ++ [fd] }
    openCounters tid (fds ++ [fd]) rest

def openGroup (tid : Nat) : Capturing PerfMultimodalCapture Unit := do
  let fds ← openCounters tid [] counterSignals
  let identifiers ← Method.collect eventId fds
  updateLast fun source => { source with counterIds := identifiers }

def whenRequested (modality : Modality) (x : Capturing PerfMultimodalCapture Unit) :
    Capturing PerfMultimodalCapture Unit :=
  if modality ∈ config.modalities then x else pure ()

def openSource (tid : Nat) : Capturing PerfMultimodalCapture Unit := do
  modify fun c => { c with sources := c.sources ++ [{ tid := tid }] }
  whenRequested config .intelPt (openPt page config tid)
  whenRequested config .memoryLoads (openPebs page config tid)
  whenRequested config .counters (openGroup tid)

def armSource (source : MultimodalSource) : Capturing PerfMultimodalCapture Unit := do
  whenSome source.ptFd fun fd => do
    ioctl fd .reset 0
    ioctl fd .enable 0
  whenSome source.pebsFd fun fd => do
    ioctl fd .reset 0
    ioctl fd .enable 0
  whenSome source.counterFds.head? fun leader => do
    ioctl leader .reset groupFlag
    ioctl leader .enable groupFlag

def readBaseline (entry : MultimodalSource × Nat) : Capturing PerfMultimodalCapture Unit :=
  whenSome entry.1.counterFds.head? fun leader => do
    let start ← readCounterGroup leader entry.1.counterIds
    updateSource entry.2 fun source => { source with counterStart := some start }

def openAll (tids : List Nat) : Capturing PerfMultimodalCapture Unit := do
  tids.forM (openSource page config)
  let before ← call .clock
  modify fun c => { c with armBeforeNs := before }
  let c ← get
  c.sources.forM armSource
  let after ← call .clock
  modify fun c => { c with armAfterNs := after }
  c.sources.zipIdx.forM readBaseline
  modify fun c => { c with running := true }

def enter : Capturing PerfMultimodalCapture Unit := do
  let c ← get
  raiseIf (c.running ∨ c.stopped)
    (.runtimeError "Create a new PerfMultimodalCapture for each run")
  let tids ← listTasks config.pid
  Method.onError close (openAll page config tids)

def readFinal (source : MultimodalSource) :
    Capturing PerfMultimodalCapture (Option (Nat × Reading)) :=
  match source.counterFds with
  | [] => pure none
  | leader :: _ => do
    let final ← readCounterGroup leader source.counterIds
    pure (some (source.tid,final))

def disarmSource (entry : MultimodalSource × Nat) : Capturing PerfMultimodalCapture Unit := do
  whenSome entry.1.counterFds.head? fun leader => ioctl leader .disable groupFlag
  whenSome entry.1.pebsFd fun fd => do
    ioctl fd .disable 0
    let status ← readSampledEvent fd
    updateSource entry.2 fun source => { source with pebsStatus := status }
  whenSome entry.1.ptFd fun fd => ioctl fd .disable 0

def disarm (sources : List MultimodalSource) : Capturing PerfMultimodalCapture Unit := do
  sources.zipIdx.forM disarmSource
  modify fun c => { c with running := false }

def counterBatch (source : MultimodalSource) (final : Reading) :
    Except HardwareError HardwareCounterBatch :=
  match source.counterStart with
  | none => .error (.captureError "PMU counter group has no boundary baseline")
  | some start =>
    if final.enabled < start.enabled ∨ final.running < start.running ∨
        ∃ pair ∈ start.values.zip final.values, pair.2 < pair.1 then
      .error (.captureError "PMU counter group moved backwards")
    else
      let enabled := final.enabled-start.enabled
      let running := final.running-start.running
      if enabled = 0 ∨ running = 0 then
        .error (.captureError "PMU counter group did not run")
      else if running ≠ enabled then
        .error (.captureError
          s!"PMU counter group was multiplexed: enabled={enabled}, running={running}")
      else
        let values := (start.values.zip final.values).map fun pair => pair.2-pair.1
        -- a signed 64-bit array takes no larger value
        if ∃ value ∈ values, 2^63 ≤ value then .error .overflowError
        else .ok
          { source := source.tid
            tid := source.tid
            names := counterSignals
            values := values
            timeEnabledNs := enabled
            timeRunningNs := running
            available := true
            lost := false }

def sourceStatus (source : MultimodalSource) (pt pebs : Option HardwareBatch)
    (counters : Option HardwareCounterBatch) (modality : Modality) : HardwareSourceStatus where
  signal := modality
  requested := modality ∈ config.modalities
  available := match modality with
    | .intelPt => pt.isSome
    | .memoryLoads => pebs.isSome
    | .counters => counters.isSome
  lost := false
  timeEnabledNs := match modality with
    | .intelPt => none
    | .memoryLoads => pebs.map fun _ => source.pebsStatus.enabled
    | .counters => counters.map (·.timeEnabledNs)
  timeRunningNs := match modality with
    | .intelPt => none
    | .memoryLoads => pebs.map fun _ => source.pebsStatus.running
    | .counters => counters.map (·.timeRunningNs)

def mappedBatch (data aux : Option Nat) (signal : Signal) (source : Nat) :
    Capturing PerfMultimodalCapture (Option HardwareBatch) :=
  match data with
  | none => pure none
  | some data => do
    let batch ← readMappedBatch page data aux config.dataPages signal source
    pure (some batch)

def finalCounters (source : MultimodalSource) (finals : List (Option (Nat × Reading))) :
    Capturing PerfMultimodalCapture (Option HardwareCounterBatch) :=
  if source.counterFds = [] then pure none
  else
    match (finals.reduceOption.reverse).lookup source.tid with
    | none => throw .keyError
    | some final => settle (counterBatch source final) >>= fun batch => pure (some batch)

def sourceBatch (envelope : HardwareCaptureEnvelope) (finals : List (Option (Nat × Reading)))
    (source : MultimodalSource) : Capturing PerfMultimodalCapture HardwareMultimodalBatch := do
  let pt ← mappedBatch page config source.ptData source.ptAux .intelPt source.tid
  let pebs ← mappedBatch page config source.pebsData none .memoryLoads source.tid
  let counters ← finalCounters source finals
  pure
    { source := source.tid
      tid := source.tid
      envelope := envelope
      status := modalities.map (sourceStatus config source pt pebs counters)
      pt := pt
      pebs := pebs
      counters := counters }

def stop : Capturing PerfMultimodalCapture (List HardwareMultimodalBatch) := do
  let c ← get
  raiseIf (¬c.running ∨ c.stopped)
    (.runtimeError "Capture must be running and stopped only once")
  modify fun c => { c with stopped := true }
  let stopBefore ← call .clock
  let finals ← Method.andFinally (Method.collect readFinal c.sources) (disarm c.sources)
  let stopAfter ← call .clock
  let c ← get
  Method.collect
    (sourceBatch page config ⟨c.armBeforeNs,c.armAfterNs,stopBefore,stopAfter⟩ finals) c.sources

end PerfMultimodalCapture

end Cpu2Tensor.Hardware
