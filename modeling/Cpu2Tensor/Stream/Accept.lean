import Cpu2Tensor.Stream.State

/-!
# Accepting a frame

`Stream::accept`, one definition for each frame kind.  A mixed frame hands its runs to the same
checks as separate frames, so the recursion of the source is one level deep.
-/

namespace Cpu2Tensor
open Library

/-- The checks every frame of a source passes before its kind is looked at. -/
def Lane.checkSource (features : UInt64) (h : Header) (bytes : Option Bytes) : LaneM Unit := do
  let lane ← get
  refuse (Has features featureStdio ∧ h.source.toNat ≠ 0)
    "Stdin interaction supports one vCPU only"
  refuse (h.kind = .inputRequest ∧ ¬Has features featureStdio)
    "Stdin request needs interactive capture"
  refuse (Has features featureObservationReduction ∧ (h.kind = .blocks ∨ h.kind = .addressContext))
    "Reduced observations cannot contain raw block or context rows"
  refuse (lane.ended = true) "Frame received after source end"
  refuse (Has features featureObservationReduction ∧ h.kind = .sourceEnd ∧
      lane.observationSummary = false)
    "Reduced source ended before its summary"
  refuse ((h.kind = .registerSchema ∨ h.kind = .registers ∨ h.kind = .memory ∨
      h.kind = .addressContext) ∧ bytes = none)
    "Signal payload is missing"

/-- The availability word of a context row against its execution mode and code segment base. -/
def ContextFault (known mode csBase : Nat) : Prop :=
  (known ≠ 15 ∧ known ≠ 63) ∨ (known = 15 ∧ (mode ≠ 0 ∨ csBase ≠ 0)) ∨
    (known = 63 ∧ mode ≠ 16 ∧ mode ≠ 32 ∧ mode ≠ 64)

instance (known mode csBase : Nat) : Decidable (ContextFault known mode csBase) :=
  inferInstanceAs (Decidable (_ ∨ _ ∨ _))

def Lane.addressContext (features : UInt64) (h : Header) (bytes : Bytes) : LaneM Unit := do
  refuse (¬Has features featureAddressContext) "Address context is not enabled"
  refuse (ContextFault (load (bytes.drop 56) 8) (load (bytes.drop 48) 8) (load (bytes.drop 40) 8))
    "Invalid address context availability or execution mode"
  modify fun lane => { lane with hasContext := true, contextSequence := h.sequence.toNat }

/-- A source's rows need a complete register baseline, checked once. -/
def Lane.baseline (features : UInt64) (h : Header) : LaneM Unit := do
  let lane ← get
  let needsBaseline := ¬Has features featureContextFilter ∧
    (h.kind = .blocks ∨ h.kind = .memory ∨ h.kind = .inputRequest ∨
      (h.kind = .sourceEnd ∧ lane.data = true))
  if Has features featureRegisters ∧ needsBaseline ∧ lane.baselineComplete = false then
    match lane.registers with
    | none => throw (.failure "Source data needs a register schema")
    | some registers =>
      refuse (¬registers.complete) "Source data needs a complete register baseline"
      set { lane with baselineComplete := true }

/-- The checks of a sequenced frame, up to the point where it is counted. -/
def Lane.checkEvent (features : UInt64) (h : Header) (bytes : Bytes) : LaneM Unit := do
  let lane ← get
  refuse (h.sequence.toNat ≠ lane.next) "Missing or repeated source entries"
  refuse (h.count.toNat > uint64Max - h.sequence.toNat) "Source sequence overflow"
  whenever (h.kind = .addressContext) (Lane.addressContext features h bytes)
  let lane ← get
  refuse (Has features featureAddressContext ∧ h.kind = .blocks ∧ lane.hasContext = false)
    "System blocks need an initial address context"
  Lane.baseline features h
  whenever (h.kind = .registers) (do
    refuse (Has features featureAddressContext ∧ lane.hasContext = false)
      "System register state needs an address context"
    Lane.registerSamples features h bytes)
  whenever (h.kind = .memory) (Lane.memoryRows features h bytes)

/-- The checks of a frame of one source.  A schema takes effect here, an event in `commit`. -/
def Lane.checkFrame (features : UInt64) (h : Header) (bytes : Option Bytes) : LaneM Unit := do
  Lane.checkSource features h bytes
  if h.kind = .registerSchema then
    Lane.schema features h (bytes.getD [])
    modify fun lane => { lane with seen := true }
  else Lane.checkEvent features h (bytes.getD [])

/-- An accepted event frame advances its source by its event count. -/
def Lane.commit (h : Header) (lane : Lane) : Lane :=
  { lane with
    seen := true
    data := true
    next := lane.next + h.count.toNat
    ended := lane.ended || decide (h.kind = .sourceEnd) }

def Stream.commit (h : Header) (s : Stream) : Stream :=
  { s.setLane h.source.toNat (Lane.commit h (s.lanes h.source.toNat)) with sourceDataSeen := true }

def countFilteredRows (h : Header) : StreamM Unit := do
  let s ← get
  refuse (s.contextFilterMemoryRows > uint64Max - h.count.toNat)
    "Context filter memory row count overflow"
  set { s with contextFilterMemoryRows := s.contextFilterMemoryRows + h.count.toNat }

def acceptSource (h : Header) (bytes : Option Bytes) : StreamM Unit := do
  let features := (← get).features
  onLane h.source.toNat (Lane.checkFrame features h bytes)
  whenever (h.kind = .memory ∧ Has features featureContextFilter) (countFilteredRows h)
  whenever (h.kind ≠ .registerSchema) (modify (Stream.commit h))

def acceptLayout (bytes : Option Bytes) : StreamM Unit := do
  let s ← get
  refuse (¬Has s.features featureExecutableLayout ∨ s.layoutSeen = true ∨ s.sourceDataSeen = true)
    "Executable layout must appear once before source data"
  refuse (bytes = none ∨ load (bytes.getD []) 8 ≥ load ((bytes.getD []).drop 8) 8)
    "Executable layout needs a nonempty code span"
  set { s with layoutSeen := true }

/-- The register check of one source at a kernel boundary. -/
def boundaryFault (features : UInt64) (lane : Lane) : Option String :=
  if lane.data = false then none
  else
    match lane.registers with
    | none => some "Kernel boundary needs a register schema"
    | some registers =>
      if Has features featureContextFilter ∧ ∀ id < maxRegisters, registers.sampled id = false then
        none
      else if ¬registers.complete then
        some "Kernel boundary needs complete source register baselines"
      else none

def acceptKernelRequest : StreamM Unit := do
  let s ← get
  refuse (¬Has s.features featureKernel)
    "Kernel adapter frame needs an interactive system worker"
  whenever (Has s.features featureRegisters)
    (refuseSome ((List.range maxSources).findSome? fun source =>
      boundaryFault s.features (s.lanes source)))
  whenever (Has s.features featureTransitionWindows) (do
    refuse (s.windowExpected = true)
      "Action boundary arrived without exactly one transition window"
    set { s with windowExpected := true })

def acceptGuestEvent (bytes : Option Bytes) : StreamM Unit := do
  let s ← get
  refuse (¬Has s.features featureKernel)
    "Kernel adapter frame needs an interactive system worker"
  refuse (bytes = none) "Guest event payload is missing"

structure TransitionRow where
  fromAddress : Nat
  destination : Nat
  count : Nat
  deriving DecidableEq, Repr

def loadTransitionRow (item : Bytes) : TransitionRow where
  fromAddress := load item 8
  destination := load (item.drop 8) 8
  count := load (item.drop 16) 8

def loadTransitionRows (bytes : Bytes) : Nat → Nat → List TransitionRow
  | 0, _ => []
  | rows+1, row =>
    loadTransitionRow (bytes.drop (row*transitionCountBytes)) :: loadTransitionRows bytes rows (row+1)

def transitionRow (source : Nat) (observation : Bool) (row : TransitionRow) : StreamM Unit := do
  rememberTransition source row.fromAddress row.destination
  let s ← get
  refuse (row.count = 0 ∨ s.windowObserved > uint64Max - row.count)
    "Invalid or overflowing block transition count"
  set { s with windowObserved := s.windowObserved + row.count }
  whenever (observation = true) (onLane source (do
    let lane ← get
    refuse (lane.observationTransitionCounts > uint64Max - row.count)
      "Reduced transition count overflow"
    set { lane with
      observationTransitionCounts := lane.observationTransitionCounts + row.count }))
  modify fun s => { s with windowDistinct := s.windowDistinct + 1 }

def transitionRows (source : Nat) (observation : Bool) : List TransitionRow → StreamM Unit
  | [] => pure ()
  | row::rows => do
    transitionRow source observation row
    transitionRows source observation rows

def acceptBlockTransitions (h : Header) (bytes : Option Bytes) : StreamM Unit := do
  let s ← get
  let source := h.source.toNat
  refuse ((¬Has s.features featureTransitionWindows ∧ ¬Has s.features featureObservationReduction) ∨
      bytes = none ∨ h.sequence.toNat ≠ s.nextWindow ∨ source ≥ maxSources ∨
      (s.lanes source).ended = true ∨
      (Has s.features featureTransitionWindows ∧ s.windowExpected = false) ∨
      (Has s.features featureObservationReduction ∧ (s.lanes source).observationSummary = true))
    "Block transitions need their current reduction"
  transitionRows source (Has s.features featureObservationReduction)
    (loadTransitionRows (bytes.getD []) h.count.toNat 0)
  let s ← get
  refuse (s.windowRowsPerSource source > maxTransitionSlots - h.count.toNat)
    "Per-source transition row count overflow"
  set { s with
    windowRowsPerSource := Function.update s.windowRowsPerSource source
      (s.windowRowsPerSource source + h.count.toNat)
    windowMaxSourcePlusOne :=
      if s.windowMaxSourcePlusOne ≤ source then source+1 else s.windowMaxSourcePlusOne
    windowRows := true }

structure ReducedContextRow where
  block : Nat
  csBase : Nat
  mode : Nat
  known : Nat
  deriving DecidableEq, Repr

def loadReducedContextRow (item : Bytes) : ReducedContextRow where
  block := load item 8
  csBase := load (item.drop 48) 8
  mode := load (item.drop 56) 8
  known := load (item.drop 64) 8

def loadReducedContextRows (bytes : Bytes) : Nat → Nat → List ReducedContextRow
  | 0, _ => []
  | rows+1, row =>
    loadReducedContextRow (bytes.drop (row*reducedContextBytes)) ::
      loadReducedContextRows bytes rows (row+1)

def reducedContextRow (row : ReducedContextRow) : LaneM Unit := do
  let lane ← get
  refuse ((lane.observationHasContext = true ∧ row.block ≤ lane.observationLastBlock) ∨
      ContextFault row.known row.mode row.csBase)
    "Invalid reduced context position or availability"
  set { lane with observationLastBlock := row.block, observationHasContext := true }

def reducedContextRows : List ReducedContextRow → LaneM Unit
  | [] => pure ()
  | row::rows => do
    reducedContextRow row
    reducedContextRows rows

def Lane.reducedContexts (features : UInt64) (h : Header) (bytes : Option Bytes) : LaneM Unit := do
  let lane ← get
  refuse (¬Has features featureObservationReduction ∨ bytes = none ∨ lane.ended = true ∨
      lane.observationSummary = true ∨ h.sequence.toNat ≠ lane.next ∨
      h.count.toNat > uint64Max - h.sequence.toNat)
    "Reduced contexts need their current source projection"
  reducedContextRows (loadReducedContextRows (bytes.getD []) h.count.toNat 0)
  let lane ← get
  refuse (lane.observationContextRows > maxTransitionSlots - h.count.toNat)
    "Reduced context rows exceed the fixed bound"
  set { lane with
    observationContextRows := lane.observationContextRows + h.count.toNat
    next := lane.next + h.count.toNat
    seen := true
    data := true }

def acceptReducedContext (h : Header) (bytes : Option Bytes) : StreamM Unit := do
  onLane h.source.toNat (Lane.reducedContexts (← get).features h bytes)
  modify fun s => { s with sourceDataSeen := true }

structure ObservationSummary where
  sources : Nat
  transitionCapacity : Nat
  contextCapacity : Nat
  reserved : Nat
  blocks : Nat
  transitions : Nat
  distinct : Nat
  transitionOverflow : Nat
  contextChanges : Nat
  retainedContexts : Nat
  contextOverflow : Nat
  deriving DecidableEq, Repr

def loadObservationSummary (bytes : Bytes) : ObservationSummary where
  sources := load bytes 4
  transitionCapacity := load (bytes.drop 4) 4
  contextCapacity := load (bytes.drop 8) 4
  reserved := load (bytes.drop 12) 4
  blocks := load (bytes.drop 16) 8
  transitions := load (bytes.drop 24) 8
  distinct := load (bytes.drop 32) 8
  transitionOverflow := load (bytes.drop 40) 8
  contextChanges := load (bytes.drop 48) 8
  retainedContexts := load (bytes.drop 56) 8
  contextOverflow := load (bytes.drop 64) 8

def SummaryFault (s : Stream) (source : Nat) (summary : ObservationSummary) : Prop :=
  let lane := s.lanes source
  summary.sources = 0 ∨ summary.sources > maxSources ∨ source ≥ summary.sources ∨
    summary.transitionCapacity < 2 ∨
    summary.transitionCapacity &&& (summary.transitionCapacity-1) ≠ 0 ∨
    summary.contextCapacity ≠ summary.transitionCapacity ∨ summary.reserved ≠ 0 ∨
    summary.sources*summary.transitionCapacity > maxTransitionSlots ∨
    summary.transitions ≠ (if summary.blocks = 0 then 0 else summary.blocks-1) ∨
    summary.distinct ≠ s.windowRowsPerSource source ∨
    summary.distinct > summary.transitionCapacity ∨
    summary.transitionOverflow > summary.transitions ∨
    lane.observationTransitionCounts > summary.transitions - summary.transitionOverflow ∨
    (lane.observationTransitionCounts + summary.transitionOverflow) % 2^64 ≠ summary.transitions ∨
    summary.retainedContexts ≠ lane.observationContextRows ∨
    summary.retainedContexts > summary.contextCapacity ∨
    summary.contextOverflow > summary.contextChanges ∨
    (summary.retainedContexts + summary.contextOverflow) % 2^64 ≠ summary.contextChanges ∨
    summary.retainedContexts ≠ (if summary.contextChanges < summary.contextCapacity then
      summary.contextChanges else summary.contextCapacity) ∨
    summary.contextChanges > summary.blocks ∨
    (summary.blocks ≠ 0 ∧ summary.contextChanges = 0) ∨
    (lane.observationHasContext = true ∧ lane.observationLastBlock ≥ summary.blocks) ∨
    (s.observationSources ≠ 0 ∧ (s.observationSources ≠ summary.sources ∨
      s.observationTransitionCapacity ≠ summary.transitionCapacity ∨
      s.observationContextCapacity ≠ summary.contextCapacity))

instance (s : Stream) (source : Nat) (summary : ObservationSummary) :
    Decidable (SummaryFault s source summary) := by
  unfold SummaryFault
  infer_instance

def acceptObservationSummary (h : Header) (bytes : Option Bytes) : StreamM Unit := do
  let s ← get
  let source := h.source.toNat
  refuse (¬Has s.features featureObservationReduction ∨ bytes = none ∨
      (s.lanes source).ended = true ∨ (s.lanes source).observationSummary = true)
    "Reduced observation summary is disabled or repeated"
  let summary := loadObservationSummary (bytes.getD [])
  refuse (SummaryFault s source summary) "Reduced observation summary does not close its source"
  let s := if s.observationSources = 0 then
      { s with
        observationSources := summary.sources
        observationTransitionCapacity := summary.transitionCapacity
        observationContextCapacity := summary.contextCapacity }
    else s
  set { s.setLane source { s.lanes source with observationSummary := true, seen := true } with
    sourceDataSeen := true }

structure WindowFrame where
  status : Nat
  sources : Nat
  capacity : Nat
  reserved : Nat
  distinct : Nat
  observed : Nat
  overflow : Nat
  deriving DecidableEq, Repr

def loadWindowFrame (bytes : Bytes) : WindowFrame where
  status := load bytes 4
  sources := load (bytes.drop 4) 4
  capacity := load (bytes.drop 8) 4
  reserved := load (bytes.drop 12) 4
  distinct := load (bytes.drop 16) 8
  observed := load (bytes.drop 24) 8
  overflow := load (bytes.drop 32) 8

def WindowFault (s : Stream) (frame : WindowFrame) : Prop :=
  (frame.status ≠ 1 ∧ frame.status ≠ 2 ∧ frame.status ≠ 3) ∨
    frame.sources = 0 ∨ frame.sources > maxSources ∨ frame.capacity < 2 ∨
    frame.capacity &&& (frame.capacity-1) ≠ 0 ∨ frame.reserved ≠ 0 ∨
    frame.sources*frame.capacity > maxTransitionSlots ∨
    frame.distinct > frame.sources*frame.capacity ∨
    (∃ source < maxSources, s.windowRowsPerSource source > frame.capacity) ∨
    s.windowMaxSourcePlusOne > frame.sources ∨
    (s.windowSources ≠ 0 ∧ (s.windowSources ≠ frame.sources ∨
      s.windowCapacityPerSource ≠ frame.capacity)) ∨
    frame.distinct ≠ s.windowDistinct ∨ frame.overflow > frame.observed ∨
    s.windowObserved > frame.observed - frame.overflow ∨
    (s.windowObserved + frame.overflow) % 2^64 ≠ frame.observed

instance (s : Stream) (frame : WindowFrame) : Decidable (WindowFault s frame) := by
  unfold WindowFault
  infer_instance

def acceptTransitionWindow (h : Header) (bytes : Option Bytes) : StreamM Unit := do
  let s ← get
  refuse (¬Has s.features featureTransitionWindows ∨ bytes = none ∨
      h.sequence.toNat ≠ s.nextWindow ∨ s.windowExpected = false)
    "Transition metadata needs its current window"
  let frame := loadWindowFrame (bytes.getD [])
  refuse (WindowFault s frame) "Transition window summary does not close its rows"
  let s := if s.windowSources = 0 then
      { s with windowSources := frame.sources, windowCapacityPerSource := frame.capacity }
    else s
  set { s with windowExpected := false, nextWindow := (s.nextWindow+1) % 2^64 }
  let s ← get
  refuse (s.nextWindow = 0) "Transition window sequence overflow"
  set { s with
    windowDistinct := 0
    windowObserved := 0
    windowRowsPerSource := fun _ => 0
    windowMaxSourcePlusOne := 0
    windowRows := false }

/-- Every source of which a schema or an event was accepted has ended. -/
def Stream.allEnded (s : Stream) : Prop :=
  ∀ source < maxSources, (s.lanes source).seen = true → (s.lanes source).ended = true

instance (s : Stream) : Decidable s.allEnded :=
  inferInstanceAs (Decidable (∀ source < maxSources, _ → _))

def FilterFault (s : Stream) (bytes : Bytes) : Prop :=
  let policy := load bytes 4
  let latch := load (bytes.drop 4) 4
  let source := load (bytes.drop 8) 4
  let reserved := load (bytes.drop 12) 4
  let cr3 := load (bytes.drop 24) 8
  let root := load (bytes.drop 32) 8
  let kept := load (bytes.drop 40) 8
  let dropped := load (bytes.drop 48) 8
  let matching := load (bytes.drop 56) 8
  let foreign := load (bytes.drop 64) 8
  let unknown := load (bytes.drop 72) 8
  (policy ≠ 1 ∧ policy ≠ 2) ∨ (latch ≠ 2 ∧ latch ≠ 3) ∨ source ≥ maxSources ∨
    (s.lanes source).seen = false ∨ (s.lanes source).ended = false ∨ reserved ≠ 0 ∨
    root ≠ cr3 - cr3 % 4096 ∨ kept ≠ s.contextFilterMemoryRows ∨ kept > uint64Max - dropped ∨
    matching > uint64Max - foreign ∨ matching + foreign > uint64Max - unknown ∨
    kept + dropped ≠ matching + foreign + unknown ∨
    (policy = 1 ∧ (kept ≠ matching ∨ dropped ≠ (foreign + unknown) % 2^64)) ∨
    (policy = 2 ∧ dropped ≠ 0)

instance (s : Stream) (bytes : Bytes) : Decidable (FilterFault s bytes) := by
  unfold FilterFault
  infer_instance

def acceptContextFilter (bytes : Option Bytes) : StreamM Unit := do
  let s ← get
  refuse (¬Has s.features featureContextFilter ∨ bytes = none ∨ s.contextFilterSeen = true)
    "Context filter summary needs its feature and appears once"
  refuse (¬s.allEnded) "Context filter summary needs every observed source end"
  refuse (FilterFault s (bytes.getD [])) "Invalid context filter summary values"
  set { s with contextFilterSeen := true }

def acceptComplete : StreamM Unit := do
  let s ← get
  refuse (Has s.features featureTransitionWindows ∧
      (s.windowRows = true ∨ s.windowExpected = true))
    "Trace ended before its required transition window"
  refuse (∃ source < s.windowSources, (s.lanes source).ended = false)
    "Trace ended before a declared window source ended"
  refuse (¬s.allEnded) "Trace ended before all sources ended"
  whenever (Has s.features featureObservationReduction) (do
    refuse (s.observationSources = 0) "Reduced trace ended without source summaries"
    refuse (∃ source < s.observationSources,
        (s.lanes source).observationSummary = false ∨ (s.lanes source).ended = false)
      "Reduced trace ended before every source summary")
  refuse (Has s.features featureContextFilter ∧ s.contextFilterSeen = false)
    "Trace ended before its context filter summary"
  set { s with finished := true }

def checkHeader (h : Header) : StreamM Unit :=
  match decodeHeader (encodeHeader h) with
  | .error message => throw (.failure message)
  | .ok _ => pure ()

/-- The header checks of `accept`; the result says whether the frame still needs its own checks. -/
def acceptHeader (h : Header) : StreamM Bool := do
  checkHeader h
  let s ← get
  refuse (s.finished = true) "Frame received after trace end"
  refuse (s.started = true ∧ h.version.toNat ≠ s.version)
    "Trace frame version changed after Hello"
  if s.started = false then
    if h.kind = .terminalReport then
      set { s with version := h.version.toNat, finished := true }
      return false
    else
      refuse (h.kind ≠ .hello) "Trace must start with Hello"
      set { s with started := true, version := h.version.toNat, features := h.detail }
      return false
  else
    refuse (h.kind = .hello) "Duplicate trace Hello"
    return true

def acceptBody (h : Header) (bytes : Option Bytes) : StreamM Unit :=
  match h.kind with
  | .kernelRequest => acceptKernelRequest
  | .guestEvent => acceptGuestEvent bytes
  | .blockTransitions => acceptBlockTransitions h bytes
  | .reducedContext => acceptReducedContext h bytes
  | .observationSummary => acceptObservationSummary h bytes
  | .transitionWindow => acceptTransitionWindow h bytes
  | .contextFilter => acceptContextFilter bytes
  | .error | .terminalReport => modify fun s => { s with finished := true }
  | .complete => acceptComplete
  | _ => acceptSource h bytes

/-- The branches of `accept` for every kind but Hello and mixed. -/
def acceptKind (h : Header) (bytes : Option Bytes) : StreamM Unit := do
  if h.kind = .executableLayout then acceptLayout bytes
  else
    let s ← get
    refuse (Has s.features featureExecutableLayout ∧ s.layoutSeen = false ∧
        h.kind ≠ .registerSchema ∧ h.kind ≠ .error)
      "Trace data needs its initial executable layout"
    acceptBody h bytes

/-- `accept` of a frame that is not mixed, as for every run of a mixed frame. -/
def acceptRun (h : Header) (bytes : Option Bytes) : StreamM Unit := do
  if ← acceptHeader h then acceptKind h bytes

def runHeader (h : Header) (kind : Kind) (rows size count : Nat) : Header :=
  { kind
    source := h.source
    count := UInt32.ofNat rows
    sequence := h.sequence + UInt64.ofNat count
    detail := if kind = .blocks then 0 else UInt64.ofNat size
    version := h.version }

/-- The run loop of a mixed frame.  Every pass consumes at least its eight header bytes, so
`detail` passes are enough. -/
def mixedRuns (h : Header) (bytes : Bytes) : Nat → Nat → Nat → StreamM Unit
  | 0, _, _ => throw .divergence
  | fuel+1, offset, count => do
    let detail := h.detail.toNat
    if offset < detail then
      refuse (detail - offset < 8) "Truncated mixed run header"
      let kind := Kind.ofCode (load (bytes.drop offset) 2)
      let rows := load (bytes.drop (offset+2)) 2
      let size := load (bytes.drop (offset+4)) 4
      let offset := offset+8
      match kind with
      | none => throw (.failure "Invalid mixed run kind, count or length")
      | some kind =>
        refuse ((kind ≠ .blocks ∧ kind ≠ .registers ∧ kind ≠ .memory ∧ kind ≠ .addressContext) ∨
            rows = 0 ∨ rows > h.count.toNat - count ∨ size > detail - offset ∨
            (kind = .blocks ∧ size ≠ rows*8))
          "Invalid mixed run kind, count or length"
        refuse (h.sequence.toNat > uint64Max - count) "Mixed sequence overflow"
        acceptRun (runHeader h kind rows size count) (some (bytes.drop offset))
        mixedRuns h bytes fuel (offset+size) (count+rows)
    else
      refuse (count ≠ h.count.toNat) "Mixed event count does not match its runs"

def acceptMixed (h : Header) (bytes : Option Bytes) : StreamM Unit := do
  refuse (¬Has (← get).features featureMixed ∨ bytes = none)
    "Mixed capture needs its feature and payload"
  mixedRuns h (bytes.getD []) (h.detail.toNat+1) 0 0

def accept (h : Header) (bytes : Option Bytes) : StreamM Unit := do
  if ← acceptHeader h then
    if h.kind = .mixed then acceptMixed h bytes
    else acceptKind h bytes

structure Frame where
  header : Header
  payload : Option Bytes := none
  deriving DecidableEq, Repr

def acceptFrame (frame : Frame) : StreamM Unit := accept frame.header frame.payload

def acceptAll : List Frame → StreamM Unit
  | [] => pure ()
  | frame::frames => do
    acceptFrame frame
    acceptAll frames

def Accepts (frames : List Frame) : Prop := ∃ s, acceptAll frames {} = .ok () s

instance (frames : List Frame) : Decidable (Accepts frames) :=
  match h : acceptAll frames {} with
  | .ok () s => isTrue ⟨s,h⟩
  | .error _ _ => isFalse fun ⟨s,hs⟩ => by simp [h] at hs

def mixedFrames (h : Header) (bytes : Bytes) : Nat → Nat → Nat → List Frame
  | 0, _, _ => []
  | fuel+1, offset, count =>
    if offset < h.detail.toNat then
      match Kind.ofCode (load (bytes.drop offset) 2) with
      | none => []
      | some kind =>
        let rows := load (bytes.drop (offset+2)) 2
        let size := load (bytes.drop (offset+4)) 4
        ⟨runHeader h kind rows size count,some (bytes.drop (offset+8))⟩ ::
          mixedFrames h bytes fuel (offset+8+size) (count+rows)
    else []

/-- A mixed frame counts as its runs, any other frame as itself. -/
def Frame.runs (frame : Frame) : List Frame :=
  if frame.header.kind = .mixed then
    mixedFrames frame.header (frame.payload.getD []) (frame.header.detail.toNat+1) 0 0
  else [frame]

end Cpu2Tensor
