import Cpu2Tensor.Client.Batch
import Cpu2Tensor.Library.Rows
import Cpu2Tensor.Stream.Runs

/-!
# The native decoder

`decode` validates one frame and returns its tensor columns; `decode_context_frames` does the same
for a group of mixed frames that hold only blocks and address contexts, with one set of columns for
each source.
-/

namespace Cpu2Tensor.Client
open Library

def cell (item : Bytes) (offset size : Nat) : UInt64 := UInt64.ofNat (load (item.drop offset) size)

def RegisterColumn.read (item : Bytes) : RegisterColumn → UInt64
  | .pc => cell item 0 8
  | .ids => cell item 8 4
  | .widths => cell item 12 2
  | .flags => cell item 14 2

def MemoryColumn.read (item : Bytes) : MemoryColumn → UInt64
  | .pc => cell item 0 8
  | .addresses => cell item 8 8
  | .sizes => cell item 16 4
  | .flags => cell item 20 4

def MappingColumn.read (item : Bytes) : MappingColumn → UInt64
  | .physicalAddresses => cell item 24 8
  | .mappedSizes => cell item 32 4
  | .mappingFlags => cell item 36 4
  | .contextSequences => cell item 40 8

def ContextColumn.index : ContextColumn → Nat
  | .pc => 0 | .cr0 => 1 | .cr3 => 2 | .cr4 => 3 | .efer => 4 | .csBase => 5 | .mode => 6
  | .known => 7

def ContextColumn.read (item : Bytes) (column : ContextColumn) : UInt64 := cell item (column.index*8) 8

def registerWidth (item : Bytes) : Nat := load (item.drop 12) 2

def registerRowBytes (item : Bytes) : Nat := 16+registerWidth item

def memoryRowBytes (memoryValues systemMemory : Bool) : Nat :=
  (if systemMemory then 48 else 24) + if memoryValues then 16 else 0

/-- The columns of a block payload or an executable layout. -/
def decodeWords (count : Nat) (bytes : Bytes) : Column :=
  (splitRows (fun _ => 8) count bytes).map fun item => cell item 0 8

/-- The columns of register rows.  There is no value buffer when all widths are zero. -/
structure RegisterColumns where
  columns : RegisterColumn → Column
  values : Option ByteMatrix
  sequences : Option Column := none

def valueWidth (items : List Bytes) : Nat := (items.map registerWidth).foldl max 0

def registerValue (item : Bytes) : Bytes := (item.drop 16).take (registerWidth item)

/-- Register values with zeros behind those that are shorter than the widest. -/
def registerValues (items : List Bytes) : ByteMatrix where
  width := valueWidth items
  rows := items.map fun item => padRow (valueWidth items) (registerValue item)
  shaped := by
    intro row hrow
    obtain ⟨item,hitem,rfl⟩ := List.mem_map.mp hrow
    apply padRow_length
    exact (List.length_take_le _ _).trans (le_foldl_max (List.mem_map_of_mem hitem))

def registerTable (items : List Bytes) : RegisterColumns where
  columns := fun column => items.map fun item => column.read item
  values := if valueWidth items = 0 then none else some (registerValues items)

def decodeRegisters (count : Nat) (bytes : Bytes) : RegisterColumns :=
  registerTable (splitRows registerRowBytes count bytes)

/-- The 16 value bytes of memory rows, behind `head` other bytes. -/
def memoryValueMatrix (head : Nat) (items : List Bytes) : ByteMatrix where
  width := 16
  rows := items.map fun item => padRow 16 ((item.drop head).take 16)
  shaped := by
    intro row hrow
    obtain ⟨item,_,rfl⟩ := List.mem_map.mp hrow
    exact padRow_length (List.length_take_le _ _)

def memoryTable (memoryValues systemMemory : Bool) (items : List Bytes) : MemoryAccesses where
  columns := fun column => items.map fun item => column.read item
  values :=
    if memoryValues then some (memoryValueMatrix (if systemMemory then 48 else 24) items) else none
  mapping := fun column => if systemMemory then some (items.map fun item => column.read item) else none

def decodeMemory (memoryValues systemMemory : Bool) (count : Nat) (bytes : Bytes) :
    MemoryAccesses :=
  memoryTable memoryValues systemMemory
    (splitRows (fun _ => memoryRowBytes memoryValues systemMemory) count bytes)

def contextTable (items : List Bytes) : AddressContext where
  columns := fun column => items.map fun item => column.read item

def decodeContext (count : Nat) (bytes : Bytes) : AddressContext :=
  contextTable (splitRows (fun _ => contextBytes) count bytes)

def decodeReducedContext (count : Nat) (bytes : Bytes) : ObservationContext where
  blockPositions := (splitRows (fun _ => reducedContextBytes) count bytes).map fun item => cell item 0 8
  columns := fun column => (splitRows (fun _ => reducedContextBytes) count bytes).map fun item =>
    column.read (item.drop 8)

def decodeTransitions (count : Nat) (bytes : Bytes) : ObservationTransitions :=
  let items := splitRows (fun _ => transitionCountBytes) count bytes
  { fromAddresses := items.map fun item => cell item 0 8
    destinations := items.map fun item => cell item 8 8
    counts := items.map fun item => cell item 16 8 }

/-- The text of a C string of bytes below 128. -/
def asciiText (bytes : Bytes) : String :=
  String.ofList ((cString bytes).map fun byte => Char.ofNat byte.toNat)

def decodeSchema (count : Nat) (bytes : Bytes) : List (Nat × String) :=
  (List.range count).map fun row =>
    let item := bytes.drop (row*registerSchemaBytes)
    (load item 4,asciiText (item.drop 8))

inductive Table
  | blocks | registers | memory | context
  deriving DecidableEq, Repr

def Table.kind : Table → Kind
  | .blocks => .blocks
  | .registers => .registers
  | .memory => .memory
  | .context => .addressContext

def Table.all : List Table := [.blocks,.registers,.memory,.context]

def Table.ofCode (code : Nat) : Option Table := Table.all.find? fun table => table.kind.code == code

structure MixedTable where
  bytes : Bytes := []
  count : Nat := 0
  sequences : Column := []

def MixedTable.add (table : MixedTable) (first count : Nat) (bytes : Bytes) : MixedTable where
  bytes := table.bytes ++ bytes
  count := table.count+count
  sequences := table.sequences ++ arange first count

/-- The run loop of `decode_mixed`; a run takes at least eight bytes. -/
def gatherRuns (h : Header) (bytes : Bytes) :
    Nat → Nat → Nat → (Table → MixedTable) → Except Fault (Table → MixedTable)
  | 0, _, _, _ => .error .divergence
  | fuel+1, offset, events, tables =>
    let detail := h.detail.toNat
    if offset < detail then
      if detail-offset < 8 then .error (.failure "Mixed trace run header is truncated")
      else
        let count := load (bytes.drop (offset+2)) 2
        let size := load (bytes.drop (offset+4)) 4
        match Table.ofCode (load (bytes.drop offset) 2) with
        | none => .error (.failure "Mixed trace table exceeds its validated bounds")
        | some table =>
          if size > detail-(offset+8) ∨ size > maxPayloadBytes-(tables table).bytes.length ∨
              count > maxAddresses-(tables table).count then
            .error (.failure "Mixed trace table exceeds its validated bounds")
          else
            gatherRuns h bytes fuel (offset+8+size) (events+count)
              (Function.update tables table ((tables table).add (h.sequence.toNat+events) count
                ((bytes.drop (offset+8)).take size)))
    else .ok tables

structure MixedColumns where
  blocks : Option (Column × Column) := none
  registers : Option RegisterColumns := none
  memory : Option MemoryAccesses := none
  context : Option AddressContext := none

def MixedTable.present {α : Type} (table : MixedTable) (columns : Nat → Bytes → α) : Option α :=
  if table.count = 0 then none else some (columns table.count table.bytes)

def mixedColumns (memoryValues systemMemory : Bool) (tables : Table → MixedTable) : MixedColumns where
  blocks := (tables .blocks).present fun count bytes =>
    (decodeWords count bytes,(tables .blocks).sequences)
  registers := (tables .registers).present fun count bytes =>
    { decodeRegisters count bytes with sequences := some (tables .registers).sequences }
  memory := (tables .memory).present fun count bytes =>
    { decodeMemory memoryValues systemMemory count bytes with
      sequences := some (tables .memory).sequences }
  context := (tables .context).present fun count bytes =>
    { decodeContext count bytes with sequences := some (tables .context).sequences }

def decodeMixed (memoryValues systemMemory : Bool) (h : Header) (bytes : Bytes) :
    Except Fault MixedColumns :=
  (gatherRuns h bytes (h.detail.toNat+1) 0 0 fun _ => {}).map
    (mixedColumns memoryValues systemMemory)

inductive Payload
  | schema (names : List (Nat × String))
  | registers (columns : RegisterColumns)
  | memory (columns : MemoryAccesses)
  | context (columns : AddressContext)
  | reducedContext (columns : ObservationContext)
  | transitions (columns : ObservationTransitions)
  | mixed (columns : MixedColumns)
  | words (column : Column)
  | bytes (bytes : Bytes)

structure Decoded where
  kind : Kind
  source : Nat
  count : Nat
  sequence : Nat
  detail : Nat
  payload : Payload

def hasMemoryValues (features : UInt64) : Bool := decide (Has features featureMemoryValues)

def hasSystemMemory (features : UInt64) : Bool := decide (Has features featureSystemMemory)

def decodePayload (features : UInt64) (h : Header) (bytes : Bytes) : Except Fault Payload :=
  let count := h.count.toNat
  match h.kind with
  | .registerSchema => .ok (.schema (decodeSchema count bytes))
  | .registers => .ok (.registers (decodeRegisters count bytes))
  | .memory =>
    .ok (.memory (decodeMemory (hasMemoryValues features) (hasSystemMemory features) count bytes))
  | .addressContext => .ok (.context (decodeContext count bytes))
  | .reducedContext => .ok (.reducedContext (decodeReducedContext count bytes))
  | .blockTransitions => .ok (.transitions (decodeTransitions count bytes))
  | .mixed =>
    (decodeMixed (hasMemoryValues features) (hasSystemMemory features) h bytes).map .mixed
  | .blocks | .executableLayout => .ok (.words (decodeWords (payloadSize h/8) bytes))
  | _ => .ok (.bytes (bytes.take (payloadSize h)))

/-- The header of a frame whose length matches it. -/
def frameHeader (frame : Bytes) : Except String Header :=
  match decodeHeader (if headerBytes ≤ frame.length then frame.take headerBytes else []) with
  | .error message => .error message
  | .ok h =>
    if frame.length ≠ headerBytes+payloadSize h then
      .error "Trace frame length does not match its header"
    else .ok h

def decodedFrame (h : Header) (payload : Payload) : Decoded where
  kind := h.kind
  source := h.source.toNat
  count := h.count.toNat
  sequence := h.sequence.toNat
  detail := h.detail.toNat
  payload := payload

def decode (frame : Bytes) : StreamM Decoded := do
  match frameHeader frame with
  | .error message => throw (.failure message)
  | .ok h =>
    accept h (some (frame.drop headerBytes))
    match decodePayload (← get).features h (frame.drop headerBytes) with
    | .error fault => throw fault
    | .ok payload => return decodedFrame h payload

/-- Decode frames up to and including the first that fails: the state, what was decoded, and the
failure. -/
def decodeEach : List Bytes → Stream → Stream × List Decoded × Option Fault
  | [], s => (s,[],none)
  | frame::frames, s =>
    match decode frame s with
    | .error fault s => (s,[],some fault)
    | .ok decoded s =>
      let (s,rest,fault) := decodeEach frames s
      (s,decoded::rest,fault)

def maxContextGroupFrames : Nat := 32

structure ContextCounts where
  blocks : Nat := 0
  contexts : Nat := 0
  deriving DecidableEq, Repr

def ContextCounts.add (counts : ContextCounts) (kind : Kind) (rows : Nat) : ContextCounts :=
  if kind = .blocks then { counts with blocks := counts.blocks+rows }
  else { counts with contexts := counts.contexts+rows }

def countRuns (h : Header) (bytes : Bytes) :
    Nat → Nat → Nat → ContextCounts → Except Fault ContextCounts
  | 0, _, _, _ => .error .divergence
  | fuel+1, offset, events, counts =>
    let detail := h.detail.toNat
    if offset < detail then
      if detail-offset < 8 then .error (.failure "Truncated mixed run header")
      else
        let rows := load (bytes.drop (offset+2)) 2
        let size := load (bytes.drop (offset+4)) 4
        match Kind.ofCode (load (bytes.drop offset) 2) with
        | none => .error (.failure "Context-only group contains another signal")
        | some kind =>
          if (kind ≠ .blocks ∧ kind ≠ .addressContext) ∨ rows = 0 ∨ rows > h.count.toNat-events ∨
              size ≠ rows*(if kind = .blocks then 8 else contextBytes) ∨ size > detail-(offset+8) then
            .error (.failure "Context-only group contains another signal")
          else countRuns h bytes fuel (offset+8+size) (events+rows) (counts.add kind rows)
    else if events ≠ h.count.toNat then
      .error (.failure "Mixed event count does not match its runs")
    else .ok counts

def countContextRows (h : Header) (bytes : Bytes) : Except Fault ContextCounts :=
  countRuns h bytes (h.detail.toNat+1) 0 0 {}

structure ContextGroup where
  source : Nat
  firstSequence : Nat
  counts : ContextCounts := {}

/-- Add the rows of a frame to the group of its source, which is made at its first frame. -/
def addToGroup (h : Header) (counts : ContextCounts) : List ContextGroup → List ContextGroup
  | [] => [⟨h.source.toNat,h.sequence.toNat,counts⟩]
  | group::groups =>
    if group.source = h.source.toNat then
      { group with
        counts := ⟨group.counts.blocks+counts.blocks,group.counts.contexts+counts.contexts⟩ }::groups
    else group::addToGroup h counts groups

structure ContextColumns where
  blocks : Column := []
  blockSequences : Column := []
  context : ContextColumn → Column := fun _ => []
  contextSequences : Column := []

def ContextColumns.addBlocks (columns : ContextColumns) (first rows : Nat) (bytes : Bytes) :
    ContextColumns :=
  { columns with
    blocks := columns.blocks ++ decodeWords rows bytes
    blockSequences := columns.blockSequences ++ arange first rows }

def ContextColumns.addContexts (columns : ContextColumns) (first rows : Nat) (bytes : Bytes) :
    ContextColumns :=
  { columns with
    context := fun column => columns.context column ++ (decodeContext rows bytes).columns column
    contextSequences := columns.contextSequences ++ arange first rows }

/-- The loop of `fill_context_columns`, which trusts the counted payload. -/
def fillRuns (h : Header) (bytes : Bytes) : Nat → Nat → Nat → ContextColumns → ContextColumns
  | 0, _, _, columns => columns
  | fuel+1, offset, events, columns =>
    if offset < h.detail.toNat then
      let rows := load (bytes.drop (offset+2)) 2
      if Kind.ofCode (load (bytes.drop offset) 2) = some .blocks then
        fillRuns h bytes fuel (offset+8+rows*8) (events+rows)
          (columns.addBlocks (h.sequence.toNat+events) rows (bytes.drop (offset+8)))
      else
        fillRuns h bytes fuel (offset+8+rows*contextBytes) (events+rows)
          (columns.addContexts (h.sequence.toNat+events) rows (bytes.drop (offset+8)))
    else columns

def fillContextColumns (frame : Frame) (columns : ContextColumns) : ContextColumns :=
  fillRuns frame.header (frame.payload.getD []) (frame.header.detail.toNat+1) 0 0 columns

/-- The frames up to the first with a bad header, and its error. -/
def groupHeaders : List Bytes → List Frame × Option Fault
  | [] => ([],none)
  | frame::frames =>
    match frameHeader frame with
    | .error message => ([],some (.failure message))
    | .ok h =>
      if h.kind ≠ .mixed then ([],some (.failure "Context group contains a non-mixed frame"))
      else
        let (rest,fault) := groupHeaders frames
        (⟨h,some (frame.drop headerBytes)⟩::rest,fault)

def acceptThen (frame : Frame) (rest : Stream → Stream × List Frame × Option Fault) (s : Stream) :
    Stream × List Frame × Option Fault :=
  outcome (acceptFrame frame s) (fun fault s => (s,[],some fault))
    fun _ s => ((rest s).1,frame::(rest s).2.1,(rest s).2.2)

def acceptGroup : List Frame → Stream → Stream × List Frame × Option Fault
  | [], s => (s,[],none)
  | frame::frames, s => acceptThen frame (acceptGroup frames) s

/-- Count the rows of the accepted frames into groups; a frame that cannot be counted ends them. -/
def groupFrames : List Frame → List ContextGroup → List Frame × List ContextGroup × Option Fault
  | [], groups => ([],groups,none)
  | frame::frames, groups =>
    match countContextRows frame.header (frame.payload.getD []) with
    | .error fault => ([],groups,some fault)
    | .ok counts =>
      let (rest,groups,fault) := groupFrames frames (addToGroup frame.header counts groups)
      (frame::rest,groups,fault)

def groupColumns (frames : List Frame) (group : ContextGroup) : MixedColumns :=
  let columns := (frames.filter fun frame => frame.header.source.toNat = group.source).foldl
    (fun columns frame => fillContextColumns frame columns) {}
  { blocks := if group.counts.blocks = 0 then none else some (columns.blocks,columns.blockSequences)
    context :=
      if group.counts.contexts = 0 then none
      else some { columns := columns.context, sequences := some columns.contextSequences } }

def groupDecoded (frames : List Frame) (group : ContextGroup) : Decoded where
  kind := .mixed
  source := group.source
  count := group.counts.blocks+group.counts.contexts
  sequence := group.firstSequence
  detail := 0
  payload := .mixed (groupColumns frames group)

/-- What a group returns: the columns of each source, and the error of the frame that ended it. -/
structure GroupResult where
  outputs : List Decoded
  error : Option Fault

def decodeContextFrames (frames : List Bytes) (s : Stream) :
    Stream × Except ClientError GroupResult :=
  if frames.length < 1 ∨ maxContextGroupFrames < frames.length then
    (s,.error (.value "Context group must contain between 1 and 32 frames"))
  else
    let (valid,headerFault) := groupHeaders frames
    let (s,accepted,validationFault) := acceptGroup valid s
    let (counted,groups,countFault) := groupFrames accepted []
    (s,.ok
      { outputs := groups.map (groupDecoded counted)
        error := (countFault.or validationFault).or headerFault })

/-- The table of decoded register rows; a missing value buffer has no tensor. -/
def registerChanges (columns : RegisterColumns) (names : Option Names) :
    Except ClientError RegisterChanges :=
  match columns.values with
  | none => .error (.type "values must be a buffer")
  | some values =>
    .ok { columns := columns.columns, values, names, sequences := columns.sequences }

def windowStatus : Nat → Option String
  | 1 => some "ended"
  | 2 => some "aborted"
  | 3 => some "incomplete"
  | _ => none

def emptyBatch (source : Option Nat) : Batch := { source, firstSequence := none, addresses := [] }

def sourceBatch (source sequence : Nat) : Batch :=
  { source := some source, firstSequence := some sequence, addresses := [] }

def windowBatch (sequence : Nat) (bytes : Bytes) : Except ClientError Batch :=
  if load (bytes.drop 12) 4 ≠ 0 then .error .assertion
  else
    match windowStatus (load bytes 4) with
    | none => .error (.key (load bytes 4))
    | some status => .ok { emptyBatch none with
        transitionWindow := some
          { id := sequence
            status
            sources := load (bytes.drop 4) 4
            capacityPerSource := load (bytes.drop 8) 4
            distinct := load (bytes.drop 16) 8
            observed := load (bytes.drop 24) 8
            overflow := load (bytes.drop 32) 8 } }

def filterBatch (bytes : Bytes) : Except ClientError Batch :=
  if load (bytes.drop 12) 4 ≠ 0 then .error .assertion
  else .ok { emptyBatch none with
    contextFilter := some
      { policy := if load bytes 4 = 1 then "drop" else "keep"
        latchKnown := load (bytes.drop 4) 4 = 2
        gateSource := load (bytes.drop 8) 4
        gatePc := load (bytes.drop 16) 8
        cr3 := load (bytes.drop 24) 8
        pagingRoot := load (bytes.drop 32) 8
        kept := load (bytes.drop 40) 8
        dropped := load (bytes.drop 48) 8
        matching := load (bytes.drop 56) 8
        foreign := load (bytes.drop 64) 8
        unknown := load (bytes.drop 72) 8 } }

def summaryBatch (source : Nat) (bytes : Bytes) : Except ClientError Batch :=
  if load (bytes.drop 12) 4 ≠ 0 then .error .assertion
  else .ok { emptyBatch (some source) with
    observationSummary := some
      { sources := load bytes 4
        transitionCapacity := load (bytes.drop 4) 4
        contextCapacity := load (bytes.drop 8) 4
        blocks := load (bytes.drop 16) 8
        transitions := load (bytes.drop 24) 8
        distinctTransitions := load (bytes.drop 32) 8
        transitionOverflow := load (bytes.drop 40) 8
        contextChanges := load (bytes.drop 48) 8
        retainedContexts := load (bytes.drop 56) 8
        contextOverflow := load (bytes.drop 64) 8 } }

def mixedBatch (source sequence : Nat) (columns : MixedColumns) (registers : Option RegisterChanges) :
    Batch :=
  { sourceBatch source sequence with
    addresses := (columns.blocks.map Prod.fst).getD []
    blockSequences := columns.blocks.map Prod.snd
    registers
    memory := columns.memory
    context := columns.context }

/-- `Pool._batch`; the names are those of the source. -/
def batchOf (d : Decoded) (names : Option Names) (reducedObservation : Bool) :
    Except ClientError Batch :=
  match d.kind, d.payload with
  | .blockTransitions, .transitions t =>
    if reducedObservation then
      .ok { emptyBatch (some d.source) with observationTransitions := some t }
    else .ok { emptyBatch (some d.source) with
      transitions := some ⟨d.sequence,t.fromAddresses,t.destinations,t.counts⟩ }
  | .transitionWindow, .bytes bytes => windowBatch d.sequence bytes
  | .contextFilter, .bytes bytes => filterBatch bytes
  | .observationSummary, .bytes bytes => summaryBatch d.source bytes
  | .reducedContext, .reducedContext t =>
    .ok { emptyBatch (some d.source) with observationContext := some t }
  | .mixed, .mixed columns =>
    match columns.registers with
    | none => .ok (mixedBatch d.source d.sequence columns none)
    | some t =>
      match registerChanges t names with
      | .error e => .error e
      | .ok registers => .ok (mixedBatch d.source d.sequence columns (some registers))
  | .executableLayout, .words values => .ok { emptyBatch none with layout := some ⟨values⟩ }
  | .blocks, .words addresses => .ok { sourceBatch d.source d.sequence with addresses }
  | .addressContext, .context t => .ok { sourceBatch d.source d.sequence with context := some t }
  | .registers, .registers t =>
    if names = none then .error .assertion
    else
      match registerChanges t names with
      | .error e => .error e
      | .ok registers => .ok { sourceBatch d.source d.sequence with registers := some registers }
  | .memory, .memory t => .ok { sourceBatch d.source d.sequence with memory := some t }
  | _, _ => .error (.type "payload does not match its kind")

end Cpu2Tensor.Client
