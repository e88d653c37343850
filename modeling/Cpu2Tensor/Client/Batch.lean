import Cpu2Tensor.Client.Stdio
import Cpu2Tensor.Library.Dict

/-!
# Batches

The tensor columns of a batch, as the decoder fills them, and `merge_batches`.  An int64 column
holds 64-bit patterns.  `torch.arange` is taken as the range that it documents.
-/

namespace Cpu2Tensor.Client
open Library

abbrev Column := List UInt64

/-- A uint8 tensor of rows of one width. -/
structure ByteMatrix where
  width : Nat
  rows : List Bytes
  shaped : ∀ row ∈ rows, row.length = width

@[ext] theorem ByteMatrix.ext {a b : ByteMatrix} (hw : a.width = b.width) (hr : a.rows = b.rows) :
    a = b := by
  cases a
  cases b
  simp only at hw hr
  subst hw hr
  rfl

inductive RegisterColumn
  | pc | ids | widths | flags
  deriving DecidableEq, Repr

inductive MemoryColumn
  | pc | addresses | sizes | flags
  deriving DecidableEq, Repr

/-- The columns of a memory table that only system streams have. -/
inductive MappingColumn
  | physicalAddresses | mappedSizes | mappingFlags | contextSequences
  deriving DecidableEq, Repr

def MappingColumn.name : MappingColumn → String
  | .physicalAddresses => "physical_addresses"
  | .mappedSizes => "mapped_sizes"
  | .mappingFlags => "mapping_flags"
  | .contextSequences => "context_sequences"

inductive ContextColumn
  | pc | cr0 | cr3 | cr4 | efer | csBase | mode | known
  deriving DecidableEq, Repr

abbrev Names := Dict Nat String

structure RegisterChanges where
  columns : RegisterColumn → Column
  values : ByteMatrix
  names : Option Names
  sequences : Option Column := none

structure MemoryAccesses where
  columns : MemoryColumn → Column
  values : Option ByteMatrix
  mapping : MappingColumn → Option Column
  sequences : Option Column := none

structure AddressContext where
  columns : ContextColumn → Column
  sequences : Option Column := none

structure ExecutableLayout where
  values : Column
  deriving DecidableEq, Repr

structure BlockTransitions where
  window : Nat
  fromAddresses : Column
  destinations : Column
  counts : Column
  deriving DecidableEq, Repr

structure TransitionWindow where
  id : Nat
  status : String
  sources : Nat
  capacityPerSource : Nat
  distinct : Nat
  observed : Nat
  overflow : Nat
  deriving DecidableEq, Repr

structure ObservationTransitions where
  fromAddresses : Column
  destinations : Column
  counts : Column
  deriving DecidableEq, Repr

structure ObservationContext where
  blockPositions : Column
  columns : ContextColumn → Column

structure ObservationSummary where
  sources : Nat
  transitionCapacity : Nat
  contextCapacity : Nat
  blocks : Nat
  transitions : Nat
  distinctTransitions : Nat
  transitionOverflow : Nat
  contextChanges : Nat
  retainedContexts : Nat
  contextOverflow : Nat
  upstreamComplete : Bool := true
  deriving DecidableEq, Repr

structure ContextFilterSummary where
  policy : String
  latchKnown : Bool
  gateSource : Nat
  gatePc : Nat
  cr3 : Nat
  pagingRoot : Nat
  kept : Nat
  dropped : Nat
  matching : Nat
  foreign : Nat
  unknown : Nat
  deriving DecidableEq, Repr

structure Batch where
  source : Option Nat
  firstSequence : Option Nat
  addresses : Column
  registers : Option RegisterChanges := none
  memory : Option MemoryAccesses := none
  context : Option AddressContext := none
  layout : Option ExecutableLayout := none
  worker : Nat := 0
  blockSequences : Option Column := none
  transitions : Option BlockTransitions := none
  transitionWindow : Option TransitionWindow := none
  observationTransitions : Option ObservationTransitions := none
  observationContext : Option ObservationContext := none
  observationSummary : Option ObservationSummary := none
  contextFilter : Option ContextFilterSummary := none

abbrev Key := Nat × Option Nat

def Batch.key (b : Batch) : Key := (b.worker,b.source)

def RegisterChanges.rows (t : RegisterChanges) : Nat := (t.columns .pc).length

def MemoryAccesses.rows (t : MemoryAccesses) : Nat := (t.columns .pc).length

def AddressContext.rows (t : AddressContext) : Nat := (t.columns .pc).length

def integerBytes (column : Column) : Nat := 8*column.length

def optionBytes (column : Option Column) : Nat := (column.map integerBytes).getD 0

def ByteMatrix.bytes (m : ByteMatrix) : Nat := m.rows.length*m.width

def RegisterChanges.tensorBytes (t : RegisterChanges) : Nat :=
  integerBytes (t.columns .pc) + integerBytes (t.columns .ids) + integerBytes (t.columns .widths) +
    integerBytes (t.columns .flags) + t.values.bytes + optionBytes t.sequences

def MemoryAccesses.tensorBytes (t : MemoryAccesses) : Nat :=
  integerBytes (t.columns .pc) + integerBytes (t.columns .addresses) +
    integerBytes (t.columns .sizes) + integerBytes (t.columns .flags) +
    (t.values.map ByteMatrix.bytes).getD 0 + optionBytes (t.mapping .physicalAddresses) +
    optionBytes (t.mapping .mappedSizes) + optionBytes (t.mapping .mappingFlags) +
    optionBytes (t.mapping .contextSequences) + optionBytes t.sequences

def AddressContext.tensorBytes (t : AddressContext) : Nat :=
  integerBytes (t.columns .pc) + integerBytes (t.columns .cr0) + integerBytes (t.columns .cr3) +
    integerBytes (t.columns .cr4) + integerBytes (t.columns .efer) +
    integerBytes (t.columns .csBase) + integerBytes (t.columns .mode) +
    integerBytes (t.columns .known) + optionBytes t.sequences

def tensorBytes (b : Batch) : Nat :=
  integerBytes b.addresses + optionBytes b.blockSequences +
    (b.registers.map RegisterChanges.tensorBytes).getD 0 +
    (b.memory.map MemoryAccesses.tensorBytes).getD 0 +
    (b.context.map AddressContext.tensorBytes).getD 0 +
    (b.layout.map fun layout => integerBytes layout.values).getD 0

def arange (first count : Nat) : Column := (List.range count).map fun i => UInt64.ofNat (first+i)

/-- The original positions of the rows of a table, dense from the first unless they are given. -/
def rowSequences (first : Option Nat) (rows : Nat) : Option Column → Column
  | some column => column
  | none => arange (first.getD 0) rows

def Batch.sequencesOfBlocks (b : Batch) : Column :=
  rowSequences b.firstSequence b.addresses.length b.blockSequences

/-- All tables have the column, or none has it. -/
def optionalColumn {α β : Type} (name : String) (concatenate : List α → β)
    (values : List (Option α)) : Except ClientError (Option β) :=
  if values.any Option.isNone then
    if values.all Option.isNone then .ok none
    else .error (.value ("Cannot collate inconsistent optional column " ++ name))
  else .ok (some (concatenate (values.filterMap id)))

def padRow (width : Nat) (row : Bytes) : Bytes := row ++ List.replicate (width-row.length) 0

variable {row : Bytes} {width : Nat}

theorem padRow_padRow {wide : Nat} (hrow : row.length ≤ width) (hwide : width ≤ wide) :
    padRow wide (padRow width row) = padRow wide row := by
  unfold padRow
  rw [List.length_append,List.length_replicate,List.append_assoc,← List.replicate_add]
  congr 2
  omega

theorem le_foldl_max {w : Nat} {widths : List Nat} (hw : w ∈ widths) : w ≤ widths.foldl max 0 := by
  have hfold : ∀ (widths : List Nat) (start : Nat),
      start ≤ widths.foldl max start ∧ ∀ w ∈ widths, w ≤ widths.foldl max start := by
    intro widths
    induction widths with
    | nil => simp
    | cons width widths ih =>
      intro start
      have hrest := ih (max start width)
      refine ⟨(le_max_left _ _).trans hrest.1,fun w hw => ?_⟩
      rcases List.mem_cons.mp hw with rfl | hw
      · exact (le_max_right _ _).trans hrest.1
      · exact hrest.2 w hw
  exact (hfold _ 0).2 _ hw

def maxWidth (matrices : List ByteMatrix) : Nat := (matrices.map ByteMatrix.width).foldl max 0

theorem le_maxWidth {m : ByteMatrix} {matrices : List ByteMatrix} (hm : m ∈ matrices) :
    m.width ≤ maxWidth matrices :=
  le_foldl_max (List.mem_map_of_mem hm)

theorem padRow_length (hrow : row.length ≤ width) : (padRow width row).length = width := by
  rw [padRow,List.length_append,List.length_replicate]
  omega

/-- The rows of all matrices, padded with zeros to the widest; matrices of one width, as the values
of memory tables are, are only concatenated. -/
def padMatrices (matrices : List ByteMatrix) : ByteMatrix where
  width := maxWidth matrices
  rows := matrices.flatMap fun m => m.rows.map (padRow (maxWidth matrices))
  shaped := by
    intro row hrow
    obtain ⟨m,hm,hrow⟩ := List.mem_flatMap.mp hrow
    obtain ⟨short,hshort,rfl⟩ := List.mem_map.mp hrow
    have hle := le_maxWidth hm
    rw [← m.shaped short hshort] at hle
    exact padRow_length hle

def mergeRegisters (selected : List (Batch × RegisterChanges)) : Option RegisterChanges :=
  selected.getLast?.map fun last =>
    { columns := fun column => selected.flatMap fun entry => entry.2.columns column
      values := padMatrices (selected.map fun entry => entry.2.values)
      names := last.2.names
      sequences := some (selected.flatMap fun entry =>
        rowSequences entry.1.firstSequence entry.2.rows entry.2.sequences) }

def mergeMemory (selected : List (Batch × MemoryAccesses)) :
    Except ClientError (Option MemoryAccesses) :=
  if selected = [] then .ok none
  else do
    let values ← optionalColumn "values" padMatrices (selected.map fun entry => entry.2.values)
    let mapped := fun column : MappingColumn =>
      optionalColumn column.name List.flatten (selected.map fun entry => entry.2.mapping column)
    let physicalAddresses ← mapped .physicalAddresses
    let mappedSizes ← mapped .mappedSizes
    let mappingFlags ← mapped .mappingFlags
    let contextSequences ← mapped .contextSequences
    return some
      { columns := fun column => selected.flatMap fun entry => entry.2.columns column
        values
        mapping := fun
          | .physicalAddresses => physicalAddresses
          | .mappedSizes => mappedSizes
          | .mappingFlags => mappingFlags
          | .contextSequences => contextSequences
        sequences := some (selected.flatMap fun entry =>
          rowSequences entry.1.firstSequence entry.2.rows entry.2.sequences) }

def mergeContext (selected : List (Batch × AddressContext)) : Option AddressContext :=
  if selected = [] then none
  else some
    { columns := fun column => selected.flatMap fun entry => entry.2.columns column
      sequences := some (selected.flatMap fun entry =>
        rowSequences entry.1.firstSequence entry.2.rows entry.2.sequences) }

def selectTable {T : Type} (table : Batch → Option T) (batches : List Batch) : List (Batch × T) :=
  batches.filterMap fun b => (table b).map fun t => (b,t)

def mergedBatch (first : Batch) (batches : List Batch) (memory : Option MemoryAccesses) : Batch :=
  let blocks := batches.filter fun b => b.addresses ≠ []
  { first with
    addresses := if blocks = [] then first.addresses else blocks.flatMap Batch.addresses
    blockSequences := if blocks = [] then none else some (blocks.flatMap Batch.sequencesOfBlocks)
    registers := mergeRegisters (selectTable Batch.registers batches)
    memory
    context := mergeContext (selectTable Batch.context batches) }

def mergeBatches (first : Batch) (rest : List Batch) : Except ClientError Batch :=
  if (first::rest).any fun b => b.key ≠ first.key then
    .error (.value "Cannot collate different workers or CPU sources")
  else do
    let memory ← mergeMemory (selectTable Batch.memory (first::rest))
    return mergedBatch first (first::rest) memory

/-- The rows of a sequence of batches, table by table.  A value row is read with zeros behind its
end, and an optional column has one entry for each row. -/
@[ext] structure Contents where
  blocks : Column
  blockSequences : Column
  registers : RegisterColumn → Column
  registerValues : List (Nat → UInt8)
  registerSequences : Column
  memory : MemoryColumn → Column
  memoryValues : List (Option (Nat → UInt8))
  mapping : MappingColumn → List (Option UInt64)
  memorySequences : Column
  context : ContextColumn → Column
  contextSequences : Column
  layouts : List ExecutableLayout
  filters : List ContextFilterSummary

namespace Contents

instance : Zero Contents where
  zero := ⟨[],[],fun _ => [],[],[],fun _ => [],[],fun _ => [],[],fun _ => [],[],[],[]⟩

instance : Add Contents where
  add a b :=
    { blocks := a.blocks ++ b.blocks
      blockSequences := a.blockSequences ++ b.blockSequences
      registers := fun column => a.registers column ++ b.registers column
      registerValues := a.registerValues ++ b.registerValues
      registerSequences := a.registerSequences ++ b.registerSequences
      memory := fun column => a.memory column ++ b.memory column
      memoryValues := a.memoryValues ++ b.memoryValues
      mapping := fun column => a.mapping column ++ b.mapping column
      memorySequences := a.memorySequences ++ b.memorySequences
      context := fun column => a.context column ++ b.context column
      contextSequences := a.contextSequences ++ b.contextSequences
      layouts := a.layouts ++ b.layouts
      filters := a.filters ++ b.filters }

instance : AddMonoid Contents where
  add_assoc a b c := by
    ext1 <;> first | exact List.append_assoc _ _ _ | (funext; exact List.append_assoc _ _ _)
  zero_add a := rfl
  add_zero a := by ext1 <;> first | exact List.append_nil _ | (funext; exact List.append_nil _)
  nsmul := nsmulRec

end Contents

def zeroExtended (row : Bytes) (i : Nat) : UInt8 := row.getD i 0

def optionalRows {α : Type} (rows : Nat) : Option (List α) → List (Option α)
  | none => List.replicate rows none
  | some column => column.map some

def ByteMatrix.extended (m : ByteMatrix) : List (Nat → UInt8) := m.rows.map zeroExtended

def Batch.contents (b : Batch) : Contents where
  blocks := b.addresses
  blockSequences := b.sequencesOfBlocks
  registers := fun column => (b.registers.map fun t => t.columns column).getD []
  registerValues := (b.registers.map fun t => t.values.extended).getD []
  registerSequences :=
    (b.registers.map fun t => rowSequences b.firstSequence t.rows t.sequences).getD []
  memory := fun column => (b.memory.map fun t => t.columns column).getD []
  memoryValues :=
    (b.memory.map fun t => optionalRows t.rows (t.values.map ByteMatrix.extended)).getD []
  mapping := fun column => (b.memory.map fun t => optionalRows t.rows (t.mapping column)).getD []
  memorySequences :=
    (b.memory.map fun t => rowSequences b.firstSequence t.rows t.sequences).getD []
  context := fun column => (b.context.map fun t => t.columns column).getD []
  contextSequences :=
    (b.context.map fun t => rowSequences b.firstSequence t.rows t.sequences).getD []
  layouts := b.layout.toList
  filters := b.contextFilter.toList

def contents (batches : List Batch) : Contents := (batches.map Batch.contents).sum

theorem contents_append (a b : List Batch) : contents (a ++ b) = contents a + contents b := by
  simp [contents]

variable {T α : Type} {shape : MemoryShape}

theorem contents_flatMap (field : Contents → List α) (hzero : field 0 = [])
    (hadd : ∀ a b, field (a+b) = field a ++ field b) (batches : List Batch) :
    field (contents batches) = batches.flatMap fun b => field b.contents := by
  induction batches with
  | nil => exact hzero
  | cons b batches ih =>
    rw [List.flatMap_cons,← ih,← hadd]
    rfl

/-- Which optional columns the memory tables of a stream have. -/
structure MemoryShape where
  values : Bool
  mapped : Bool

def Batch.hasRows (b : Batch) : Bool :=
  b.addresses ≠ [] || (b.registers.map fun t => t.rows).getD 0 ≠ 0 ||
    (b.memory.map fun t => t.rows).getD 0 ≠ 0 || (b.context.map fun t => t.rows).getD 0 ≠ 0

structure Batch.Cpu (shape : MemoryShape) (b : Batch) : Prop where
  source : b.source ≠ none
  sequence : b.firstSequence ≠ none
  rows : b.hasRows = true
  blocks : ∀ column, b.blockSequences = some column → column.length = b.addresses.length
  values : ∀ t, b.memory = some t → t.values.isSome = shape.values
  mapping : ∀ t, b.memory = some t → ∀ column, (t.mapping column).isSome = shape.mapped
  layout : b.layout = none
  filter : b.contextFilter = none

theorem Batch.Cpu.sequences_nil {b : Batch} (h : b.Cpu shape) (hnil : b.addresses = []) :
    b.sequencesOfBlocks = [] := by
  unfold sequencesOfBlocks rowSequences
  split
  · next column hcolumn =>
    have hlen := h.blocks column hcolumn
    rw [hnil,List.length_nil] at hlen
    exact List.length_eq_zero_iff.mp hlen
  · simp [hnil,arange]

theorem selectTable_flatMap (table : Batch → Option T) (f : Batch → T → List α)
    (batches : List Batch) :
    (selectTable table batches).flatMap (fun entry => f entry.1 entry.2) =
      batches.flatMap fun b => ((table b).map (f b)).getD [] := by
  induction batches with
  | nil => rfl
  | cons b batches ih =>
    rw [List.flatMap_cons,← ih,selectTable,List.filterMap_cons]
    cases table b with
    | none => rfl
    | some t => rfl

variable {batches : List Batch} {first : Batch} {selected : List (Batch × AddressContext)}
  {β : Type}

theorem filter_flatMap {p : Batch → Bool} {f : Batch → List α}
    (h : ∀ b ∈ batches, p b = false → f b = []) :
    (batches.filter p).flatMap f = batches.flatMap f := by
  induction batches with
  | nil => rfl
  | cons b batches ih =>
    have hrest := ih fun other hother => h other (List.mem_cons_of_mem _ hother)
    rw [List.filter_cons]
    split_ifs with hb
    · rw [List.flatMap_cons,hrest,List.flatMap_cons]
    · rw [hrest,List.flatMap_cons,h b List.mem_cons_self (by simpa using hb),List.nil_append]

theorem zeroExtended_padRow (width : Nat) (row : Bytes) :
    zeroExtended (padRow width row) = zeroExtended row := by
  funext i
  unfold zeroExtended padRow
  simp only [List.getD_eq_getElem?_getD]
  by_cases hi : i < row.length
  · rw [List.getElem?_append_left hi]
  · rw [List.getElem?_append_right (by omega),List.getElem?_eq_none (l := row) (by omega),
      List.getElem?_replicate]
    split_ifs <;> rfl

theorem extended_padMatrices (matrices : List ByteMatrix) :
    (padMatrices matrices).extended = matrices.flatMap ByteMatrix.extended := by
  unfold ByteMatrix.extended padMatrices
  simp only [List.map_flatMap,List.map_map]
  congr
  funext m
  congr 1
  funext row
  exact zeroExtended_padRow _ row

/-- The column of the merged table: absent when it is absent everywhere. -/
def MergedColumn {T α β : Type} (concatenate : List α → β) (column : T → Option α)
    (tables : List T) (result : Option β) : Prop :=
  (result = none ∧ ∀ t ∈ tables, column t = none) ∨
    ∃ columns, tables.map column = columns.map some ∧ result = some (concatenate columns)

theorem optionalColumn_ok (name : String) (concatenate : List α → β) (column : T → Option α)
    (tables : List T) {present : Bool} (h : ∀ t ∈ tables, (column t).isSome = present) :
    ∃ result, optionalColumn name concatenate (tables.map column) = .ok result ∧
      MergedColumn concatenate column tables result := by
  unfold optionalColumn
  cases present with
  | false =>
    have hnone : ∀ t ∈ tables, column t = none := fun t ht => by simpa using h t ht
    cases tables with
    | nil => exact ⟨_,rfl,.inr ⟨[],rfl,rfl⟩⟩
    | cons t tables =>
      have hall : ((t::tables).map column).all Option.isNone = true := by
        rw [List.all_map,List.all_eq_true]
        intro other hother
        simp [hnone other hother]
      refine ⟨none,?_,.inl ⟨rfl,hnone⟩⟩
      rw [if_pos (by simp [hnone t]),if_pos hall]
  | true =>
    have hany : (tables.map column).any Option.isNone = false := by
      rw [List.any_map,List.any_eq_false]
      intro t ht
      simp [Option.isSome_iff_ne_none.mp (h t ht)]
    refine ⟨_,by rw [if_neg (by simp [hany])],.inr ⟨(tables.map column).filterMap id,?_,rfl⟩⟩
    clear hany
    induction tables with
    | nil => rfl
    | cons t tables ih =>
      obtain ⟨x,hx⟩ := Option.isSome_iff_exists.mp (h t List.mem_cons_self)
      have hrest := ih fun other hother => h other (List.mem_cons_of_mem _ hother)
      simpa [hx] using hrest

private theorem optionalRows_merged (rows : T → Nat) {column : T → Option α}
    (entries : α → List β) {concatenate : List α → α}
    (hconcatenate : ∀ columns, entries (concatenate columns) = columns.flatMap entries)
    {tables : List T} {result : Option α} (h : MergedColumn concatenate column tables result) :
    optionalRows (tables.map rows).sum (result.map entries) =
      tables.flatMap fun t => optionalRows (rows t) ((column t).map entries) := by
  obtain ⟨rfl,hnone⟩ | ⟨columns,hcolumns,rfl⟩ := h
  · change List.replicate (tables.map rows).sum none = _
    induction tables with
    | nil => rfl
    | cons t tables ih =>
      rw [List.map_cons,List.sum_cons,List.replicate_add,List.flatMap_cons,
        hnone t List.mem_cons_self,ih fun other hother => hnone other (List.mem_cons_of_mem _ hother)]
      rfl
  · change (entries (concatenate columns)).map some = _
    rw [hconcatenate]
    clear hconcatenate
    induction tables generalizing columns with
    | nil =>
      obtain rfl : columns = [] := by simpa using hcolumns.symm
      rfl
    | cons t tables ih =>
      cases columns with
      | nil => simp at hcolumns
      | cons value columns =>
        obtain ⟨hvalue,hrest⟩ := List.cons_eq_cons.mp hcolumns
        rw [List.flatMap_cons,List.map_append,List.flatMap_cons,hvalue,ih columns hrest]
        rfl

private structure MergedMemory (first : Option Nat) (selected : List (Batch × MemoryAccesses))
    (merged : Option MemoryAccesses) : Prop where
  columns : ∀ column, (merged.map fun t => t.columns column).getD [] =
    selected.flatMap fun entry => entry.2.columns column
  values : (merged.map fun t => optionalRows t.rows (t.values.map ByteMatrix.extended)).getD [] =
    selected.flatMap fun entry =>
      optionalRows entry.2.rows (entry.2.values.map ByteMatrix.extended)
  mapping : ∀ column, (merged.map fun t => optionalRows t.rows (t.mapping column)).getD [] =
    selected.flatMap fun entry => optionalRows entry.2.rows (entry.2.mapping column)
  sequences : (merged.map fun t => rowSequences first t.rows t.sequences).getD [] =
    selected.flatMap fun entry => rowSequences entry.1.firstSequence entry.2.rows entry.2.sequences

private theorem mergeMemory_ok {selected : List (Batch × MemoryAccesses)}
    (hvalues : ∀ entry ∈ selected, entry.2.values.isSome = shape.values)
    (hmapping : ∀ entry ∈ selected, ∀ column, (entry.2.mapping column).isSome = shape.mapped)
    (first : Option Nat) :
    ∃ merged, mergeMemory selected = .ok merged ∧ MergedMemory first selected merged := by
  by_cases hnil : selected = []
  · subst hnil
    exact ⟨none,rfl,fun _ => rfl,rfl,fun _ => rfl,rfl⟩
  · obtain ⟨values,hvaluesOk,hvaluesMerged⟩ := optionalColumn_ok "values" padMatrices
      (fun entry => entry.2.values) selected hvalues
    have hmapped : ∀ column : MappingColumn, ∃ result, _ ∧ _ := fun column =>
      optionalColumn_ok column.name List.flatten (fun entry => entry.2.mapping column) selected
        fun entry hentry => hmapping entry hentry column
    choose result hok hmerged using hmapped
    have hrows : (selected.flatMap fun entry => entry.2.columns .pc).length =
        (selected.map fun entry => entry.2.rows).sum := by
      rw [List.length_flatMap]
      rfl
    refine ⟨some
      { columns := fun column => selected.flatMap fun entry => entry.2.columns column
        values
        mapping := result
        sequences := some (selected.flatMap fun entry =>
          rowSequences entry.1.firstSequence entry.2.rows entry.2.sequences) },?_,?_⟩
    · rw [mergeMemory,if_neg hnil,hvaluesOk]
      simp only [hok]
      have hresult : result = fun
          | .physicalAddresses => result .physicalAddresses
          | .mappedSizes => result .mappedSizes
          | .mappingFlags => result .mappingFlags
          | .contextSequences => result .contextSequences := by
        funext column
        cases column <;> rfl
      rw [hresult]
      rfl
    · refine ⟨fun column => rfl,?_,fun column => ?_,rfl⟩
      · change optionalRows (selected.flatMap fun entry => entry.2.columns .pc).length _ = _
        rw [hrows]
        exact optionalRows_merged _ _ extended_padMatrices hvaluesMerged
      · change optionalRows (selected.flatMap fun entry => entry.2.columns .pc).length _ = _
        rw [hrows]
        have hentries := optionalRows_merged (fun entry : Batch × MemoryAccesses => entry.2.rows) id
          (fun _ => List.flatMap_id.symm) (hmerged column)
        simpa using hentries

private theorem merged_field (field : Option Nat → T → List α) (first : Option Nat)
    (table : Batch → Option T) (batches : List Batch) {merged : Option T}
    (hnone : merged = none → selectTable table batches = [])
    (hsome : ∀ t, merged = some t → field first t = (selectTable table batches).flatMap fun entry =>
      field entry.1.firstSequence entry.2) :
    (merged.map (field first)).getD [] =
      batches.flatMap fun b => ((table b).map (field b.firstSequence)).getD [] := by
  rw [← selectTable_flatMap table fun b => field b.firstSequence]
  cases merged with
  | some t => exact hsome t rfl
  | none =>
    rw [hnone rfl]
    rfl

private theorem mergeRegisters_none {selected : List (Batch × RegisterChanges)}
    (h : mergeRegisters selected = none) : selected = [] := by
  rwa [mergeRegisters,Option.map_eq_none_iff,List.getLast?_eq_none_iff] at h

private theorem mergeContext_none (h : mergeContext selected = none) : selected = [] := by
  rw [mergeContext] at h
  split_ifs at h with hnil
  exact hnil

private theorem mergeContext_some {t : AddressContext} (h : mergeContext selected = some t) :
    t = { columns := fun column => selected.flatMap fun entry => entry.2.columns column
          sequences := some (selected.flatMap fun entry =>
            rowSequences entry.1.firstSequence entry.2.rows entry.2.sequences) } := by
  rw [mergeContext] at h
  split_ifs at h with hnil
  exact (Option.some.inj h).symm

private theorem mergedBatch_blocks (hfirst : first ∈ batches) (hcpu : ∀ b ∈ batches, b.Cpu shape)
    (memory : Option MemoryAccesses) :
    (mergedBatch first batches memory).addresses = batches.flatMap Batch.addresses ∧
      (mergedBatch first batches memory).sequencesOfBlocks =
        batches.flatMap Batch.sequencesOfBlocks := by
  have haddresses : (batches.filter fun b => b.addresses ≠ []).flatMap Batch.addresses =
      batches.flatMap Batch.addresses :=
    filter_flatMap fun b _ hb => by simpa using hb
  have hsequences : (batches.filter fun b => b.addresses ≠ []).flatMap Batch.sequencesOfBlocks =
      batches.flatMap Batch.sequencesOfBlocks :=
    filter_flatMap fun b hmem hb => (hcpu b hmem).sequences_nil (by simpa using hb)
  by_cases hnil : (batches.filter fun b => b.addresses ≠ []) = []
  · have hempty : first.addresses = [] := by
      simpa using List.filter_eq_nil_iff.mp hnil first hfirst
    rw [← haddresses,← hsequences,hnil]
    unfold mergedBatch Batch.sequencesOfBlocks
    rw [hnil]
    simp [hempty,rowSequences,arange]
  · rw [← haddresses,← hsequences]
    constructor
    · exact if_neg hnil
    · unfold mergedBatch
      change rowSequences _ _ (if _ then none else _) = _
      rw [if_neg hnil]
      rfl

theorem mergeBatches_ok {rest : List Batch} (hcpu : ∀ b ∈ first::rest, b.Cpu shape)
    (hkey : ∀ b ∈ rest, b.key = first.key) :
    ∃ merged, mergeBatches first rest = .ok merged ∧ merged.key = first.key ∧
      merged.contents = contents (first::rest) := by
  have hselected : ∀ entry ∈ selectTable Batch.memory (first::rest),
      entry.1 ∈ first::rest ∧ entry.1.memory = some entry.2 := by
    intro entry hentry
    obtain ⟨b,hb,hentry⟩ := List.mem_filterMap.mp hentry
    obtain ⟨t,ht,rfl⟩ := Option.map_eq_some_iff.mp hentry
    exact ⟨hb,ht⟩
  have hvalues : ∀ entry ∈ selectTable Batch.memory (first::rest),
      entry.2.values.isSome = shape.values := fun entry hentry =>
    (hcpu _ (hselected entry hentry).1).values _ (hselected entry hentry).2
  have hmapping : ∀ entry ∈ selectTable Batch.memory (first::rest), ∀ column,
      (entry.2.mapping column).isSome = shape.mapped := fun entry hentry =>
    (hcpu _ (hselected entry hentry).1).mapping _ (hselected entry hentry).2
  obtain ⟨memory,hmemory,hmerged⟩ := mergeMemory_ok hvalues hmapping first.firstSequence
  have hsame : ((first::rest).any fun b => b.key ≠ first.key) = false := by
    rw [List.any_eq_false]
    intro b hb
    rcases List.mem_cons.mp hb with rfl | hb
    · simp
    · simp [hkey b hb]
  refine ⟨mergedBatch first (first::rest) memory,by rw [mergeBatches,hsame,hmemory]; rfl,rfl,?_⟩
  obtain ⟨hblocks,hsequences⟩ := mergedBatch_blocks List.mem_cons_self hcpu memory
  have hlayouts : ∀ b ∈ first::rest, b.contents.layouts = [] := fun b hb => by
    rw [Batch.contents,(hcpu b hb).layout]
    rfl
  have hfilters : ∀ b ∈ first::rest, b.contents.filters = [] := fun b hb => by
    rw [Batch.contents,(hcpu b hb).filter]
    rfl
  ext1
  case blocks => rw [contents_flatMap Contents.blocks rfl fun _ _ => rfl]; exact hblocks
  case blockSequences =>
    rw [contents_flatMap Contents.blockSequences rfl fun _ _ => rfl]
    exact hsequences
  case registers =>
    funext column
    rw [contents_flatMap (fun c => c.registers column) rfl fun _ _ => rfl]
    apply merged_field (fun _ t => t.columns column) first.firstSequence Batch.registers
      (first::rest) mergeRegisters_none
    intro t ht
    obtain ⟨last,_,rfl⟩ := Option.map_eq_some_iff.mp ht
    rfl
  case registerValues =>
    rw [contents_flatMap Contents.registerValues rfl fun _ _ => rfl]
    apply merged_field (fun _ t => t.values.extended) first.firstSequence Batch.registers
      (first::rest) mergeRegisters_none
    intro t ht
    obtain ⟨last,_,rfl⟩ := Option.map_eq_some_iff.mp ht
    exact (extended_padMatrices _).trans (List.flatMap_map _ _ _)
  case registerSequences =>
    rw [contents_flatMap Contents.registerSequences rfl fun _ _ => rfl]
    apply merged_field (fun first t => rowSequences first t.rows t.sequences) first.firstSequence
      Batch.registers (first::rest) mergeRegisters_none
    intro t ht
    obtain ⟨last,_,rfl⟩ := Option.map_eq_some_iff.mp ht
    rfl
  case memory =>
    funext column
    rw [contents_flatMap (fun c => c.memory column) rfl fun _ _ => rfl]
    exact (hmerged.columns column).trans
      (selectTable_flatMap Batch.memory (fun _ t => t.columns column) _)
  case memoryValues =>
    rw [contents_flatMap Contents.memoryValues rfl fun _ _ => rfl]
    exact hmerged.values.trans (selectTable_flatMap Batch.memory
      (fun _ t => optionalRows t.rows (t.values.map ByteMatrix.extended)) _)
  case mapping =>
    funext column
    rw [contents_flatMap (fun c => c.mapping column) rfl fun _ _ => rfl]
    exact (hmerged.mapping column).trans
      (selectTable_flatMap Batch.memory (fun _ t => optionalRows t.rows (t.mapping column)) _)
  case memorySequences =>
    rw [contents_flatMap Contents.memorySequences rfl fun _ _ => rfl]
    exact hmerged.sequences.trans (selectTable_flatMap Batch.memory
      (fun b t => rowSequences b.firstSequence t.rows t.sequences) _)
  case context =>
    funext column
    rw [contents_flatMap (fun c => c.context column) rfl fun _ _ => rfl]
    apply merged_field (fun _ t => t.columns column) first.firstSequence Batch.context
      (first::rest) mergeContext_none
    intro t ht
    rw [mergeContext_some ht]
  case contextSequences =>
    rw [contents_flatMap Contents.contextSequences rfl fun _ _ => rfl]
    apply merged_field (fun first t => rowSequences first t.rows t.sequences) first.firstSequence
      Batch.context (first::rest) mergeContext_none
    intro t ht
    rw [mergeContext_some ht]
    rfl
  case layouts =>
    rw [contents_flatMap Contents.layouts rfl fun _ _ => rfl,
      List.flatMap_eq_nil_iff.mpr hlayouts]
    exact hlayouts first List.mem_cons_self
  case filters =>
    rw [contents_flatMap Contents.filters rfl fun _ _ => rfl,
      List.flatMap_eq_nil_iff.mpr hfilters]
    exact hfilters first List.mem_cons_self

end Cpu2Tensor.Client
