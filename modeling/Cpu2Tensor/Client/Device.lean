import Cpu2Tensor.Client.Batch
import Cpu2Tensor.Library.Packing

/-!
# One upload for the columns of a batch

`to_device`: the columns of a batch are laid out in one byte buffer, copied through typed views,
transferred, and viewed again on the device.  A tensor is its device, dtype, shape and the bytes
of its elements in index order.
-/

namespace Cpu2Tensor.Client
open Library

inductive DeviceType
  | cpu | cuda | mps
  | other (name : String)
  deriving DecidableEq, Repr

structure Device where
  type : DeviceType
  index : Option Nat := none
  deriving DecidableEq, Repr

inductive DType
  | bool | uint8 | int8 | int16 | int32 | int64
  | float16 | bfloat16 | float32 | float64 | complex64 | complex128
  deriving DecidableEq, Repr

def DType.elementSize : DType → Nat
  | .bool | .uint8 | .int8 => 1
  | .int16 | .float16 | .bfloat16 => 2
  | .int32 | .float32 => 4
  | .int64 | .float64 | .complex64 => 8
  | .complex128 => 16

theorem DType.elementSize_pos (dtype : DType) : 0 < dtype.elementSize := by
  cases dtype <;> decide

structure Tensor where
  device : Device
  dtype : DType
  shape : List Nat
  content : Bytes
  sized : content.length = shape.prod*dtype.elementSize

namespace Tensor

def numel (t : Tensor) : Nat := t.shape.prod

/-- The same shape, dtype and content on another device. -/
def onDevice (t : Tensor) (device : Device) : Tensor := { t with device := device }

end Tensor

inductive UploadError
  | valueError (message : String)
  | typeError
  | runtimeError
  deriving DecidableEq, Repr

def notCpu : UploadError := .valueError "Batch upload requires CPU input columns"

structure Span (total : Nat) where
  offset : Nat
  size : Nat
  inside : offset+size ≤ total

/-- Elements of one dtype that lie inside a buffer of `total` bytes. -/
structure View (total : Nat) where
  dtype : DType
  offset : Nat
  shape : List Nat
  inside : offset+shape.prod*dtype.elementSize ≤ total

def narrow (total offset size : Nat) : Except UploadError (Span total) :=
  if h : offset+size ≤ total then .ok ⟨offset,size,h⟩ else .error .runtimeError

/-- `view(dtype)`: the storage offset and the size must be multiples of the element size. -/
def Span.view {total : Nat} (span : Span total) (dtype : DType) :
    Except UploadError (View total) :=
  if h : dtype.elementSize ∣ span.offset ∧ dtype.elementSize ∣ span.size then
    .ok {
      dtype := dtype
      offset := span.offset
      shape := [span.size/dtype.elementSize]
      inside := by
        rw [List.prod_singleton,Nat.div_mul_cancel h.2]
        exact span.inside }
  else .error .runtimeError

/-- `view(shape)`: the number of elements must stay the same. -/
def View.view {total : Nat} (view : View total) (shape : List Nat) :
    Except UploadError (View total) :=
  if h : shape.prod = view.shape.prod then
    .ok { view with shape := shape, inside := h ▸ view.inside }
  else .error .runtimeError

def typedView (total offset size : Nat) (dtype : DType) (shape : List Nat) :
    Except UploadError (View total) := do
  let span ← narrow total offset size
  let view ← span.view dtype
  view.view shape

theorem typedView_ok {total offset size : Nat} {dtype : DType} {shape : List Nat}
    (haligned : dtype.elementSize ∣ offset) (hsize : size = shape.prod*dtype.elementSize)
    (hinside : offset+size ≤ total) :
    typedView total offset size dtype shape = .ok ⟨dtype,offset,shape,hsize ▸ hinside⟩ := by
  have hdvd : dtype.elementSize ∣ size := hsize ▸ Nat.dvd_mul_left _ _
  have hcount : shape.prod = [size/dtype.elementSize].prod := by
    rw [List.prod_singleton,hsize,Nat.mul_div_cancel _ dtype.elementSize_pos]
  have hnarrow : narrow total offset size = .ok ⟨offset,size,hinside⟩ := dif_pos hinside
  have hview : Span.view (⟨offset,size,hinside⟩ : Span total) dtype =
      .ok ⟨dtype,offset,[size/dtype.elementSize],_⟩ := dif_pos ⟨haligned,hdvd⟩
  simp only [typedView,hnarrow,bind,Except.bind,hview]
  exact dif_pos hcount

structure Storage (total : Nat) where
  bytes : Bytes
  sized : bytes.length = total

def zeros (total : Nat) : Storage total := ⟨List.replicate total 0,List.length_replicate⟩

/-- `copy_` into a view.  Copies that would broadcast or convert are not made here. -/
def Storage.copy {total : Nat} (storage : Storage total) (view : View total) (t : Tensor) :
    Except UploadError (Storage total) :=
  if h : view.shape = t.shape ∧ view.dtype = t.dtype then
    .ok {
      bytes := patch storage.bytes view.offset t.content
      sized := by
        have hinside := view.inside
        rw [patch_length,storage.sized]
        rw [t.sized,← h.1,← h.2,storage.sized]
        exact hinside }
  else .error .runtimeError

def Storage.read {total : Nat} (storage : Storage total) (device : Device) (view : View total) :
    Tensor where
  device := device
  dtype := view.dtype
  shape := view.shape
  content := segment storage.bytes view.offset (view.shape.prod*view.dtype.elementSize)
  sized := segment_length (storage.sized.symm ▸ view.inside)

inductive Value
  | tensor (t : Tensor)
  | absent
  | names (names : Names)
  | integer (n : Nat)

def Value.tensor? : Value → Option Tensor
  | .tensor t => some t
  | _ => none

/-- A table by the names of its fields, in the order of their declaration. -/
abbrev TensorTable := Dict String Value

inductive TableName
  | registers | memory | context | layout | transitions
  | observationTransitions | observationContext
  deriving DecidableEq, Repr

def tableNames : List TableName :=
  [.registers,.memory,.context,.layout,.transitions,.observationTransitions,.observationContext]

structure TensorBatch where
  source : Option Nat
  firstSequence : Option Nat
  addresses : Tensor
  worker : Nat
  blockSequences : Option Tensor
  tables : TableName → Option TensorTable
  transitionWindow : Option TransitionWindow
  observationSummary : Option ObservationSummary
  contextFilter : Option ContextFilterSummary

/-- Where a column belongs: a field of the batch, or one of a table. -/
inductive Place
  | addresses
  | blockSequences
  | field (table : TableName) (name : String)
  deriving DecidableEq, Repr

namespace TensorBatch

def tableColumns (batch : TensorBatch) (table : TableName) : List (Place × Tensor) :=
  match batch.tables table with
  | none => []
  | some fields => fields.entries.filterMap fun entry =>
      entry.2.tensor?.map fun t => (.field table entry.1,t)

def columns (batch : TensorBatch) : List (Place × Tensor) :=
  (.addresses,batch.addresses) ::
    (batch.blockSequences.toList.map fun t => (.blockSequences,t)) ++
    tableNames.flatMap batch.tableColumns

end TensorBatch

structure Packed where
  place : Place
  tensor : Tensor
  offset : Nat
  size : Nat

def Packed.interval (p : Packed) : Interval := ⟨p.offset,p.size⟩

def packAt (totalBytes : Nat) (place : Place) (tensor : Tensor) : Packed :=
  let alignment := tensor.dtype.elementSize
  { place := place
    tensor := tensor
    offset := roundUp totalBytes alignment
    size := tensor.numel*alignment }

/-- The packing loop from `totalBytes` on, with the offset and size of each column. -/
def pack (totalBytes : Nat) : List (Place × Tensor) → Except UploadError (List Packed × Nat)
  | [] => .ok ([],totalBytes)
  | (place,tensor)::rest =>
    if tensor.device.type = .cpu then
      let p := packAt totalBytes place tensor
      (pack (p.offset+p.size) rest).map fun (packed,total) => (p::packed,total)
    else .error notCpu

def stage {total : Nat} : Storage total → List Packed → Except UploadError (Storage total)
  | staging, [] => .ok staging
  | staging, p::rest => do
    let view ← typedView total p.offset p.size p.tensor.dtype p.tensor.shape
    let staging ← staging.copy view p.tensor
    stage staging rest

/-- The new columns: those of the batch itself, and by table. -/
structure Uploaded where
  addresses : Option Tensor := none
  blockSequences : Option Tensor := none
  tables : Dict TableName (Dict String Tensor) := {}

def Uploaded.set (u : Uploaded) (place : Place) (value : Tensor) : Uploaded :=
  match place with
  | .addresses => { u with addresses := some value }
  | .blockSequences => { u with blockSequences := some value }
  | .field table name =>
    let values := (u.tables.get? table).getD {}
    { u with tables := u.tables.set table (values.set name value) }

def collectChanges {total : Nat} (device : Device) (uploaded : Storage total) :
    Uploaded → List Packed → Except UploadError Uploaded
  | changes, [] => .ok changes
  | changes, p::rest => do
    let view ← typedView total p.offset p.size p.tensor.dtype p.tensor.shape
    collectChanges device uploaded (changes.set p.place (uploaded.read device view)) rest

def replaceFields (table : TensorTable) (values : Dict String Tensor) : Except UploadError TensorTable :=
  if values.keys.all (table.keys.contains ·) then
    .ok (table.mapValues fun name value => ((values.get? name).map Value.tensor).getD value)
  else .error .typeError

def TensorBatch.replaceTables (batch : TensorBatch) :
    Dict TableName TensorTable → List (TableName × Dict String Tensor) →
      Except UploadError (Dict TableName TensorTable)
  | changes, [] => .ok changes
  | changes, (table,values)::rest =>
    match batch.tables table with
    | none => .error .typeError
    | some fields => do
      let fields ← replaceFields fields values
      batch.replaceTables (changes.set table fields) rest

def TensorBatch.replace (batch : TensorBatch) (changes : Uploaded) (tables : Dict TableName TensorTable) :
    TensorBatch :=
  { batch with
    addresses := changes.addresses.getD batch.addresses
    blockSequences := changes.blockSequences.or batch.blockSequences
    tables := fun table => (tables.get? table).or (batch.tables table) }

def toDevice (batch : TensorBatch) (device : Device) : Except UploadError TensorBatch :=
  if device.type = .cpu then .ok batch
  else if batch.columns.length = 1 then
    if batch.addresses.device.type = .cpu then
      .ok { batch with addresses := batch.addresses.onDevice device }
    else .error notCpu
  else do
    let (packed,total) ← pack 0 batch.columns
    let staging ← stage (zeros total) packed
    -- the transfer keeps the bytes of the staging buffer
    let changes ← collectChanges device staging {} packed
    let tables ← batch.replaceTables {} changes.tables.entries
    return batch.replace changes tables

def OnCpu (columns : List (Place × Tensor)) : Prop :=
  ∀ column ∈ columns, column.2.device.type = .cpu

instance (columns : List (Place × Tensor)) : Decidable (OnCpu columns) :=
  inferInstanceAs (Decidable (∀ column ∈ columns, column.2.device.type = .cpu))

/-- A packed column that a typed view of a buffer of `total` bytes can hold. -/
structure Packed.Fits (total : Nat) (p : Packed) : Prop where
  sized : p.size = p.tensor.numel*p.tensor.dtype.elementSize
  aligned : p.tensor.dtype.elementSize ∣ p.offset
  inside : p.offset+p.size ≤ total

/-- The columns in their order, each one in an aligned interval of its own. -/
structure Layout (start : Nat) (columns : List (Place × Tensor)) (packed : List Packed)
    (total : Nat) : Prop where
  columns_eq : packed.map (fun p => (p.place,p.tensor)) = columns
  stacked : Stacked start (packed.map Packed.interval) total
  fits : ∀ p ∈ packed, p.Fits total

theorem pack_layout {start total : Nat} {columns : List (Place × Tensor)} {packed : List Packed}
    (h : pack start columns = .ok (packed,total)) : Layout start columns packed total := by
  induction columns generalizing start packed with
  | nil =>
    cases h
    exact ⟨rfl,rfl,fun p hp => nomatch hp⟩
  | cons column rest ih =>
    obtain ⟨place,tensor⟩ := column
    rw [pack] at h
    split at h
    case isFalse => cases h
    case isTrue =>
      dsimp only at h
      generalize hrest : pack _ rest = result at h
      cases result with
      | error e => cases h
      | ok result =>
        obtain ⟨later,stop⟩ := result
        cases h
        have hlater := ih hrest
        refine ⟨congrArg ((place,tensor) :: ·) hlater.columns_eq,
          ⟨le_roundUp start tensor.dtype.elementSize_pos,hlater.stacked⟩,?_⟩
        intro p hp
        cases hp with
        | head => exact ⟨rfl,dvd_roundUp _ _,hlater.stacked.le⟩
        | tail _ hp => exact hlater.fits p hp

theorem pack_onCpu {columns : List (Place × Tensor)} (h : OnCpu columns) (start : Nat) :
    ∃ packed total, pack start columns = .ok (packed,total) := by
  induction columns generalizing start with
  | nil => exact ⟨[],start,rfl⟩
  | cons column rest ih =>
    obtain ⟨place,tensor⟩ := column
    have hcpu : tensor.device.type = .cpu := h (place,tensor) List.mem_cons_self
    obtain ⟨packed,total,hrest⟩ := ih (fun c hc => h c (List.mem_cons_of_mem _ hc))
      ((packAt start place tensor).offset+(packAt start place tensor).size)
    refine ⟨packAt start place tensor::packed,total,?_⟩
    rw [pack,if_pos hcpu]
    dsimp only
    rw [hrest]
    rfl

theorem pack_not_onCpu {columns : List (Place × Tensor)} (h : ¬ OnCpu columns) (start : Nat) :
    pack start columns = .error notCpu := by
  induction columns generalizing start with
  | nil => exact absurd (fun c hc => nomatch hc) h
  | cons column rest ih =>
    obtain ⟨place,tensor⟩ := column
    rw [pack]
    split
    case isFalse => rfl
    case isTrue hcpu =>
      have hrest : ¬ OnCpu rest := by
        intro hrest
        apply h
        intro c hc
        cases hc with
        | head => exact hcpu
        | tail _ hc => exact hrest c hc
      dsimp only
      rw [ih hrest]
      rfl

def Packed.block (p : Packed) : Block := ⟨p.offset,p.tensor.content⟩

theorem Packed.Fits.interval_eq {total : Nat} {p : Packed} (h : p.Fits total) :
    p.block.interval = p.interval := by
  rw [Block.interval,Packed.interval,Packed.block,h.sized]
  exact congrArg _ p.tensor.sized

theorem Packed.Fits.typedView_eq {total : Nat} {p : Packed} (h : p.Fits total) :
    ∃ hinside, typedView total p.offset p.size p.tensor.dtype p.tensor.shape =
      .ok ⟨p.tensor.dtype,p.offset,p.tensor.shape,hinside⟩ :=
  ⟨_,typedView_ok h.aligned h.sized h.inside⟩

theorem stage_eq {total : Nat} {packed : List Packed} (h : ∀ p ∈ packed, p.Fits total)
    (staging : Storage total) :
    ∃ filled, stage staging packed = .ok filled ∧
      filled.bytes = writeAll staging.bytes (packed.map Packed.block) := by
  induction packed generalizing staging with
  | nil => exact ⟨staging,rfl,rfl⟩
  | cons p rest ih =>
    obtain ⟨hinside,hview⟩ := (h p List.mem_cons_self).typedView_eq
    have hcopy : staging.copy ⟨p.tensor.dtype,p.offset,p.tensor.shape,hinside⟩ p.tensor =
      .ok ⟨patch staging.bytes p.offset p.tensor.content,_⟩ := dif_pos ⟨rfl,rfl⟩
    obtain ⟨filled,hfilled,hbytes⟩ := ih (fun q hq => h q (List.mem_cons_of_mem _ hq)) ⟨_,_⟩
    refine ⟨filled,?_,hbytes⟩
    simp only [stage,hview,bind,Except.bind,hcopy]
    exact hfilled

theorem collectChanges_eq {total : Nat} {packed : List Packed} {uploaded : Storage total}
    (h : ∀ p ∈ packed, p.Fits total)
    (hheld : ∀ p ∈ packed, segment uploaded.bytes p.offset p.tensor.content.length =
      p.tensor.content) (device : Device) (changes : Uploaded) :
    collectChanges device uploaded changes packed =
      .ok (packed.foldl (fun u p => u.set p.place (p.tensor.onDevice device)) changes) := by
  induction packed generalizing changes with
  | nil => rfl
  | cons p rest ih =>
    obtain ⟨hinside,hview⟩ := (h p List.mem_cons_self).typedView_eq
    have hread : uploaded.read device ⟨p.tensor.dtype,p.offset,p.tensor.shape,hinside⟩ =
        p.tensor.onDevice device := by
      have hcontent := hheld p List.mem_cons_self
      rw [p.tensor.sized] at hcontent
      simp only [Storage.read,Tensor.onDevice,hcontent]
    simp only [collectChanges,hview,bind,Except.bind,hread,List.foldl_cons]
    exact ih (fun q hq => h q (List.mem_cons_of_mem _ hq))
      (fun q hq => hheld q (List.mem_cons_of_mem _ hq)) _

theorem collectChanges_stage {total : Nat} {columns : List (Place × Tensor)}
    {packed : List Packed} (h : Layout 0 columns packed total) (device : Device) :
    (do let staging ← stage (zeros total) packed
        collectChanges device staging {} packed) =
      .ok (columns.foldl (fun u c => u.set c.1 (c.2.onDevice device)) {}) := by
  obtain ⟨filled,hfilled,hbytes⟩ := stage_eq h.fits (zeros total)
  have hintervals : (packed.map Packed.block).map Block.interval = packed.map Packed.interval := by
    rw [List.map_map]
    exact List.map_congr_left fun p hp => (h.fits p hp).interval_eq
  have hheld : ∀ p ∈ packed, segment filled.bytes p.offset p.tensor.content.length =
      p.tensor.content := by
    intro p hp
    rw [hbytes]
    exact segment_writeAll (hintervals ▸ h.stacked) _ (Nat.le_of_eq (zeros total).sized.symm)
      (List.mem_map_of_mem (f := Packed.block) hp)
  rw [hfilled,← h.columns_eq,List.foldl_map]
  exact collectChanges_eq h.fits hheld device {}

namespace Uploaded

def get? (u : Uploaded) : Place → Option Tensor
  | .addresses => u.addresses
  | .blockSequences => u.blockSequences
  | .field table name => (u.tables.get? table).bind (·.get? name)

theorem get?_set (u : Uploaded) (place other : Place) (value : Tensor) :
    (u.set place value).get? other = if place = other then some value else u.get? other := by
  cases place with
  | addresses => cases other <;> simp [set,get?]
  | blockSequences => cases other <;> simp [set,get?]
  | field table name =>
    cases other with
    | addresses => simp [set,get?]
    | blockSequences => simp [set,get?]
    | field table' name' =>
      by_cases htable : table = table'
      · subst htable
        cases htables : u.tables.get? table <;> simp [set,get?,htables,Dict.get?_empty]
      · simp [set,get?,htable]

theorem get?_foldl {columns : List (Place × Tensor)} (hn : (columns.map Prod.fst).Nodup)
    (u : Uploaded) (place : Place) :
    (columns.foldl (fun u c => u.set c.1 c.2) u).get? place =
      (Entries.get? place columns).or (u.get? place) := by
  induction columns generalizing u with
  | nil => rfl
  | cons column rest ih =>
    rw [List.map_cons,List.nodup_cons] at hn
    rw [List.foldl_cons,ih hn.2,get?_set,Entries.get?]
    split_ifs with hplace
    · rw [Entries.get?_of_not_mem (hplace ▸ hn.1)]
      rfl
    · rfl

def Occupied (u : Uploaded) : Prop :=
  ∀ table values, u.tables.get? table = some values → ∃ name value, values.get? name = some value

theorem Occupied.set {u : Uploaded} (h : u.Occupied) (place : Place) (value : Tensor) :
    (u.set place value).Occupied := by
  cases place with
  | addresses => exact h
  | blockSequences => exact h
  | field table name =>
    intro table' values hvalues
    rw [Uploaded.set,Dict.get?_set] at hvalues
    split_ifs at hvalues with htable
    · obtain rfl := Option.some.inj hvalues
      exact ⟨name,value,by rw [Dict.get?_set,if_pos rfl]⟩
    · exact h table' values hvalues

theorem occupied_foldl (columns : List (Place × Tensor)) {u : Uploaded} (h : u.Occupied) :
    (columns.foldl (fun u c => u.set c.1 c.2) u).Occupied := by
  induction columns generalizing u with
  | nil => exact h
  | cons column rest ih => exact ih (h.set column.1 column.2)

end Uploaded

def Value.onDevice (value : Value) (device : Device) : Value :=
  match value with
  | .tensor t => .tensor (t.onDevice device)
  | other => other

def tableOnDevice (table : TensorTable) (device : Device) : TensorTable :=
  table.mapValues fun _ value => value.onDevice device

namespace TensorBatch

/-- The batch with every tensor moved and nothing else changed. -/
def onDevice (batch : TensorBatch) (device : Device) : TensorBatch :=
  { batch with
    addresses := batch.addresses.onDevice device
    blockSequences := batch.blockSequences.map (·.onDevice device)
    tables := fun table => (batch.tables table).map (tableOnDevice · device) }

def get? (batch : TensorBatch) : Place → Option Tensor
  | .addresses => some batch.addresses
  | .blockSequences => batch.blockSequences
  | .field table name => (batch.tables table).bind fun fields => (fields.get? name).bind Value.tensor?

theorem mem_tableColumns (batch : TensorBatch) (table : TableName) (place : Place) (t : Tensor) :
    (place,t) ∈ batch.tableColumns table ↔
      ∃ name, place = .field table name ∧ batch.get? place = some t := by
  unfold tableColumns
  cases htable : batch.tables table with
  | none =>
    simp only [List.not_mem_nil,false_iff,not_exists,not_and]
    intro name hplace
    subst hplace
    simp [get?,htable]
  | some fields =>
    simp only [List.mem_filterMap,Option.map_eq_some_iff,Prod.exists,Prod.mk.injEq]
    constructor
    · intro h
      obtain ⟨name,value,hmem,t',ht,hplace,heq⟩ := h
      subst hplace heq
      refine ⟨name,rfl,?_⟩
      rw [get?,htable,Option.bind_some,(fields.get?_eq_some_iff name value).mpr hmem]
      exact ht
    · intro h
      obtain ⟨name,hplace,hget⟩ := h
      subst hplace
      rw [get?,htable,Option.bind_some,Option.bind_eq_some_iff] at hget
      obtain ⟨value,hvalue,ht⟩ := hget
      exact ⟨name,value,(fields.get?_eq_some_iff name value).mp hvalue,t,ht,rfl,rfl⟩

theorem mem_columns (batch : TensorBatch) (place : Place) (t : Tensor) :
    (place,t) ∈ batch.columns ↔ batch.get? place = some t := by
  have htables : ∀ table : TableName, table ∈ tableNames := by
    intro table
    cases table <;> decide
  simp only [columns,List.mem_append,List.mem_cons,List.mem_map,List.mem_flatMap,
    Option.mem_toList,mem_tableColumns,Prod.mk.injEq]
  cases place with
  | addresses => simp [get?,eq_comm]
  | blockSequences => simp [get?]
  | field table name =>
    simp only [reduceCtorEq,false_and,and_false,exists_false,false_or,Place.field.injEq]
    constructor
    · intro h
      obtain ⟨_,_,_,_,hget⟩ := h
      exact hget
    · intro hget
      exact ⟨table,htables table,name,⟨rfl,rfl⟩,hget⟩

theorem nodup_tableColumns (batch : TensorBatch) (table : TableName) :
    ((batch.tableColumns table).map Prod.fst).Nodup := by
  unfold tableColumns
  cases batch.tables table with
  | none => exact List.nodup_nil
  | some fields =>
    have hsublist : ∀ entries : List (String × Value),
        ((entries.filterMap fun entry =>
            entry.2.tensor?.map fun t => (Place.field table entry.1,t)).map Prod.fst).Sublist
          ((entries.map Prod.fst).map (Place.field table)) := by
      intro entries
      induction entries with
      | nil => exact List.Sublist.refl _
      | cons entry rest ih =>
        rw [List.filterMap_cons]
        cases entry.2.tensor? with
        | none => exact ih.cons _
        | some t => exact ih.cons_cons _
    refine (hsublist fields.entries).nodup (fields.distinct.map ?_)
    intro a b h
    exact (Place.field.inj h).2

private theorem field_of_mem {batch : TensorBatch} {table : TableName} {place : Place}
    (h : place ∈ (batch.tableColumns table).map Prod.fst) : ∃ name, place = .field table name := by
  obtain ⟨⟨_,t⟩,hmem,rfl⟩ := List.mem_map.mp h
  obtain ⟨name,hplace,_⟩ := (batch.mem_tableColumns table _ t).mp hmem
  exact ⟨name,hplace⟩

theorem nodup_columns (batch : TensorBatch) : (batch.columns.map Prod.fst).Nodup := by
  have htables : (tableNames.flatMap fun table => (batch.tableColumns table).map Prod.fst).Nodup := by
    rw [List.nodup_flatMap]
    refine ⟨fun table _ => batch.nodup_tableColumns table,?_⟩
    refine List.Pairwise.imp ?_ (show tableNames.Nodup by decide)
    intro table other hne place hplace hother
    obtain ⟨name,hname⟩ := field_of_mem hplace
    obtain ⟨name',hname'⟩ := field_of_mem hother
    exact hne (Place.field.inj (hname.symm.trans hname')).1
  have hfield : ∀ place ∈ tableNames.flatMap fun table => (batch.tableColumns table).map Prod.fst,
      ∃ table name, place = .field table name := by
    intro place hplace
    obtain ⟨table,_,hmem⟩ := List.mem_flatMap.mp hplace
    exact ⟨table,field_of_mem hmem⟩
  rw [columns,List.cons_append,List.map_cons,List.map_append,List.map_map,List.map_flatMap,
    List.nodup_cons,List.nodup_append]
  refine ⟨?_,?_,htables,?_⟩
  · intro hmem
    cases List.mem_append.mp hmem with
    | inl h =>
      obtain ⟨t,_,heq⟩ := List.mem_map.mp h
      cases heq
    | inr h =>
      obtain ⟨table,name,heq⟩ := hfield _ h
      cases heq
  · cases batch.blockSequences <;> simp
  · intro place hplace other hother heq
    obtain ⟨t,_,hblock⟩ := List.mem_map.mp hplace
    obtain ⟨table,name,hother⟩ := hfield _ hother
    subst heq
    rw [hother] at hblock
    cases hblock

theorem get?_columns (batch : TensorBatch) (place : Place) :
    Entries.get? place batch.columns = batch.get? place := by
  apply Option.ext
  intro t
  rw [← batch.mem_columns]
  exact ⟨Entries.mem_of_get?,Entries.get?_eq_some_of_mem batch.nodup_columns⟩

end TensorBatch

private theorem entries_get?_map (device : Device) (columns : List (Place × Tensor))
    (place : Place) :
    Entries.get? place (columns.map fun c => (c.1,c.2.onDevice device)) =
      (Entries.get? place columns).map (·.onDevice device) := by
  induction columns with
  | nil => rfl
  | cons column rest ih =>
    simp only [List.map_cons,Entries.get?]
    split_ifs with hplace
    · rfl
    · exact ih

def TensorBatch.changes (batch : TensorBatch) (device : Device) : Uploaded :=
  batch.columns.foldl (fun u c => u.set c.1 (c.2.onDevice device)) {}

theorem TensorBatch.changes_eq (batch : TensorBatch) (device : Device) :
    batch.changes device =
      (batch.columns.map fun c => (c.1,c.2.onDevice device)).foldl
        (fun u c => u.set c.1 c.2) {} := by
  rw [List.foldl_map]
  rfl

theorem TensorBatch.get?_changes (batch : TensorBatch) (device : Device) (place : Place) :
    (batch.changes device).get? place = (batch.get? place).map (·.onDevice device) := by
  have hn : ((batch.columns.map fun c => (c.1,c.2.onDevice device)).map Prod.fst).Nodup := by
    rw [List.map_map]
    exact batch.nodup_columns
  have hempty : ({} : Uploaded).get? place = none := by cases place <;> rfl
  rw [batch.changes_eq,Uploaded.get?_foldl hn,entries_get?_map,batch.get?_columns,hempty,
    Option.or_none]

theorem TensorBatch.changes_occupied (batch : TensorBatch) (device : Device) :
    (batch.changes device).Occupied := by
  rw [batch.changes_eq]
  exact Uploaded.occupied_foldl _ fun table values h => by cases h

def Renews (device : Device) (fields : TensorTable) (values : Dict String Tensor) : Prop :=
  ∀ name, values.get? name = ((fields.get? name).bind Value.tensor?).map (·.onDevice device)

theorem replaceFields_eq {device : Device} {fields : TensorTable} {values : Dict String Tensor}
    (h : Renews device fields values) :
    replaceFields fields values = .ok (tableOnDevice fields device) := by
  have hkeys : values.keys.all (fields.keys.contains ·) = true := by
    rw [List.all_eq_true]
    intro name hname
    obtain ⟨⟨key,t⟩,hmem,hkey⟩ := List.mem_map.mp hname
    have hkey : key = name := hkey
    subst hkey
    have hget := (values.get?_eq_some_iff key t).mpr hmem
    rw [h] at hget
    cases hfield : fields.get? key with
    | none =>
      rw [hfield] at hget
      cases hget
    | some value =>
      rw [List.contains_iff_mem]
      exact List.mem_map.mpr ⟨_,(fields.get?_eq_some_iff _ _).mp hfield,rfl⟩
  rw [replaceFields,if_pos hkeys]
  refine congrArg Except.ok (fields.mapValues_congr ?_)
  intro name value hvalue
  rw [h,hvalue]
  cases value <;> rfl

theorem TensorBatch.replaceTables_eq (batch : TensorBatch) (device : Device)
    {entries : List (TableName × Dict String Tensor)}
    (h : ∀ entry ∈ entries, ∃ fields, batch.tables entry.1 = some fields ∧
      Renews device fields entry.2) (changes : Dict TableName TensorTable) :
    ∃ tables, batch.replaceTables changes entries = .ok tables ∧
      ∀ table, tables.get? table =
        if table ∈ entries.map Prod.fst then (batch.onDevice device).tables table
        else changes.get? table := by
  induction entries generalizing changes with
  | nil => exact ⟨changes,rfl,fun table => rfl⟩
  | cons entry rest ih =>
    obtain ⟨first,values⟩ := entry
    obtain ⟨fields,hfields,hrenews⟩ := h _ List.mem_cons_self
    obtain ⟨tables,htables,hget⟩ := ih (fun e he => h e (List.mem_cons_of_mem _ he))
      (changes.set first (tableOnDevice fields device))
    have hfields : batch.tables first = some fields := hfields
    refine ⟨tables,?_,?_⟩
    · rw [replaceTables,hfields]
      simp only [replaceFields_eq hrenews]
      exact htables
    · intro table
      rw [hget,List.map_cons,Dict.get?_set]
      by_cases hfirst : first = table
      · subst hfirst
        simp [onDevice,hfields]
      · simp only [List.mem_cons,Ne.symm hfirst,false_or,if_neg hfirst]

theorem TensorBatch.tableOnDevice_eq_self {batch : TensorBatch} {table : TableName}
    {fields : TensorTable} (hfields : batch.tables table = some fields)
    (h : ∀ name, batch.get? (.field table name) = none) (device : Device) :
    tableOnDevice fields device = fields := by
  apply Dict.mapValues_eq_self
  intro name value hvalue
  have hnone := h name
  rw [get?,hfields,Option.bind_some,hvalue] at hnone
  cases value with
  | tensor t => cases hnone
  | absent => rfl
  | names names => rfl
  | integer n => rfl

theorem TensorBatch.get?_of_not_mem {batch : TensorBatch} {device : Device} {table : TableName}
    (hmem : table ∉ (batch.changes device).tables.entries.map Prod.fst) (name : String) :
    batch.get? (.field table name) = none := by
  have hlookup := batch.get?_changes device (.field table name)
  have hnone : (batch.changes device).tables.get? table = none := Entries.get?_of_not_mem hmem
  rw [Uploaded.get?,hnone] at hlookup
  exact Option.map_eq_none_iff.mp hlookup.symm

theorem TensorBatch.replace_changes (batch : TensorBatch) (device : Device) :
    (do let tables ← batch.replaceTables {} (batch.changes device).tables.entries
        return batch.replace (batch.changes device) tables) =
      (.ok (batch.onDevice device) : Except UploadError TensorBatch) := by
  have hlookup := batch.get?_changes device
  have hrenews : ∀ entry ∈ (batch.changes device).tables.entries,
      ∃ fields, batch.tables entry.1 = some fields ∧ Renews device fields entry.2 := by
    intro entry hentry
    obtain ⟨table,values⟩ := entry
    have hvalues := (Dict.get?_eq_some_iff _ table values).mpr hentry
    have hfield : ∀ name, values.get? name =
        (batch.get? (.field table name)).map (·.onDevice device) := by
      intro name
      rw [← hlookup,Uploaded.get?,hvalues]
      rfl
    obtain ⟨name,value,hvalue⟩ := batch.changes_occupied device table values hvalues
    rw [hfield,get?] at hvalue
    cases hfields : batch.tables table with
    | none =>
      rw [hfields] at hvalue
      cases hvalue
    | some fields =>
      refine ⟨fields,rfl,fun name => ?_⟩
      rw [hfield,get?,hfields]
      rfl
  obtain ⟨tables,htables,hget⟩ := batch.replaceTables_eq device hrenews {}
  rw [htables]
  have hreplace : batch.replace (batch.changes device) tables = batch.onDevice device := by
    have haddresses := hlookup .addresses
    have hblocks := hlookup .blockSequences
    simp only [Uploaded.get?,get?] at haddresses hblocks
    rw [replace,onDevice,haddresses,hblocks]
    congr 1
    · cases batch.blockSequences <;> rfl
    · funext table
      rw [hget]
      split_ifs with hmem
      · show ((batch.tables table).map (tableOnDevice · device)).or (batch.tables table) = _
        cases batch.tables table <;> rfl
      · cases hfields : batch.tables table with
        | none => rfl
        | some fields =>
          have hself := tableOnDevice_eq_self hfields (get?_of_not_mem hmem) device
          exact congrArg some hself.symm
  rw [← hreplace]
  rfl

theorem TensorBatch.onDevice_single {batch : TensorBatch} (h : batch.columns.length = 1)
    (device : Device) :
    { batch with addresses := batch.addresses.onDevice device } = batch.onDevice device := by
  have hcolumns : batch.columns = [(.addresses,batch.addresses)] := by
    rw [columns,List.cons_append] at h ⊢
    rw [List.eq_nil_of_length_eq_zero (Nat.succ.inj h)]
  have hnone : ∀ place, place ≠ .addresses → batch.get? place = none := by
    intro place hplace
    rw [← batch.get?_columns,hcolumns,Entries.get?,if_neg (Ne.symm hplace)]
    rfl
  have hblocks : batch.blockSequences = none := hnone .blockSequences (by decide)
  rw [onDevice,hblocks]
  congr 1
  funext table
  cases hfields : batch.tables table with
  | none => rfl
  | some fields =>
    have hself := tableOnDevice_eq_self hfields (fun name => hnone _ fun h => by cases h) device
    exact congrArg some hself.symm

theorem TensorBatch.onCpu_single {batch : TensorBatch} (h : batch.columns.length = 1) :
    OnCpu batch.columns ↔ batch.addresses.device.type = .cpu := by
  have hcolumns : batch.columns = [(.addresses,batch.addresses)] := by
    rw [columns,List.cons_append] at h ⊢
    rw [List.eq_nil_of_length_eq_zero (Nat.succ.inj h)]
  rw [hcolumns,OnCpu,List.forall_mem_singleton]

theorem toDevice_eq (batch : TensorBatch) (device : Device) :
    toDevice batch device =
      if device.type = .cpu then .ok batch
      else if OnCpu batch.columns then .ok (batch.onDevice device)
      else .error notCpu := by
  rw [toDevice]
  split_ifs with hdevice hsingle haddresses hcpu hcpu hcpu
  · rfl
  · rw [TensorBatch.onDevice_single hsingle]
  · exact absurd ((TensorBatch.onCpu_single hsingle).mpr haddresses) hcpu
  · exact absurd ((TensorBatch.onCpu_single hsingle).mp hcpu) haddresses
  · rfl
  · obtain ⟨packed,total,hpack⟩ := pack_onCpu hcpu 0
    have hcollect := collectChanges_stage (pack_layout hpack) device
    rw [hpack]
    show (stage (zeros total) packed >>= fun staging =>
      collectChanges device staging {} packed >>= fun changes =>
        batch.replaceTables {} changes.tables.entries >>= fun tables =>
          pure (batch.replace changes tables)) = _
    rw [← bind_assoc,hcollect]
    exact batch.replace_changes device
  · rw [pack_not_onCpu hcpu]
    rfl

/-- The upload is the identity on data.  Every offset is a multiple of its column's element size,
the columns lie in disjoint intervals inside the buffer, and the batch that is returned has every
tensor with its shape, dtype and content, and every other field, as they were. -/
theorem toDevice_identity (batch : TensorBatch) (device : Device) :
    (OnCpu batch.columns → ∃ packed total, pack 0 batch.columns = .ok (packed,total) ∧
      packed.map (fun p => (p.place,p.tensor)) = batch.columns ∧
      (∀ p ∈ packed, p.tensor.dtype.elementSize ∣ p.offset ∧
        p.size = p.tensor.numel*p.tensor.dtype.elementSize ∧ p.offset+p.size ≤ total) ∧
      (packed.map Packed.interval).Pairwise Interval.Disjoint) ∧
    toDevice batch device =
      if device.type = .cpu then .ok batch
      else if OnCpu batch.columns then .ok (batch.onDevice device)
      else .error notCpu := by
  refine ⟨?_,toDevice_eq batch device⟩
  intro hcpu
  obtain ⟨packed,total,hpack⟩ := pack_onCpu hcpu 0
  have hlayout := pack_layout hpack
  refine ⟨packed,total,hpack,hlayout.columns_eq,?_,hlayout.stacked.pairwise⟩
  intro p hp
  have hfits := hlayout.fits p hp
  exact ⟨hfits.aligned,hfits.sized,hfits.inside⟩

/-- Three bytes before one word, so that the word is padded to its alignment. -/
def paddedBatch : TensorBatch where
  source := some 0
  firstSequence := some 7
  addresses := ⟨⟨.cpu,none⟩,.uint8,[3],[1,2,3],rfl⟩
  worker := 0
  blockSequences := some ⟨⟨.cpu,none⟩,.int64,[1],[9,0,0,0,0,0,0,0],rfl⟩
  tables := fun _ => none
  transitionWindow := none
  observationSummary := none
  contextFilter := none

theorem toDevice_identity_padded :
    OnCpu paddedBatch.columns ∧
    (∃ packed total, pack 0 paddedBatch.columns = .ok (packed,total) ∧
      (packed.map Packed.interval).Pairwise Interval.Disjoint) ∧
    toDevice paddedBatch ⟨.cuda,some 0⟩ = .ok (paddedBatch.onDevice ⟨.cuda,some 0⟩) := by
  have hcpu : OnCpu paddedBatch.columns := by decide
  have hupload := toDevice_identity paddedBatch ⟨.cuda,some 0⟩
  obtain ⟨packed,total,hpack,_,_,hdisjoint⟩ := hupload.1 hcpu
  refine ⟨hcpu,⟨packed,total,hpack,hdisjoint⟩,?_⟩
  rw [hupload.2,if_neg (by decide),if_pos hcpu]

def Column.tensor (column : Column) : Tensor where
  device := ⟨.cpu,none⟩
  dtype := .int64
  shape := [column.length]
  content := column.flatMap fun word => store word.toNat 8
  sized := by
    rw [List.length_flatMap,List.prod_singleton]
    simp [DType.elementSize]

def ByteMatrix.tensor (m : ByteMatrix) : Tensor where
  device := ⟨.cpu,none⟩
  dtype := .uint8
  shape := [m.rows.length,m.width]
  content := m.rows.flatten
  sized := by
    have hlengths : m.rows.map List.length = List.replicate m.rows.length m.width := by
      rw [List.eq_replicate_iff]
      refine ⟨List.length_map _,?_⟩
      intro n hn
      obtain ⟨row,hrow,heq⟩ := List.mem_map.mp hn
      rw [← heq,m.shaped row hrow]
    rw [List.length_flatten,hlengths,List.sum_replicate]
    simp [DType.elementSize]

def field (column : Column) : Value := .tensor (Column.tensor column)

/-- A field that may be None. -/
def optional {α : Type} (value : α → Value) (a : Option α) : Value :=
  (a.map value).getD .absent

def contextFields (columns : ContextColumn → Column) : List (String × Value) :=
  [("pc",field (columns .pc)),("cr0",field (columns .cr0)),("cr3",field (columns .cr3)),
    ("cr4",field (columns .cr4)),("efer",field (columns .efer)),("cs_base",field (columns .csBase)),
    ("mode",field (columns .mode)),("known",field (columns .known))]

def RegisterChanges.table (t : RegisterChanges) : TensorTable where
  entries := [("pc",field (t.columns .pc)),("ids",field (t.columns .ids)),
    ("widths",field (t.columns .widths)),("flags",field (t.columns .flags)),
    ("values",.tensor t.values.tensor),("names",optional Value.names t.names),
    ("sequences",optional field t.sequences)]
  distinct := by simp

def MemoryAccesses.table (t : MemoryAccesses) : TensorTable where
  entries := [("pc",field (t.columns .pc)),("addresses",field (t.columns .addresses)),
    ("sizes",field (t.columns .sizes)),("flags",field (t.columns .flags)),
    ("values",optional (fun m => .tensor m.tensor) t.values),
    ("physical_addresses",optional field (t.mapping .physicalAddresses)),
    ("mapped_sizes",optional field (t.mapping .mappedSizes)),
    ("mapping_flags",optional field (t.mapping .mappingFlags)),
    ("context_sequences",optional field (t.mapping .contextSequences)),
    ("sequences",optional field t.sequences)]
  distinct := by simp

def AddressContext.table (t : AddressContext) : TensorTable where
  entries := contextFields t.columns ++ [("sequences",optional field t.sequences)]
  distinct := by simp [contextFields]

def ExecutableLayout.table (t : ExecutableLayout) : TensorTable where
  entries := [("values",field t.values)]
  distinct := by simp

def BlockTransitions.table (t : BlockTransitions) : TensorTable where
  entries := [("window",.integer t.window),("from_addresses",field t.fromAddresses),
    ("destinations",field t.destinations),("counts",field t.counts)]
  distinct := by simp

def ObservationTransitions.table (t : ObservationTransitions) : TensorTable where
  entries := [("from_addresses",field t.fromAddresses),("destinations",field t.destinations),
    ("counts",field t.counts)]
  distinct := by simp

def ObservationContext.table (t : ObservationContext) : TensorTable where
  entries := ("block_positions",field t.blockPositions) :: contextFields t.columns
  distinct := by simp [contextFields]

/-- The tensors of a batch as the decoder makes it. -/
def Batch.tensors (b : Batch) : TensorBatch where
  source := b.source
  firstSequence := b.firstSequence
  addresses := Column.tensor b.addresses
  worker := b.worker
  blockSequences := b.blockSequences.map Column.tensor
  tables
    | .registers => b.registers.map RegisterChanges.table
    | .memory => b.memory.map MemoryAccesses.table
    | .context => b.context.map AddressContext.table
    | .layout => b.layout.map ExecutableLayout.table
    | .transitions => b.transitions.map BlockTransitions.table
    | .observationTransitions => b.observationTransitions.map ObservationTransitions.table
    | .observationContext => b.observationContext.map ObservationContext.table
  transitionWindow := b.transitionWindow
  observationSummary := b.observationSummary
  contextFilter := b.contextFilter

def Value.OnCpu (value : Value) : Prop := ∀ t ∈ value.tensor?, t.device.type = .cpu

@[simp] theorem field_onCpu (column : Column) : (field column).OnCpu := by
  intro t ht
  cases ht
  rfl

@[simp] theorem ByteMatrix.onCpu (m : ByteMatrix) : (Value.tensor m.tensor).OnCpu := by
  intro t ht
  cases ht
  rfl

@[simp] theorem Value.names_onCpu (names : Names) : (Value.names names).OnCpu := by
  intro t ht
  cases ht

@[simp] theorem Value.integer_onCpu (n : Nat) : (Value.integer n).OnCpu := by
  intro t ht
  cases ht

@[simp] theorem optional_onCpu {α : Type} {value : α → Value} (hvalue : ∀ a, (value a).OnCpu)
    (field : Option α) : (optional value field).OnCpu := by
  cases field with
  | none =>
    intro t ht
    cases ht
  | some a => exact hvalue a

theorem Batch.tables_onCpu (b : Batch) {table : TableName} {fields : TensorTable}
    (h : b.tensors.tables table = some fields) : ∀ entry ∈ fields.entries, entry.2.OnCpu := by
  cases table
  all_goals
    obtain ⟨t,_,rfl⟩ := Option.map_eq_some_iff.mp h
    simp [RegisterChanges.table,MemoryAccesses.table,AddressContext.table,ExecutableLayout.table,
      BlockTransitions.table,ObservationTransitions.table,ObservationContext.table,contextFields]

theorem Batch.tensors_onCpu (b : Batch) : OnCpu b.tensors.columns := by
  intro column hcolumn
  obtain ⟨place,t⟩ := column
  have hget := (b.tensors.mem_columns place t).mp hcolumn
  cases place with
  | addresses =>
    cases hget
    rfl
  | blockSequences =>
    obtain ⟨column,_,rfl⟩ := Option.map_eq_some_iff.mp hget
    rfl
  | field table name =>
    obtain ⟨fields,hfields,hvalue⟩ := Option.bind_eq_some_iff.mp hget
    obtain ⟨value,hname,ht⟩ := Option.bind_eq_some_iff.mp hvalue
    exact b.tables_onCpu hfields _ ((fields.get?_eq_some_iff name value).mp hname) t ht

/-- A batch as decoded is always uploaded, whatever the device. -/
theorem toDevice_decoded (b : Batch) (device : Device) :
    toDevice b.tensors device =
      .ok (if device.type = .cpu then b.tensors else b.tensors.onDevice device) := by
  rw [toDevice_eq,if_pos b.tensors_onCpu]
  split <;> rfl

end Cpu2Tensor.Client
