import Cpu2Tensor.Client.Native
import Cpu2Tensor.Stream.Global

/-!
# Columns of mixed frames

The tables of an accepted mixed frame are those of its runs as separate frames, one behind the
other.
-/

namespace Cpu2Tensor.Client
open Library

/-- The length of the row at the start of the rows of a kind. -/
def rowBytes (features : UInt64) : Kind → Bytes → Nat
  | .blocks => fun _ => 8
  | .registers => registerRowBytes
  | .memory => fun _ => memoryRowBytes (hasMemoryValues features) (hasSystemMemory features)
  | _ => fun _ => contextBytes

theorem framed_registerRowBytes : Framed registerRowBytes := by
  intro row rest hrow
  unfold registerRowBytes registerWidth at *
  rw [load_drop_append rest (by omega)]

theorem framed_rowBytes (features : UInt64) (kind : Kind) : Framed (rowBytes features kind) := by
  cases kind
  case registers => exact framed_registerRowBytes
  all_goals exact framed_const _

theorem memoryStride_eq (features : UInt64) :
    memoryStride features = memoryRowBytes (hasMemoryValues features) (hasSystemMemory features) := by
  unfold memoryStride memoryPrefix memoryRowBytes hasMemoryValues hasSystemMemory
  simp only [decide_eq_true_eq]

/-- The body of a run ends with its last row, and register rows have values. -/
structure WholeRun (features : UInt64) (run : MixedRun) : Prop where
  size : rowsSize (rowBytes features run.kind) run.rows run.body = run.body.length
  widths : run.kind = .registers → ∀ item ∈ splitRows registerRowBytes run.rows run.body,
    registerWidth item ≠ 0
  signals : (run.kind = .registers → Has features featureRegisters) ∧
    (run.kind = .memory → Has features featureMemory)

variable {bytes : Bytes} {entries : List (Nat × MixedRun)} {run : MixedRun} {table : Table}
  {α : Type}

theorem registerRows_walk {detail rows offset next : Nat} {state after : Registers}
    (hr : registerRows detail bytes rows offset state = .ok next after) :
    next = offset+rowsSize registerRowBytes rows (bytes.drop offset) ∧
      ∀ item ∈ splitRows registerRowBytes rows (bytes.drop offset), registerWidth item ≠ 0 := by
  induction rows generalizing offset state with
  | zero =>
    obtain ⟨rfl,_⟩ := pure_eq_ok.mp hr
    exact ⟨rfl,by simp [splitRows]⟩
  | succ rows ih =>
    rw [registerRows,bind_eq_ok] at hr
    obtain ⟨middle,between,hrow,hrest⟩ := hr
    simp only [registerRow,bind_eq_ok,exists_unit,refuse_eq_ok,get_eq_ok,set_eq_ok,
      pure_eq_ok] at hrow
    obtain ⟨_,⟨_,rfl⟩,_,_,⟨rfl,rfl⟩,_,⟨hwidth,rfl⟩,_,_,_,_,_,_,hmiddle,_⟩ := hrow
    simp only [not_or] at hwidth
    have hnext : middle = offset+registerRowBytes (bytes.drop offset) := by
      rw [← hmiddle,registerRowBytes,registerWidth,List.drop_drop,Nat.add_assoc]
    obtain ⟨hsize,hitems⟩ := ih hrest
    rw [hnext,← List.drop_drop] at hsize hitems
    constructor
    · rw [hsize,rowsSize]
      omega
    · intro item hitem
      rw [splitRows,List.mem_cons] at hitem
      rcases hitem with rfl | hitem
      · rw [registerWidth,load_drop_take _ (by unfold registerRowBytes; omega),List.drop_drop]
        exact hwidth.2.1
      · exact hitems item hitem

theorem registerSamples_walk {features : UInt64} {h : Header} {lane lane' : Lane}
    (hr : Lane.registerSamples features h bytes lane = .ok () lane') :
    Has features featureRegisters ∧ lane.registers ≠ none ∧
      rowsSize registerRowBytes h.count.toNat bytes = h.detail.toNat ∧
      ∀ item ∈ splitRows registerRowBytes h.count.toNat bytes, registerWidth item ≠ 0 := by
  simp only [Lane.registerSamples,bind_eq_ok,get_eq_ok] at hr
  obtain ⟨_,_,⟨rfl,rfl⟩,hr⟩ := hr
  cases hschema : lane.registers with
  | none => simp [hschema] at hr
  | some state =>
    simp only [hschema,bind_eq_ok,exists_unit,refuse_eq_ok,onRegisters_eq_ok] at hr
    obtain ⟨_,⟨hfeature,rfl⟩,offset,_,⟨_,hwalk,rfl⟩,hend,_⟩ := hr
    obtain ⟨hsize,hitems⟩ := registerRows_walk hwalk
    rw [Nat.zero_add,List.drop_zero] at hsize
    exact ⟨not_not.mp hfeature,by simp,hsize.symm.trans (not_not.mp hend),hitems⟩

theorem acceptFrame_whole {h : Header} {count : Nat} {s t : Stream} (hv : run.Valid)
    (hr : acceptFrame (run.frame h count) s = .ok () t) :
    WholeRun s.features run ∧ (run.kind = .registers → (s.lanes h.source.toNat).registers ≠ none) := by
  have hbody := hv.bodyBound
  unfold maxPayloadBytes at hbody
  have hcount := hv.count h count
  have hdetail : run.kind ≠ .blocks → (run.frame h count).header.detail.toNat = run.body.length := by
    intro hne
    change (if run.kind = .blocks then (0 : UInt64) else UInt64.ofNat run.body.length).toNat = _
    rw [if_neg hne]
    exact UInt64.toNat_ofNat_of_lt' (by change run.body.length < 2^64; omega)
  obtain ⟨hf,_,lane,hevent,_⟩ := acceptFrame_data hv.data hr
  obtain ⟨hregisters,hmemory⟩ := checkEvent_kind hevent
  change (run.kind = .registers → _) at hregisters
  change (run.kind = .memory → _) at hmemory
  have hkind := hv.data
  cases hk : run.kind <;> simp only [hk,Kind.isData,Bool.false_eq_true] at hkind
  case blocks =>
    refine ⟨⟨?_,by simp [hk],by simp [hk]⟩,by simp⟩
    rw [hk,rowBytes,rowsSize_const,hv.blocks hk]
  case registers =>
    obtain ⟨before,after,hbefore,hsamples⟩ := hregisters hk
    obtain ⟨hfeature,hschema,hsize,hitems⟩ := registerSamples_walk hsamples
    rw [hcount] at hsize hitems
    rw [hdetail (by simp [hk])] at hsize
    refine ⟨⟨?_,fun _ => hitems,by simpa [hk] using hfeature⟩,fun _ => ?_⟩
    · rw [hk]
      exact hsize
    · rw [hbefore] at hschema
      exact hschema
  case memory =>
    obtain ⟨before,after,hmem⟩ := hmemory hk
    obtain ⟨hfeature,hsize,_⟩ := memoryRows_eq_ok.mp hmem
    refine ⟨⟨?_,by simp [hk],by simpa [hk] using hfeature⟩,by simp⟩
    rw [hk,rowBytes,rowsSize_const,← memoryStride_eq]
    rw [hcount,hdetail (by simp [hk])] at hsize
    exact hsize.symm
  case addressContext =>
    refine ⟨⟨?_,by simp [hk],by simp [hk]⟩,by simp⟩
    have hfields : (run.frame h count).header.kind = .addressContext := hk
    simp only [headerFault,fieldFault,hfields,check_eq_none] at hf
    obtain ⟨_,_,_,hf,_⟩ := hf
    rw [hcount,hdetail (by simp [hk])] at hf
    have hone : run.rows = 1 ∧ run.body.length = contextBytes := by omega
    rw [hk,hone.1,hone.2]
    change rowsSize (fun _ => contextBytes) 1 run.body = contextBytes
    rw [rowsSize_const,Nat.one_mul]

def selected (table : Table) (entries : List (Nat × MixedRun)) : List (Nat × MixedRun) :=
  entries.filter fun entry => entry.2.kind = table.kind

def gathered (h : Header) (entries : List (Nat × MixedRun)) (tables : Table → MixedTable)
    (table : Table) : MixedTable where
  bytes := (tables table).bytes ++ (selected table entries).flatMap fun entry => entry.2.body
  count := (tables table).count+((selected table entries).map fun entry => entry.2.rows).sum
  sequences := (tables table).sequences ++ (selected table entries).flatMap fun entry =>
    arange (h.sequence.toNat+entry.1) entry.2.rows

theorem table_of_data {kind : Kind} (hk : kind.isData = true) :
    ∃ table, Table.ofCode kind.code = some table ∧ table.kind = kind := by
  cases kind <;> simp only [Kind.isData,Bool.false_eq_true] at hk
  case blocks => exact ⟨.blocks,rfl,rfl⟩
  case registers => exact ⟨.registers,rfl,rfl⟩
  case memory => exact ⟨.memory,rfl,rfl⟩
  case addressContext => exact ⟨.context,rfl,rfl⟩

theorem Table.kind_injective {a b : Table} (h : a.kind = b.kind) : a = b := by
  cases a <;> cases b <;> first | rfl | cases h

theorem Table.isData (table : Table) : table.kind.isData = true := by
  cases table <;> rfl

theorem gathered_cons (h : Header) {events : Nat} (hk : table.kind = run.kind)
    (entries : List (Nat × MixedRun)) (tables : Table → MixedTable) :
    gathered h entries (Function.update tables table
        ((tables table).add (h.sequence.toNat+events) run.rows run.body)) =
      gathered h ((events,run)::entries) tables := by
  funext other
  unfold gathered selected
  by_cases hother : other = table
  · subst hother
    simp only [Function.update_self,MixedTable.add,List.filter_cons,hk,decide_true,if_true,
      List.flatMap_cons,List.map_cons,List.sum_cons,List.append_assoc,Nat.add_assoc]
  · have hne : ¬ run.kind = other.kind := by
      rw [← hk]
      exact fun heq => hother (Table.kind_injective heq.symm)
    simp only [Function.update_of_ne hother,List.filter_cons,hne,decide_false,Bool.false_eq_true,
      if_false]

structure Room (runs : List MixedRun) (tables : Table → MixedTable) : Prop where
  size : ∀ table, (tables table).bytes.length+(encodeRuns runs).length ≤ maxPayloadBytes
  rows : ∀ table, (tables table).count+(runs.map MixedRun.rows).sum ≤ maxAddresses

namespace Room

variable {run : MixedRun} {runs : List MixedRun} {tables : Table → MixedTable}

theorem empty (hsize : (encodeRuns runs).length ≤ maxPayloadBytes)
    (hrows : (runs.map MixedRun.rows).sum ≤ maxAddresses) : Room runs fun _ => {} :=
  ⟨fun _ => by rwa [List.length_nil,Nat.zero_add],fun _ => by rwa [Nat.zero_add]⟩

theorem first (hroom : Room (run::runs) tables) (table : Table) :
    (tables table).bytes.length+(8+run.body.length+(encodeRuns runs).length) ≤ maxPayloadBytes ∧
      (tables table).count+(run.rows+(runs.map MixedRun.rows).sum) ≤ maxAddresses := by
  have hsize := hroom.size table
  rw [encodeRuns_cons,List.length_append,run.encode_length] at hsize
  exact ⟨hsize,hroom.rows table⟩

theorem add (hroom : Room (run::runs) tables) (table : Table) (first : Nat) :
    Room runs (Function.update tables table ((tables table).add first run.rows run.body)) := by
  constructor
  all_goals
    intro other
    obtain ⟨hsize,hrows⟩ := hroom.first other
    by_cases heq : other = table
    · subst heq
      simp only [Function.update_self,MixedTable.add,List.length_append]
      omega
    · rw [Function.update_of_ne heq]
      omega

end Room

theorem gatherRuns_encode {h : Header} (runs : List MixedRun) (fuel offset events : Nat)
    (tables : Table → MixedTable) (hlen : bytes.length = h.detail.toNat)
    (hbytes : bytes.drop offset = encodeRuns runs) (hv : ∀ run ∈ runs, run.Valid)
    (hfuel : h.detail.toNat-offset < fuel) (hroom : Room runs tables) :
    gatherRuns h bytes fuel offset events tables =
      .ok (gathered h (numbered events runs) tables) := by
  induction runs generalizing fuel offset events tables with
  | nil =>
    obtain ⟨fuel,rfl⟩ := Nat.exists_eq_succ_of_ne_zero (by omega : fuel ≠ 0)
    rw [gatherRuns]
    dsimp only
    rw [if_neg (runs_end hlen hbytes)]
    congr 1
    funext table
    simp [gathered,selected,numbered]
  | cons run runs ih =>
    obtain ⟨fuel,rfl⟩ := Nat.exists_eq_succ_of_ne_zero (by omega : fuel ≠ 0)
    obtain ⟨hrun,hrest⟩ := List.forall_mem_cons.mp hv
    have hat := runAt hbytes hrun
    have hfits := hat.fits
    obtain ⟨table,hcode,hkind⟩ := table_of_data hrun.data
    have hbody : (bytes.drop (offset+8)).take run.body.length = run.body := by
      rw [hat.body,List.take_left]
    obtain ⟨htable,hcount⟩ := hroom.first table
    rw [gatherRuns]
    dsimp only
    rw [if_pos (by omega),if_neg (by omega),hat.kind,hat.rows,hat.size,hcode]
    dsimp only
    rw [if_neg (by omega),hbody,ih fuel _ _ _ hat.rest hrest (by omega) (hroom.add table _),
      gathered_cons h hkind]
    rfl

def runTables (h : Header) (runs : List MixedRun) : Table → MixedTable :=
  gathered h (numbered 0 runs) fun _ => {}

theorem gatherRuns_payload {h : Header} {runs : List MixedRun}
    (hlen : (encodeRuns runs).length = h.detail.toNat) (hdetail : h.detail.toNat ≤ maxPayloadBytes)
    (hv : ∀ run ∈ runs, run.Valid) (hrows : (runs.map MixedRun.rows).sum ≤ maxAddresses) :
    gatherRuns h (encodeRuns runs) (h.detail.toNat+1) 0 0 (fun _ => {}) = .ok (runTables h runs) := by
  exact gatherRuns_encode runs _ _ _ _ hlen rfl hv (by omega) (.empty (by omega) hrows)

private theorem foldl_max_append (a b : List Nat) :
    (a ++ b).foldl max 0 = max (a.foldl max 0) (b.foldl max 0) := by
  have hfold : ∀ (widths : List Nat) (start : Nat),
      widths.foldl max start = max start (widths.foldl max 0) := by
    intro widths
    induction widths with
    | nil => simp
    | cons width widths ih =>
      intro start
      rw [List.foldl_cons,List.foldl_cons,ih,ih (max 0 width)]
      omega
  rw [List.foldl_append,hfold]

theorem valueWidth_flatten (parts : List (List Bytes)) :
    (parts.map valueWidth).foldl max 0 = valueWidth parts.flatten := by
  induction parts with
  | nil => rfl
  | cons items parts ih =>
    have hsplit : (items::parts).map valueWidth = [valueWidth items] ++ parts.map valueWidth := rfl
    rw [hsplit,foldl_max_append,ih,List.flatten_cons,valueWidth,valueWidth,valueWidth,
      List.map_append,foldl_max_append]
    simp

theorem padMatrices_registerValues (parts : List (List Bytes)) :
    padMatrices (parts.map registerValues) = registerValues parts.flatten := by
  have hwidth : maxWidth (parts.map registerValues) = valueWidth parts.flatten := by
    rw [maxWidth,List.map_map]
    exact valueWidth_flatten parts
  apply ByteMatrix.ext
  · exact hwidth
  · change (parts.map registerValues).flatMap
      (fun m => m.rows.map (padRow (maxWidth (parts.map registerValues)))) = _
    rw [hwidth]
    change _ = parts.flatten.map fun item => padRow (valueWidth parts.flatten) (registerValue item)
    rw [List.flatMap_map,List.map_flatten,List.flatMap]
    congr 1
    apply List.map_congr_left
    intro items hitems
    change (items.map fun item => padRow (valueWidth items) (registerValue item)).map _ = _
    rw [List.map_map]
    apply List.map_congr_left
    intro item hitem
    apply padRow_padRow
    · exact (List.length_take_le _ _).trans (le_foldl_max (List.mem_map_of_mem hitem))
    · rw [← valueWidth_flatten]
      exact le_foldl_max (List.mem_map_of_mem hitems)

theorem padMatrices_memoryValues (head : Nat) (parts : List (List Bytes)) (hparts : parts ≠ []) :
    padMatrices (parts.map (memoryValueMatrix head)) = memoryValueMatrix head parts.flatten := by
  have hwidths : ∀ parts : List (List Bytes), parts ≠ [] →
      (parts.map fun _ => 16).foldl max 0 = 16 := by
    intro parts hparts
    induction parts with
    | nil => exact absurd rfl hparts
    | cons items parts ih =>
      cases parts with
      | nil => rfl
      | cons more parts =>
        have hrest := ih (by simp)
        simpa using hrest
  have hwidth : maxWidth (parts.map (memoryValueMatrix head)) = 16 := by
    rw [maxWidth,List.map_map]
    exact hwidths parts hparts
  apply ByteMatrix.ext
  · exact hwidth
  · change (parts.map (memoryValueMatrix head)).flatMap
      (fun m => m.rows.map (padRow (maxWidth (parts.map (memoryValueMatrix head))))) = _
    rw [hwidth]
    change _ = parts.flatten.map fun item => padRow 16 ((item.drop head).take 16)
    rw [List.flatMap_map,List.map_flatten,List.flatMap]
    congr 1
    apply List.map_congr_left
    intro items _
    change (items.map fun item => padRow 16 ((item.drop head).take 16)).map _ = _
    rw [List.map_map]
    apply List.map_congr_left
    intro item _
    exact padRow_padRow (List.length_take_le _ _) le_rfl

theorem optionalColumn_uniform {β γ : Type} (name : String) (concatenate : List α → β)
    (present : Bool) (column : γ → α) {tables : List γ} (hnonempty : tables ≠ []) :
    optionalColumn name concatenate (tables.map fun t => if present then some (column t) else none) =
      .ok (if present then some (concatenate (tables.map column)) else none) := by
  unfold optionalColumn
  cases present with
  | true =>
    have hsome : (tables.map fun t => some (column t)).any Option.isNone = false := by
      simp [List.any_eq_false]
    simp only [if_true,hsome,Bool.false_eq_true,if_false]
    congr 2
    rw [List.filterMap_map]
    simp
  | false =>
    obtain ⟨t,tables,rfl⟩ := List.exists_cons_of_ne_nil hnonempty
    simp

variable (features : UInt64) (names : Option Names) (h : Header)

def runItems (run : MixedRun) : List Bytes :=
  splitRows (rowBytes features run.kind) run.rows run.body

def runRegisters (run : MixedRun) : RegisterChanges where
  columns := fun column => (runItems features run).map fun item => column.read item
  values := registerValues (runItems features run)
  names := names

def runMemory (run : MixedRun) : MemoryAccesses :=
  memoryTable (hasMemoryValues features) (hasSystemMemory features) (runItems features run)

def runContext (run : MixedRun) : AddressContext := contextTable (runItems features run)

def runAddresses (run : MixedRun) : Column := (runItems features run).map fun item => cell item 0 8

def runBatch (entry : Nat × MixedRun) : Batch :=
  let batch := sourceBatch h.source.toNat (h.sequence.toNat+entry.1)
  match entry.2.kind with
  | .blocks => { batch with addresses := runAddresses features entry.2 }
  | .registers => { batch with registers := some (runRegisters features names entry.2) }
  | .memory => { batch with memory := some (runMemory features entry.2) }
  | _ => { batch with context := some (runContext features entry.2) }

def runDecoded (entry : Nat × MixedRun) : Decoded :=
  decodedFrame (entry.2.frame h entry.1).header
    (match entry.2.kind with
      | .blocks => .words (runAddresses features entry.2)
      | .registers => .registers (decodeRegisters entry.2.rows entry.2.body)
      | .memory => .memory (runMemory features entry.2)
      | _ => .context (runContext features entry.2))

variable {features names h}

theorem decodePayload_run {entry : Nat × MixedRun} (hv : entry.2.Valid) :
    decodePayload features (entry.2.frame h entry.1).header entry.2.body =
      .ok (runDecoded features h entry).payload := by
  have hsize := hv.payloadSize h entry.1
  have hcount := hv.count h entry.1
  have hkind : (entry.2.frame h entry.1).header.kind = entry.2.kind := rfl
  have hdata := hv.data
  unfold decodePayload runDecoded decodedFrame
  rw [hkind,hcount,hsize]
  cases hk : entry.2.kind <;> simp only [hk,Kind.isData,Bool.false_eq_true] at hdata
  case blocks =>
    simp only [runAddresses,runItems,rowBytes,hk,decodeWords]
    rw [hv.blocks hk,Nat.mul_div_cancel _ (by omega)]
  case registers => rfl
  case memory => simp only [runMemory,runItems,rowBytes,hk,decodeMemory]
  case addressContext => simp only [runContext,runItems,rowBytes,hk,decodeContext]

theorem valueWidth_ne_zero {items : List Bytes} (hitems : items ≠ [])
    (hwidths : ∀ item ∈ items, registerWidth item ≠ 0) : valueWidth items ≠ 0 := by
  obtain ⟨item,rest,rfl⟩ := List.exists_cons_of_ne_nil hitems
  have hle : registerWidth item ≤ valueWidth (item::rest) :=
    le_foldl_max (List.mem_map_of_mem List.mem_cons_self)
  have hne := hwidths item List.mem_cons_self
  omega

theorem runItems_ne_nil (hv : run.Valid) : runItems features run ≠ [] := by
  intro hnil
  have hlength := congrArg List.length hnil
  rw [runItems,splitRows_length,List.length_nil] at hlength
  have hrows := hv.rows
  omega

variable {T : Type} {entry : Nat × MixedRun}

theorem runSequence (hbound : h.sequence.toNat+entry.1 ≤ uint64Max) :
    (entry.2.frame h entry.1).header.sequence.toNat = h.sequence.toNat+entry.1 := by
  change (h.sequence+UInt64.ofNat entry.1).toNat = _
  unfold uint64Max at hbound
  rw [UInt64.toNat_add,UInt64.toNat_ofNat_of_lt' (by change entry.1 < 2^64; omega)]
  exact Nat.mod_eq_of_lt (by omega)

theorem batchOf_run {entry : Nat × MixedRun} (hv : entry.2.Valid)
    (hw : WholeRun features entry.2) (hbound : h.sequence.toNat+entry.1 ≤ uint64Max)
    (hnames : entry.2.kind = .registers → names ≠ none) (reduced : Bool) :
    batchOf (runDecoded features h entry) names reduced = .ok (runBatch features names h entry) := by
  have hdata := hv.data
  have hsequence := runSequence hbound
  have hkind : (entry.2.frame h entry.1).header.kind = entry.2.kind := rfl
  have hsource : (entry.2.frame h entry.1).header.source = h.source := rfl
  unfold batchOf runDecoded decodedFrame runBatch
  rw [hkind,hsequence,hsource]
  cases hk : entry.2.kind <;> simp only [hk,Kind.isData,Bool.false_eq_true] at hdata
  case blocks => rfl
  case memory => rfl
  case addressContext => rfl
  case registers =>
    have hitems : runItems features entry.2 = splitRows registerRowBytes entry.2.rows entry.2.body := by
      rw [runItems,hk]
      rfl
    have hwidth : valueWidth (splitRows registerRowBytes entry.2.rows entry.2.body) ≠ 0 := by
      apply valueWidth_ne_zero _ (hw.widths hk)
      rw [← hitems]
      exact runItems_ne_nil hv
    dsimp only
    rw [if_neg (hnames hk),registerChanges,decodeRegisters,registerTable]
    dsimp only
    rw [if_neg hwidth]
    dsimp only
    rw [runRegisters,hitems]

def runSequences (h : Header) (entry : Nat × MixedRun) : Column :=
  arange (h.sequence.toNat+entry.1) entry.2.rows

def tableItems (features : UInt64) (table : Table) (entries : List (Nat × MixedRun)) : List Bytes :=
  (selected table entries).flatMap fun entry => runItems features entry.2

def tableSequences (h : Header) (table : Table) (entries : List (Nat × MixedRun)) : Column :=
  (selected table entries).flatMap (runSequences h)

def whenSelected {α : Type} (table : Table) (entries : List (Nat × MixedRun)) (value : α) : Option α :=
  if selected table entries = [] then none else some value

theorem whenSelected_nil (hnil : selected table entries = []) (value : α) :
    whenSelected table entries value = none :=
  if_pos hnil

theorem whenSelected_ne (hne : selected table entries ≠ []) (value : α) :
    whenSelected table entries value = some value :=
  if_neg hne

theorem selected_kind (hentry : entry ∈ selected table entries) : entry.2.kind = table.kind :=
  of_decide_eq_true (List.mem_filter.mp hentry).2

def runsBatch (features : UInt64) (names : Option Names) (h : Header)
    (entries : List (Nat × MixedRun)) : Batch :=
  { sourceBatch h.source.toNat h.sequence.toNat with
    addresses := (tableItems features .blocks entries).map fun item => cell item 0 8
    blockSequences := whenSelected .blocks entries (tableSequences h .blocks entries)
    registers := whenSelected .registers entries
      { columns := fun column => (tableItems features .registers entries).map fun item =>
          column.read item
        values := registerValues (tableItems features .registers entries)
        names
        sequences := some (tableSequences h .registers entries) }
    memory := whenSelected .memory entries
      { memoryTable (hasMemoryValues features) (hasSystemMemory features)
          (tableItems features .memory entries) with
        sequences := some (tableSequences h .memory entries) }
    context := whenSelected .context entries
      { contextTable (tableItems features .context entries) with
        sequences := some (tableSequences h .context entries) } }

theorem selectTable_runs (column : Batch → Option T) (table : Table) (f : Nat × MixedRun → Batch)
    (g : Nat × MixedRun → T) (entries : List (Nat × MixedRun))
    (hcolumn : ∀ entry ∈ entries, column (f entry) =
      if entry.2.kind = table.kind then some (g entry) else none) :
    selectTable column (entries.map f) = (selected table entries).map fun entry => (f entry,g entry) := by
  induction entries with
  | nil => rfl
  | cons entry entries ih =>
    obtain ⟨hentry,hrest⟩ := List.forall_mem_cons.mp hcolumn
    have htail := ih hrest
    unfold selectTable selected at *
    rw [List.map_cons,List.filterMap_cons,hentry,List.filter_cons]
    by_cases hk : entry.2.kind = table.kind
    · simp only [hk,if_true,Option.map_some,decide_true,List.map_cons,htail]
    · simp only [hk,if_false,Option.map_none,decide_false,Bool.false_eq_true,htail]

section RunBatch

variable {entry : Nat × MixedRun} (hd : entry.2.kind.isData = true)

include hd

theorem runBatch_registers : (runBatch features names h entry).registers =
    if entry.2.kind = Table.registers.kind then some (runRegisters features names entry.2) else none := by
  unfold runBatch
  cases hk : entry.2.kind <;> simp only [hk,Kind.isData,Bool.false_eq_true] at hd <;> rfl

theorem runBatch_memory : (runBatch features names h entry).memory =
    if entry.2.kind = Table.memory.kind then some (runMemory features entry.2) else none := by
  unfold runBatch
  cases hk : entry.2.kind <;> simp only [hk,Kind.isData,Bool.false_eq_true] at hd <;> rfl

theorem runBatch_context : (runBatch features names h entry).context =
    if entry.2.kind = Table.context.kind then some (runContext features entry.2) else none := by
  unfold runBatch
  cases hk : entry.2.kind <;> simp only [hk,Kind.isData,Bool.false_eq_true] at hd <;> rfl

theorem runBatch_addresses : (runBatch features names h entry).addresses =
    if entry.2.kind = Table.blocks.kind then runAddresses features entry.2 else [] := by
  unfold runBatch
  cases hk : entry.2.kind <;> simp only [hk,Kind.isData,Bool.false_eq_true] at hd <;> rfl

theorem runBatch_base : { runBatch features names h entry with
      addresses := [], blockSequences := none, registers := none, memory := none, context := none } =
    sourceBatch h.source.toNat (h.sequence.toNat+entry.1) := by
  unfold runBatch
  cases hk : entry.2.kind <;> simp only [hk,Kind.isData,Bool.false_eq_true] at hd <;> rfl

theorem runBatch_sequences : (runBatch features names h entry).firstSequence =
      some (h.sequence.toNat+entry.1) ∧ (runBatch features names h entry).blockSequences = none ∧
      (runBatch features names h entry).key = (0,some h.source.toNat) := by
  unfold runBatch
  cases hk : entry.2.kind <;> simp only [hk,Kind.isData,Bool.false_eq_true] at hd <;>
    exact ⟨rfl,rfl,rfl⟩

end RunBatch

theorem runItems_length (run : MixedRun) : (runItems features run).length = run.rows :=
  splitRows_length _ _

theorem tableItems_map (table : Table) (entries : List (Nat × MixedRun)) (f : Bytes → α) :
    (tableItems features table entries).map f =
      (selected table entries).flatMap fun entry => (runItems features entry.2).map f :=
  List.map_flatMap

theorem mergeRegisters_runs (hd : ∀ entry ∈ entries, entry.2.kind.isData = true) :
    mergeRegisters (selectTable Batch.registers (entries.map (runBatch features names h))) =
      (runsBatch features names h entries).registers := by
  rw [selectTable_runs Batch.registers .registers (runBatch features names h)
    (fun entry => runRegisters features names entry.2) entries
    fun entry hentry => runBatch_registers (hd entry hentry)]
  have hchosen : ∀ entry ∈ selected .registers entries, entry.2.kind.isData = true :=
    fun entry hentry => hd entry (List.mem_of_mem_filter hentry)
  unfold runsBatch whenSelected tableSequences
  simp only [tableItems_map]
  unfold tableItems
  generalize selected .registers entries = chosen at hchosen
  by_cases hnil : chosen = []
  · subst hnil
    rfl
  · rw [if_neg hnil,mergeRegisters,List.getLast?_map,List.getLast?_eq_some_getLast hnil]
    simp only [Option.map_some,List.flatMap_map,List.map_map]
    have hvalues : (fun entry : Batch × RegisterChanges => entry.2.values) ∘
        (fun entry : Nat × MixedRun =>
          (runBatch features names h entry,runRegisters features names entry.2)) =
        fun entry => registerValues (runItems features entry.2) := rfl
    rw [hvalues]
    have hmatrix := padMatrices_registerValues (chosen.map fun entry => runItems features entry.2)
    rw [List.map_map] at hmatrix
    rw [show (fun entry : Nat × MixedRun => registerValues (runItems features entry.2)) =
      registerValues ∘ fun entry => runItems features entry.2 from rfl,hmatrix]
    congr 2
    congr 1
    apply List.flatMap_congr
    intro entry hentry
    rw [(runBatch_sequences (hchosen entry hentry)).1]
    change rowSequences _ ((runItems features entry.2).map _).length none = _
    rw [List.length_map,runItems_length]
    rfl

private theorem flatMap_sequences (features : UInt64) (names : Option Names) (h : Header)
    {chosen : List (Nat × MixedRun)} (rows : T → Nat) (g : Nat × MixedRun → T)
    (hd : ∀ entry ∈ chosen, entry.2.kind.isData = true)
    (hrows : ∀ entry ∈ chosen, rows (g entry) = entry.2.rows) :
    (chosen.flatMap fun entry =>
      rowSequences (runBatch features names h entry).firstSequence (rows (g entry)) none) =
      chosen.flatMap (runSequences h) := by
  apply List.flatMap_congr
  intro entry hentry
  rw [(runBatch_sequences (hd entry hentry)).1,hrows entry hentry]
  rfl

theorem mergeContext_runs (hd : ∀ entry ∈ entries, entry.2.kind.isData = true) :
    mergeContext (selectTable Batch.context (entries.map (runBatch features names h))) =
      (runsBatch features names h entries).context := by
  rw [selectTable_runs Batch.context .context (runBatch features names h)
    (fun entry => runContext features entry.2) entries
    fun entry hentry => runBatch_context (hd entry hentry)]
  have hchosen : ∀ entry ∈ selected .context entries, entry.2.kind.isData = true :=
    fun entry hentry => hd entry (List.mem_of_mem_filter hentry)
  unfold runsBatch whenSelected tableSequences contextTable
  simp only [tableItems_map]
  generalize selected .context entries = chosen at hchosen
  by_cases hnil : chosen = []
  · subst hnil
    rfl
  · rw [if_neg hnil,mergeContext,if_neg (by simpa using hnil)]
    simp only [List.flatMap_map]
    congr 2
    congr 1
    exact flatMap_sequences features names h AddressContext.rows
      (fun entry => runContext features entry.2) hchosen
      fun entry _ => (List.length_map _).trans (runItems_length _)

theorem mergeMemory_runs (hd : ∀ entry ∈ entries, entry.2.kind.isData = true) :
    mergeMemory (selectTable Batch.memory (entries.map (runBatch features names h))) =
      .ok (runsBatch features names h entries).memory := by
  rw [selectTable_runs Batch.memory .memory (runBatch features names h)
    (fun entry => runMemory features entry.2) entries
    fun entry hentry => runBatch_memory (hd entry hentry)]
  have hchosen : ∀ entry ∈ selected .memory entries, entry.2.kind.isData = true :=
    fun entry hentry => hd entry (List.mem_of_mem_filter hentry)
  unfold runsBatch whenSelected tableSequences memoryTable
  simp only [tableItems_map]
  unfold tableItems
  generalize selected .memory entries = chosen at hchosen
  by_cases hnil : chosen = []
  · subst hnil
    rfl
  · have hvalues := optionalColumn_uniform "values" padMatrices (hasMemoryValues features)
      (fun entry : Nat × MixedRun => memoryValueMatrix
        (if hasSystemMemory features then 48 else 24) (runItems features entry.2)) hnil
    have hmatrix := padMatrices_memoryValues (if hasSystemMemory features then 48 else 24)
      (chosen.map fun entry => runItems features entry.2) (by simpa using hnil)
    have hmapping : ∀ column : MappingColumn, optionalColumn column.name List.flatten
        (chosen.map fun entry => (runMemory features entry.2).mapping column) =
        .ok (if hasSystemMemory features then some (chosen.flatMap fun entry =>
          (runItems features entry.2).map fun item => column.read item) else none) := by
      intro column
      exact optionalColumn_uniform column.name List.flatten (hasSystemMemory features)
        (fun entry : Nat × MixedRun => (runItems features entry.2).map fun item => column.read item)
        hnil
    rw [List.map_map] at hmatrix
    rw [if_neg hnil,mergeMemory,if_neg (by simpa using hnil)]
    simp only [List.flatMap_map,List.map_map]
    change (optionalColumn "values" padMatrices (chosen.map fun entry =>
      (runMemory features entry.2).values) >>= _) = _
    change optionalColumn "values" padMatrices (chosen.map fun entry =>
      (runMemory features entry.2).values) = _ at hvalues
    rw [hvalues]
    simp only [Function.comp_def,hmapping]
    change Except.ok _ = _
    congr 2
    have hsequences := flatMap_sequences features names h MemoryAccesses.rows
      (fun entry => runMemory features entry.2) hchosen
      fun entry _ => (List.length_map _).trans (runItems_length _)
    congr 1
    · by_cases hpresent : hasMemoryValues features = true
      · rw [if_pos hpresent,if_pos hpresent]
        exact congrArg some hmatrix
      · rw [if_neg hpresent,if_neg hpresent]
    · funext column
      cases column <;> rfl
    · exact congrArg some hsequences

theorem mergedBatch_runs {first : Nat × MixedRun} {rest : List (Nat × MixedRun)}
    (hfirst : first.1 = 0) (hv : ∀ entry ∈ first::rest, entry.2.Valid) :
    mergeBatches (runBatch features names h first) (rest.map (runBatch features names h)) =
      .ok (runsBatch features names h (first::rest)) := by
  have hd : ∀ entry ∈ first::rest, entry.2.kind.isData = true := fun entry hentry =>
    (hv entry hentry).data
  have hbatches : runBatch features names h first :: rest.map (runBatch features names h) =
      (first::rest).map (runBatch features names h) := rfl
  have hkeys : ((first::rest).map (runBatch features names h)).any
      (fun b => b.key ≠ (runBatch features names h first).key) = false := by
    rw [List.any_eq_false]
    intro b hb
    obtain ⟨entry,hentry,rfl⟩ := List.mem_map.mp hb
    rw [(runBatch_sequences (hd entry hentry)).2.2,
      (runBatch_sequences (hd first List.mem_cons_self)).2.2]
    simp
  have haddresses : ∀ entry ∈ first::rest, ((runBatch features names h entry).addresses ≠ [] ↔
      entry.2.kind = Table.blocks.kind) := by
    intro entry hentry
    rw [runBatch_addresses (hd entry hentry)]
    split_ifs with hk
    · simp [runAddresses,runItems_ne_nil (hv entry hentry),hk]
    · simp [hk]
  have hblocks : ((first::rest).map (runBatch features names h)).filter (fun b => b.addresses ≠ []) =
      (selected .blocks (first::rest)).map (runBatch features names h) := by
    rw [List.filter_map]
    congr 1
    apply List.filter_congr
    intro entry hentry
    exact decide_eq_decide.mpr (haddresses entry hentry)
  have hchosen : ∀ entry ∈ selected .blocks (first::rest),
      entry.2.kind = Table.blocks.kind ∧ entry.2.kind.isData = true := fun entry hentry =>
    ⟨by simpa using List.of_mem_filter hentry,hd entry (List.mem_of_mem_filter hentry)⟩
  have hcolumn : (selected .blocks (first::rest)).flatMap
      (fun entry => (runBatch features names h entry).addresses) =
      (tableItems features .blocks (first::rest)).map fun item => cell item 0 8 := by
    rw [tableItems_map]
    apply List.flatMap_congr
    intro entry hentry
    rw [runBatch_addresses (hchosen entry hentry).2,if_pos (hchosen entry hentry).1]
    rfl
  have hsequences : (selected .blocks (first::rest)).flatMap
      (fun entry => (runBatch features names h entry).sequencesOfBlocks) =
      tableSequences h .blocks (first::rest) := by
    apply List.flatMap_congr
    intro entry hentry
    obtain ⟨hsequence,hnone,_⟩ := @runBatch_sequences features names h entry (hchosen entry hentry).2
    rw [Batch.sequencesOfBlocks,hsequence,hnone,runBatch_addresses (hchosen entry hentry).2,
      if_pos (hchosen entry hentry).1,runAddresses,List.length_map,runItems_length]
    rfl
  have hbase := @runBatch_base features names h first (hd first List.mem_cons_self)
  rw [hfirst,Nat.add_zero] at hbase
  rw [mergeBatches,hbatches,hkeys,if_neg (by simp),mergeMemory_runs hd]
  change Except.ok (mergedBatch _ _ _) = _
  congr 1
  unfold mergedBatch
  rw [mergeRegisters_runs hd,mergeContext_runs hd,hblocks]
  dsimp only
  simp only [List.map_eq_nil_iff,List.flatMap_map,hcolumn,hsequences]
  have hempty : selected .blocks (first::rest) = [] →
      (runBatch features names h first).addresses = [] := by
    intro hnil
    by_contra hne
    have hkind := (haddresses first List.mem_cons_self).mp hne
    have hmem : first ∈ selected .blocks (first::rest) :=
      List.mem_filter.mpr ⟨List.mem_cons_self,decide_eq_true hkind⟩
    rw [hnil] at hmem
    cases hmem
  have hitems : selected .blocks (first::rest) = [] → tableItems features .blocks (first::rest) = [] := by
    intro hnil
    rw [tableItems,hnil]
    rfl
  unfold runsBatch
  rw [← hbase]
  unfold whenSelected
  by_cases hnil : selected .blocks (first::rest) = []
  · simp only [hnil,if_true,hempty hnil,hitems hnil,List.map_nil]
  · simp only [hnil,if_false]

section Tables

variable {runs : List MixedRun} (hv : ∀ run ∈ runs, run.Valid)
  (hw : ∀ run ∈ runs, WholeRun features run)

theorem mem_numbered {entry : Nat × MixedRun} {events : Nat}
    (hentry : entry ∈ numbered events runs) : entry.2 ∈ runs := by
  induction runs generalizing events with
  | nil => cases hentry
  | cons run runs ih =>
    rcases List.mem_cons.mp hentry with rfl | hentry
    · exact List.mem_cons_self
    · exact List.mem_cons_of_mem _ (ih hentry)

theorem runTables_eq (h : Header) (table : Table) : runTables h runs table =
    { bytes := (selected table (numbered 0 runs)).flatMap fun entry => entry.2.body
      count := ((selected table (numbered 0 runs)).map fun entry => entry.2.rows).sum
      sequences := tableSequences h table (numbered 0 runs) } := by
  simp only [runTables,gathered,List.nil_append,Nat.zero_add]
  rfl

include hv in
theorem runTables_count (h : Header) (table : Table) :
    (runTables h runs table).count = 0 ↔ selected table (numbered 0 runs) = [] := by
  rw [runTables_eq]
  constructor
  · intro hzero
    by_contra hne
    obtain ⟨entry,rest,hcons⟩ := List.exists_cons_of_ne_nil hne
    have hmem : entry ∈ numbered 0 runs :=
      List.mem_of_mem_filter (hcons ▸ List.mem_cons_self : entry ∈ selected table (numbered 0 runs))
    have hrows := (hv _ (mem_numbered hmem)).rows
    simp only [hcons,List.map_cons,List.sum_cons] at hzero
    omega
  · intro hnil
    simp only [hnil,List.map_nil,List.sum_nil]

include hw in
theorem splitRows_runTables (h : Header) (table : Table) :
    splitRows (rowBytes features table.kind) (runTables h runs table).count
        (runTables h runs table).bytes = tableItems features table (numbered 0 runs) := by
  rw [runTables_eq]
  dsimp only
  rw [splitRows_flatMap (framed_rowBytes features table.kind)]
  · apply List.flatMap_congr
    intro entry hentry
    rw [runItems,selected_kind hentry]
  · intro entry hentry
    have hwhole := hw _ (mem_numbered (List.mem_of_mem_filter hentry))
    rw [← selected_kind hentry]
    exact hwhole.size

include hv in
theorem present_runTables (h : Header) (table : Table) (columns : Nat → Bytes → α) :
    (runTables h runs table).present columns = whenSelected table (numbered 0 runs)
      (columns (runTables h runs table).count (runTables h runs table).bytes) := by
  unfold MixedTable.present whenSelected
  exact if_congr (runTables_count hv h table) rfl rfl

include hv hw in
theorem valueWidth_tableItems (hnil : selected .registers (numbered 0 runs) ≠ []) :
    valueWidth (tableItems features .registers (numbered 0 runs)) ≠ 0 := by
  have hrun : ∀ entry ∈ selected .registers (numbered 0 runs), entry.2 ∈ runs :=
    fun entry hentry => mem_numbered (List.mem_of_mem_filter hentry)
  apply valueWidth_ne_zero
  · intro hempty
    obtain ⟨entry,rest,hcons⟩ := List.exists_cons_of_ne_nil hnil
    have hmem : entry ∈ selected .registers (numbered 0 runs) := hcons ▸ List.mem_cons_self
    have hitems : runItems features entry.2 = [] := List.flatMap_eq_nil_iff.mp hempty entry hmem
    exact runItems_ne_nil (hv _ (hrun entry hmem)) hitems
  · intro item hitem
    obtain ⟨other,hother,hitem⟩ := List.mem_flatMap.mp hitem
    have hkind : other.2.kind = .registers := selected_kind hother
    rw [runItems,hkind] at hitem
    exact (hw _ (hrun other hother)).widths hkind item hitem

include hv hw in
theorem batchOf_mixed (hk : h.kind = .mixed) (reduced : Bool) :
    batchOf (decodedFrame h (.mixed (mixedColumns (hasMemoryValues features)
      (hasSystemMemory features) (runTables h runs)))) names reduced =
      .ok (runsBatch features names h (numbered 0 runs)) := by
  have hwords := splitRows_runTables hw h .blocks
  have hregisters := splitRows_runTables hw h .registers
  have hmemory := splitRows_runTables hw h .memory
  have hcontext := splitRows_runTables hw h .context
  simp only [Table.kind,rowBytes] at hwords hregisters hmemory hcontext
  have hsequences : ∀ table, (runTables h runs table).sequences =
      tableSequences h table (numbered 0 runs) := fun table => by rw [runTables_eq]
  unfold mixedColumns
  simp only [present_runTables hv,hsequences,decodeWords,decodeRegisters,decodeMemory,
    decodeContext,hwords,hregisters,hmemory,hcontext]
  unfold batchOf decodedFrame
  simp only [hk]
  have haddresses : ((whenSelected .blocks (numbered 0 runs)
      ((tableItems features .blocks (numbered 0 runs)).map fun item => cell item 0 8,
        tableSequences h .blocks (numbered 0 runs))).map Prod.fst).getD [] =
      (tableItems features .blocks (numbered 0 runs)).map fun item => cell item 0 8 := by
    by_cases hnil : selected .blocks (numbered 0 runs) = []
    · rw [whenSelected_nil hnil,tableItems,hnil]
      rfl
    · rw [whenSelected_ne hnil]
      rfl
  have hblocks : (whenSelected .blocks (numbered 0 runs)
      ((tableItems features .blocks (numbered 0 runs)).map fun item => cell item 0 8,
        tableSequences h .blocks (numbered 0 runs))).map Prod.snd =
      whenSelected .blocks (numbered 0 runs) (tableSequences h .blocks (numbered 0 runs)) := by
    unfold whenSelected
    split_ifs <;> rfl
  by_cases hnil : selected .registers (numbered 0 runs) = []
  · unfold mixedBatch runsBatch
    simp only [whenSelected_nil hnil,haddresses,hblocks]
  · unfold mixedBatch runsBatch
    simp only [whenSelected_ne hnil,registerChanges,registerTable,
      valueWidth_tableItems hv hw hnil,if_false,haddresses,hblocks]

end Tables

end Cpu2Tensor.Client
