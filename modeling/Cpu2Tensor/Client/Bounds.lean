import Cpu2Tensor.Stream.Bounds
import Cpu2Tensor.Client.Legacy

/-!
# Memory accesses of the decoder

The reads of payload bytes and the writes of column buffers and scratch tables that `decode` makes
for an accepted frame.
-/

namespace Cpu2Tensor.Client
open Library

/-- `native_integer`: the cell of a row in an int64 column of `count` rows. -/
def cellWrite (row count : Nat) : Access := ⟨row*8,8,count*8⟩

/-- `PyUnicode_FromString` reads a name up to its terminator. -/
def schemaAccesses (count : Nat) (bytes : Bytes) : List Access :=
  (List.range count).flatMap fun row =>
    let base := row*registerSchemaBytes
    [readAt bytes base 4,readAt bytes (base+8) ((cString (bytes.drop (base+8))).length+1)]

def columnAccesses (columns stride count : Nat) (bytes : Bytes) : List Access :=
  (List.range columns).flatMap fun column => (List.range count).flatMap fun row =>
    [readAt bytes (row*stride+column*8) 8,cellWrite row count]

def widthAccesses (bytes : Bytes) : Nat → Nat → List Access
  | 0, _ => []
  | rows+1, offset =>
    readAt bytes (offset+12) 2 ::
      widthAccesses bytes rows (offset+16+load (bytes.drop (offset+12)) 2)

def sampleAccesses (count wide : Nat) (bytes : Bytes) : Nat → Nat → Nat → List Access
  | 0, _, _ => []
  | rows+1, row, offset =>
    let width := load (bytes.drop (offset+12)) 2
    [readAt bytes offset 8,readAt bytes (offset+12) 2,readAt bytes (offset+8) 4,
      readAt bytes (offset+14) 2,readAt bytes (offset+16) width,cellWrite row count,
      ⟨row*wide,width,count*wide⟩] ++
    sampleAccesses count wide bytes rows (row+1) (offset+16+width)

def registerColumnAccesses (count : Nat) (bytes : Bytes) : List Access :=
  widthAccesses bytes count 0 ++
    sampleAccesses count (valueWidth (splitRows registerRowBytes count bytes)) bytes count 0 0

def memoryColumnAccesses (memoryValues systemMemory : Bool) (count : Nat) (bytes : Bytes) :
    List Access :=
  (List.range count).flatMap fun row =>
    let base := row*memoryRowBytes memoryValues systemMemory
    [readAt bytes base 8,readAt bytes (base+8) 8,readAt bytes (base+16) 4,readAt bytes (base+20) 4,
      cellWrite row count] ++
    (if systemMemory then [readAt bytes (base+24) 8,readAt bytes (base+32) 4,
      readAt bytes (base+36) 4,readAt bytes (base+40) 8] else []) ++
    if memoryValues then
      [readAt bytes (base+if systemMemory then 48 else 24) 16,⟨row*16,16,count*16⟩]
    else []

def rowsAccesses (features : UInt64) (kind : Kind) (count : Nat) (bytes : Bytes) : List Access :=
  match kind with
  | .blocks => columnAccesses 1 8 count bytes
  | .registers => registerColumnAccesses count bytes
  | .memory =>
    memoryColumnAccesses (hasMemoryValues features) (hasSystemMemory features) count bytes
  | _ => columnAccesses 8 contextBytes count bytes

/-- The run loop of `decode_mixed`, which copies every run to its scratch table. -/
def gatherAccesses (h : Header) (bytes : Bytes) :
    Nat → Nat → Nat → (Table → MixedTable) → List Access
  | 0, _, _, _ => []
  | fuel+1, offset, events, tables =>
    let detail := h.detail.toNat
    if offset < detail then
      subtrahend offset detail ::
      if detail-offset < 8 then []
      else
        let count := load (bytes.drop (offset+2)) 2
        let size := load (bytes.drop (offset+4)) 4
        [readAt bytes offset 2,readAt bytes (offset+2) 2,readAt bytes (offset+4) 4,
          subtrahend (offset+8) detail] ++
        match Table.ofCode (load (bytes.drop offset) 2) with
        | none => []
        | some table =>
          [subtrahend (tables table).bytes.length maxPayloadBytes,
            subtrahend (tables table).count maxAddresses] ++
          if size > detail-(offset+8) ∨ size > maxPayloadBytes-(tables table).bytes.length ∨
              count > maxAddresses-(tables table).count then []
          else
            [readAt bytes (offset+8) size,⟨(tables table).bytes.length,size,maxPayloadBytes⟩,
              ⟨(tables table).count,count,maxAddresses⟩] ++
            gatherAccesses h bytes fuel (offset+8+size) (events+count)
              (Function.update tables table ((tables table).add (h.sequence.toNat+events) count
                ((bytes.drop (offset+8)).take size)))
    else []

/-- The columns of one scratch table; only what was copied to it is read. -/
def tableAccesses (features : UInt64) (kind : Kind) (table : MixedTable) : List Access :=
  if table.count = 0 then []
  else
    rowsAccesses features kind table.count table.bytes ++ (List.range table.count).flatMap fun row =>
      [indexOf row table.sequences.length,cellWrite row table.count]

def mixedAccesses (features : UInt64) (h : Header) (bytes : Bytes) : List Access :=
  gatherAccesses h bytes (h.detail.toNat+1) 0 0 (fun _ => {}) ++
  match gatherRuns h bytes (h.detail.toNat+1) 0 0 fun _ => {} with
  | .error _ => []
  | .ok tables => Table.all.flatMap fun table => tableAccesses features table.kind (tables table)

def decodeAccesses (features : UInt64) (h : Header) (bytes : Bytes) : List Access :=
  let count := h.count.toNat
  match h.kind with
  | .registerSchema => schemaAccesses count bytes
  | .registers | .memory | .addressContext => rowsAccesses features h.kind count bytes
  | .reducedContext => columnAccesses 9 reducedContextBytes count bytes
  | .blockTransitions => columnAccesses 3 transitionCountBytes count bytes
  | .mixed => mixedAccesses features h bytes
  | .blocks | .executableLayout => columnAccesses 1 8 (payloadSize h/8) bytes
  | _ => [readAt bytes 0 (payloadSize h),⟨0,payloadSize h,payloadSize h⟩]

section Rows

variable {features : UInt64} {bytes : Bytes} {count : Nat}

private theorem cellWrite_fits {row : Nat} (hrow : row < count) : (cellWrite row count).Fits := by
  change row*8+8 ≤ count*8
  omega

private theorem columnAccesses_fit {columns stride : Nat} (hstride : columns*8 ≤ stride)
    (hlen : count*stride ≤ bytes.length) : AllFit (columnAccesses columns stride count bytes) := by
  rw [columnAccesses,allFit_flatMap]
  intro column hcolumn
  rw [allFit_flatMap]
  intro row hrow
  have hend := row_end (List.mem_range.mp hrow) hlen
  have hlt := List.mem_range.mp hcolumn
  simp only [allFit_cons,readAt_fits,allFit_nil,and_true]
  refine ⟨?_,cellWrite_fits (List.mem_range.mp hrow)⟩
  omega

private theorem registerRowBytes_drop (bytes : Bytes) (offset : Nat) :
    registerRowBytes (bytes.drop offset) = 16+load (bytes.drop (offset+12)) 2 := by
  rw [registerRowBytes,registerWidth,List.drop_drop]

private theorem widthAccesses_fit (rows offset : Nat)
    (hwhole : offset+rowsSize registerRowBytes rows (bytes.drop offset) ≤ bytes.length) :
    AllFit (widthAccesses bytes rows offset) := by
  induction rows generalizing offset with
  | zero => exact allFit_nil
  | succ rows ih =>
    rw [rowsSize,registerRowBytes_drop,List.drop_drop] at hwhole
    rw [widthAccesses,allFit_cons,readAt_fits]
    refine ⟨by omega,ih _ ?_⟩
    rw [show offset+16+load (bytes.drop (offset+12)) 2 =
      offset+(16+load (bytes.drop (offset+12)) 2) by omega]
    omega

private theorem sampleAccesses_fit {wide : Nat} (rows row offset : Nat) (hrow : row+rows ≤ count)
    (hwhole : offset+rowsSize registerRowBytes rows (bytes.drop offset) ≤ bytes.length)
    (hwide : ∀ item ∈ splitRows registerRowBytes rows (bytes.drop offset),
      registerWidth item ≤ wide) :
    AllFit (sampleAccesses count wide bytes rows row offset) := by
  induction rows generalizing row offset with
  | zero => exact allFit_nil
  | succ rows ih =>
    rw [splitRows,List.forall_mem_cons] at hwide
    obtain ⟨hfirst,hrest⟩ := hwide
    rw [registerWidth,load_drop_take _ (by unfold registerRowBytes; omega),List.drop_drop] at hfirst
    rw [rowsSize] at hwhole
    rw [registerRowBytes_drop,List.drop_drop] at hwhole hrest
    rw [sampleAccesses]
    simp only [allFit_append,allFit_cons,readAt_fits,access_fits,allFit_nil,and_true]
    have hnext : offset+16+load (bytes.drop (offset+12)) 2 =
        offset+(16+load (bytes.drop (offset+12)) 2) := by omega
    have hvalue : row*wide+wide ≤ count*wide := row_end (show row < count by omega) le_rfl
    refine ⟨⟨by omega,by omega,by omega,by omega,by omega,cellWrite_fits (by omega),by omega⟩,?_⟩
    rw [hnext]
    exact ih _ _ (by omega) (by omega) hrest

private theorem registerColumns_fit
    (hwhole : rowsSize registerRowBytes count bytes ≤ bytes.length) :
    AllFit (registerColumnAccesses count bytes) := by
  rw [registerColumnAccesses,allFit_append]
  refine ⟨widthAccesses_fit _ _ (by simpa using hwhole),
    sampleAccesses_fit _ _ _ (Nat.zero_add _).le (by simpa using hwhole) ?_⟩
  intro item hitem
  rw [List.drop_zero] at hitem
  exact le_foldl_max (List.mem_map_of_mem hitem)

private theorem memoryColumns_fit {memoryValues systemMemory : Bool}
    (hwhole : count*memoryRowBytes memoryValues systemMemory ≤ bytes.length) :
    AllFit (memoryColumnAccesses memoryValues systemMemory count bytes) := by
  rw [memoryColumnAccesses,allFit_flatMap]
  intro row hrow
  have hlt := List.mem_range.mp hrow
  have hend := row_end hlt hwhole
  have hcell := cellWrite_fits hlt
  have hvalue : row*16+16 ≤ count*16 := row_end hlt le_rfl
  dsimp only
  generalize hbase : row*memoryRowBytes memoryValues systemMemory = base at hend ⊢
  unfold memoryRowBytes at hend
  cases memoryValues <;> cases systemMemory <;>
    simp only [if_true,Bool.false_eq_true,if_false] at hend ⊢ <;>
    simp only [allFit_append,allFit_cons,allFit_nil,readAt_fits,access_fits,hcell,and_true] <;>
    omega

theorem rowsAccesses_fit {kind : Kind} (hk : kind.isData = true)
    (hwhole : rowsSize (rowBytes features kind) count bytes ≤ bytes.length) :
    AllFit (rowsAccesses features kind count bytes) := by
  cases kind <;> simp only [Kind.isData,Bool.false_eq_true] at hk
  case blocks =>
    rw [rowBytes,rowsSize_const] at hwhole
    exact columnAccesses_fit (by omega) hwhole
  case registers => exact registerColumns_fit hwhole
  case memory =>
    rw [rowBytes,rowsSize_const] at hwhole
    exact memoryColumns_fit hwhole
  case addressContext =>
    change rowsSize (fun _ => contextBytes) count bytes ≤ bytes.length at hwhole
    rw [rowsSize_const] at hwhole
    exact columnAccesses_fit (by decide) hwhole

end Rows

section Mixed

variable {h : Header} {runs : List MixedRun} {features : UInt64}

private theorem gatherAccesses_fit {bytes : Bytes} (runs : List MixedRun) (fuel offset events : Nat)
    (tables : Table → MixedTable) (hlen : bytes.length = h.detail.toNat)
    (hbytes : bytes.drop offset = encodeRuns runs) (hv : ∀ run ∈ runs, run.Valid)
    (hroom : Room runs tables) :
    AllFit (gatherAccesses h bytes fuel offset events tables) := by
  induction runs generalizing fuel offset events tables with
  | nil =>
    cases fuel with
    | zero => exact allFit_nil
    | succ fuel =>
      rw [gatherAccesses]
      dsimp only
      rw [if_neg (runs_end hlen hbytes)]
      exact allFit_nil
  | cons run runs ih =>
    cases fuel with
    | zero => exact allFit_nil
    | succ fuel =>
      obtain ⟨hrun,hrest⟩ := List.forall_mem_cons.mp hv
      have hat := runAt hbytes hrun
      have hfits := hat.fits
      obtain ⟨table,hcode,hkind⟩ := table_of_data hrun.data
      have hbody : (bytes.drop (offset+8)).take run.body.length = run.body := by
        rw [hat.body,List.take_left]
      obtain ⟨htable,hcount⟩ := hroom.first table
      rw [gatherAccesses]
      dsimp only
      rw [if_pos (by omega),if_neg (by omega),hat.kind,hat.rows,hat.size,hcode]
      dsimp only
      rw [if_neg (by omega),hbody]
      simp only [allFit_cons,allFit_append,allFit_nil,readAt_fits,subtrahend_fits,access_fits,
        and_true]
      exact ⟨by omega,by omega,by omega,by omega,
        ih fuel _ _ _ hat.rest hrest (hroom.add table _)⟩

private theorem runTables_whole (hw : ∀ run ∈ runs, WholeRun features run) (table : Table) :
    rowsSize (rowBytes features table.kind) (runTables h runs table).count
        (runTables h runs table).bytes = (runTables h runs table).bytes.length ∧
      (runTables h runs table).sequences.length = (runTables h runs table).count := by
  rw [runTables_eq]
  constructor
  · refine rowsSize_flatMap (framed_rowBytes features table.kind) _ _ _ fun entry hentry => ?_
    rw [← selected_kind hentry]
    exact (hw _ (mem_numbered (List.mem_of_mem_filter hentry))).size
  · rw [tableSequences,List.length_flatMap]
    congr 1
    apply List.map_congr_left
    intro entry _
    rw [runSequences,arange,List.length_map,List.length_range]

private theorem mixedAccesses_fit {payload : Bytes} {s t : Stream} (hk : h.kind = .mixed)
    (hf : headerFault h = none) (hlen : payload.length = payloadSize h)
    (hr : AcceptedRuns h payload s t runs) : AllFit (mixedAccesses t.features h payload) := by
  obtain ⟨hdetail,hcount,_⟩ := mixed_of_headerFault hf hk
  have hsize : payload.length = h.detail.toNat := by rw [hlen,payloadSize,hk]
  have hrows : (runs.map MixedRun.rows).sum ≤ maxAddresses := hr.rows ▸ hcount
  obtain rfl := hr.encode
  rw [mixedAccesses,gatherRuns_payload hsize hdetail hr.valid hrows,allFit_append]
  constructor
  · exact gatherAccesses_fit runs _ _ _ _ hsize rfl hr.valid (.empty (by omega) hrows)
  · dsimp only
    rw [allFit_flatMap,hr.features]
    intro table _
    obtain ⟨hwhole,hsequences⟩ := @runTables_whole h runs s.features hr.whole table
    rw [tableAccesses,allFit_ite]
    refine ⟨fun _ => allFit_nil,fun _ => ?_⟩
    rw [allFit_append,allFit_flatMap,hsequences]
    refine ⟨rowsAccesses_fit table.isData hwhole.le,fun row hrow => ?_⟩
    simp only [allFit_cons,indexOf_fits,allFit_nil,and_true]
    exact ⟨List.mem_range.mp hrow,cellWrite_fits (List.mem_range.mp hrow)⟩

end Mixed

private theorem takeWhile_take {p : UInt8 → Bool} {n : Nat} {list : Bytes}
    (hlt : ((list.take n).takeWhile p).length < n) (hle : n ≤ list.length) :
    (list.takeWhile p).length = ((list.take n).takeWhile p).length := by
  induction list generalizing n with
  | nil =>
    simp only [List.length_nil] at hle
    omega
  | cons a list ih =>
    cases n with
    | zero => omega
    | succ n =>
      rw [List.take_succ_cons] at hlt ⊢
      simp only [List.takeWhile_cons] at hlt ⊢
      by_cases hp : p a = true
      · simp only [hp,if_true,List.length_cons] at hlt hle ⊢
        rw [@ih n (by omega) (by omega)]
      · simp [hp]

private theorem nameField_eq {item : Bytes} (hlen : 64 ≤ item.length) :
    nameField item = item.take 64 := by
  rw [nameField,List.take_append_of_le_length hlen]

variable {after state : Registers} {bytes payload : Bytes} {h : Header} {s t : Stream}

private theorem schemaRows_terminated {rows first : Nat}
    (hr : schemaRows bytes rows first state = .ok () after) :
    ∀ row, first ≤ row → row < first+rows →
      (cString (nameField (bytes.drop (row*registerSchemaBytes+8)))).length < 64 := by
  induction rows generalizing first state with
  | zero =>
    intro row hfirst hlast
    omega
  | succ rows ih =>
    simp only [schemaRows,bind_eq_ok,exists_unit] at hr
    obtain ⟨middle,hrow,hrest⟩ := hr
    intro row hfirst hlast
    by_cases heq : row = first
    · subst heq
      simp only [schemaRow,bind_eq_ok,exists_unit,get_eq_ok,refuse_eq_ok] at hrow
      obtain ⟨_,_,⟨rfl,rfl⟩,_,⟨_,rfl⟩,_,⟨_,rfl⟩,_,⟨hend,rfl⟩,_⟩ := hrow
      rw [List.drop_drop] at hend
      have hle : (cString (nameField (bytes.drop (row*registerSchemaBytes+8)))).length ≤ 64 := by
        refine (List.takeWhile_sublist _).length_le.trans ?_
        rw [nameField,List.length_take]
        omega
      omega
    · exact ih hrest row (by omega) (by omega)

private theorem schemaAccesses_fit {count : Nat} (hlen : count*registerSchemaBytes ≤ bytes.length)
    (hr : schemaRows bytes count 0 state = .ok () after) : AllFit (schemaAccesses count bytes) := by
  rw [schemaAccesses,allFit_flatMap]
  intro row hrow
  have hlt := List.mem_range.mp hrow
  have hend := row_end hlt hlen
  have hname := schemaRows_terminated hr row (Nat.zero_le _) (by omega)
  unfold registerSchemaBytes at hend hname
  have hfield : 64 ≤ (bytes.drop (row*72+8)).length := by
    rw [List.length_drop]
    omega
  rw [nameField_eq hfield] at hname
  have hsame : (cString (bytes.drop (row*72+8))).length =
      (cString ((bytes.drop (row*72+8)).take 64)).length := takeWhile_take hname hfield
  simp only [registerSchemaBytes,allFit_cons,readAt_fits,allFit_nil,and_true,hsame]
  omega

/-- No access of the decoders for an accepted frame is outside of its buffer. -/
theorem decodeAccesses_fit (hlen : payload.length = payloadSize h)
    (hr : acceptFrame ⟨h,some payload⟩ s = .ok () t) :
    AllFit (decodeAccesses t.features h payload) := by
  have hf : headerFault h = none := acceptFrame_header hr
  have hfields := hf
  simp only [headerFault,check_eq_none] at hfields
  obtain ⟨_,_,hfields⟩ := hfields
  unfold decodeAccesses
  dsimp only
  by_cases hd : h.kind.isData = true
  · obtain ⟨_,_,lane,hevent,rfl⟩ := @acceptFrame_data ⟨h,some payload⟩ _ _ hd hr
    obtain ⟨hregisters,hmemory⟩ := checkEvent_kind hevent
    cases hk : h.kind <;> simp only [hk,Kind.isData,Bool.false_eq_true] at hd <;>
      simp only [fieldFault,payloadSize,hk,check_eq_none] at hfields hlen
    case blocks =>
      simp only [payloadSize,hk]
      exact columnAccesses_fit (by omega) (by omega)
    case registers =>
      obtain ⟨before,after,_,hsamples⟩ := hregisters hk
      obtain ⟨_,_,hsize,_⟩ := registerSamples_walk hsamples
      exact rowsAccesses_fit rfl (hsize.trans hlen.symm).le
    case memory =>
      obtain ⟨before,after,hrows⟩ := hmemory hk
      obtain ⟨_,hsize,_⟩ := memoryRows_eq_ok.mp hrows
      refine rowsAccesses_fit rfl ?_
      rw [rowBytes,rowsSize_const,← memoryStride_eq]
      exact (hsize.symm.trans hlen.symm).le
    case addressContext =>
      refine rowsAccesses_fit rfl ?_
      change rowsSize (fun _ => contextBytes) h.count.toNat payload ≤ payload.length
      rw [rowsSize_const]
      simp only [contextBytes] at hfields ⊢
      omega
  · cases hk : h.kind <;> simp only [hk,Kind.isData,not_true] at hd <;>
      simp only [fieldFault,hk,check_eq_none] at hfields
    case mixed =>
      obtain ⟨runs,hruns⟩ := acceptFrame_acceptedRuns hk hlen hr
      exact mixedAccesses_fit hk hf hlen hruns
    case registerSchema =>
      obtain ⟨_,_,lane,hcheck,_⟩ := @acceptFrame_source ⟨h,some payload⟩ _ _ (by rw [hk]; rfl) hr
      obtain ⟨_,⟨_,lane₁,hschema,_⟩ | ⟨hno,_⟩⟩ := checkFrame_eq_ok.mp hcheck
      · simp only [Lane.schema,bind_eq_ok,exists_unit,get_eq_ok,refuse_eq_ok,
          onRegisters_eq_ok] at hschema
        obtain ⟨_,_,⟨rfl,rfl⟩,_,_,_,hrows,_⟩ := hschema
        simp only [payloadSize,hk] at hlen
        exact schemaAccesses_fit (by omega) hrows
      · exact absurd hk hno
    case reducedContext =>
      simp only [payloadSize,hk] at hlen
      exact columnAccesses_fit (by decide) (by omega)
    case blockTransitions =>
      simp only [payloadSize,hk] at hlen
      exact columnAccesses_fit (by decide) (by omega)
    case executableLayout => exact columnAccesses_fit (by omega) (by omega)
    all_goals
      simp only [allFit_cons,readAt_fits,access_fits,allFit_nil,and_true]
      omega

/-- Only a mixed payload can fail in the decoder, and it does not after the validator. -/
theorem decodePayload_total (hlen : payload.length = payloadSize h)
    (hr : acceptFrame ⟨h,some payload⟩ s = .ok () t) :
    ∃ columns, decodePayload t.features h payload = .ok columns := by
  by_cases hk : h.kind = .mixed
  · obtain ⟨runs,hruns⟩ := acceptFrame_acceptedRuns hk hlen hr
    exact ⟨_,hruns.payload⟩
  · unfold decodePayload
    cases hkind : h.kind <;> first | exact absurd hkind hk | exact ⟨_,rfl⟩

/-- After any calls of `accept`, the next call reads inside of its payload and tables whatever its
header and payload hold.  When it succeeds the decoders stay inside of their buffers too, and the
failures of `decode_mixed` do not happen. -/
theorem decode_in_bounds (calls : List Frame) (s : Stream) (hcalls : acceptCalls calls {} = some s)
    (h : Header) (payload : Bytes) (hlen : payload.length = payloadSize h) :
    guardedAccept h payload s = unguarded (accept h (some payload)) s ∧
    ∀ t, accept h (some payload) s = .ok () t →
      AllFit (decodeAccesses t.features h payload) ∧
        ∃ columns, decodePayload t.features h payload = .ok columns :=
  ⟨(guardedAccept_agrees (fun _ => hlen.ge) (acceptCalls_sized hcalls)).eq,
    fun _ hr => ⟨decodeAccesses_fit hlen hr,decodePayload_total hlen hr⟩⟩

theorem decode_in_bounds_pair : ∃ s t payload,
    acceptCalls [⟨{ kind := .hello, detail := 0x40101 },none⟩] {} = some s ∧
      mixedPair.payload = some payload ∧ accept mixedPair.header (some payload) s = .ok () t ∧
      AllFit (decodeAccesses t.features mixedPair.header payload) := by
  have hok : ((acceptCalls [⟨{ kind := .hello, detail := 0x40101 },none⟩] {}).map fun s =>
      match acceptFrame mixedPair s with
      | .ok _ _ => true
      | .error _ _ => false) = some true := by decide +kernel
  obtain ⟨s,hcalls,hok⟩ := Option.map_eq_some_iff.mp hok
  cases hr : acceptFrame mixedPair s with
  | ok _ t =>
    exact ⟨s,t,_,hcalls,rfl,hr,
      ((decode_in_bounds _ s hcalls mixedPair.header _ rfl).2 t hr).1⟩
  | error fault t =>
    rw [hr] at hok
    cases hok

end Cpu2Tensor.Client
