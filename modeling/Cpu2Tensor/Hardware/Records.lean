import Cpu2Tensor.Library.Bytes

/-!
# Perf records

`_ring_bytes` and `_decode_records` of the hardware captures.  The kernel writes records of
several kinds and sizes into a ring, which may wrap inside any of them; the decoder reads them
back into columns.  `PerfRecord` is a record by what it says, and `PerfRecord.encode` its bytes.
-/

namespace Cpu2Tensor.Hardware
open Library

inductive Signal
  | cycles | instructions | memoryLoads | intelPt
  deriving DecidableEq, Repr

/-- What a capture raises: `HardwareCaptureError`, its subclass `HardwareTraceLost`, the
`RuntimeError` of a misused capture, an `OSError`, or one of Python's own errors. -/
inductive HardwareError
  | captureError (message : String)
  | traceLost (message : String)
  | runtimeError (message : String)
  | osError
  | zeroDivision
  | keyError
  | overflowError
  deriving DecidableEq, Repr

def slice (bytes : Bytes) (start stop : Nat) : Bytes := (bytes.drop start).take (stop-start)

def ringBytes (mapping : Bytes) (head tail offset size : Nat) : Except HardwareError Bytes :=
  if head < tail ∨ size < head-tail then
    .error (.traceLost "Perf ring wrapped before capture stopped")
  else if size = 0 then .error .zeroDivision
  else
    let start := tail % size
    let count := head-tail
    let first := min count (size-start)
    .ok (slice mapping (offset+start) (offset+start+first) ++
      slice mapping offset (offset+count-first))

def sampleKind : Nat := 9
def lostKind : Nat := 2
def auxKind : Nat := 11
def lostSamplesKind : Nat := 13
def auxBadFlags : Nat := 15
def headerSize : Nat := 8
def sampleRowSize : Nat := 48

def signed (value : Nat) : Int := if value < 2^63 then value else (value : Int)-2^64

structure Columns where
  ip : List Int := []
  pid : List Int := []
  tid : List Int := []
  time : List Int := []
  cpu : List Int := []
  period : List Int := []
  address : List Int := []
  weight : List Int := []
  dataSource : List Int := []
  exactIp : List Int := []
  deriving DecidableEq, Repr

structure Row where
  ip : Int
  pid : Int
  tid : Int
  time : Int
  cpu : Int
  period : Int
  address : Int
  weight : Int
  dataSource : Int
  exactIp : Int
  deriving DecidableEq, Repr

def Columns.append (columns : Columns) (row : Row) : Columns where
  ip := columns.ip ++ [row.ip]
  pid := columns.pid ++ [row.pid]
  tid := columns.tid ++ [row.tid]
  time := columns.time ++ [row.time]
  cpu := columns.cpu ++ [row.cpu]
  period := columns.period ++ [row.period]
  address := columns.address ++ [row.address]
  weight := columns.weight ++ [row.weight]
  dataSource := columns.dataSource ++ [row.dataSource]
  exactIp := columns.exactIp ++ [row.exactIp]

structure HardwareBatch where
  source : Nat
  signal : Signal
  columns : Columns
  traceBytes : Bytes
  deriving DecidableEq, Repr

/-- The variables of the decoding loop but for the position, which is the data left. -/
structure Decoder where
  columns : Columns := {}
  auxPosition : Nat := 0
  deriving DecidableEq, Repr

def decodeAux (signal : Signal) (trace record : Bytes) (d : Decoder) :
    Except HardwareError Decoder :=
  if record.length < 24 ∨ load (record.drop 16) 8 &&& auxBadFlags ≠ 0 then
    .error (.traceLost "Intel PT reported incomplete AUX data")
  else
    let offset := load record 8
    let length := load (record.drop 8) 8
    if signal ≠ .intelPt ∨ offset ≠ d.auxPosition ∨ length = 0 ∨ trace.length < offset+length then
      .error (.traceLost "Intel PT AUX records do not cover the captured bytes")
    else .ok { d with auxPosition := d.auxPosition+length }

def sampleSize (signal : Signal) : Nat :=
  sampleRowSize + if signal = .memoryLoads then 16 else 0

def sampleRow (signal : Signal) (misc : Nat) (record : Bytes) : Row where
  ip := signed (load record 8)
  pid := signed (load (record.drop 8) 4)
  tid := signed (load (record.drop 12) 4)
  time := signed (load (record.drop 16) 8)
  cpu := signed (load (record.drop 32) 4)
  period := signed (load (record.drop 40) 8)
  address := signed (load (record.drop 24) 8)
  weight := signed (if signal = .memoryLoads then load (record.drop sampleRowSize) 8 else 0)
  dataSource :=
    signed (if signal = .memoryLoads then load (record.drop (sampleRowSize+8)) 8 else 0)
  exactIp := signed (if misc.testBit 14 then 1 else 0)

def decodeSample (signal : Signal) (misc : Nat) (record : Bytes) (d : Decoder) :
    Except HardwareError Decoder :=
  if signal = .intelPt then .error (.captureError "Unexpected sample in an Intel PT stream")
  else if record.length ≠ sampleSize signal then
    .error (.captureError "Unexpected perf sample layout")
  else .ok { d with columns := d.columns.append (sampleRow signal misc record) }

def decodeRecord (signal : Signal) (trace : Bytes) (kind misc : Nat) (record : Bytes)
    (d : Decoder) : Except HardwareError Decoder :=
  if kind = lostKind ∨ kind = lostSamplesKind then
    .error (.traceLost "Perf reported lost samples")
  else
    (if kind = auxKind then decodeAux signal trace record d else .ok d) >>= fun d =>
      if kind = sampleKind then decodeSample signal misc record d else .ok d

def decodeLoop (signal : Signal) (trace : Bytes) (d : Decoder) (data : Bytes) :
    Except HardwareError Decoder :=
  if data.length = 0 then .ok d
  else if data.length < headerSize then
    .error (.traceLost "Perf ring ended inside a record header")
  else
    let size := load (data.drop 6) 2
    if size < headerSize ∨ data.length < size then
      .error (.traceLost "Perf ring ended inside a record")
    else
      match decodeRecord signal trace (load data 4) (load (data.drop 4) 2)
        (slice data headerSize size) d with
      | .error error => .error error
      | .ok d => decodeLoop signal trace d (data.drop size)
termination_by data.length
decreasing_by
  rw [List.length_drop]
  simp only [headerSize] at *
  omega

def decodeRecords (data : Bytes) (signal : Signal) (source : Nat) (trace : Bytes) :
    Except HardwareError HardwareBatch := do
  let d ← decodeLoop signal trace {} data
  if signal = .intelPt ∧ d.auxPosition ≠ trace.length then
    throw (.traceLost "Intel PT bytes have no matching AUX record")
  return ⟨source,signal,d.columns,trace⟩

structure Sample where
  ip : UInt64
  pid : UInt32
  tid : UInt32
  time : UInt64
  address : UInt64
  cpu : UInt32
  reserved : UInt32
  period : UInt64
  deriving DecidableEq, Repr

def Sample.body (s : Sample) : Bytes :=
  store s.ip.toNat 8 ++ (store s.pid.toNat 4 ++ (store s.tid.toNat 4 ++ (store s.time.toNat 8 ++
    (store s.address.toNat 8 ++ (store s.cpu.toNat 4 ++ (store s.reserved.toNat 4 ++
      store s.period.toNat 8))))))

/-- A record: a sample without or with the fields of a memory load, a sample of any other size,
an AUX record, one too short for its fields, or a record of another kind. -/
inductive PerfRecord
  | sample (misc : UInt16) (sample : Sample)
  | load (misc : UInt16) (sample : Sample) (weight dataSource : UInt64)
  | misfit (misc : UInt16) (body : Bytes)
      (hbody : body.length ≠ sampleSize .cycles ∧ body.length ≠ sampleSize .memoryLoads)
  | aux (misc : UInt16) (offset length flags : UInt64) (more : Bytes)
  | shortAux (misc : UInt16) (body : Bytes) (hbody : body.length < 24)
  | other (kind : UInt32) (misc : UInt16) (body : Bytes)
      (hkind : kind.toNat ≠ sampleKind ∧ kind.toNat ≠ auxKind)

namespace PerfRecord

def kind : PerfRecord → Nat
  | sample .. => sampleKind
  | load .. => sampleKind
  | misfit .. => sampleKind
  | aux .. => auxKind
  | shortAux .. => auxKind
  | other kind .. => kind.toNat

def misc : PerfRecord → UInt16
  | sample misc .. => misc
  | load misc .. => misc
  | misfit misc .. => misc
  | aux misc .. => misc
  | shortAux misc .. => misc
  | other _ misc .. => misc

def body : PerfRecord → Bytes
  | sample _ s => s.body
  | load _ s weight dataSource =>
    s.body ++ (store weight.toNat 8 ++ store dataSource.toNat 8)
  | misfit _ body _ => body
  | aux _ offset length flags more =>
    store offset.toNat 8 ++ (store length.toNat 8 ++ (store flags.toNat 8 ++ more))
  | shortAux _ body _ => body
  | other _ _ body _ => body

def size (r : PerfRecord) : Nat := headerSize+r.body.length

def encode (r : PerfRecord) : Bytes :=
  store r.kind 4 ++ (store r.misc.toNat 2 ++ (store r.size 2 ++ r.body))

/-- The row a sample stands for, every 64-bit field as its signed value. -/
def row : PerfRecord → Option Row
  | sample misc s => some (fields misc s 0 0)
  | load misc s weight dataSource => some (fields misc s weight dataSource)
  | _ => none
where
  fields (misc : UInt16) (s : Sample) (weight dataSource : UInt64) : Row :=
    { ip := s.ip.toBitVec.toInt
      pid := s.pid.toNat
      tid := s.tid.toNat
      time := s.time.toBitVec.toInt
      cpu := s.cpu.toNat
      period := s.period.toBitVec.toInt
      address := s.address.toBitVec.toInt
      weight := weight.toBitVec.toInt
      dataSource := dataSource.toBitVec.toInt
      exactIp := if misc.toNat.testBit 14 then 1 else 0 }

/-- The bytes of the trace that an AUX record covers: where they start and how many there are. -/
def covered : PerfRecord → Option (Nat × Nat)
  | aux _ offset length _ _ => some (offset.toNat,length.toNat)
  | _ => none

/-- None of the flags truncated, overwritten, partial or collided is set. -/
def clean : PerfRecord → Prop
  | aux _ _ _ flags _ => flags.toNat &&& auxBadFlags = 0
  | shortAux .. => False
  | _ => True

end PerfRecord

/-- A record whose size the 16 bits of its header can hold. -/
abbrev RingRecord := {r : PerfRecord // r.size < 2^16}

def encodeRecords (records : List RingRecord) : Bytes := records.flatMap (·.1.encode)

def Columns.ofRows (rows : List Row) : Columns where
  ip := rows.map (·.ip)
  pid := rows.map (·.pid)
  tid := rows.map (·.tid)
  time := rows.map (·.time)
  cpu := rows.map (·.cpu)
  period := rows.map (·.period)
  address := rows.map (·.address)
  weight := rows.map (·.weight)
  dataSource := rows.map (·.dataSource)
  exactIp := rows.map (·.exactIp)

/-- Intervals that follow each other without gap or overlap, none of them empty. -/
def Tiles : Nat → List (Nat × Nat) → Nat → Prop
  | start,[],stop => start = stop
  | start,(offset,length) :: rest,stop =>
    offset = start ∧ 0 < length ∧ Tiles (start+length) rest stop

structure Complete (signal : Signal) (trace : Bytes) (records : List RingRecord) : Prop where
  lossless : ∀ r ∈ records, r.1.kind ≠ lostKind ∧ r.1.kind ≠ lostSamplesKind
  samples : ∀ r ∈ records, r.1.kind = sampleKind →
    signal ≠ .intelPt ∧ r.1.body.length = sampleSize signal
  unmixed : signal ≠ .intelPt → ∀ r ∈ records, r.1.kind ≠ auxKind
  tiled : signal = .intelPt → (∀ r ∈ records, r.1.clean) ∧
    Tiles 0 (records.filterMap (·.1.covered)) trace.length

def completeBatch (source : Nat) (signal : Signal) (trace : Bytes) (records : List RingRecord) :
    HardwareBatch :=
  ⟨source,signal,.ofRows (records.filterMap (·.1.row)),trace⟩

/-- A mapping with a ring of positive size inside it. -/
structure PerfRing where
  mapping : Bytes
  offset : Nat
  size : Nat
  positive : 0 < size
  inside : offset+size ≤ mapping.length

/-- The bytes written from position `tail` on: byte `k` stands at position `tail+k`, taken round
the ring. -/
def PerfRing.Holds (ring : PerfRing) (tail : Nat) (data : Bytes) : Prop :=
  data.length ≤ ring.size ∧
    ∀ k < data.length, ring.mapping[ring.offset+(tail+k)%ring.size]? = data[k]?

private theorem slice_getElem? (bytes : Bytes) (start stop k : Nat) :
    (slice bytes start stop)[k]? = if k < stop-start then bytes[start+k]? else none := by
  unfold slice
  split
  · rename_i hk
    rw [List.getElem?_take_of_lt hk,List.getElem?_drop]
  · rename_i hk
    exact List.getElem?_eq_none (by simp; omega)

private theorem slice_length {bytes : Bytes} {start stop : Nat} (h : stop ≤ bytes.length) :
    (slice bytes start stop).length = stop-start := by
  simp only [slice,List.length_take,List.length_drop]
  omega

private theorem mod_round {size : Nat} (tail : Nat) {k : Nat} (hpos : 0 < size) (hk : k < size) :
    (tail+k)%size = if k < size-tail%size then tail%size+k else k-(size-tail%size) := by
  have hstart := Nat.mod_lt tail hpos
  rw [Nat.add_mod,Nat.mod_eq_of_lt hk]
  split
  · exact Nat.mod_eq_of_lt (by omega)
  · rw [Nat.mod_eq_sub_mod (by omega),Nat.mod_eq_of_lt (by omega)]
    omega

variable {d d' : Decoder} {data record : Bytes} {signal : Signal}

/-- The two slices are the bytes that were written, wherever the ring wraps. -/
theorem ringBytes_holds {ring : PerfRing} {tail : Nat} (h : ring.Holds tail data) :
    ringBytes ring.mapping (tail+data.length) tail ring.offset ring.size = .ok data := by
  obtain ⟨hfits,hdata⟩ := h
  have hpos := ring.positive
  have hinside := ring.inside
  have hstart := Nat.mod_lt tail hpos
  unfold ringBytes
  rw [if_neg (by omega),if_neg (by omega),Nat.add_sub_cancel_left]
  dsimp only
  have hfirst : (slice ring.mapping (ring.offset+tail%ring.size)
      (ring.offset+tail%ring.size+min data.length (ring.size-tail%ring.size))).length =
        min data.length (ring.size-tail%ring.size) := by
    rw [slice_length (by omega),Nat.add_sub_cancel_left]
  congr 1
  apply List.ext_getElem?
  intro k
  rw [List.getElem?_append,hfirst,slice_getElem?,slice_getElem?]
  by_cases hk : k < data.length
  · rw [← hdata k hk,mod_round tail hpos (by omega)]
    by_cases hround : k < ring.size-tail%ring.size
    · rw [if_pos (by omega),if_pos (by omega),if_pos hround]
      congr 1
      omega
    · rw [if_neg (by omega),if_pos (by omega),if_neg hround]
      congr 1
      omega
  · rw [if_neg (by omega),if_neg (by omega),List.getElem?_eq_none (by omega)]

private theorem signed_word (value : UInt64) : signed value.toNat = value.toBitVec.toInt := by
  rw [BitVec.toInt_eq_toNat_cond,signed,← UInt64.toNat_toBitVec]
  have := value.toBitVec.isLt
  split <;> split <;> omega

private theorem signed_half (value : UInt32) : signed value.toNat = value.toNat := by
  have := value.toNat_lt
  exact if_pos (by omega)

private theorem load_word (value : UInt64) (rest : Bytes) :
    load (store value.toNat 8 ++ rest) 8 = value.toNat :=
  load_store_of_lt (by simpa using value.toNat_lt) rest

private theorem load_half (value : UInt32) (rest : Bytes) :
    load (store value.toNat 4 ++ rest) 4 = value.toNat :=
  load_store_of_lt (by simpa using value.toNat_lt) rest

private theorem drop_store (value size offset : Nat) (rest : Bytes) :
    (store value size ++ rest).drop (size+offset) = rest.drop offset := by
  rw [List.drop_append,List.drop_of_length_le (by simp),List.nil_append,store_length,
    Nat.add_sub_cancel_left]

@[simp] theorem Sample.body_length (s : Sample) : s.body.length = sampleRowSize := by
  simp [Sample.body,sampleRowSize]

private theorem sample_fields (s : Sample) (rest : Bytes) :
    load (s.body ++ rest) 8 = s.ip.toNat ∧
    load ((s.body ++ rest).drop 8) 4 = s.pid.toNat ∧
    load ((s.body ++ rest).drop 12) 4 = s.tid.toNat ∧
    load ((s.body ++ rest).drop 16) 8 = s.time.toNat ∧
    load ((s.body ++ rest).drop 24) 8 = s.address.toNat ∧
    load ((s.body ++ rest).drop 32) 4 = s.cpu.toNat ∧
    load ((s.body ++ rest).drop 40) 8 = s.period.toNat := by
  simp only [Sample.body,List.append_assoc]
  refine ⟨load_word _ _,?_,?_,?_,?_,?_,?_⟩
  · rw [drop_store _ 8 0,List.drop_zero,load_half]
  · rw [drop_store _ 8 4,drop_store _ 4 0,List.drop_zero,load_half]
  · rw [drop_store _ 8 8,drop_store _ 4 4,drop_store _ 4 0,List.drop_zero,load_word]
  · rw [drop_store _ 8 16,drop_store _ 4 12,drop_store _ 4 8,drop_store _ 8 0,List.drop_zero,
      load_word]
  · rw [drop_store _ 8 24,drop_store _ 4 20,drop_store _ 4 16,drop_store _ 8 8,drop_store _ 8 0,
      List.drop_zero,load_half]
  · rw [drop_store _ 8 32,drop_store _ 4 28,drop_store _ 4 24,drop_store _ 8 16,drop_store _ 8 8,
      drop_store _ 4 4,drop_store _ 4 0,List.drop_zero,load_word]

private theorem signed_flag (test : Bool) :
    signed (if test = true then 1 else 0) = if test = true then 1 else 0 := by
  cases test <;> rfl

private theorem sampleRow_sample (hs : signal ≠ .memoryLoads) (misc : UInt16) (s : Sample) :
    sampleRow signal misc.toNat s.body = PerfRecord.row.fields misc s 0 0 := by
  obtain ⟨hip,hpid,htid,htime,haddress,hcpu,hperiod⟩ := sample_fields s []
  rw [List.append_nil] at hip hpid htid htime haddress hcpu hperiod
  simp only [sampleRow,PerfRecord.row.fields,hip,hpid,htid,htime,haddress,hcpu,hperiod,if_neg hs,
    signed_word,signed_half,signed_flag]
  rfl

private theorem sampleRow_load (misc : UInt16) (s : Sample) (weight dataSource : UInt64) :
    sampleRow .memoryLoads misc.toNat
        (s.body ++ (store weight.toNat 8 ++ store dataSource.toNat 8)) =
      PerfRecord.row.fields misc s weight dataSource := by
  obtain ⟨hip,hpid,htid,htime,haddress,hcpu,hperiod⟩ :=
    sample_fields s (store weight.toNat 8 ++ store dataSource.toNat 8)
  have hdrop : (s.body ++ (store weight.toNat 8 ++ store dataSource.toNat 8)).drop
      sampleRowSize = store weight.toNat 8 ++ store dataSource.toNat 8 :=
    drop_append_eq _ _ s.body_length.symm
  have hweight : load ((s.body ++ (store weight.toNat 8 ++ store dataSource.toNat 8)).drop
      sampleRowSize) 8 = weight.toNat := by
    rw [hdrop,load_word]
  have hsource : load ((s.body ++ (store weight.toNat 8 ++ store dataSource.toNat 8)).drop
      (sampleRowSize+8)) 8 = dataSource.toNat := by
    rw [← List.drop_drop,hdrop,drop_append_eq _ _ (by simp),
      ← List.append_nil (store dataSource.toNat 8),load_word]
  simp only [sampleRow,PerfRecord.row.fields,hip,hpid,htid,htime,haddress,hcpu,hperiod,hweight,
    hsource,if_true,signed_word,signed_half,signed_flag]

/-- What a record has to be for the decoder to go on, with the trace covered so far. -/
def PerfRecord.Admitted (signal : Signal) (limit covered : Nat) : PerfRecord → Prop
  | sample .. => signal ≠ .intelPt ∧ signal ≠ .memoryLoads
  | load .. => signal = .memoryLoads
  | misfit .. => False
  | aux _ offset length flags _ => signal = .intelPt ∧ flags.toNat &&& auxBadFlags = 0 ∧
      offset.toNat = covered ∧ 0 < length.toNat ∧ offset.toNat+length.toNat ≤ limit
  | shortAux .. => False
  | other kind .. => kind.toNat ≠ lostKind ∧ kind.toNat ≠ lostSamplesKind

def Decoder.after (d : Decoder) (r : PerfRecord) : Decoder where
  columns := match r.row with
    | none => d.columns
    | some row => d.columns.append row
  auxPosition := match r.covered with
    | none => d.auxPosition
    | some (_,length) => d.auxPosition+length

private theorem decodeSample_ok {misc : Nat} :
    decodeSample signal misc record d = .ok d' ↔
      signal ≠ .intelPt ∧ record.length = sampleSize signal ∧
        d' = { d with columns := d.columns.append (sampleRow signal misc record) } := by
  unfold decodeSample
  split
  · simp_all
  · split <;> simp_all [eq_comm]

private theorem decodeAux_ok {trace : Bytes} :
    decodeAux signal trace record d = .ok d' ↔
      24 ≤ record.length ∧ load (record.drop 16) 8 &&& auxBadFlags = 0 ∧ signal = .intelPt ∧
        load record 8 = d.auxPosition ∧ 0 < load (record.drop 8) 8 ∧
        load record 8+load (record.drop 8) 8 ≤ trace.length ∧
        d' = { d with auxPosition := d.auxPosition+load (record.drop 8) 8 } := by
  unfold decodeAux
  split
  · rename_i h
    simp only [reduceCtorEq,false_iff]
    rintro ⟨hlen,hflags,-⟩
    exact h.elim (by omega) (· hflags)
  · rename_i h
    rw [not_or,not_lt,ne_eq,not_not] at h
    dsimp only
    split
    · rename_i hcheck
      simp only [reduceCtorEq,false_iff]
      rintro ⟨-,-,hsignal,hoffset,hpos,hlimit,-⟩
      rcases hcheck with hcheck | hcheck | hcheck | hcheck
      · exact hcheck hsignal
      · exact hcheck hoffset
      · omega
      · omega
    · rename_i hcheck
      simp only [not_or,ne_eq,not_not,not_lt] at hcheck
      obtain ⟨hsignal,hoffset,hpos,hlimit⟩ := hcheck
      simp only [h,hsignal,hoffset,Nat.pos_of_ne_zero hpos,true_and,Except.ok.injEq]
      rw [hoffset] at hlimit
      simp only [hlimit,true_and,eq_comm]

private theorem decodeRecord_sample (signal : Signal) (trace : Bytes) (misc : Nat) (record : Bytes)
    (d : Decoder) :
    decodeRecord signal trace sampleKind misc record d = decodeSample signal misc record d := rfl

private theorem decodeRecord_aux (signal : Signal) (trace : Bytes) (misc : Nat) (record : Bytes)
    (d : Decoder) :
    decodeRecord signal trace auxKind misc record d = decodeAux signal trace record d := by
  have h : decodeRecord signal trace auxKind misc record d =
      (decodeAux signal trace record d >>= fun d => .ok d) := rfl
  rw [h]
  cases decodeAux signal trace record d <;> rfl

private theorem sampleSize_cases (signal : Signal) :
    (signal = .memoryLoads ∧ sampleSize signal = sampleRowSize+16) ∨
      (signal ≠ .memoryLoads ∧ sampleSize signal = sampleRowSize) := by
  by_cases h : signal = .memoryLoads
  · exact .inl ⟨h,by rw [sampleSize,if_pos h]⟩
  · exact .inr ⟨h,by rw [sampleSize,if_neg h,Nat.add_zero]⟩

/-- The decoder takes an admitted record and refuses every other one. -/
theorem decodeRecord_ok (signal : Signal) (trace : Bytes) (r : PerfRecord) (d d' : Decoder) :
    decodeRecord signal trace r.kind r.misc.toNat r.body d = .ok d' ↔
      r.Admitted signal trace.length d.auxPosition ∧ d' = d.after r := by
  cases r with
  | sample misc s =>
    show decodeRecord signal trace sampleKind misc.toNat s.body d = _ ↔ _
    rw [decodeRecord_sample,decodeSample_ok,Sample.body_length]
    rcases sampleSize_cases signal with ⟨rfl,hsize⟩ | ⟨hsignal,hsize⟩
    · simp [hsize,PerfRecord.Admitted]
    · rw [hsize,sampleRow_sample hsignal]
      simp [PerfRecord.Admitted,Decoder.after,PerfRecord.row,PerfRecord.covered,hsignal]
  | load misc s weight dataSource =>
    show decodeRecord signal trace sampleKind misc.toNat
      (s.body ++ (store weight.toNat 8 ++ store dataSource.toNat 8)) d = _ ↔ _
    rw [decodeRecord_sample,decodeSample_ok]
    have hlength : (s.body ++ (store weight.toNat 8 ++ store dataSource.toNat 8)).length =
        sampleRowSize+16 := by simp
    rw [hlength]
    rcases sampleSize_cases signal with ⟨rfl,hsize⟩ | ⟨hsignal,hsize⟩
    · rw [hsize,sampleRow_load]
      simp [PerfRecord.Admitted,Decoder.after,PerfRecord.row,PerfRecord.covered]
    · simp [hsize,PerfRecord.Admitted,hsignal]
  | misfit misc body hbody =>
    show decodeRecord signal trace sampleKind misc.toNat body d = _ ↔ _
    rw [decodeRecord_sample,decodeSample_ok]
    simp only [PerfRecord.Admitted,false_and,iff_false]
    rintro ⟨-,hlength,-⟩
    rcases sampleSize_cases signal with ⟨rfl,-⟩ | ⟨hsignal,hsize⟩
    · exact hbody.2 hlength
    · exact hbody.1 (hlength.trans hsize)
  | aux misc offset length flags more =>
    show decodeRecord signal trace auxKind misc.toNat
      (store offset.toNat 8 ++ (store length.toNat 8 ++ (store flags.toNat 8 ++ more))) d = _ ↔ _
    rw [decodeRecord_aux,decodeAux_ok,load_word,drop_store _ 8 8,drop_store _ 8 0,List.drop_zero,
      load_word,drop_store _ 8 0,List.drop_zero,load_word]
    have hlong : 24 ≤ (store offset.toNat 8 ++
        (store length.toNat 8 ++ (store flags.toNat 8 ++ more))).length := by
      simp only [List.length_append,store_length]
      omega
    simp only [hlong,true_and,PerfRecord.Admitted,Decoder.after,PerfRecord.row,PerfRecord.covered]
    tauto
  | shortAux misc body hbody =>
    show decodeRecord signal trace auxKind misc.toNat body d = _ ↔ _
    rw [decodeRecord_aux,decodeAux_ok]
    simp only [PerfRecord.Admitted,false_and,iff_false]
    rintro ⟨hlong,-⟩
    omega
  | other kind misc body hkind =>
    show decodeRecord signal trace kind.toNat misc.toNat body d = _ ↔ _
    unfold decodeRecord
    rw [if_neg hkind.2]
    simp only [PerfRecord.Admitted,Decoder.after,PerfRecord.row,PerfRecord.covered]
    split
    · rename_i hlost
      simp only [reduceCtorEq,false_iff]
      rintro ⟨hkept,-⟩
      exact hlost.elim hkept.1 hkept.2
    · rename_i hlost
      rw [not_or] at hlost
      simp only [bind,Except.bind,if_neg hkind.1,Except.ok.injEq]
      exact ⟨fun h => ⟨hlost,h.symm⟩,fun h => h.2.symm⟩

theorem PerfRecord.encode_length (r : PerfRecord) : r.encode.length = r.size := by
  simp only [encode,size,headerSize,List.length_append,store_length]
  omega

private theorem kind_lt (r : PerfRecord) : r.kind < 256^4 := by
  cases r with
  | other kind => exact kind.toNat_lt
  | _ => simp [PerfRecord.kind,sampleKind,auxKind]

private theorem encode_header (r : RingRecord) (rest : Bytes) :
    load (r.1.encode ++ rest) 4 = r.1.kind ∧
    load ((r.1.encode ++ rest).drop 4) 2 = r.1.misc.toNat ∧
    load ((r.1.encode ++ rest).drop 6) 2 = r.1.size ∧
    slice (r.1.encode ++ rest) headerSize r.1.size = r.1.body := by
  have hbody : (r.1.encode ++ rest).drop headerSize = r.1.body ++ rest := by
    simp only [PerfRecord.encode,List.append_assoc,headerSize]
    rw [drop_store _ 4 4,drop_store _ 2 2,drop_store _ 2 0,List.drop_zero]
  refine ⟨?_,?_,?_,?_⟩
  · simp only [PerfRecord.encode,List.append_assoc]
    exact load_store_of_lt (kind_lt r.1) _
  · simp only [PerfRecord.encode,List.append_assoc]
    rw [drop_store _ 4 0,List.drop_zero]
    exact load_store_of_lt r.1.misc.toNat_lt _
  · simp only [PerfRecord.encode,List.append_assoc]
    rw [drop_store _ 4 2,drop_store _ 2 0,List.drop_zero]
    exact load_store_of_lt r.2 _
  · rw [slice,hbody,PerfRecord.size,Nat.add_sub_cancel_left,List.take_left]

theorem decodeLoop_cons (signal : Signal) (trace : Bytes) (d : Decoder) (r : RingRecord)
    (rest : Bytes) :
    decodeLoop signal trace d (r.1.encode ++ rest) =
      match decodeRecord signal trace r.1.kind r.1.misc.toNat r.1.body d with
      | .error error => .error error
      | .ok d => decodeLoop signal trace d rest := by
  obtain ⟨hkind,hmisc,hsize,hslice⟩ := encode_header r rest
  have hlength : (r.1.encode ++ rest).length = headerSize+r.1.body.length+rest.length := by
    rw [List.length_append,r.1.encode_length,PerfRecord.size]
  rw [decodeLoop,if_neg (by simp [hlength,headerSize]),if_neg (by omega)]
  dsimp only
  rw [hsize,if_neg (by rw [hlength,PerfRecord.size]; omega),hkind,hmisc,hslice,
    drop_append_eq _ _ r.1.encode_length.symm]

theorem decodeLoop_nil (signal : Signal) (trace : Bytes) (d : Decoder) :
    decodeLoop signal trace d [] = .ok d := by
  rw [decodeLoop]
  rfl

/-- All records are admitted, each with what the ones before it cover. -/
def AllAdmitted (signal : Signal) (limit : Nat) (d : Decoder) : List RingRecord → Prop
  | [] => True
  | r :: records => r.1.Admitted signal limit d.auxPosition ∧
      AllAdmitted signal limit (d.after r.1) records

theorem decodeLoop_ok (signal : Signal) (trace : Bytes) (d d' : Decoder)
    (records : List RingRecord) :
    decodeLoop signal trace d (encodeRecords records) = .ok d' ↔
      AllAdmitted signal trace.length d records ∧
        d' = records.foldl (fun d r => d.after r.1) d := by
  induction records generalizing d with
  | nil =>
    show decodeLoop signal trace d [] = _ ↔ _
    rw [decodeLoop_nil]
    simp [AllAdmitted,eq_comm]
  | cons r records ih =>
    show decodeLoop signal trace d (r.1.encode ++ encodeRecords records) = _ ↔ _
    rw [decodeLoop_cons,AllAdmitted,List.foldl_cons,and_assoc,← ih (d.after r.1)]
    cases hrecord : decodeRecord signal trace r.1.kind r.1.misc.toNat r.1.body d with
    | error error =>
      simp only [reduceCtorEq,false_iff,not_and]
      intro hadmitted
      rw [(decodeRecord_ok signal trace r.1 d _).mpr ⟨hadmitted,rfl⟩] at hrecord
      cases hrecord
    | ok next =>
      obtain ⟨hadmitted,rfl⟩ := (decodeRecord_ok signal trace r.1 d next).mp hrecord
      simp only [hadmitted,true_and]

/-- What a record has to be whatever came before it. -/
structure PerfRecord.Compatible (signal : Signal) (r : PerfRecord) : Prop where
  lossless : r.kind ≠ lostKind ∧ r.kind ≠ lostSamplesKind
  sample : r.kind = sampleKind → signal ≠ .intelPt ∧ r.body.length = sampleSize signal
  unmixed : signal ≠ .intelPt → r.kind ≠ auxKind
  clean : signal = .intelPt → r.clean

def Covers (limit : Nat) : Nat → List (Nat × Nat) → Prop
  | _,[] => True
  | start,(offset,length) :: rest =>
    offset = start ∧ 0 < length ∧ offset+length ≤ limit ∧ Covers limit (start+length) rest

private theorem tiles_iff (start stop : Nat) (intervals : List (Nat × Nat)) :
    Tiles start intervals stop ↔
      Covers stop start intervals ∧ start+(intervals.map Prod.snd).sum = stop := by
  induction intervals generalizing start with
  | nil => simp [Tiles,Covers]
  | cons interval rest ih =>
    obtain ⟨offset,length⟩ := interval
    simp only [Tiles,Covers,ih,List.map_cons,List.sum_cons]
    constructor
    · rintro ⟨rfl,hpos,hcovers,hsum⟩
      exact ⟨⟨rfl,hpos,by omega,hcovers⟩,by omega⟩
    · rintro ⟨⟨rfl,hpos,-,hcovers⟩,hsum⟩
      exact ⟨rfl,hpos,hcovers,by omega⟩

private theorem sampleKind_kept : sampleKind ≠ lostKind ∧ sampleKind ≠ lostSamplesKind := by
  decide

private theorem auxKind_kept : auxKind ≠ lostKind ∧ auxKind ≠ lostSamplesKind := by decide

private theorem sampleKind_ne_auxKind : sampleKind ≠ auxKind := by decide

private theorem admitted_iff (signal : Signal) (limit covered : Nat) (r : PerfRecord) :
    r.Admitted signal limit covered ↔ r.Compatible signal ∧
      ∀ offset length, r.covered = some (offset,length) →
        offset = covered ∧ 0 < length ∧ offset+length ≤ limit := by
  constructor
  · intro h
    cases r with
    | sample misc s =>
      have hsize : sampleSize signal = sampleRowSize := by
        rw [sampleSize,if_neg h.2,Nat.add_zero]
      exact ⟨⟨sampleKind_kept,fun _ => ⟨h.1,by rw [hsize]; exact s.body_length⟩,
        fun _ => sampleKind_ne_auxKind,fun _ => trivial⟩,nofun⟩
    | load misc s weight dataSource =>
      obtain rfl : signal = .memoryLoads := h
      exact ⟨⟨sampleKind_kept,fun _ => ⟨by decide,by simp [PerfRecord.body,sampleSize]⟩,
        fun _ => sampleKind_ne_auxKind,fun _ => trivial⟩,nofun⟩
    | misfit => exact h.elim
    | aux misc offset length flags more =>
      obtain ⟨rfl,hflags,hoffset,hpos,hlimit⟩ := h
      refine ⟨⟨auxKind_kept,nofun,fun h => absurd rfl h,fun _ => hflags⟩,?_⟩
      intro start count hcovered
      obtain ⟨rfl,rfl⟩ : offset.toNat = start ∧ length.toNat = count := by
        simpa [PerfRecord.covered] using hcovered
      exact ⟨hoffset,hpos,hlimit⟩
    | shortAux => exact h.elim
    | other kind misc body hkind =>
      exact ⟨⟨h,fun hsample => absurd hsample hkind.1,fun _ => hkind.2,fun _ => trivial⟩,nofun⟩
  · rintro ⟨⟨hlossless,hsample,hunmixed,hclean⟩,hcovered⟩
    cases r with
    | sample misc s =>
      obtain ⟨hsignal,hsize⟩ := hsample rfl
      refine ⟨hsignal,fun hmemory => ?_⟩
      subst hmemory
      simp [PerfRecord.body,sampleSize] at hsize
    | load misc s weight dataSource =>
      obtain ⟨hsignal,hsize⟩ := hsample rfl
      rcases sampleSize_cases signal with ⟨hmemory,-⟩ | ⟨-,hplain⟩
      · exact hmemory
      · rw [hplain] at hsize
        simp [PerfRecord.body] at hsize
    | misfit misc body hbody =>
      obtain ⟨hsignal,hsize⟩ := hsample rfl
      rcases sampleSize_cases signal with ⟨rfl,-⟩ | ⟨-,hplain⟩
      · exact hbody.2 hsize
      · exact hbody.1 (hsize.trans hplain)
    | aux misc offset length flags more =>
      have hsignal : signal = .intelPt := by
        by_contra hsignal
        exact hunmixed hsignal rfl
      exact ⟨hsignal,hclean hsignal,hcovered _ _ rfl⟩
    | shortAux misc body hbody =>
      by_cases hsignal : signal = .intelPt
      · exact hclean hsignal
      · exact hunmixed hsignal rfl
    | other kind misc body hkind => exact hlossless

private theorem allAdmitted_iff (signal : Signal) (limit : Nat) (d : Decoder)
    (records : List RingRecord) :
    AllAdmitted signal limit d records ↔ (∀ r ∈ records, r.1.Compatible signal) ∧
      Covers limit d.auxPosition (records.filterMap (·.1.covered)) := by
  induction records generalizing d with
  | nil => simp [AllAdmitted,Covers]
  | cons r records ih =>
    rw [AllAdmitted,ih,admitted_iff,List.forall_mem_cons]
    cases hcovered : r.1.covered with
    | none =>
      have hafter : (d.after r.1).auxPosition = d.auxPosition := by
        simp only [Decoder.after,hcovered]
      simp only [List.filterMap_cons,hcovered,hafter,reduceCtorEq,false_imp_iff,implies_true,
        and_true,and_assoc]
    | some interval =>
      obtain ⟨offset,length⟩ := interval
      have hafter : (d.after r.1).auxPosition = d.auxPosition+length := by
        simp only [Decoder.after,hcovered]
      simp only [List.filterMap_cons,hcovered,hafter,Covers]
      constructor
      · rintro ⟨⟨hr,hinterval⟩,hrecords,hcovers⟩
        obtain ⟨hoffset,hpos,hlimit⟩ := hinterval offset length rfl
        exact ⟨⟨hr,hrecords⟩,hoffset,hpos,hlimit,hcovers⟩
      · rintro ⟨⟨hr,hrecords⟩,hoffset,hpos,hlimit,hcovers⟩
        refine ⟨⟨hr,?_⟩,hrecords,hcovers⟩
        intro start count heq
        cases heq
        exact ⟨hoffset,hpos,hlimit⟩

private theorem columns_append (rows : List Row) (row : Row) :
    (Columns.ofRows rows).append row = .ofRows (rows ++ [row]) := by
  simp [Columns.ofRows,Columns.append]

private theorem after_ofRows (rows : List Row) (covered : Nat) (r : PerfRecord) :
    (Decoder.mk (.ofRows rows) covered).after r =
      ⟨.ofRows (rows ++ r.row.toList),covered+(r.covered.map Prod.snd).getD 0⟩ := by
  unfold Decoder.after
  cases r.row <;> cases r.covered <;> simp [columns_append]

private theorem foldl_after (records : List RingRecord) (rows : List Row) (covered : Nat) :
    records.foldl (fun d r => d.after r.1) (Decoder.mk (.ofRows rows) covered) =
      ⟨.ofRows (rows ++ records.filterMap (·.1.row)),
        covered+((records.filterMap (·.1.covered)).map Prod.snd).sum⟩ := by
  induction records generalizing rows covered with
  | nil => simp
  | cons r records ih =>
    rw [List.foldl_cons,after_ofRows,ih]
    cases hrow : r.1.row <;> cases hcovered : r.1.covered <;>
      simp [hrow,hcovered,Nat.add_assoc]

theorem complete_iff (signal : Signal) (trace : Bytes) (records : List RingRecord) :
    Complete signal trace records ↔
      AllAdmitted signal trace.length {} records ∧ (signal = .intelPt →
        ((records.filterMap (·.1.covered)).map Prod.snd).sum = trace.length) := by
  rw [allAdmitted_iff]
  constructor
  · rintro ⟨hlossless,hsamples,hunmixed,htiled⟩
    refine ⟨⟨fun r hr => ⟨hlossless r hr,hsamples r hr,fun hs => hunmixed hs r hr,
      fun hs => (htiled hs).1 r hr⟩,?_⟩,?_⟩
    · by_cases hsignal : signal = .intelPt
      · exact ((tiles_iff _ _ _).mp (htiled hsignal).2).1
      · rw [List.filterMap_eq_nil_iff.mpr]
        · trivial
        · intro r hr
          have := hunmixed hsignal r hr
          cases hrecord : r.1 with
          | aux => rw [hrecord] at this; exact absurd rfl this
          | _ => rfl
    · intro hsignal
      have := ((tiles_iff _ _ _).mp (htiled hsignal).2).2
      rwa [Nat.zero_add] at this
  · rintro ⟨⟨hcompatible,hcovers⟩,hsum⟩
    refine ⟨fun r hr => (hcompatible r hr).lossless,fun r hr => (hcompatible r hr).sample,
      fun hs r hr => (hcompatible r hr).unmixed hs,fun hs => ⟨fun r hr =>
      (hcompatible r hr).clean hs,(tiles_iff _ _ _).mpr ⟨hcovers,?_⟩⟩⟩
    rw [Nat.zero_add]
    exact hsum hs

theorem decodeRecords_ok (signal : Signal) (source : Nat) (trace : Bytes)
    (records : List RingRecord) (batch : HardwareBatch) :
    decodeRecords (encodeRecords records) signal source trace = .ok batch ↔
      Complete signal trace records ∧ batch = completeBatch source signal trace records := by
  have hfinal := foldl_after records [] 0
  rw [List.nil_append,Nat.zero_add] at hfinal
  have hloop := decodeLoop_ok signal trace {} ⟨.ofRows (records.filterMap (·.1.row)),
    ((records.filterMap (·.1.covered)).map Prod.snd).sum⟩ records
  rw [complete_iff,decodeRecords]
  constructor
  · intro h
    cases hd : decodeLoop signal trace {} (encodeRecords records) with
    | error error =>
      rw [hd] at h
      cases h
    | ok d =>
      obtain ⟨hadmitted,hd'⟩ := (decodeLoop_ok signal trace {} d records).mp hd
      obtain rfl := hd'.trans hfinal
      simp only [hd,bind,Except.bind] at h
      split at h
      · cases h
      · rename_i hcheck
        cases h
        exact ⟨⟨hadmitted,fun hs => by simpa [hs] using hcheck⟩,rfl⟩
  · rintro ⟨⟨hadmitted,hsum⟩,rfl⟩
    rw [hloop.mpr ⟨hadmitted,hfinal.symm⟩]
    simp only [bind,Except.bind]
    rw [if_neg fun hcheck => hcheck.2 (hsum hcheck.1)]
    rfl

private theorem exists_word (bytes : Bytes) :
    ∃ value : UInt64, value.toNat = load bytes 8 :=
  ⟨.ofNat (load bytes 8),UInt64.toNat_ofNat_of_lt' (load_lt bytes 8)⟩

private theorem exists_half (bytes : Bytes) :
    ∃ value : UInt32, value.toNat = load bytes 4 :=
  ⟨.ofNat (load bytes 4),UInt32.toNat_ofNat_of_lt' (load_lt bytes 4)⟩

private theorem split_word (bytes : Bytes) (h : 8 ≤ bytes.length) :
    ∃ value : UInt64, ∃ rest, bytes = store value.toNat 8 ++ rest ∧
      rest.length = bytes.length-8 := by
  obtain ⟨value,hvalue⟩ := exists_word bytes
  refine ⟨value,bytes.drop 8,?_,by simp⟩
  rw [hvalue,store_load bytes 8 h,List.take_append_drop]

private theorem split_half (bytes : Bytes) (h : 4 ≤ bytes.length) :
    ∃ value : UInt32, ∃ rest, bytes = store value.toNat 4 ++ rest ∧
      rest.length = bytes.length-4 := by
  obtain ⟨value,hvalue⟩ := exists_half bytes
  refine ⟨value,bytes.drop 4,?_,by simp⟩
  rw [hvalue,store_load bytes 4 h,List.take_append_drop]

private theorem split_sample (bytes : Bytes) (h : sampleRowSize ≤ bytes.length) :
    ∃ s : Sample, ∃ rest, bytes = s.body ++ rest ∧
      rest.length = bytes.length-sampleRowSize := by
  unfold sampleRowSize at h
  obtain ⟨ip,bytes,rfl,h1⟩ := split_word bytes (by omega)
  obtain ⟨pid,bytes,rfl,h2⟩ := split_half bytes (by omega)
  obtain ⟨tid,bytes,rfl,h3⟩ := split_half bytes (by omega)
  obtain ⟨time,bytes,rfl,h4⟩ := split_word bytes (by omega)
  obtain ⟨address,bytes,rfl,h5⟩ := split_word bytes (by omega)
  obtain ⟨cpu,bytes,rfl,h6⟩ := split_half bytes (by omega)
  obtain ⟨reserved,bytes,rfl,h7⟩ := split_half bytes (by omega)
  obtain ⟨period,bytes,rfl,h8⟩ := split_word bytes (by omega)
  refine ⟨⟨ip,pid,tid,time,address,cpu,reserved,period⟩,bytes,?_,?_⟩
  · simp only [Sample.body,List.append_assoc]
  · unfold sampleRowSize
    omega

private theorem exists_record (kind : UInt32) (misc : UInt16) (body : Bytes) :
    ∃ r : PerfRecord, r.kind = kind.toNat ∧ r.misc = misc ∧ r.body = body := by
  by_cases hsample : kind.toNat = sampleKind
  · by_cases hrow : body.length = sampleSize .cycles
    · obtain ⟨s,rest,rfl,hrest⟩ := split_sample body (by rw [hrow]; decide)
      obtain rfl : rest = [] := List.eq_nil_of_length_eq_zero (by rw [hrest,hrow]; decide)
      exact ⟨.sample misc s,hsample.symm,rfl,by simp [PerfRecord.body]⟩
    · by_cases hload : body.length = sampleSize .memoryLoads
      · obtain ⟨s,rest,rfl,hrest⟩ := split_sample body (by rw [hload]; decide)
        have hlength : rest.length = 16 := by rw [hrest,hload]; decide
        obtain ⟨weight,rest,rfl,hweight⟩ := split_word rest (by omega)
        obtain ⟨dataSource,rest,rfl,hsource⟩ := split_word rest (by omega)
        obtain rfl : rest = [] := List.eq_nil_of_length_eq_zero (by omega)
        exact ⟨.load misc s weight dataSource,hsample.symm,rfl,by simp [PerfRecord.body]⟩
      · exact ⟨.misfit misc body ⟨hrow,hload⟩,hsample.symm,rfl,rfl⟩
  · by_cases haux : kind.toNat = auxKind
    · by_cases hlong : 24 ≤ body.length
      · obtain ⟨offset,rest,rfl,h1⟩ := split_word body (by omega)
        obtain ⟨length,rest,rfl,h2⟩ := split_word rest (by omega)
        obtain ⟨flags,rest,rfl,h3⟩ := split_word rest (by omega)
        exact ⟨.aux misc offset length flags rest,haux.symm,rfl,rfl⟩
      · exact ⟨.shortAux misc body (by omega),haux.symm,rfl,rfl⟩
    · exact ⟨.other kind misc body ⟨hsample,haux⟩,rfl,rfl,rfl⟩

private theorem take_drop_join (data : Bytes) (start count : Nat) :
    (data.drop start).take count ++ data.drop (start+count) = data.drop start := by
  rw [← List.drop_drop,List.take_append_drop]

private theorem exists_encode (hheader : headerSize ≤ data.length)
    (hlow : headerSize ≤ load (data.drop 6) 2) (hhigh : load (data.drop 6) 2 ≤ data.length) :
    ∃ r : RingRecord, data = r.1.encode ++ data.drop (load (data.drop 6) 2) := by
  unfold headerSize at hheader hlow
  generalize hsize : load (data.drop 6) 2 = size at hlow hhigh
  have hbound : size < 2^16 := hsize ▸ load_lt (data.drop 6) 2
  obtain ⟨kind,hkind⟩ := exists_half data
  obtain ⟨misc,hmisc⟩ : ∃ value : UInt16, value.toNat = load (data.drop 4) 2 :=
    ⟨.ofNat (load (data.drop 4) 2),UInt16.toNat_ofNat_of_lt' (load_lt (data.drop 4) 2)⟩
  obtain ⟨r,hr,hrmisc,hrbody⟩ := exists_record kind misc (slice data headerSize size)
  have hrsize : r.size = size := by
    rw [PerfRecord.size,hrbody,slice_length hhigh,headerSize]
    omega
  refine ⟨⟨r,by omega⟩,?_⟩
  have hencode : r.encode = data.take 4 ++ ((data.drop 4).take 2 ++ ((data.drop 6).take 2 ++
      (data.drop 8).take (size-8))) := by
    rw [PerfRecord.encode,hrsize,hr,hrmisc,hrbody,hkind,hmisc,← hsize,
      store_load data 4 (by omega),store_load _ 2 (by rw [List.length_drop]; omega),
      store_load _ 2 (by rw [List.length_drop]; omega)]
    rfl
  have hrest : data.drop size = data.drop (8+(size-8)) := by
    congr 1
    omega
  rw [hencode,hrest]
  simp only [List.append_assoc]
  rw [take_drop_join data 8,take_drop_join data 6 2,take_drop_join data 4 2,
    List.take_append_drop]

/-- What the loop accepts is a list of whole records, every byte taken. -/
theorem decodeLoop_whole (signal : Signal) (trace : Bytes) (d d' : Decoder) (data : Bytes)
    (h : decodeLoop signal trace d data = .ok d') : ∃ records, data = encodeRecords records := by
  induction hlength : data.length using Nat.strong_induction_on generalizing data d with
  | _ length ih =>
    rw [decodeLoop] at h
    split at h
    · rename_i hnil
      exact ⟨[],List.eq_nil_of_length_eq_zero hnil⟩
    · split at h
      · cases h
      · rename_i hpos hheader
        dsimp only at h
        split at h
        · cases h
        · rename_i hsize
          rw [not_or,not_lt,not_lt] at hsize
          split at h
          · cases h
          · obtain ⟨r,hr⟩ := exists_encode (not_lt.mp hheader) hsize.1 hsize.2
            have hshorter : (data.drop (load (data.drop 6) 2)).length < length := by
              rw [List.length_drop]
              unfold headerSize at hsize
              omega
            obtain ⟨records,hrecords⟩ := ih _ hshorter _ _ h rfl
            refine ⟨r :: records,hr.trans ?_⟩
            rw [hrecords]
            rfl

/-- What `_read_mapped_batch` does with a ring and its trace. -/
def readRecords (ring : PerfRing) (head tail : Nat) (signal : Signal) (source : Nat)
    (trace : Bytes) : Except HardwareError HardwareBatch := do
  let data ← ringBytes ring.mapping head tail ring.offset ring.size
  decodeRecords data signal source trace

/-- Records are read back from the ring exactly, or the capture fails; and bytes that are taken
as a capture are whole records. -/
theorem readRecords_exact (signal : Signal) (source : Nat) (trace : Bytes) :
    (∀ (ring : PerfRing) (tail : Nat) (records : List RingRecord) (batch : HardwareBatch),
      ring.Holds tail (encodeRecords records) →
      (readRecords ring (tail+(encodeRecords records).length) tail signal source trace =
          .ok batch ↔
        Complete signal trace records ∧ batch = completeBatch source signal trace records)) ∧
    ∀ (data : Bytes) (batch : HardwareBatch),
      decodeRecords data signal source trace = .ok batch →
      ∃ records, data = encodeRecords records ∧ Complete signal trace records ∧
        batch = completeBatch source signal trace records := by
  constructor
  · intro ring tail records batch hholds
    rw [readRecords,ringBytes_holds hholds]
    exact decodeRecords_ok signal source trace records batch
  · intro data batch h
    have hloop : ∃ d, decodeLoop signal trace {} data = .ok d := by
      cases hd : decodeLoop signal trace {} data with
      | error error =>
        rw [decodeRecords,hd] at h
        cases h
      | ok d => exact ⟨d,rfl⟩
    obtain ⟨d,hd⟩ := hloop
    obtain ⟨records,rfl⟩ := decodeLoop_whole signal trace {} d data hd
    exact ⟨records,rfl,(decodeRecords_ok signal source trace records batch).mp h⟩

/-- A ring full of these bytes, of which `before` stand before the wrap. -/
private def wrappedRing (data : Bytes) (before : Nat) (hsome : 0 < data.length) : PerfRing where
  mapping := 255 :: (data.drop before ++ data.take before)
  offset := 1
  size := data.length
  positive := hsome
  inside := by
    simp only [List.length_cons,List.length_append,List.length_drop,List.length_take]
    omega

private def commandRecord : RingRecord := ⟨.other 3 0 [] (by decide),by decide⟩

private def sampleRecord (ip period : UInt64) : RingRecord :=
  ⟨.sample 0 ⟨ip,7,8,100,0,1,0,period⟩,by
    simp [PerfRecord.size,PerfRecord.body,Sample.body,headerSize]⟩

private def auxRecord (offset length : UInt64) : RingRecord :=
  ⟨.aux 0 offset length 0 [],by simp [PerfRecord.size,PerfRecord.body,headerSize]⟩

private def twoSamples : List RingRecord :=
  [sampleRecord 0x401000 1,commandRecord,sampleRecord 0xffffffff81000000 2]

private def twoParts : List RingRecord := [auxRecord 0 2,commandRecord,auxRecord 2 3]

private theorem twoSamples_complete : Complete .cycles [] twoSamples where
  lossless := by decide +kernel
  samples := by decide +kernel
  unmixed _ := by decide +kernel
  tiled h := by cases h

private theorem twoParts_complete : Complete .intelPt [1,2,3,4,5] twoParts where
  lossless := by decide +kernel
  samples := by decide +kernel
  unmixed h := absurd rfl h
  tiled _ := by
    refine ⟨fun r hr => ?_,rfl,by decide,rfl,by decide,rfl⟩
    simp only [twoParts,List.mem_cons,List.not_mem_nil,or_false] at hr
    obtain rfl | rfl | rfl := hr
    · exact Nat.zero_and auxBadFlags
    · trivial
    · exact Nat.zero_and auxBadFlags

private theorem twoSamples_some : 0 < (encodeRecords twoSamples).length := by decide +kernel

private theorem twoParts_some : 0 < (encodeRecords twoParts).length := by decide +kernel

private theorem twoSamples_held :
    (wrappedRing (encodeRecords twoSamples) 80 twoSamples_some).Holds 40 (encodeRecords twoSamples) :=
  ⟨Nat.le_refl _,by decide +kernel⟩

private theorem twoParts_held :
    (wrappedRing (encodeRecords twoParts) 50 twoParts_some).Holds 22 (encodeRecords twoParts) :=
  ⟨Nat.le_refl _,by decide +kernel⟩

/-- The second sample wraps, and its kernel address is a negative row; of the trace the second part
wraps. -/
theorem readRecords_exact_wrapped :
    readRecords (wrappedRing (encodeRecords twoSamples) 80 twoSamples_some)
        (40+(encodeRecords twoSamples).length) 40 .cycles 4 [] =
          .ok (completeBatch 4 .cycles [] twoSamples) ∧
      (completeBatch 4 .cycles [] twoSamples).columns.ip = [0x401000,-0x7f000000] ∧
      readRecords (wrappedRing (encodeRecords twoParts) 50 twoParts_some)
        (22+(encodeRecords twoParts).length) 22 .intelPt 4 [1,2,3,4,5] =
          .ok (completeBatch 4 .intelPt [1,2,3,4,5] twoParts) := by
  refine ⟨?_,by decide,?_⟩
  · exact ((readRecords_exact .cycles 4 []).1 _ 40 twoSamples _ twoSamples_held).mpr
      ⟨twoSamples_complete,rfl⟩
  · exact ((readRecords_exact .intelPt 4 [1,2,3,4,5]).1 _ 22 twoParts _ twoParts_held).mpr
      ⟨twoParts_complete,rfl⟩

end Cpu2Tensor.Hardware
