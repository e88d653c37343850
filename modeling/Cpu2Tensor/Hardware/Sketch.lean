import Cpu2Tensor.Library.Bytes
import Cpu2Tensor.Library.Ragged

/-!
# The raw-trace sketch

The counts of `raw_trace_sketch` before they are normalised, as the native loop and as the tensor
fallback accumulate them.  Offsets and lengths are natural numbers: no buffer reaches 2^63 bytes.
An int64 tensor is a list of integers whose operations wrap.
-/

namespace Cpu2Tensor.Hardware
open Library

inductive SketchError
  | valueError (message : String)
  | overflowError (message : String)
  | runtimeError
  | outOfBounds
  deriving DecidableEq, Repr

structure RawTraceSketchConfig where
  segments : Nat := 8
  pairBins : Nat := 1024
  includeLength : Bool := true
  segments_pos : 0 < segments := by decide
  pairBins_power : pairBins = 0 ∨ pairBins &&& (pairBins-1) = 0 := by decide

def RawTraceSketchConfig.byteDimensions (config : RawTraceSketchConfig) : Nat := config.segments*256

def RawTraceSketchConfig.featureDimensions (config : RawTraceSketchConfig) : Nat :=
  config.segments*256+config.pairBins+config.includeLength.toNat

/-- The sums of the leading counts, from `start` on. -/
def prefixSums (start : Nat) : List Nat → List Nat
  | [] => [start]
  | n::rest => start::prefixSums (start+n) rest

def packRawTraces (traces : List Bytes) : Except SketchError (Bytes × List Nat) :=
  if traces.isEmpty then
    .error (.valueError "traces must be nonempty one-dimensional uint8 tensors")
  else if traces.any List.isEmpty then .error (.valueError "hardware traces must not be empty")
  else .ok (traces.flatten,prefixSums 0 (traces.map List.length))

/-- What `raw_trace_sketch` asks of its offsets on either path. -/
def checkArguments (bytes : Bytes) (offsets : List Nat) : Except SketchError Unit :=
  if offsets.length < 2 then
    .error (.valueError "offsets must be a one-dimensional int64 prefix sum")
  else if offsets.headD 0 ≠ 0 ∨ offsets.getLastD 0 ≠ bytes.length then
    .error (.valueError "offsets must cover every trace byte exactly")
  else if (offsets.zip offsets.tail).any fun (start,stop) => stop ≤ start then
    .error (.valueError "offsets must describe nonempty traces in order")
  else .ok ()

/-- `++` on a float that holds a count: from 2^24 on the sum rounds back. -/
def increment (count : Nat) : Nat := if count < 2^24 then count+1 else count

def bump (features : List Nat) (index : Nat) : Except SketchError (List Nat) :=
  if index < features.length then .ok (features.modify index increment) else .error .outOfBounds

def byteAt (bytes : Bytes) (index : Nat) : Except SketchError UInt8 :=
  match bytes[index]? with
  | some byte => .ok byte
  | none => .error .outOfBounds

def nativeSegment (segments length position : Nat) : Nat := position*segments % 2^64 / length

def nativePairHash (pairBins : Nat) (byte next : UInt8) : Nat :=
  let pairKey := (byte.toUInt32 <<< 8) ||| next.toUInt32
  let pairHash := (pairKey ^^^ (pairKey >>> 7) ^^^ (pairKey >>> 3)) &&& (UInt32.ofNat pairBins - 1)
  pairHash.toNat

def nativeStep (bytes : Bytes) (segments pairBins start length : Nat) (features : List Nat)
    (position : Nat) : Except SketchError (List Nat) := do
  let byte ← byteAt bytes (start+position)
  let features ← bump features (nativeSegment segments length position*256+byte.toNat)
  if pairBins ≠ 0 ∧ position+1 < length then do
    let next ← byteAt bytes (start+position+1)
    bump features (segments*256+nativePairHash pairBins byte next)
  else return features

def nativeRow (bytes : Bytes) (segments pairBins dimensions start stop : Nat) :
    Except SketchError (List Nat) :=
  (List.range (stop-start)).foldlM (nativeStep bytes segments pairBins start (stop-start))
    (List.replicate dimensions 0)

/-- The offsets after the first one: each above the one before, none past the buffer. -/
def checkOffsets (size previous : Nat) : List Nat → Except SketchError Unit
  | [] =>
    if previous = size then .ok ()
    else .error (.valueError "Raw trace offsets do not cover the byte buffer")
  | next::rest =>
    if next ≤ previous ∨ size < next then
      .error (.valueError "Raw trace offsets must be ordered and nonempty")
    else checkOffsets size next rest

/-- `raw_trace_sketch` of the extension, on dimensions that are `unsigned`. -/
def nativeCounts (bytes : Bytes) (offsets : List Nat) (segments pairBins : Nat)
    (includeLength : Bool) : Except SketchError (List (List Nat)) :=
  let rows := offsets.length-1
  let dimensions := segments*256+pairBins+includeLength.toNat
  if segments = 0 ∨ ¬ (pairBins = 0 ∨ pairBins &&& (pairBins-1) = 0) ∨ offsets.length < 2 then
    .error (.valueError "Invalid raw trace sketch buffers or dimensions")
  else if (2^64-1-pairBins-1)/256 < segments then
    .error (.overflowError "Raw trace sketch dimensions overflow")
  else if (2^63-1)/dimensions/4 < rows then
    .error (.overflowError "Raw trace sketch output is too large")
  else if offsets.headD 0 ≠ 0 then
    .error (.valueError "Raw trace offsets must start at zero")
  else do
    checkOffsets bytes.length 0 offsets.tail
    (offsets.zip offsets.tail).mapM fun (start,stop) =>
      nativeRow bytes segments pairBins dimensions start stop

/-- The native path.  The parser's format `I` keeps the low 32 bits of an integer; the buffer that
comes back is given the shape that the configuration has. -/
def nativeSketch (bytes : Bytes) (offsets : List Nat) (config : RawTraceSketchConfig) :
    Except SketchError (List (List Nat)) := do
  checkArguments bytes offsets
  let result ← nativeCounts bytes offsets (config.segments % 2^32) (config.pairBins % 2^32)
    config.includeLength
  match reshape (offsets.length-1) config.featureDimensions result.flatten with
  | some rows => return rows
  | none => .error .runtimeError

def int64 (x : Int) : Int := x.bmod (2^64)

def arange (n : Nat) : List Int := (List.range n).map Int.ofNat

def pairHash (pairBins : Nat) (current next : Nat) : Nat :=
  let pairKey := (current <<< 8) ||| next
  (pairKey ^^^ (pairKey >>> 7) ^^^ (pairKey >>> 3)) &&& (pairBins-1)

def histogram (indices : List Int) (batch columns : Nat) : Except SketchError (List (List Nat)) :=
  match (bincount indices (batch*columns)).bind (reshape batch columns) with
  | some rows => .ok rows
  | none => .error .runtimeError

/-- The index tensors of a batch: for every byte its trace, its position there, the length of that
trace and the segment. -/
structure Indices where
  traceIndex : List Int
  positions : List Int
  repeatedLengths : List Int
  segment : List Int

def indices (size : Nat) (offsets lengths : List Nat) (segments : Nat) : Indices :=
  let traceIndex := repeatInterleave (arange lengths.length) lengths
  let repeatedStarts := repeatInterleave (offsets.dropLast.map Int.ofNat) lengths
  let positions := List.zipWith (fun i start => int64 (i-start)) (arange size) repeatedStarts
  let repeatedLengths := repeatInterleave (lengths.map Int.ofNat) lengths
  { traceIndex := traceIndex
    positions := positions
    repeatedLengths := repeatedLengths
    segment := List.zipWith
      (fun position length => min (int64 (position*segments)/length) (segments-1))
      positions repeatedLengths }

def flatBins (bytes : Bytes) (config : RawTraceSketchConfig) (tensors : Indices) : List Int :=
  let rowBins := List.zipWith
    (fun trace segment => int64 (int64 (trace*config.featureDimensions)+int64 (segment*256)))
    tensors.traceIndex tensors.segment
  List.zipWith (fun bin (byte : UInt8) => int64 (bin+byte.toNat)) rowBins bytes

structure PairIndices where
  pairTrace : List Int
  pairIndices : List Int

def pairIndices (bytes : Bytes) (config : RawTraceSketchConfig) (tensors : Indices) :
    Except SketchError PairIndices := do
  let pairPositions := List.zipWith (fun position length => decide (int64 (position+1) < length))
    tensors.positions tensors.repeatedLengths
  let current := maskSelect bytes pairPositions
  let nonzero := maskSelect (List.range pairPositions.length) pairPositions
  let nextBytes ← nonzero.mapM fun i => byteAt bytes (i+1)
  let hashes := List.zipWith
    (fun (c next : UInt8) => pairHash config.pairBins c.toNat next.toNat) current nextBytes
  let pairTrace := maskSelect tensors.traceIndex pairPositions
  return {
    pairTrace := pairTrace
    pairIndices := List.zipWith
      (fun trace (hash : Nat) =>
        int64 (int64 (int64 (trace*config.featureDimensions)+config.byteDimensions)+hash))
      pairTrace hashes }

/-- Without pair bins nothing is added to the features. -/
def fallbackPairs (bytes : Bytes) (config : RawTraceSketchConfig) (tensors : Indices) :
    Except SketchError PairIndices :=
  if config.pairBins = 0 then .ok ⟨[],[]⟩ else pairIndices bytes config tensors

structure Fallback where
  tensors : Indices
  flatBins : List Int
  byteCounts : List (List Nat)
  pairs : PairIndices
  pairCounts : List (List Nat)

def fallbackSketch (bytes : Bytes) (offsets : List Nat) (config : RawTraceSketchConfig) :
    Except SketchError Fallback := do
  checkArguments bytes offsets
  let lengths := List.zipWith (fun stop start => stop-start) offsets.tail offsets.dropLast
  let batch := lengths.length
  let tensors := indices bytes.length offsets lengths config.segments
  let bins := flatBins bytes config tensors
  let byteCounts ← histogram bins batch config.featureDimensions
  let pairs ← fallbackPairs bytes config tensors
  let pairCounts ← histogram pairs.pairIndices batch config.featureDimensions
  return ⟨tensors,bins,byteCounts,pairs,pairCounts⟩

/-- A trace with its place in the batch and in the packed bytes. -/
structure TraceRow where
  index : Nat
  start : Nat
  bytes : Bytes

namespace TraceRow

def length (r : TraceRow) : Nat := r.bytes.length

def byte (r : TraceRow) (i : Nat) : UInt8 := r.bytes.getD i 0

end TraceRow

def layRows (index start : Nat) : List Bytes → List TraceRow
  | [] => []
  | trace::rest => ⟨index,start,trace⟩::layRows (index+1) (start+trace.length) rest

section Rows

variable (index start : Nat) (traces : List Bytes)

theorem layRows_bytes : (layRows index start traces).map TraceRow.bytes = traces := by
  induction traces generalizing index start with
  | nil => rfl
  | cons trace rest ih => rw [layRows,List.map_cons,ih]

@[simp] theorem layRows_length : (layRows index start traces).length = traces.length := by
  rw [← List.length_map TraceRow.bytes,layRows_bytes]

theorem layRows_index :
    (layRows index start traces).map TraceRow.index = List.range' index traces.length := by
  induction traces generalizing index start with
  | nil => rfl
  | cons trace rest ih => rw [layRows,List.map_cons,ih,List.length_cons,List.range'_succ]

theorem prefixSums_ne_nil (lengths : List Nat) : prefixSums start lengths ≠ [] := by
  cases lengths <;> exact List.cons_ne_nil _ _

theorem prefixSums_length (lengths : List Nat) :
    (prefixSums start lengths).length = lengths.length+1 := by
  induction lengths generalizing start with
  | nil => rfl
  | cons n rest ih => rw [prefixSums,List.length_cons,ih,List.length_cons]

theorem prefixSums_cons (lengths : List Nat) :
    prefixSums start lengths = start::(prefixSums start lengths).tail := by
  cases lengths <;> rfl

theorem prefixSums_dropLast :
    (prefixSums start (traces.map List.length)).dropLast =
      (layRows index start traces).map TraceRow.start := by
  induction traces generalizing index start with
  | nil => rfl
  | cons trace rest ih =>
    rw [List.map_cons,prefixSums,List.dropLast_cons_of_ne_nil (prefixSums_ne_nil _ _),layRows,
      List.map_cons,ih]

theorem prefixSums_tail :
    (prefixSums start (traces.map List.length)).tail =
      (layRows index start traces).map fun r => r.start+r.length := by
  induction traces generalizing index start with
  | nil => rfl
  | cons trace rest ih =>
    rw [List.map_cons,prefixSums,List.tail_cons,prefixSums_cons,ih (index+1),layRows,List.map_cons]
    rfl

theorem prefixSums_getLast :
    (prefixSums start (traces.map List.length)).getLastD 0 = start+traces.flatten.length := by
  induction traces generalizing start with
  | nil => rfl
  | cons trace rest ih =>
    have hrest := ih (start+trace.length)
    rw [prefixSums_cons] at hrest
    rw [List.map_cons,prefixSums,prefixSums_cons]
    simp only [List.getLastD_cons,List.flatten_cons,List.length_append] at hrest ⊢
    omega

theorem flatten_ragged :
    traces.flatten = ragged (layRows index start traces) TraceRow.length TraceRow.byte := by
  induction traces generalizing index start with
  | nil => rfl
  | cons trace rest ih =>
    have htrace : trace = (List.range trace.length).map (trace.getD · 0) := by
      apply List.ext_getElem
      · simp
      · intro i hi _
        simp [hi]
    rw [List.flatten_cons,ih (index+1) (start+trace.length),layRows,ragged,ragged,
      List.flatMap_cons]
    congr 1

theorem range_ragged :
    List.range' start traces.flatten.length =
      ragged (layRows index start traces) TraceRow.length fun r i => r.start+i := by
  induction traces generalizing index start with
  | nil => rfl
  | cons trace rest ih =>
    rw [List.flatten_cons,List.length_append,← List.range'_append_1,ih (index+1),layRows,ragged,
      ragged,List.flatMap_cons,List.range'_eq_map_range]
    rfl

variable {traces} in
theorem layRows_lookup {r : TraceRow} (hr : r ∈ layRows index start traces) {i : Nat}
    (hi : i < r.length) : start ≤ r.start ∧ traces.flatten[r.start-start+i]? = some (r.byte i) := by
  induction traces generalizing index start with
  | nil => cases hr
  | cons trace rest ih =>
    rw [layRows] at hr
    cases hr with
    | head =>
      have hi : i < trace.length := hi
      refine ⟨Nat.le_refl _,?_⟩
      simp [TraceRow.byte,List.getElem?_append_left,hi]
    | tail _ hr =>
      have hrest := ih (index+1) (start+trace.length) hr
      refine ⟨by omega,?_⟩
      rw [List.flatten_cons,List.getElem?_append_right (by omega),← hrest.2]
      congr 1
      omega

end Rows

end Cpu2Tensor.Hardware
