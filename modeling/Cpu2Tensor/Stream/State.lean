import Cpu2Tensor.Wire.Codec
import Cpu2Tensor.Library.Checked
import Cpu2Tensor.Library.Probing

/-!
# State of the stream validator

The per-source arrays of `Stream` are one `Lane` for each source; the transition key table, the
counters of the open window and the flags of the whole trace stay global.  A check that fails
leaves whatever was written before it, so every operation returns the state in both cases.
-/

namespace Cpu2Tensor
open Library

structure Registers where
  widths : Nat → Nat := fun _ => 0
  sampled : Nat → Bool := fun _ => false
  names : Nat → Bytes := fun _ => List.replicate 64 0

structure Lane where
  registers : Option Registers := none
  next : Nat := 0
  seen : Bool := false
  data : Bool := false
  baselineComplete : Bool := false
  ended : Bool := false
  hasContext : Bool := false
  contextSequence : Nat := 0
  observationTransitionCounts : Nat := 0
  observationContextRows : Nat := 0
  observationLastBlock : Nat := 0
  observationHasContext : Bool := false
  observationSummary : Bool := false

structure TransitionKey where
  window : Nat := 0
  fromAddress : Nat := 0
  destination : Nat := 0
  source : Nat := 0

structure Stream where
  lanes : Nat → Lane := fun _ => {}
  features : UInt64 := 0
  version : Nat := 0
  nextWindow : Nat := 1
  windowDistinct : Nat := 0
  windowObserved : Nat := 0
  windowKeys : Nat → TransitionKey := fun _ => {}
  windowKeyCapacity : Nat := 0
  windowRowsPerSource : Nat → Nat := fun _ => 0
  windowSources : Nat := 0
  windowCapacityPerSource : Nat := 0
  windowMaxSourcePlusOne : Nat := 0
  windowExpected : Bool := false
  windowRows : Bool := false
  observationSources : Nat := 0
  observationTransitionCapacity : Nat := 0
  observationContextCapacity : Nat := 0
  started : Bool := false
  finished : Bool := false
  layoutSeen : Bool := false
  sourceDataSeen : Bool := false
  contextFilterSeen : Bool := false
  contextFilterMemoryRows : Nat := 0

abbrev LaneM := Checked Lane
abbrev StreamM := Checked Stream

def Stream.setLane (s : Stream) (source : Nat) (lane : Lane) : Stream :=
  { s with lanes := Function.update s.lanes source lane }

def onLane {α : Type} (source : Nat) (check : LaneM α) : StreamM α := fun s =>
  match check (s.lanes source) with
  | .ok a lane => .ok a (s.setLane source lane)
  | .error fault lane => .error fault (s.setLane source lane)

@[simp] theorem onLane_eq_ok {α : Type} {source : Nat} {check : LaneM α} {s t : Stream} {a : α} :
    onLane source check s = .ok a t ↔
      ∃ lane, check (s.lanes source) = .ok a lane ∧ t = s.setLane source lane := by
  unfold onLane
  split <;> simp [*,eq_comm]

def nameField (bytes : Bytes) : Bytes := (bytes ++ List.replicate 64 0).take 64

def cString (bytes : Bytes) : Bytes := bytes.takeWhile (· ≠ 0)

def schemaRow (item : Bytes) : Checked Registers Unit := do
  let state ← get
  let id := load item 4
  let width := load (item.drop 4) 4
  refuse (id ≥ maxRegisters ∨ width = 0 ∨ width > maxRegisterBytes ∨ state.widths id ≠ 0)
    "Invalid or duplicate register ID or width"
  let name := nameField (item.drop 8)
  let text := cString name
  refuse (∃ c ∈ text, c.toNat < 33 ∨ c.toNat > 126) "Invalid register name"
  refuse (text.length = 0 ∨ text.length = 64) "Register name needs a terminator"
  refuse (∃ c ∈ name.drop text.length, c ≠ 0) "Register name padding must be zero"
  refuse (∃ other < maxRegisters, state.widths other ≠ 0 ∧ cString (state.names other) = text)
    "Duplicate register name"
  set { state with
    widths := Function.update state.widths id width
    names := Function.update state.names id name }

def schemaRows (bytes : Bytes) : Nat → Nat → Checked Registers Unit
  | 0, _ => pure ()
  | rows+1, row => do
    schemaRow (bytes.drop (row*registerSchemaBytes))
    schemaRows bytes rows (row+1)

def onRegisters {α : Type} (state : Registers) (check : Checked Registers α) : LaneM α :=
  fun lane =>
    match check state with
    | .ok a state => .ok a { lane with registers := some state }
    | .error fault state => .error fault { lane with registers := some state }

@[simp] theorem onRegisters_eq_ok {α : Type} {state : Registers} {check : Checked Registers α}
    {lane lane' : Lane} {a : α} :
    onRegisters state check lane = .ok a lane' ↔
      ∃ state', check state = .ok a state' ∧ lane' = { lane with registers := some state' } := by
  unfold onRegisters
  split <;> simp [*,eq_comm]

def Lane.schema (features : UInt64) (h : Header) (bytes : Bytes) : LaneM Unit := do
  let lane ← get
  refuse (¬Has features featureRegisters ∨ lane.data = true)
    "Register schema is disabled or arrived after source data"
  onRegisters (lane.registers.getD {}) (schemaRows bytes h.count.toNat 0)

def registerRow (detail offset : Nat) (bytes : Bytes) : Checked Registers Nat := do
  refuse (detail - offset < 16) "Truncated register record"
  let state ← get
  let id := load (bytes.drop (offset+8)) 4
  let width := load (bytes.drop (offset+12)) 2
  let flags := load (bytes.drop (offset+14)) 2
  let phase := flags &&& 255
  refuse (id ≥ maxRegisters ∨ width = 0 ∨ width ≠ state.widths id ∨ width > detail - offset - 16)
    "Unknown register or incorrect register width"
  refuse (flags &&& 0xfefc ≠ 0 ∨ phase < 1 ∨ phase > 3) "Invalid register checkpoint flags"
  refuse (decide (flags &&& 256 ≠ 0) = state.sampled id) "Missing or repeated register baseline"
  set { state with sampled := Function.update state.sampled id true }
  return offset + 16 + width

def registerRows (detail : Nat) (bytes : Bytes) : Nat → Nat → Checked Registers Nat
  | 0, offset => pure offset
  | rows+1, offset => do
    let offset ← registerRow detail offset bytes
    registerRows detail bytes rows offset

def Lane.registerSamples (features : UInt64) (h : Header) (bytes : Bytes) : LaneM Unit := do
  match (← get).registers with
  | none => throw (.failure "Register data needs an enabled schema")
  | some state =>
    refuse (¬Has features featureRegisters) "Register data needs an enabled schema"
    let offset ← onRegisters state (registerRows h.detail.toNat bytes h.count.toNat 0)
    refuse (offset ≠ h.detail.toNat) "Trailing bytes in register payload"

def Registers.complete (state : Registers) : Prop :=
  ∀ id < maxRegisters, state.widths id ≠ 0 → state.sampled id = true

instance (state : Registers) : Decidable state.complete :=
  inferInstanceAs (Decidable (∀ id < maxRegisters, _ → _))

def memoryPrefix (features : UInt64) : Nat := if Has features featureSystemMemory then 48 else 24

def memoryStride (features : UInt64) : Nat :=
  memoryPrefix features + if Has features featureMemoryValues then 16 else 0

/-- The check of a physical mapping, with the row's context reference already checked. -/
def mappingFault (width : Nat) (item : Bytes) : Prop :=
  let physical := load (item.drop 24) 8
  let mapped := load (item.drop 32) 4
  let mapping := load (item.drop 36) 4
  let virtualAddress := load (item.drop 8) 8
  (mapping ≠ 0 ∧ mapping ≠ 1 ∧ mapping ≠ 3 ∧ mapping ≠ 7) ∨
    (mapping = 0 ∧ (mapped ≠ 0 ∨ physical ≠ 0)) ∨
    (mapping &&& 1 ≠ 0 ∧ (mapped = 0 ∨ mapped > width ∨
      mapped > 4096 - (virtualAddress &&& 4095) ∨ physical > uint64Max - (mapped-1)))

instance (width : Nat) (item : Bytes) : Decidable (mappingFault width item) :=
  inferInstanceAs (Decidable (_ ∨ _ ∨ _))

def memoryRowFault (features : UInt64) (lane : Lane) (item : Bytes) : Option String :=
  let width := load (item.drop 16) 4
  let flags := load (item.drop 20) 4
  if width = 0 ∨ width &&& (width-1) ≠ 0 ∨ flags > 3 then
    some "Invalid memory access size or flags"
  else if Has features featureSystemMemory ∧
      (lane.hasContext = false ∨ load (item.drop 40) 8 ≠ lane.contextSequence) then
    some "Memory access needs its current address context"
  else if Has features featureSystemMemory ∧ mappingFault width item then
    some "Invalid physical mapping coverage"
  else if Has features featureMemoryValues ∧ width > 16 then
    some "Unsupported memory value width"
  else if Has features featureMemoryValues ∧
      ∃ byte ∈ ((item.drop (memoryPrefix features)).take 16).drop width, byte ≠ 0 then
    some "Memory value padding must be zero"
  else none

def Lane.memoryRows (features : UInt64) (h : Header) (bytes : Bytes) : LaneM Unit := do
  refuse (¬Has features featureMemory) "Memory observations are disabled"
  refuse (h.detail.toNat ≠ h.count.toNat*memoryStride features)
    "Memory value setting does not match payload"
  let lane ← get
  refuseSome ((List.range h.count.toNat).findSome? fun row =>
    memoryRowFault features lane (bytes.drop (row*memoryStride features)))

def transitionHash (source fromAddress destination : Nat) : UInt64 :=
  let value := UInt64.ofNat fromAddress ^^^ (UInt64.ofNat destination + 0x9e3779b97f4a7c15) ^^^
    UInt64.ofNat source
  let value := value ^^^ (value >>> 30)
  let value := value * 0xbf58476d1ce4e5b9
  let value := value ^^^ (value >>> 27)
  let value := value * 0x94d049bb133111eb
  value ^^^ (value >>> 31)

def TransitionKey.home (mask : Nat) (key : TransitionKey) : Nat :=
  (transitionHash key.source key.fromAddress key.destination).toUInt32.toNat &&& mask

/-- One pass of the rehash loop; `none` when its inner `while` never meets a free slot. -/
def rehashKey (window capacity : Nat) (keys : Nat → TransitionKey) (old : TransitionKey) :
    Option (Nat → TransitionKey) :=
  let mask := capacity-1
  if old.window ≠ window then some keys
  else
    match probe (fun slot => (keys slot).window == window) (fun _ => false)
        (fun slot => (slot+1) &&& mask) capacity (old.home mask) with
    | .vacant slot => some (Function.update keys slot old)
    | _ => none

def Stream.rehash (s : Stream) (capacity : Nat) : Option (Nat → TransitionKey) :=
  (List.range s.windowKeyCapacity).foldlM (fun keys index =>
    rehashKey s.nextWindow capacity keys (s.windowKeys index)) fun _ => {}

def growTransitionKeys (capacity : Nat) : StreamM Unit := do
  let s ← get
  match s.rehash capacity with
  | none => throw .divergence
  | some keys => set { s with windowKeys := keys, windowKeyCapacity := capacity }

def Stream.findKey (s : Stream) (key : TransitionKey) : Probe :=
  let mask := s.windowKeyCapacity-1
  probe (fun slot => (s.windowKeys slot).window == s.nextWindow)
    (fun slot => (s.windowKeys slot).source == key.source &&
      (s.windowKeys slot).fromAddress == key.fromAddress &&
      (s.windowKeys slot).destination == key.destination)
    (fun slot => (slot+1) &&& mask) s.windowKeyCapacity (key.home mask)

def rememberTransition (source fromAddress destination : Nat) : StreamM Unit := do
  let s ← get
  refuse (s.windowDistinct ≥ maxTransitionSlots) "Transition rows exceed the fixed total capacity"
  whenever (s.windowKeyCapacity = 0 ∨ (s.windowDistinct+1)*2 > s.windowKeyCapacity)
    (growTransitionKeys (if s.windowKeyCapacity = 0 then 512 else s.windowKeyCapacity*2))
  let s ← get
  let key : TransitionKey := ⟨s.nextWindow,fromAddress,destination,source⟩
  match s.findKey key with
  | .vacant slot => set { s with windowKeys := Function.update s.windowKeys slot key }
  | .found _ => throw (.failure "Duplicate block transition row")
  -- Every slot has been visited and nothing changes between rounds.
  | .exhausted => throw .divergence

end Cpu2Tensor
