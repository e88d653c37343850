import Cpu2Tensor.Library.Bytes

/-!
# Trace frame headers

Every frame starts with a 32-byte header.  This module follows `trace.hpp` and the codec in
`trace.cpp`: the constants, the frame kinds, `encode_header`, `payload_size` and
`decode_header` with one branch of checks for each kind.
-/

namespace Cpu2Tensor
open Library

def wireMagic : Nat := 0x31543243
def legacyWireVersion : Nat := 2
def wireVersion : Nat := 3
def headerBytes : Nat := 32
def maxAddresses : Nat := 256
def maxSources : Nat := 256
def maxRegisters : Nat := 512
def maxRegisterBytes : Nat := 256
def registerSchemaBytes : Nat := 72
def maxPayloadBytes : Nat := 4064
def maxFrameBytes : Nat := headerBytes + maxPayloadBytes
def contextBytes : Nat := 64
def layoutBytes : Nat := 24
def transitionCountBytes : Nat := 24
def transitionWindowBytes : Nat := 40
def reducedContextBytes : Nat := 72
def observationSummaryBytes : Nat := 72
def contextFilterBytes : Nat := 80
def maxActionBytes : Nat := 256
/-- The bound on transition rows from `transition_window.hpp`. -/
def maxTransitionSlots : Nat := 2^20
def uint64Max : Nat := 2^64-1

def featureMemory : UInt64 := 0x100
def featureRegisters : UInt64 := 0x200
def featureMemoryValues : UInt64 := 0x400
def featureStdio : UInt64 := 0x800
def featureSystem : UInt64 := 0x1000
def featureKernel : UInt64 := 0x2000
def featureWindow : UInt64 := 0x4000
def featureSystemMemory : UInt64 := 0x8000
def featureAddressContext : UInt64 := 0x10000
def featureExecutableLayout : UInt64 := 0x20000
def featureMixed : UInt64 := 0x40000
def featureStop : UInt64 := 0x80000
def featureTransitionWindows : UInt64 := 0x100000
def featureContextFilter : UInt64 := 0x200000
def featureObservationReduction : UInt64 := 0x400000

/-- Some bit of `flags` is set in a feature word. -/
def Has (features flags : UInt64) : Prop := features &&& flags ≠ 0

instance (features flags : UInt64) : Decidable (Has features flags) :=
  inferInstanceAs (Decidable (_ ≠ _))

inductive Kind
  | hello | blocks | sourceEnd | complete | error
  | registerSchema | registers | memory | inputRequest
  | kernelRequest | guestEvent | addressContext | executableLayout
  | mixed | blockTransitions | transitionWindow | terminalReport
  | contextFilter | observationSummary | reducedContext
  deriving DecidableEq, Repr

def Kind.code : Kind → Nat
  | .hello => 1 | .blocks => 2 | .sourceEnd => 3 | .complete => 4 | .error => 5
  | .registerSchema => 6 | .registers => 7 | .memory => 8 | .inputRequest => 9
  | .kernelRequest => 10 | .guestEvent => 11 | .addressContext => 12 | .executableLayout => 13
  | .mixed => 14 | .blockTransitions => 15 | .transitionWindow => 16 | .terminalReport => 17
  | .contextFilter => 18 | .observationSummary => 19 | .reducedContext => 20

def Kind.all : List Kind :=
  [.hello,.blocks,.sourceEnd,.complete,.error,.registerSchema,.registers,.memory,.inputRequest,
    .kernelRequest,.guestEvent,.addressContext,.executableLayout,.mixed,.blockTransitions,
    .transitionWindow,.terminalReport,.contextFilter,.observationSummary,.reducedContext]

/-- A cast to the C++ enumeration; the codes outside it are the default branch of its switches. -/
def Kind.ofCode (code : Nat) : Option Kind := Kind.all.find? fun kind => kind.code == code

structure Header where
  kind : Kind
  source : UInt32 := 0
  count : UInt32 := 0
  sequence : UInt64 := 0
  detail : UInt64 := 0
  version : UInt16 := 3
  deriving DecidableEq, Repr

def encodeHeader (h : Header) : Bytes :=
  store wireMagic 4 ++ store h.version.toNat 2 ++ store h.kind.code 2 ++ store h.source.toNat 4 ++
    store h.count.toNat 4 ++ store h.sequence.toNat 8 ++ store h.detail.toNat 8

def payloadSize (h : Header) : Nat :=
  match h.kind with
  | .guestEvent => h.detail.toNat
  | .blocks => h.count.toNat*8
  | .registerSchema | .registers | .memory | .addressContext | .executableLayout | .mixed
  | .blockTransitions | .transitionWindow | .contextFilter | .observationSummary
  | .reducedContext => h.detail.toNat
  | _ => 0

/-- Every feature bit a Hello may carry, with the architecture byte. -/
def allowedFeatures : UInt64 :=
  255 ||| featureMemory ||| featureRegisters ||| featureMemoryValues ||| featureStdio |||
    featureSystem ||| featureKernel ||| featureWindow ||| featureSystemMemory |||
    featureAddressContext ||| featureExecutableLayout ||| featureMixed ||| featureStop |||
    featureTransitionWindows ||| featureContextFilter ||| featureObservationReduction

/-- The checks on a Hello's feature word, in source order. -/
def helloFault (version : UInt16) (d : UInt64) : Option String :=
  let architecture := d &&& 255
  if (architecture ≠ 1 ∧ architecture ≠ 2) ∨ Has d (~~~allowedFeatures) then
    some "Unsupported target architecture or features"
  else if Has d featureMemoryValues ∧ ¬Has d featureMemory then
    some "Memory values require memory observations"
  else if Has d featureExecutableLayout ∧ Has d featureSystem then
    some "Executable layout requires user-mode capture"
  else if Has d featureSystemMemory ∧ (¬Has d featureAddressContext ∨ ¬Has d featureMemory) then
    some "System memory context needs x86 system memory capture"
  else if Has d featureAddressContext ∧ (¬Has d featureSystem ∨ architecture ≠ 2) then
    some "Address context needs x86 system capture"
  else if architecture = 2 ∧ Has d featureSystem ∧ Has d featureRegisters ∧
      ¬Has d featureAddressContext then
    some "System x86 register capture requires address context; update the worker"
  else if (Has d featureKernel ∧ ¬Has d featureSystem) ∨
      (Has d featureStdio ∧ Has d featureSystem) then
    some "Incompatible system and action features"
  else if Has d featureTransitionWindows ∧ ¬Has d featureKernel then
    some "Transition windows need an interactive system worker"
  else if Has d featureObservationReduction ∧ (version.toNat ≠ wireVersion ∨
      ¬Has d featureSystem ∨ ¬Has d featureAddressContext ∨
      Has d (featureKernel ||| featureMemory ||| featureRegisters ||| featureTransitionWindows)) then
    some "Reduced observations need v3 context-only system capture"
  else if Has d featureContextFilter ∧ (version.toNat ≠ wireVersion ∨
      ¬Has d featureAddressContext ∨ ¬Has d featureSystem ∨ architecture ≠ 2 ∨
      ¬Has d (featureMemory ||| featureRegisters)) then
    some "Context filtering needs rich x86 system capture"
  else none

def terminalHello : UInt8 := 0x1
def terminalData : UInt8 := 0x2
def terminalStartConfigured : UInt8 := 0x4
def terminalStartObserved : UInt8 := 0x8
def terminalStopConfigured : UInt8 := 0x10
def terminalStopObserved : UInt8 := 0x20
def terminalFlags : UInt8 :=
  terminalHello ||| terminalData ||| terminalStartConfigured ||| terminalStartObserved |||
    terminalStopConfigured ||| terminalStopObserved
def terminalReportVersion : UInt8 := 1
def maxRunDeadline : UInt8 := 1

def terminalReportDetail (reason flags : UInt8) : UInt64 :=
  terminalReportVersion.toUInt64 ||| (reason.toUInt64 <<< 8) ||| (flags.toUInt64 <<< 16)

def terminalFault (h : Header) : Option String :=
  let version := h.detail.toUInt8
  let reason := (h.detail >>> 8).toUInt8
  let flags := (h.detail >>> 16).toUInt8
  if h.version.toNat ≠ wireVersion ∨ h.source.toNat ≠ 0 ∨ h.count.toNat ≠ 0 ∨
      h.sequence.toNat ≠ 0 ∨ Has h.detail 0xffffffffff000000 then
    some "Invalid terminal report fields"
  else if version ≠ terminalReportVersion ∨ reason ≠ maxRunDeadline ∨
      flags &&& ~~~terminalFlags ≠ 0 ∨
      (flags &&& terminalData ≠ 0 ∧ flags &&& terminalHello = 0) ∨
      (flags &&& terminalStartObserved ≠ 0 ∧ flags &&& terminalStartConfigured = 0) ∨
      (flags &&& terminalStopObserved ≠ 0 ∧ flags &&& terminalStopConfigured = 0) then
    some "Unknown or inconsistent terminal report"
  else none

/-- The `switch` of `decode_header`: the error a header's fields raise for its kind. -/
def fieldFault (h : Header) : Option String :=
  let source := h.source.toNat
  let count := h.count.toNat
  let sequence := h.sequence.toNat
  let detail := h.detail.toNat
  match h.kind with
  | .mixed =>
    if count = 0 ∨ detail < 16 ∨ detail > maxPayloadBytes then some "Invalid mixed batch size"
    else none
  | .executableLayout =>
    if source ≠ 0 ∨ sequence ≠ 0 ∨ count ≠ 1 ∨ detail ≠ layoutBytes then
      some "Invalid executable layout fields"
    else none
  | .blockTransitions =>
    if count = 0 ∨ sequence = 0 ∨ detail > maxPayloadBytes ∨
        detail ≠ count*transitionCountBytes then
      some "Invalid block transition batch fields"
    else none
  | .transitionWindow =>
    if source ≠ 0 ∨ count ≠ 1 ∨ sequence = 0 ∨ detail ≠ transitionWindowBytes then
      some "Invalid transition window fields"
    else none
  | .contextFilter =>
    if h.version.toNat ≠ wireVersion ∨ source ≠ 0 ∨ count ≠ 1 ∨ sequence ≠ 0 ∨
        detail ≠ contextFilterBytes then
      some "Invalid context filter summary fields"
    else none
  | .observationSummary =>
    if count ≠ 1 ∨ sequence ≠ 0 ∨ detail ≠ observationSummaryBytes then
      some "Invalid reduced observation summary fields"
    else none
  | .reducedContext =>
    -- The one payload kind with no bound on `detail` besides its row count.
    if count = 0 ∨ detail ≠ count*reducedContextBytes then
      some "Invalid reduced context batch fields"
    else none
  | .kernelRequest =>
    if source ≠ 0 ∨ count ≠ 0 ∨ sequence ≠ 0 ∨ detail = 0 ∨ detail > 127 then
      some "Invalid kernel adapter frame fields"
    else none
  | .guestEvent =>
    if source ≠ 0 ∨ count ≠ 0 ∨ sequence ≠ 0 ∨ detail = 0 ∨ detail > 1024 then
      some "Invalid kernel adapter frame fields"
    else none
  | .blocks => if count = 0 ∨ detail ≠ 0 then some "Invalid block batch fields" else none
  | .inputRequest =>
    if source ≠ 0 ∨ count ≠ 0 ∨ detail = 0 ∨ detail > maxActionBytes then
      some "Invalid stdin request fields"
    else none
  | .sourceEnd => if count ≠ 0 ∨ detail ≠ 0 then some "Invalid source end fields" else none
  | .registerSchema =>
    if count = 0 ∨ detail > maxPayloadBytes ∨ detail = 0 then some "Invalid signal payload size"
    else if sequence ≠ 0 ∨ detail ≠ count*registerSchemaBytes then
      some "Invalid register schema size or sequence"
    else none
  | .registers =>
    if count = 0 ∨ detail > maxPayloadBytes ∨ detail = 0 then some "Invalid signal payload size"
    else if detail < count*17 then some "Register payload is too short"
    else none
  | .memory =>
    if count = 0 ∨ detail > maxPayloadBytes ∨ detail = 0 then some "Invalid signal payload size"
    else if detail ≠ count*24 ∧ detail ≠ count*40 ∧ detail ≠ count*48 ∧ detail ≠ count*64 then
      some "Invalid memory payload size"
    else none
  | .addressContext =>
    if count = 0 ∨ detail > maxPayloadBytes ∨ detail = 0 then some "Invalid signal payload size"
    else if count ≠ 1 ∨ detail ≠ contextBytes then some "Invalid address context size"
    else none
  | .hello =>
    if source ≠ 0 ∨ count ≠ 0 ∨ sequence ≠ 0 then some "Invalid control frame fields"
    else helloFault h.version h.detail
  | .complete =>
    if source ≠ 0 ∨ count ≠ 0 ∨ sequence ≠ 0 then some "Invalid control frame fields"
    else if detail > 255 then some "Invalid target exit code"
    else none
  | .error =>
    if source ≠ 0 ∨ count ≠ 0 ∨ sequence ≠ 0 then some "Invalid control frame fields"
    else if detail < 1 ∨ detail > 4 then some "Unknown trace failure"
    else none
  | .terminalReport => terminalFault h

/-- The checks of `decode_header` that follow the magic word. -/
def headerFault (h : Header) : Option String :=
  if h.version.toNat ≠ legacyWireVersion ∧ h.version.toNat ≠ wireVersion then
    some "Unsupported trace version"
  else if h.source.toNat ≥ maxSources ∨ h.count.toNat > maxAddresses then
    some "Trace exceeds the supported source or batch limit"
  else fieldFault h

def decodeHeader (bytes : Bytes) : Except String Header :=
  if bytes.length ≠ headerBytes then .error "Trace header must contain 32 bytes"
  else if load bytes 4 ≠ wireMagic then .error "Not a cpu2tensor trace"
  else
    let version := load (bytes.drop 4) 2
    let source := load (bytes.drop 8) 4
    let count := load (bytes.drop 12) 4
    if version ≠ legacyWireVersion ∧ version ≠ wireVersion then .error "Unsupported trace version"
    else if source ≥ maxSources ∨ count > maxAddresses then
      .error "Trace exceeds the supported source or batch limit"
    else
      match Kind.ofCode (load (bytes.drop 6) 2) with
      | none => .error "Unknown trace frame kind"
      | some kind =>
        let h : Header :=
          { kind
            source := UInt32.ofNat source
            count := UInt32.ofNat count
            sequence := UInt64.ofNat (load (bytes.drop 16) 8)
            detail := UInt64.ofNat (load (bytes.drop 24) 8)
            version := UInt16.ofNat version }
        match fieldFault h with
        | some message => .error message
        | none => .ok h

end Cpu2Tensor
