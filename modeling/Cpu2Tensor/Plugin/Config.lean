import Cpu2Tensor.Wire.Codec
import Cpu2Tensor.Window.Transition

/-!
# Configuration of the capture plugin

`qemu_plugin_install`: the options that its argument loop leaves behind, what it refuses, and what
it derives from them.
-/

namespace Cpu2Tensor.Plugin
open Library

inductive Architecture
  | aarch64 | x8664
  deriving DecidableEq, Repr

def Architecture.code : Architecture → UInt64
  | .aarch64 => 1 | .x8664 => 2

inductive RegisterProfile
  | none | general | all | selected
  deriving DecidableEq, Repr

inductive ContextFilterPolicy
  | drop | keep
  deriving DecidableEq, Repr

inductive CaptureState
  | waiting | running | stopped
  deriving DecidableEq, Repr

/-- The globals after the argument loop, and what the host offers: the vCPU counts of QEMU, the
two optional hooks, and whether the descriptors are pipe ends of the right direction. -/
structure Options where
  architecture : Architecture
  captureSystem : Bool := false
  outputFd : Option Nat := none
  controlFd : Option Nat := none
  registerProfile : RegisterProfile := .general
  selectedRegisters : Bytes := []
  requestedContext : Bool := false
  captureMemory : Bool := true
  captureValues : Bool := false
  captureStdio : Bool := false
  captureKernel : Bool := false
  captureLayout : Bool := false
  captureBlocks : Bool := true
  mixedBatches : Bool := false
  ringPublication : Bool := false
  startPc : Option UInt64 := none
  stopPc : Option UInt64 := none
  richContextStartPc : Option UInt64 := none
  contextFilterPolicy : Option ContextFilterPolicy := none
  windowStartPc : Option UInt64 := none
  windowEndPc : Option UInt64 := none
  windowAbortPc : Option UInt64 := none
  reduceTransitions : Bool := false
  transitionCapacity : Nat := 4096
  smpVcpus : Int := 1
  maxVcpus : Int := 1
  stateHook : Bool := false
  memoryConditionHook : Bool := false
  tracePipe : Bool := true
  controlPipe : Bool := true

namespace Options

variable (o : Options)

def anyWindow : Bool := o.windowStartPc.isSome || o.windowEndPc.isSome || o.windowAbortPc.isSome

def reduceObservations : Bool := o.reduceTransitions && !o.anyWindow

def filters : Bool := o.richContextStartPc.isSome

def policy : ContextFilterPolicy := o.contextFilterPolicy.getD .drop

def captureContext : Bool :=
  o.captureSystem && o.architecture == .x8664 &&
    (o.requestedContext || o.captureMemory || o.registerProfile != .none)

def systemCpus : Nat :=
  if o.captureKernel || o.reduceObservations then o.smpVcpus.toNat else 0

/-- The text with which `qemu_plugin_install` refuses, empty where it prints none. -/
def installFault : Option String :=
  if o.transitionCapacity < 2 ∨ o.transitionCapacity > 65536 ∨
      o.transitionCapacity &&& (o.transitionCapacity-1) ≠ 0 then some ""
  else if o.outputFd = none ∨ (o.captureValues ∧ ¬o.captureMemory) then
    some "cpu2tensor: fd is required, and memory values require memory capture\n"
  else if o.captureLayout ∧ o.captureSystem then
    some "cpu2tensor: executable layout is only available for user-mode targets\n"
  else if o.stopPc ≠ none ∧
      (o.captureStdio ∨ o.captureKernel ∨ (o.startPc ≠ none ∧ o.startPc = o.stopPc)) then
    some "cpu2tensor: stop requires observation-only capture and distinct start/stop addresses\n"
  else if (o.captureSystem ∧ o.captureStdio) ∨ (o.captureKernel ∧ ¬o.captureSystem) ∨
      o.captureKernel ≠ o.controlFd.isSome then
    some "cpu2tensor: kernel interaction requires system emulation and its control pipe\n"
  else if o.anyWindow ∧ (o.windowStartPc = none ∨ o.windowEndPc = none ∨ o.windowAbortPc = none ∨
      ¬o.captureKernel ∨ o.windowStartPc = o.windowEndPc ∨ o.windowStartPc = o.windowAbortPc ∨
      o.windowEndPc = o.windowAbortPc) then
    some "cpu2tensor: action windows need three distinct markers and kernel interaction\n"
  else if (o.anyWindow ∧ ¬o.reduceTransitions) ∨ (¬o.captureBlocks ∧ ¬o.reduceTransitions) then
    some "cpu2tensor: disabled block rows need transition reduction\n"
  else if o.reduceObservations ∧ (¬o.captureSystem ∨ o.captureKernel ∨ o.captureBlocks ∨
      o.captureMemory ∨ o.registerProfile ≠ .none ∨ ¬o.requestedContext ∨ o.mixedBatches) then
    some ("cpu2tensor: observation reduction needs context-only system capture, blocks=off, " ++
      "and legacy batching\n")
  else if (o.captureKernel ∨ o.reduceObservations) ∧
      (o.smpVcpus < 1 ∨ o.smpVcpus > maxSources ∨ o.smpVcpus ≠ o.maxVcpus) then
    some "cpu2tensor: kernel capture needs a fixed vCPU count without hotplug slots\n"
  else if (o.captureKernel ∨ o.reduceObservations) ∧ o.reduceTransitions ∧
      o.systemCpus*o.transitionCapacity > maxTransitionSlots then
    some "Transition capacity must be a power of two and fit the fixed total bound\n"
  else if o.requestedContext ∧ (¬o.captureSystem ∨ o.architecture ≠ .x8664) then
    some "cpu2tensor: context=on requires x86 system emulation\n"
  else if o.contextFilterPolicy ≠ none ∧ ¬o.filters then
    some "cpu2tensor: rich context policy needs a rich context start block\n"
  else if o.filters ∧ (¬o.captureContext ∨ o.captureKernel ∨ o.startPc ≠ none ∨ o.stopPc ≠ none ∨
      o.anyWindow ∨ (¬o.captureMemory ∧ o.registerProfile = .none)) then
    some "cpu2tensor: rich context filtering needs observation-only rich x86 system capture\n"
  else if o.captureContext ∧ ¬o.stateHook ∧ o.registerProfile ≠ .none then
    some ("cpu2tensor: exact x86 system registers require the optional x86-state-v1 QEMU hook; " ++
      "see docs/qemu-state-hook.md, or select registers=none\n")
  else if o.controlFd ≠ none ∧ ¬o.controlPipe then some ""
  else if ¬o.tracePipe then some "cpu2tensor: trace fd must be a blocking pipe write end\n"
  else if o.filters ∧ o.captureMemory ∧ ¬o.memoryConditionHook then
    some ("cpu2tensor: rich context memory filtering requires the optional " ++
      "memory-condition-v1 QEMU hook; see docs/qemu-memory-condition.md\n")
  else none

def features : UInt64 :=
  let when (p : Bool) (flag : UInt64) : UInt64 := if p then flag else 0
  o.architecture.code ||| (when o.captureMemory featureMemory |||
    when (o.registerProfile != .none) featureRegisters |||
    when o.captureValues featureMemoryValues ||| when o.captureStdio featureStdio |||
    when o.captureSystem featureSystem ||| when o.captureKernel featureKernel |||
    when o.startPc.isSome featureWindow ||| when o.captureContext featureAddressContext |||
    when (o.captureContext && o.captureMemory) featureSystemMemory |||
    when o.captureLayout featureExecutableLayout ||| when o.mixedBatches featureMixed |||
    when o.stopPc.isSome featureStop ||| when o.anyWindow featureTransitionWindows |||
    when o.filters featureContextFilter |||
    when o.reduceObservations featureObservationReduction)

def initialCapture : CaptureState :=
  if o.startPc.isSome || o.filters then .waiting else .running

/-- The reducer after installation: continuous reduction opens its one window there. -/
def initialWindow : TransitionWindow :=
  if o.reduceTransitions then
    let configured : TransitionWindow :=
      { sourceCount := o.systemCpus, capacity := o.transitionCapacity }
    if o.reduceObservations then { configured with window := 1, state := .recording }
    else configured
  else {}

end Options

/-- A configuration that `qemu_plugin_install` accepts. -/
structure Config extends Options where
  accepted : toOptions.installFault = none

namespace Config

variable (c : Config)

theorem start_ne_stop {pc : UInt64} (hstart : c.startPc = some pc) : c.stopPc ≠ some pc := by
  intro hstop
  have h := c.accepted
  simp only [Options.installFault,check_eq_none] at h
  exact h.2.2.2.1 ⟨by simp [hstop],.inr (.inr ⟨by simp [hstart],hstart.trans hstop.symm⟩)⟩

theorem blocks_or_transitions : c.captureBlocks = true ∨ c.reduceTransitions = true := by
  have h := c.accepted
  simp only [Options.installFault,check_eq_none] at h
  by_contra hneither
  rw [not_or] at hneither
  exact h.2.2.2.2.2.2.1 (.inr hneither)

end Config

end Cpu2Tensor.Plugin
