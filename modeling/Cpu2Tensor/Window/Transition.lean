import Cpu2Tensor.Library.BoundedCounter
import Cpu2Tensor.Library.Checked
import Cpu2Tensor.Library.Probing
import Cpu2Tensor.Wire.Header

/-!
# The transition reducer

`TransitionWindow`: one open-addressed table of block transitions for each source, reused by
window after window without being cleared.  The operations are atomic here; the source stops its
producers before it closes a window.
-/

namespace Cpu2Tensor
open Library

inductive WindowStatus
  | none | ended | aborted | incomplete
  deriving DecidableEq, Repr

inductive WindowState
  | idle | opening | recording | ended | aborted
  deriving DecidableEq, Repr

structure TransitionCount where
  fromAddress : Nat := 0
  destination : Nat := 0
  count : Nat := 0
  deriving DecidableEq, Repr

structure BlockAdmission where
  window : Nat := 0
  included : Bool := false
  deriving DecidableEq, Repr

structure WindowSummary where
  id : Nat := 0
  status : WindowStatus := .none
  sources : Nat := 0
  capacityPerSource : Nat := 0
  distinct : Nat := 0
  observed : Nat := 0
  overflow : Nat := 0
  deriving DecidableEq, Repr

structure TransitionSourceSummary where
  distinct : Nat := 0
  observed : Nat := 0
  overflow : Nat := 0
  deriving DecidableEq, Repr

structure WindowSlot where
  window : Nat := 0
  fromAddress : Nat := 0
  destination : Nat := 0
  count : Nat := 0
  deriving DecidableEq, Repr

structure WindowSource where
  slots : Nat → WindowSlot := fun _ => {}
  indices : Nat → Nat := fun _ => 0
  window : Nat := 0
  previous : Nat := 0
  observed : Nat := 0
  overflow : Nat := 0
  distinct : Nat := 0
  hasPrevious : Bool := false

structure TransitionWindow where
  sources : Nat → WindowSource := fun _ => {}
  sourceCount : Nat := 0
  capacity : Nat := 0
  state : WindowState := .idle
  window : Nat := 0

abbrev WindowM := Checked TransitionWindow

def TransitionWindow.configure (sources capacity : Nat) : Except String TransitionWindow :=
  if sources = 0 ∨ capacity < 2 ∨ capacity &&& (capacity-1) ≠ 0 ∨
      sources*capacity > maxTransitionSlots then
    .error "Transition capacity must be a power of two and fit the fixed total bound"
  else .ok { sourceCount := sources, capacity }

/-- `begin` on a configured window.  The identifier wraps before the overflow is reported. -/
def TransitionWindow.begin : WindowM Unit := do
  let w ← get
  refuse (w.state ≠ .idle) "Transition window begin arrived before the previous window closed"
  set { w with window := (w.window+1) % 2^64 }
  refuse (w.window = uint64Max) "Transition window identifier overflow"
  modify fun w => { w with state := .recording }

def TransitionWindow.end : WindowM Unit := do
  let w ← get
  refuse (w.state ≠ .recording) "Transition window end arrived without an open window"
  set { w with state := .ended }

def TransitionWindow.abort : WindowM Unit := do
  let w ← get
  refuse (w.state ≠ .recording) "Transition window abort arrived without an open window"
  set { w with state := .aborted }

def TransitionWindow.admitBlock (w : TransitionWindow) : BlockAdmission :=
  if w.state ≠ .recording then {} else ⟨w.window,true⟩

def TransitionWindow.open (w : TransitionWindow) : Bool :=
  w.state = .opening ∨ w.state = .recording

def windowHash (source destination : Nat) : UInt64 :=
  let value := UInt64.ofNat source ^^^ (UInt64.ofNat destination + 0x9e3779b97f4a7c15)
  let value := value ^^^ (value >>> 30)
  let value := value * 0xbf58476d1ce4e5b9
  let value := value ^^^ (value >>> 27)
  let value := value * 0x94d049bb133111eb
  value ^^^ (value >>> 31)

def slotHome (capacity : Nat) (pair : Nat × Nat) : Nat :=
  (windowHash pair.1 pair.2).toUInt32.toNat &&& (capacity-1)

def WindowSource.reset (source : WindowSource) (window : Nat) : WindowSource :=
  { source with
    window
    previous := 0
    observed := 0
    overflow := 0
    distinct := 0
    hasPrevious := false }

/-- The probe loop of `observe`: at most `capacity` slots. -/
def WindowSource.find (capacity window : Nat) (source : WindowSource) (pair : Nat × Nat) : Probe :=
  probe (fun slot => (source.slots slot).window == window)
    (fun slot => (source.slots slot).fromAddress == pair.1 &&
      (source.slots slot).destination == pair.2)
    (fun slot => (slot+1) &&& (capacity-1)) capacity (slotHome capacity pair)

def WindowSource.count (capacity window : Nat) (pair : Nat × Nat) :
    Checked WindowSource Unit := do
  let source ← get
  match source.find capacity window pair with
  | .vacant slot =>
    refuse (source.distinct = capacity) "Transition index capacity is inconsistent"
    set { source with
      slots := Function.update source.slots slot ⟨window,pair.1,pair.2,1⟩
      indices := Function.update source.indices source.distinct slot
      distinct := source.distinct+1 }
  | .found slot =>
    refuse ((source.slots slot).count = uint64Max) "Transition count overflow"
    set { source with
      slots := Function.update source.slots slot
        { source.slots slot with count := (source.slots slot).count+1 } }
  | .exhausted =>
    refuse (source.overflow = uint64Max) "Transition overflow count overflow"
    set { source with overflow := source.overflow+1 }

def WindowSource.observe (capacity window address : Nat) : Checked WindowSource Unit := do
  modify fun source => if source.window ≠ window then source.reset window else source
  let source ← get
  if source.hasPrevious = false then
    set { source with previous := address, hasPrevious := true }
  else
    refuse (source.observed = uint64Max) "Transition execution count overflow"
    set { source with observed := source.observed+1, previous := address }
    WindowSource.count capacity window (source.previous,address)

def onWindowSource {α : Type} (index : Nat) (step : Checked WindowSource α) : WindowM α := fun w =>
  match step (w.sources index) with
  | .ok a source => .ok a { w with sources := Function.update w.sources index source }
  | .error fault source => .error fault { w with sources := Function.update w.sources index source }

def TransitionWindow.observe (index address : Nat) (admission : BlockAdmission) :
    WindowM Unit := do
  let w ← get
  refuse (index ≥ w.sourceCount) "Transition source is outside the configured range"
  whenever (admission.included = true) (do
    refuse (admission.window = 0 ∨ w.window ≠ admission.window)
      "Transition admission belongs to another window"
    onWindowSource index (WindowSource.observe w.capacity admission.window address))

def addTotals (window : Nat) (source : WindowSource) (summary : WindowSummary) :
    Except String WindowSummary :=
  if source.window ≠ window then .ok summary
  else if summary.distinct > uint64Max - source.distinct ∨
      summary.observed > uint64Max - source.observed ∨
      summary.overflow > uint64Max - source.overflow then
    .error "Transition window totals overflow"
  else .ok { summary with
    distinct := summary.distinct + source.distinct
    observed := summary.observed + source.observed
    overflow := summary.overflow + source.overflow }

def WindowState.status : WindowState → WindowStatus
  | .ended => .ended
  | .aborted => .aborted
  | _ => .incomplete

def TransitionWindow.totals (w : TransitionWindow) : Except String WindowSummary :=
  (List.range w.sourceCount).foldlM (fun summary index =>
    addTotals w.window (w.sources index) summary)
    { id := w.window, status := w.state.status, sources := w.sourceCount,
      capacityPerSource := w.capacity }

def TransitionWindow.close : WindowM WindowSummary := do
  let w ← get
  set { w with state := .idle }
  if w.state = .idle then return {}
  else
    match w.totals with
    | .error message => throw (.failure message)
    | .ok summary => return summary

def TransitionWindow.rowCount (w : TransitionWindow) (index window : Nat) : Nat :=
  if index ≥ w.sourceCount ∨ (w.sources index).window ≠ window then 0
  else (w.sources index).distinct

def TransitionWindow.row (w : TransitionWindow) (index window row : Nat) : TransitionCount :=
  if index ≥ w.sourceCount then {}
  else
    let source := w.sources index
    if source.window ≠ window ∨ row ≥ source.distinct then {}
    else
      let slot := source.slots (source.indices row)
      ⟨slot.fromAddress,slot.destination,slot.count⟩

def TransitionWindow.sourceSummary (w : TransitionWindow) (index window : Nat) :
    TransitionSourceSummary :=
  if index ≥ w.sourceCount ∨ (w.sources index).window ≠ window then {}
  else ⟨(w.sources index).distinct,(w.sources index).observed,(w.sources index).overflow⟩

def TransitionWindow.rows (w : TransitionWindow) (index window : Nat) : List TransitionCount :=
  (List.range (w.rowCount index window)).map (w.row index window)

end Cpu2Tensor
