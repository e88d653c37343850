import Cpu2Tensor.Stream.Accept

/-!
# The interactive clients

The state of `StdioEnv` and the calls that start a run, send an action or give a run up.
`KernelEnv` differs from it in the actions it lets through.
-/

namespace Cpu2Tensor
open Library

/-- What a call of the client raises, with the class of the exception. -/
inductive ClientError
  | runtime (message : String)
  | value (message : String)
  | timeout (message : String)
  | connection (message : String)
  | assertion
  | key (key : Nat)
  | type (message : String)
  deriving DecidableEq, Repr

/-- The fields of `StdioEnv`; a connection is known by the number of its connect, and the name is
that of the subclass. -/
structure StdioEnv where
  className : String := "StdioEnv"
  connection : Option Nat := none
  stream : Stream := {}
  reading : Bool := false
  closed : Bool := false
  run : Nat := 0
  needsInput : Bool := false
  maxActionBytes : Nat := 0
  exitCode : Option Nat := none

namespace StdioEnv

/-- Give the current run up.  The caller shuts the old connection down. -/
def cancelRun (e : StdioEnv) : StdioEnv :=
  { e with
    run := e.run+1
    connection := none
    reading := false
    needsInput := false
    maxActionBytes := 0 }

/-- The checks of `step` and the state and the bytes with which it calls `sendall`. -/
def step (e : StdioEnv) (action : Bytes) : Except ClientError (StdioEnv × Bytes) :=
  if e.closed then .error (.runtime (e.className ++ " is closed"))
  else if e.reading then .error (.runtime "Consume all observations before taking an action")
  else if e.needsInput = false ∨ e.connection = none then
    .error (.runtime "The target is not waiting for input; call reset first")
  else if action.length < 1 ∨ e.maxActionBytes < action.length then
    .error (.value ("Action must contain 1 to " ++ toString e.maxActionBytes ++ " bytes"))
  else
    .ok ({ e with needsInput := false, maxActionBytes := 0 },store action.length 4 ++ action)

theorem step_eq_ok {e : StdioEnv} {action : Bytes} {result : StdioEnv × Bytes} :
    e.step action = .ok result ↔
      (e.closed = false ∧ e.reading = false ∧ e.needsInput = true ∧ e.connection ≠ none ∧
        1 ≤ action.length ∧ action.length ≤ e.maxActionBytes) ∧
      result = ({ e with needsInput := false, maxActionBytes := 0 },
        store action.length 4 ++ action) := by
  unfold step
  split_ifs with hclosed hreading hneeds hlength
  · simp [hclosed]
  · simp [hreading]
  · grind
  · grind
  · have hready : e.needsInput = true ∧ e.connection ≠ none := by simpa using hneeds
    have hbounds : 1 ≤ action.length ∧ action.length ≤ e.maxActionBytes := by omega
    constructor
    · intro h
      exact ⟨⟨by simpa using hclosed,by simpa using hreading,hready.1,hready.2,hbounds⟩,
        (Except.ok.inj h).symm⟩
    · rintro ⟨_,rfl⟩
      rfl

end StdioEnv

/-- `KernelEnv.step`: one printable line. -/
def KernelEnv.step (e : StdioEnv) (action : Bytes) : Except ClientError (StdioEnv × Bytes) :=
  if action.getLast? ≠ some 10 ∨ action.count 10 ≠ 1 ∨
      action.dropLast.any fun byte => byte < 32 ∨ byte > 126 then
    .error (.value "Kernel actions need one printable ASCII command and a newline")
  else e.step action

end Cpu2Tensor
