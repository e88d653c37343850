import Cpu2Tensor.Library.History
import Cpu2Tensor.Plugin.CaptureBounds
import Cpu2Tensor.Window.Monitor

/-!
# One window of capture

The capture state along a run of the plugin, and which blocks and accesses of a vCPU it lets be
recorded.  Every fact is read off the log: who called what, and what the call answered.
-/

namespace Cpu2Tensor.Plugin
open Library

def CaptureState.rank : CaptureState → Nat
  | .waiting => 0 | .running => 1 | .stopped => 2

def captureNext (state : CaptureState) : MachineEvent → CaptureState
  | .did _ ⟨.swapCapture expected desired,_⟩ => if state = expected then desired else state
  | .did _ ⟨.storeCapture new,_⟩ => new
  | _ => state

def captureAfter (o : Options) (log : List MachineEvent) : CaptureState :=
  log.foldl captureNext o.initialCapture

@[simp] theorem captureAfter_snoc (o : Options) (log : List MachineEvent) (event : MachineEvent) :
    captureAfter o (log ++ [event]) = captureNext (captureAfter o log) event := by
  rw [captureAfter,List.foldl_append]
  rfl

namespace Shared

variable (o : Options) (index : Nat) (s : Shared)

@[simp] theorem publish_capture (frame : Option Frame) :
    (s.publish o index frame).capture = s.capture := by
  unfold publish
  split
  · rfl
  · split <;> rfl

@[simp] theorem publish_window (frame : Option Frame) :
    (s.publish o index frame).window = s.window := by
  unfold publish
  split
  · rfl
  · split <;> rfl

@[simp] theorem append_capture (kind : Kind) (row : Bytes) :
    (s.append o index kind row).2.capture = s.capture := by
  unfold append
  split
  split
  · exact s.publish_capture o index _
  · exact s.publish_capture o index _

@[simp] theorem append_window (kind : Kind) (row : Bytes) :
    (s.append o index kind row).2.window = s.window := by
  unfold append
  split
  split
  · exact s.publish_window o index _
  · exact s.publish_window o index _

theorem onWindow_snd (call : WindowM Unit) :
    (s.onWindow call).2 = { s with window := stateAfter call s.window } := by
  unfold onWindow stateAfter
  cases call s.window with
  | ok a w => rfl
  | error fault w => cases fault <;> rfl

end Shared

/-- What a call answers about the capture state and the reducer's window. -/
def Answers (state : CaptureState) : Sigma Answer → Prop
  | ⟨.loadCapture,found⟩ => found = state
  | ⟨.swapCapture _ _,found⟩ => found = state
  | ⟨.admitBlock,admission⟩ => admission.included = true
  | _ => True

theorem observe_state (w : TransitionWindow) (source address : Nat) (admission : BlockAdmission) :
    (stateAfter (TransitionWindow.observe source address admission) w).state = w.state := by
  by_cases hsource : source ≥ w.sourceCount
  · rw [stateAfter,TransitionWindow.observe,get_bind,refuse_bind hsource]
  · by_cases hadmitted : w.Admitted admission
    · rw [stateAfter,TransitionWindow.observe_admitted hadmitted (Nat.lt_of_not_le hsource),
        onWindowSource]
      cases WindowSource.observe w.capacity w.window address (w.sources source) <;> rfl
    · rw [TransitionWindow.observe_refused hadmitted]

section Perform

variable {o : Options} {index : Nat} {call : Call} {answer : Answer call} {s s' : Shared}

theorem perform_capture (h : perform o index call s = some (answer,s')) (i : Nat) :
    s'.capture = captureNext s.capture (.did i ⟨call,answer⟩) := by
  cases call with
  | swapCapture expected desired =>
    cases h
    simp only [captureNext]
    split <;> rfl
  | waitForFrames =>
    simp only [perform] at h
    split at h
    · cases h
      rfl
    · cases h
  | append kind row =>
    have hs : s' = (s.append o index kind row).2 := (congrArg Prod.snd (Option.some.inj h)).symm
    rw [hs]
    exact s.append_capture o index kind row
  | flush =>
    cases h
    exact s.publish_capture o index _
  | beginWindow | endWindow | abortWindow | observeBlock =>
    have hs : s' = _ := (congrArg Prod.snd (Option.some.inj h)).symm
    rw [hs,Shared.onWindow_snd]
    rfl
  | swapLatch expected desired =>
    cases h
    split <;> rfl
  | _ =>
    cases h
    rfl

/-- Calls that leave the state of the reducer's window alone. -/
def Call.keepsWindow : Call → Bool
  | .beginWindow | .endWindow | .abortWindow => false
  | _ => true

theorem perform_window (h : perform o index call s = some (answer,s'))
    (hcall : call.keepsWindow = true) : s'.window.state = s.window.state := by
  cases call with
  | beginWindow | endWindow | abortWindow => cases hcall
  | swapCapture | swapLatch =>
    cases h
    split <;> rfl
  | waitForFrames =>
    simp only [perform] at h
    split at h
    · cases h
      rfl
    · cases h
  | append kind row =>
    have hs : s' = (s.append o index kind row).2 := (congrArg Prod.snd (Option.some.inj h)).symm
    rw [hs,s.append_window o index kind row]
  | flush =>
    cases h
    exact congrArg TransitionWindow.state (s.publish_window o index _)
  | observeBlock address admission =>
    have hs : s' = _ := (congrArg Prod.snd (Option.some.inj h)).symm
    rw [hs,Shared.onWindow_snd]
    exact observe_state _ _ _ _
  | _ =>
    cases h
    rfl

theorem perform_answers (h : perform o index call s = some (answer,s'))
    (hwindow : call = .admitBlock → s.window.state = .recording) :
    Answers s.capture ⟨call,answer⟩ := by
  cases call with
  | loadCapture | swapCapture =>
    cases h
    rfl
  | admitBlock =>
    cases h
    simp [Answers,TransitionWindow.admitBlock,hwindow rfl]
  | _ => trivial

end Perform

/-- What every event of a log has to do with the events before it. -/
def Legit (o : Options) (before : List MachineEvent) : MachineEvent → Prop
  | .enter i _ => (account i before).current = none
  | .did i entry => Answers (captureAfter o before) entry ∧
      ∃ call trail, (account i before).current = some (call,trail) ∧
        Asks o (account i before).past call trail entry.1
  | .leave i => ∃ call trail, (account i before).current = some (call,trail) ∧ Ends o call trail
  | .quit _ _ => True

/-- The shared state is the one the log tells, and continuous reduction keeps its window open. -/
structure Logged (o : Options) (p : Machine) : Prop where
  capture : p.shared.capture = captureAfter o p.log
  window : o.reduceTransitions = true → p.shared.window.state = .recording
  legit : History (Legit o) p.log

/-- The calls that a callback may make, by what they do to the capture. -/
inductive Asked (o : Options) (past : List (Entry × Trail)) : Entry → Trail → Call → Prop
  | passive {entry trail call} (h : call.passive) : Asked o past entry trail call
  | start {cpu pc trail} (hstart : o.startPc = some pc) (h : Unloaded trail) :
    Asked o past (.block cpu pc) trail (.swapCapture .waiting .running)
  | stop {cpu pc trail} (hstop : o.stopPc = some pc) :
    Asked o past (.block cpu pc) trail (.swapCapture .running .stopped)
  | admission {cpu pc trail} (hreduce : o.reduceTransitions = true) :
    Asked o past (.block cpu pc) trail .admitBlock
  | observe {cpu pc trail} (admission : BlockAdmission) (h : Loaded .running trail) :
    Asked o past (.block cpu pc) trail (.observeBlock pc admission)
  | block {cpu pc trail} (h : Loaded .running trail) :
    Asked o past (.block cpu pc) trail (.append .blocks (store pc.toNat 8))
  | memory {cpu info address pc trail} (row : Bytes) (hlast : LastRecorded past)
      (h : o.stopPc.isSome = true → Loaded .running trail) :
    Asked o past (.memory cpu info address pc) trail (.append .memory row)

variable {entry : Entry} {o : Options} {past : List (Entry × Trail)} {trail : Trail}

theorem Asks.asked {call : Call} (h : Asks o past entry trail call) :
    Asked o past entry trail call := by
  cases entry with
  | block cpu pc =>
    cases call with
    | swapCapture expected desired =>
      cases expected <;> cases desired <;> first | exact .start h.1 h.2 | exact .stop h | cases h
    | loadCapture => exact .passive (.inr rfl)
    | admitBlock => exact .admission h
    | observeBlock address admission =>
      obtain ⟨rfl,hloaded⟩ := h
      exact .observe admission hloaded
    | append kind row =>
      cases kind with
      | blocks =>
        obtain ⟨rfl,hloaded⟩ := h
        exact .block hloaded
      | _ => exact .passive (.inl h)
    | _ => exact .passive (.inl h)
  | memory cpu info address pc =>
    cases call with
    | append kind row =>
      cases kind with
      | memory => exact .memory row h.1 h.2
      | _ => exact .passive h
    | _ => exact .passive h
  | _ => exact .passive h

theorem Asks.keepsWindow {call : Call} (h : Asks o past entry trail call) :
    call.keepsWindow = true := by
  cases h.asked with
  | passive hpassive => cases call <;> first | rfl | rcases hpassive with h | h <;> cases h
  | _ => rfl

theorem Asks.admits (h : Asks o past entry trail .admitBlock) : o.reduceTransitions = true := by
  cases h.asked with
  | passive hpassive => rcases hpassive with h | h <;> cases h
  | admission hreduce => exact hreduce

section Run

variable {c : Config} {hwindow : c.anyWindow = false} {hfilters : c.filters = false}

theorem logged_step {p t : Machine} (h : Logged c.toOptions p)
    (hthreads : ∀ i, (boundsContract c hwindow hfilters).Holds i (account i p.log) (p.threads i))
    (hs : Pool.Stepped (workload c.toOptions) p t) : Logged c.toOptions t := by
  cases hs with
  | enter i call l hidle =>
    have hi := hthreads i
    rw [hidle] at hi
    exact ⟨by rw [captureAfter_snoc]; exact h.capture,h.window,
      history_snoc.mpr ⟨h.legit,hi.1⟩⟩
  | did i call next answer shared hbusy hperform =>
    have hi := hthreads i
    rw [hbusy] at hi
    obtain ⟨entry,trail,hcurrent,hasks⟩ := hi.request
    have hasks : Asks c.toOptions (account i p.log).past entry trail call := hasks
    have hperform : perform c.toOptions i call p.shared = some (answer,shared) := hperform
    refine ⟨?_,?_,?_⟩
    · rw [captureAfter_snoc,← h.capture]
      exact perform_capture hperform i
    · intro hreduce
      exact (perform_window hperform hasks.keepsWindow).trans (h.window hreduce)
    · refine history_snoc.mpr ⟨h.legit,?_,entry,trail,hcurrent,hasks⟩
      rw [← h.capture]
      refine perform_answers hperform ?_
      intro hadmit
      subst hadmit
      exact h.window hasks.admits
  | leave i l hbusy =>
    have hi := hthreads i
    rw [hbusy] at hi
    obtain ⟨entry,trail,hcurrent,hready⟩ := hi
    refine ⟨by rw [captureAfter_snoc]; exact h.capture,h.window,
      history_snoc.mpr ⟨h.legit,entry,trail,hcurrent,?_⟩⟩
    exact hready.1 (entry,trail) (List.mem_append_right _ List.mem_cons_self)
  | quit i reason hbusy =>
    exact ⟨by rw [captureAfter_snoc]; exact h.capture,h.window,
      history_snoc.mpr ⟨h.legit,trivial⟩⟩
  | background b shared hback =>
    have hsame : shared.capture = p.shared.capture ∧ shared.window = p.shared.window := by
      have hback : background b p.shared = some shared := hback
      cases b with
      | collect index =>
        simp only [background] at hback
        split at hback
        · cases hback
        · cases hback
          exact ⟨rfl,rfl⟩
      | access index =>
        cases hback
        exact ⟨rfl,rfl⟩
    exact ⟨hsame.1.trans h.capture,fun hreduce => hsame.2 ▸ h.window hreduce,h.legit⟩

theorem run_logged (c : Config) (hwindow : c.anyWindow = false) (hfilters : c.filters = false)
    {steps : List (Step Entry Background)} {p : Machine}
    (h : Machine.run c.toOptions steps = some p) : Logged c.toOptions p := by
  have hinitial : Logged c.toOptions (installed c.toOptions) := by
    refine ⟨rfl,?_,history_nil⟩
    intro hreduce
    have hobservations : c.reduceObservations = true := by
      simp [Options.reduceObservations,hreduce,hwindow]
    simp [installed,Options.initialWindow,hreduce,hobservations]
  have hidle : ∀ i, (boundsContract c hwindow hfilters).Holds i
      (account i (installed c.toOptions).log) ((installed c.toOptions).threads i) :=
    fun i => ⟨rfl,fun call hcall => (by cases hcall),fun hrecording => by cases hrecording⟩
  have hrun := (boundsContract c hwindow hfilters).run_induct (I := Logged c.toOptions)
    (fun p t hp hthreads hs => logged_step hp hthreads hs) hinitial hidle h
  exact hrun.1

end Run

end Cpu2Tensor.Plugin
