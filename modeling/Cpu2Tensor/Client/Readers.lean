import Cpu2Tensor.Client.Batch
import Cpu2Tensor.Client.Terminal

/-!
# Readers of several endpoints

`EndpointReaders`: one thread for each worker reads its pool and puts batches into the worker's
slot, and the consumer's iterator takes them out.  A move is one lock region, or one answer of a
worker's pool; any interleaving of moves is a run.
-/

namespace Cpu2Tensor.Client
open Library

variable {E : Type} {n : Nat}

/-- What a worker's pool does when its reader asks for the next batch. -/
inductive Turn (E : Type)
  | batch (b : Batch)
  | stop
  | raised (error : ReadError E)

/-- Where the thread of a worker is in `_receive`. -/
inductive Receiver (E : Type)
  | unstarted
  | reading
  | publishing (b : Batch)
  | failing (error : ReadError E)
  | closing
  | done

/-- What the iterator raises for a failed worker. -/
inductive GroupError
  | trace (cls : TerminalClass) (message : String) (outcome : TerminalOutcome)
  | runtime (message : String)
  deriving DecidableEq, Repr

/-- Where the iterator is in `_read`; `leaving` is before its `finally`, `left` behind it. -/
inductive Consumer
  | created
  | running
  | leaving (result : Except GroupError Unit)
  | left (result : Except GroupError Unit)

structure Group (E : Type) (n : Nat) where
  endpoints : Fin n → String
  text : E → String

/-- The shared state, the threads, and what the iterator has yielded so far. -/
structure EndpointReaders (E : Type) (n : Nat) where
  batches : Fin n → Option Batch := fun _ => none
  finished : Fin n → Bool := fun _ => false
  failure : Option (Fin n × ReadError E) := none
  closed : Bool := false
  threads : Fin n → Receiver E := fun _ => .unstarted
  consumer : Consumer := .created
  nextWorker : Nat := 0
  yielded : List Batch := []

/-- `next` is an answer of a worker's pool, `receive` the next lock region of a worker's thread,
`consume` that of the iterator, and `close` a call of `close` from outside. -/
inductive Move (E : Type) (n : Nat)
  | next (worker : Fin n) (turn : Turn E)
  | receive (worker : Fin n)
  | consume
  | close

namespace EndpointReaders

def ofWorker (worker : Fin n) (b : Batch) : Batch := { b with worker := worker.val }

/-- A terminal error under its worker's index and endpoint. -/
def failureOf (g : Group E n) (worker : Fin n) : ReadError E → ReadError E
  | .trace cls message outcome =>
    .trace cls message
      { outcome with
        worker := worker.val
        endpoint := g.endpoints worker }
  | .other error => .other error

def raisedFor (g : Group E n) (worker : Fin n) (error : ReadError E) : GroupError :=
  let message := "Worker " ++ toString worker.val ++ " (" ++ g.endpoints worker ++ ") failed: " ++
    error.message g.text
  match error with
  | .trace cls _ outcome => .trace cls message outcome
  | .other _ => .runtime message

def setThread (s : EndpointReaders E n) (worker : Fin n) (thread : Receiver E) :
    EndpointReaders E n :=
  { s with threads := Function.update s.threads worker thread }

def setBatch (s : EndpointReaders E n) (worker : Fin n) (b : Option Batch) : EndpointReaders E n :=
  { s with batches := Function.update s.batches worker b }

/-- The answer of the pool, outside of every lock. -/
def next (g : Group E n) (s : EndpointReaders E n) (worker : Fin n) (turn : Turn E) :
    Option (EndpointReaders E n) :=
  match s.threads worker, turn with
  | .reading, .batch b => some (s.setThread worker (.publishing (ofWorker worker b)))
  | .reading, .stop => some (s.setThread worker .closing)
  | .reading, .raised error => some (s.setThread worker (.failing (failureOf g worker error)))
  | _, _ => none

def publish (s : EndpointReaders E n) (worker : Fin n) (b : Batch) : Option (EndpointReaders E n) :=
  if s.closed then some (s.setThread worker .closing)
  else if s.batches worker = none then
    some ((s.setBatch worker (some b)).setThread worker .reading)
  else none

def recordFailure (s : EndpointReaders E n) (worker : Fin n) (error : ReadError E) :
    EndpointReaders E n :=
  { s.setThread worker .closing with
    failure := if s.closed = false ∧ s.failure = none then some (worker,error) else s.failure }

def markFinished (s : EndpointReaders E n) (worker : Fin n) : EndpointReaders E n :=
  { s.setThread worker .done with finished := Function.update s.finished worker true }

/-- The next lock region of a thread, when it need not wait. -/
def receive (s : EndpointReaders E n) (worker : Fin n) : Option (EndpointReaders E n) :=
  match s.threads worker with
  | .publishing b => s.publish worker b
  | .failing error => some (s.recordFailure worker error)
  | .closing => some (s.markFinished worker)
  | _ => none

def closeGroup (s : EndpointReaders E n) : EndpointReaders E n :=
  { s with closed := true, batches := fun _ => none }

/-- The workers from the next one on, in a circle. -/
def rotation (first : Nat) : List (Fin n) :=
  (List.finRange n).map fun offset =>
    ⟨(first+offset.val) % n,Nat.mod_lt _ (offset.pos)⟩

def leave (s : EndpointReaders E n) (result : Except GroupError Unit) : EndpointReaders E n :=
  { s with consumer := .leaving result }

def startThreads (s : EndpointReaders E n) : EndpointReaders E n :=
  { s with threads := fun _ => .reading, consumer := .running }

def start (s : EndpointReaders E n) : EndpointReaders E n :=
  if s.closed then s.leave (.error (.runtime "Pool was closed before reading started"))
  else s.startThreads

def waiting (s : EndpointReaders E n) : Option (Fin n × Batch) :=
  (rotation s.nextWorker).findSome? fun worker => (s.batches worker).map fun b => (worker,b)

def yieldBatch (s : EndpointReaders E n) (worker : Fin n) (b : Batch) : EndpointReaders E n :=
  { s.setBatch worker none with
    nextWorker := (worker.val+1) % n
    yielded := s.yielded ++ [b] }

/-- The lock region of the loop, when it need not wait: a recorded failure comes first. -/
def take (g : Group E n) (s : EndpointReaders E n) : Option (EndpointReaders E n) :=
  match s.failure with
  | some (worker,error) => some (s.leave (.error (raisedFor g worker error)))
  | none =>
    if s.closed then some (s.leave (.ok ()))
    else
      match s.waiting with
      | some (worker,b) => some (s.yieldBatch worker b)
      | none => if ∀ worker, s.finished worker then some (s.leave (.ok ())) else none

def exitGroup (s : EndpointReaders E n) (result : Except GroupError Unit) : EndpointReaders E n :=
  { s.closeGroup with consumer := .left result }

def consume (g : Group E n) (s : EndpointReaders E n) : Option (EndpointReaders E n) :=
  match s.consumer with
  | .created => some s.start
  | .running => s.take g
  | .leaving result => some (s.exitGroup result)
  | .left _ => none

def step (g : Group E n) (s : EndpointReaders E n) : Move E n → Option (EndpointReaders E n)
  | .next worker turn => s.next g worker turn
  | .receive worker => s.receive worker
  | .consume => s.consume g
  | .close => some s.closeGroup

def run (g : Group E n) (s : EndpointReaders E n) : List (Move E n) → Option (EndpointReaders E n)
  | [] => some s
  | move::moves => (s.step g move).bind fun s => run g s moves

def answer (worker : Fin n) : Move E n → List (Turn E)
  | .next other turn => if other = worker then [turn] else []
  | _ => []

def answers (worker : Fin n) (moves : List (Move E n)) : List (Turn E) :=
  moves.flatMap (answer worker)

def batchesOf (worker : Fin n) (turns : List (Turn E)) : List Batch :=
  turns.filterMap fun
    | .batch b => some (ofWorker worker b)
    | _ => none

def produced (worker : Fin n) (moves : List (Move E n)) : List Batch :=
  batchesOf worker (answers worker moves)

def yieldedBy (s : EndpointReaders E n) (worker : Fin n) : List Batch :=
  s.yielded.filter fun b => b.worker = worker.val

def Completed (turns : List (Turn E)) : Prop :=
  .stop ∈ turns ∧ ∀ error, .raised error ∉ turns

/-- A batch that a thread has and its slot has not. -/
def held : Receiver E → List Batch
  | .publishing b => [b]
  | _ => []

theorem answers_snoc (worker : Fin n) (moves : List (Move E n)) (move : Move E n) :
    answers worker (moves ++ [move]) = answers worker moves ++ answer worker move := by
  simp [answers]

theorem batchesOf_snoc (worker : Fin n) (turns : List (Turn E)) (turn : Turn E) :
    batchesOf worker (turns ++ [turn]) = batchesOf worker turns ++ batchesOf worker [turn] :=
  List.filterMap_append

/-- What the pool has answered, by where the thread is. -/
def Course (g : Group E n) (s : EndpointReaders E n) (worker : Fin n) (turns : List (Turn E)) : Prop :=
  match s.threads worker with
  | .unstarted | .reading => .stop ∉ turns ∧ ∀ error, .raised error ∉ turns
  | .publishing b => (.stop ∉ turns ∧ ∀ error, .raised error ∉ turns) ∧ b.worker = worker.val
  | .failing error => ∃ own, .raised own ∈ turns ∧ error = failureOf g worker own
  | .closing | .done => Completed turns ∨ s.failure ≠ none ∨ s.closed = true

/-- Nothing that a pool produced is lost or repeated on its way to the consumer. -/
structure Account (g : Group E n) (s : EndpointReaders E n) (worker : Fin n)
    (turns : List (Turn E)) : Prop where
  course : Course g s worker turns
  slot : ∀ b, s.batches worker = some b → b.worker = worker.val
  finished : s.finished worker = true → s.threads worker = .done
  conserves : s.closed = false → batchesOf worker turns =
    s.yieldedBy worker ++ (s.batches worker).toList ++ held (s.threads worker)
  taken : s.yieldedBy worker <+: batchesOf worker turns

structure Delivered (s : EndpointReaders E n) (worker : Fin n) (turns : List (Turn E)) : Prop where
  completed : Completed turns
  yielded : s.yieldedBy worker = batchesOf worker turns
  done : s.threads worker = .done

def EndedNormally (s : EndpointReaders E n) : Prop :=
  s.consumer = .leaving (.ok ()) ∨ s.consumer = .left (.ok ())

/-- The invariant of runs in which nobody else closes the group. -/
structure Tracks (g : Group E n) (past : List (Move E n)) (s : EndpointReaders E n) : Prop where
  fresh : s.consumer = .created → ∀ worker, s.threads worker = .unstarted
  accounts : ∀ worker, Account g s worker (answers worker past)
  failure : ∀ worker error, s.failure = some (worker,error) →
    ∃ own, .raised own ∈ answers worker past ∧ error = failureOf g worker own
  closed : s.closed = true → ∃ result, s.consumer = .left result
  ended : s.EndedNormally → ∀ worker, Delivered s worker (answers worker past)

variable {g : Group E n} {s after : EndpointReaders E n} {past : List (Move E n)}
  {worker other : Fin n} {turns : List (Turn E)}

/-- A worker's account reads only the worker's own part of the state, and the failure. -/
theorem Account.frame (h : Account g s worker turns)
    (hbatches : after.batches worker = s.batches worker)
    (hthreads : after.threads worker = s.threads worker)
    (hfinished : after.finished worker = s.finished worker)
    (hyielded : after.yieldedBy worker = s.yieldedBy worker)
    (hfailure : s.failure ≠ none → after.failure ≠ none) (hclosed : after.closed = s.closed) :
    Account g after worker turns := by
  constructor
  · have hcourse := h.course
    unfold Course at hcourse ⊢
    rw [hthreads,hclosed]
    cases hthread : s.threads worker
    case closing | done =>
      rw [hthread] at hcourse
      exact hcourse.imp_right fun hc => hc.imp_left hfailure
    all_goals
      rw [hthread] at hcourse
      exact hcourse
  · rw [hbatches]
    exact h.slot
  · rw [hfinished,hthreads]
    exact h.finished
  · rw [hclosed,hbatches,hthreads,hyielded]
    exact h.conserves
  · rw [hyielded]
    exact h.taken

theorem Delivered.frame (h : Delivered s worker turns)
    (hthreads : after.threads worker = s.threads worker)
    (hyielded : after.yielded = s.yielded) : Delivered after worker turns := by
  refine ⟨h.completed,?_,hthreads.trans h.done⟩
  rw [← h.yielded,yieldedBy,yieldedBy,hyielded]

/-- A move of one worker's thread changes the worker's part of the state, and at most records the
worker's failure. -/
structure Moves (g : Group E n) (past : List (Move E n)) (worker : Fin n)
    (s after : EndpointReaders E n) : Prop where
  consumer : after.consumer = s.consumer
  yielded : after.yielded = s.yielded
  closed : after.closed = s.closed
  batches : ∀ v, v ≠ worker → after.batches v = s.batches v
  threads : ∀ v, v ≠ worker → after.threads v = s.threads v
  finished : ∀ v, v ≠ worker → after.finished v = s.finished v
  failure : after.failure = s.failure ∨ s.failure = none ∧
    ∃ own, .raised own ∈ answers worker past ∧ after.failure = some (worker,failureOf g worker own)

theorem Moves.failure_kept (hm : Moves g past worker s after) (h : s.failure ≠ none) :
    after.failure ≠ none := by
  rcases hm.failure with hsame | ⟨hnone,_⟩
  · rwa [hsame]
  · exact absurd hnone h

variable {b : Batch} {move : Move E n} {result : Except GroupError Unit} {turn : Turn E}

theorem Moves.tracks (h : Tracks g past s) (hm : Moves g past worker s after)
    (hstarted : s.threads worker ≠ .unstarted) (hlive : s.threads worker ≠ .done)
    (hanswer : ∀ v, v ≠ worker → answer v move = [])
    (haccount : Account g after worker (answers worker (past ++ [move]))) :
    Tracks g (past ++ [move]) after := by
  constructor
  · intro hcreated
    exact absurd (h.fresh (hm.consumer.symm.trans hcreated) worker) hstarted
  · intro v
    by_cases hv : v = worker
    · subst hv
      exact haccount
    · rw [answers_snoc,hanswer v hv,List.append_nil]
      apply (h.accounts v).frame (hm.batches v hv) (hm.threads v hv) (hm.finished v hv) _
        hm.failure_kept hm.closed
      rw [yieldedBy,hm.yielded]
      rfl
  · intro v error hfailure
    rw [answers_snoc]
    rcases hm.failure with hsame | ⟨_,own,hown,hrecorded⟩
    · obtain ⟨own,hown,herror⟩ := h.failure v error (hsame.symm.trans hfailure)
      exact ⟨own,List.mem_append_left _ hown,herror⟩
    · obtain ⟨rfl,rfl⟩ := Prod.mk.inj (Option.some.inj (hrecorded.symm.trans hfailure))
      exact ⟨own,List.mem_append_left _ hown,rfl⟩
  · rw [hm.closed,hm.consumer]
    exact h.closed
  · intro hended
    have hbefore : s.EndedNormally := by
      unfold EndedNormally at hended ⊢
      rwa [hm.consumer] at hended
    exact absurd (h.ended hbefore worker).done hlive

theorem moves_setThread (thread : Receiver E) :
    Moves g past worker s (s.setThread worker thread) :=
  ⟨rfl,rfl,rfl,fun _ _ => rfl,fun _ hv => Function.update_of_ne hv _ _,fun _ _ => rfl,.inl rfl⟩

theorem Account.unfinished (h : Account g s worker turns) (hlive : s.threads worker ≠ .done) :
    s.finished worker = false := by
  by_contra hfinished
  exact hlive (h.finished (by simpa using hfinished))

/-- The pool of a reading thread answers: what it produced is what the thread then holds. -/
theorem Account.answered {thread : Receiver E} (h : Account g s worker turns)
    (hreading : s.threads worker = .reading) (hheld : held thread = batchesOf worker [turn])
    (hcourse : Course g (s.setThread worker thread) worker (turns ++ [turn])) :
    Account g (s.setThread worker thread) worker (turns ++ [turn]) := by
  have hunfinished := h.unfinished (by rw [hreading]; exact nofun)
  constructor
  · exact hcourse
  · exact h.slot
  · intro hfinished
    exact absurd hfinished (by simp [setThread,hunfinished])
  · intro hclosed
    have hconserves := h.conserves hclosed
    rw [hreading] at hconserves
    rw [batchesOf_snoc,hconserves,← hheld]
    simp [setThread,held,yieldedBy]
  · rw [batchesOf_snoc]
    exact h.taken.trans (List.prefix_append _ _)

theorem Tracks.next (h : Tracks g past s) (hs : s.next g worker turn = some after) :
    Tracks g (past ++ [.next worker turn]) after := by
  have hreading : s.threads worker = .reading := by
    unfold EndpointReaders.next at hs
    split at hs <;> simp_all
  have hcourse := (h.accounts worker).course
  unfold Course at hcourse
  unfold EndpointReaders.next at hs
  rw [hreading] at hs hcourse
  have hmoved : ∀ thread, held thread = batchesOf worker [turn] →
      Course g (s.setThread worker thread) worker (answers worker past ++ [turn]) →
      Tracks g (past ++ [.next worker turn]) (s.setThread worker thread) := by
    intro thread hheld hcourse
    apply (moves_setThread thread).tracks h
    · rw [hreading]
      exact nofun
    · rw [hreading]
      exact nofun
    · intro v hv
      exact if_neg (Ne.symm hv)
    · rw [answers_snoc,answer,if_pos rfl]
      exact (h.accounts worker).answered hreading hheld hcourse
  cases turn with
  | batch b =>
    obtain rfl := Option.some.inj hs
    apply hmoved _ rfl
    simp only [Course,setThread,Function.update_self]
    simp [hcourse.1,hcourse.2,ofWorker]
  | stop =>
    obtain rfl := Option.some.inj hs
    apply hmoved _ rfl
    simp only [Course,setThread,Function.update_self,Completed]
    simp [hcourse.2]
  | raised error =>
    obtain rfl := Option.some.inj hs
    apply hmoved _ rfl
    simp only [Course,setThread,Function.update_self]
    exact ⟨error,by simp,rfl⟩

theorem Account.published (h : Account g s worker turns)
    (hthread : s.threads worker = .publishing b) (hempty : s.batches worker = none) :
    Account g ((s.setBatch worker (some b)).setThread worker .reading) worker turns := by
  have hcourse := h.course
  unfold Course at hcourse
  rw [hthread] at hcourse
  have hunfinished := h.unfinished (by rw [hthread]; exact nofun)
  constructor
  · simp only [Course,setThread,Function.update_self]
    exact hcourse.1
  · intro published hpublished
    simp only [setThread,setBatch,Function.update_self,Option.some.injEq] at hpublished
    subst hpublished
    exact hcourse.2
  · intro hfinished
    exact absurd hfinished (by simp [setThread,setBatch,hunfinished])
  · intro hclosed
    rw [h.conserves hclosed,hthread,hempty]
    simp [setThread,setBatch,held,yieldedBy]
  · exact h.taken

theorem Account.ending (after : EndpointReaders E n) (thread : Receiver E)
    (h : Account g s worker turns)
    (hbatches : after.batches worker = s.batches worker) (hyielded : after.yielded = s.yielded)
    (hclosed : after.closed = s.closed) (hthread : after.threads worker = thread)
    (hcourse : Course g after worker turns)
    (hfinished : after.finished worker = true → thread = .done)
    (hheld : s.closed = false → held thread = held (s.threads worker)) :
    Account g after worker turns := by
  constructor
  · exact hcourse
  · rw [hbatches]
    exact h.slot
  · rw [hthread]
    exact hfinished
  · intro hopen
    rw [hclosed] at hopen
    rw [h.conserves hopen,hbatches,hthread,hheld hopen,yieldedBy,yieldedBy,hyielded]
  · rw [yieldedBy,hyielded]
    exact h.taken

private theorem answers_quiet (v : Fin n) (past : List (Move E n))
    (hquiet : ∀ v, answer v move = []) : answers v (past ++ [move]) = answers v past := by
  rw [answers_snoc,hquiet v,List.append_nil]

theorem Tracks.receive (h : Tracks g past s) (hs : s.receive worker = some after) :
    Tracks g (past ++ [.receive worker]) after := by
  have haccount := h.accounts worker
  have hcourse := haccount.course
  unfold Course at hcourse
  have hquiet : ∀ v, answer v (.receive worker : Move E n) = [] := fun _ => rfl
  have hmoved : Moves g past worker s after → s.threads worker ≠ .unstarted →
      s.threads worker ≠ .done → Account g after worker (answers worker past) →
      Tracks g (past ++ [.receive worker]) after := by
    intro hm hstarted hlive hown
    apply hm.tracks h hstarted hlive (fun v _ => hquiet v)
    rw [answers_quiet worker past hquiet]
    exact hown
  unfold EndpointReaders.receive at hs
  cases hthread : s.threads worker with
  | unstarted | reading | done =>
    rw [hthread] at hs
    cases hs
  | publishing b =>
    rw [hthread] at hs hcourse hmoved
    dsimp only [publish] at hs
    split_ifs at hs with hclosed hempty
    · obtain rfl := Option.some.inj hs
      apply hmoved (moves_setThread _) nofun nofun
      apply haccount.ending (s.setThread worker .closing) .closing rfl rfl rfl
        (Function.update_self _ _ _)
      · simp only [Course,setThread,Function.update_self]
        exact .inr (.inr hclosed)
      · intro hfinished
        exact absurd hfinished (by simp [setThread,haccount.unfinished (by rw [hthread]; exact nofun)])
      · intro hopen
        simp [hclosed] at hopen
    · obtain rfl := Option.some.inj hs
      apply hmoved _ nofun nofun (haccount.published hthread hempty)
      exact ⟨rfl,rfl,rfl,fun _ hv => Function.update_of_ne hv _ _,
        fun _ hv => Function.update_of_ne hv _ _,fun _ _ => rfl,.inl rfl⟩
  | failing error =>
    rw [hthread] at hs hcourse hmoved
    obtain rfl := Option.some.inj hs
    obtain ⟨own,hown,rfl⟩ := hcourse
    apply hmoved _ nofun nofun
    · apply haccount.ending (s.recordFailure worker (failureOf g worker own)) .closing rfl rfl rfl
        (Function.update_self _ _ _)
      · simp only [Course,recordFailure,setThread,Function.update_self]
        right
        split_ifs with hrecord
        · exact .inl nofun
        · by_cases hclosed : s.closed = true
          · exact .inr hclosed
          · exact .inl fun hnone => hrecord ⟨by simpa using hclosed,hnone⟩
      · intro hfinished
        exact absurd hfinished (by
          simp [recordFailure,setThread,haccount.unfinished (by rw [hthread]; exact nofun)])
      · intro _
        rw [hthread]
        rfl
    · refine ⟨rfl,rfl,rfl,fun _ _ => rfl,fun _ hv => Function.update_of_ne hv _ _,fun _ _ => rfl,?_⟩
      simp only [recordFailure]
      split_ifs with hrecord
      · exact .inr ⟨hrecord.2,own,hown,rfl⟩
      · exact .inl rfl
  | closing =>
    rw [hthread] at hs hcourse hmoved
    obtain rfl := Option.some.inj hs
    apply hmoved _ nofun nofun
    · apply haccount.ending (s.markFinished worker) .done rfl rfl rfl (Function.update_self _ _ _)
      · simp only [Course,markFinished,setThread,Function.update_self]
        exact hcourse
      · exact fun _ => rfl
      · intro _
        rw [hthread]
        rfl
    · exact ⟨rfl,rfl,rfl,fun _ _ => rfl,fun _ hv => Function.update_of_ne hv _ _,
        fun _ hv => Function.update_of_ne hv _ _,.inl rfl⟩

theorem mem_rotation (first : Nat) (worker : Fin n) : worker ∈ rotation first := by
  have hn : 0 < n := worker.pos
  have hfirst := Nat.mod_lt first hn
  have hlt := worker.isLt
  apply List.mem_map.mpr
  refine ⟨⟨(worker.val+(n-first % n)) % n,Nat.mod_lt _ hn⟩,List.mem_finRange _,?_⟩
  apply Fin.ext
  change (first+(worker.val+(n-first % n)) % n) % n = worker.val
  rw [Nat.add_mod_mod,← Nat.mod_add_mod,show first % n+(worker.val+(n-first % n)) = worker.val+n by omega,
    Nat.add_mod_right,Nat.mod_eq_of_lt hlt]

theorem waiting_eq_none (h : s.waiting = none) (worker : Fin n) : s.batches worker = none := by
  have hnone := List.findSome?_eq_none_iff.mp h worker (mem_rotation _ worker)
  exact Option.map_eq_none_iff.mp hnone

theorem waiting_eq_some (h : s.waiting = some (worker,b)) : s.batches worker = some b := by
  obtain ⟨w,_,hw⟩ := List.exists_of_findSome?_eq_some h
  obtain ⟨_,hb,heq⟩ := Option.map_eq_some_iff.mp hw
  obtain ⟨rfl,rfl⟩ := Prod.mk.inj heq
  exact hb

theorem Tracks.leave (h : Tracks g past s) (hopen : s.closed = false)
    (hended : result = .ok () → ∀ worker, Delivered s worker (answers worker past)) :
    Tracks g (past ++ [.consume]) (s.leave result) := by
  constructor
  · exact nofun
  · intro worker
    rw [answers_quiet worker past fun _ => rfl]
    exact (h.accounts worker).frame rfl rfl rfl rfl id rfl
  · intro worker error hfailure
    rw [answers_quiet worker past fun _ => rfl]
    exact h.failure worker error hfailure
  · intro hclosed
    exact absurd (hopen.symm.trans hclosed) nofun
  · intro hnormal worker
    have hresult : result = .ok () := by
      rcases hnormal with hnormal | hnormal
      · exact Consumer.leaving.inj hnormal
      · cases hnormal
    rw [answers_quiet worker past fun _ => rfl]
    exact (hended hresult worker).frame rfl rfl

theorem Account.yielded_own (h : Account g s worker turns) (hopen : s.closed = false)
    (hb : s.batches worker = some b) : Account g (s.yieldBatch worker b) worker turns := by
  have howner := h.slot b hb
  have hconserves := h.conserves hopen
  have hyielded : (s.yieldBatch worker b).yieldedBy worker = s.yieldedBy worker ++ [b] := by
    simp [yieldedBy,yieldBatch,howner]
  have hall : batchesOf worker turns = s.yieldedBy worker ++ [b] ++ held (s.threads worker) := by
    rw [hconserves,hb]
    rfl
  constructor
  · exact h.course
  · intro other hother
    simp [yieldBatch,setBatch] at hother
  · exact h.finished
  · intro _
    rw [hyielded,hall]
    simp [yieldBatch,setBatch]
  · rw [hyielded,hall]
    exact List.prefix_append _ _

theorem Account.yielded_other (h : Account g s worker turns) (hne : worker ≠ other)
    (hb : b.worker = other.val) : Account g (s.yieldBatch other b) worker turns := by
  have hother : ¬ b.worker = worker.val := by
    rw [hb]
    exact fun heq => hne (Fin.ext heq.symm)
  have hyielded : (s.yieldBatch other b).yieldedBy worker = s.yieldedBy worker := by
    simp [yieldedBy,yieldBatch,hother]
  exact h.frame (Function.update_of_ne hne _ _) rfl rfl hyielded id rfl

/-- When the loop finds nothing to yield and every thread has finished, everything was yielded. -/
theorem Tracks.delivered (h : Tracks g past s) (hopen : s.closed = false)
    (hfailure : s.failure = none) (hempty : s.waiting = none)
    (hfinished : s.finished worker = true) : Delivered s worker (answers worker past) := by
  have haccount := h.accounts worker
  have hdone := haccount.finished hfinished
  have hcourse := haccount.course
  unfold Course at hcourse
  rw [hdone] at hcourse
  refine ⟨?_,?_,hdone⟩
  · rcases hcourse with hcompleted | hfailed | hclosed
    · exact hcompleted
    · exact absurd hfailure hfailed
    · rw [hopen] at hclosed
      cases hclosed
  · rw [haccount.conserves hopen,waiting_eq_none hempty worker,hdone]
    simp [held]

theorem Tracks.take (h : Tracks g past s) (hrunning : s.consumer = .running)
    (hs : s.take g = some after) : Tracks g (past ++ [.consume]) after := by
  have hopen : s.closed = false := by
    by_contra hclosed
    obtain ⟨result,hleft⟩ := h.closed (by simpa using hclosed)
    rw [hrunning] at hleft
    cases hleft
  unfold EndpointReaders.take at hs
  cases hfailure : s.failure with
  | some failed =>
    rw [hfailure] at hs
    obtain rfl := Option.some.inj hs
    exact h.leave hopen fun hok => nomatch hok
  | none =>
    rw [hfailure] at hs
    dsimp only at hs
    rw [if_neg (by simp [hopen])] at hs
    cases hwaiting : s.waiting with
    | none =>
      rw [hwaiting] at hs
      dsimp only at hs
      split_ifs at hs with hall
      obtain rfl := Option.some.inj hs
      exact h.leave hopen fun _ worker => h.delivered hopen hfailure hwaiting (hall worker)
    | some entry =>
      obtain ⟨taken,b⟩ := entry
      rw [hwaiting] at hs
      obtain rfl := Option.some.inj hs
      have hb := waiting_eq_some hwaiting
      constructor
      · intro hcreated
        exact absurd (hrunning.symm.trans hcreated) nofun
      · intro worker
        rw [answers_quiet worker past fun _ => rfl]
        by_cases hw : worker = taken
        · subst hw
          exact (h.accounts worker).yielded_own hopen hb
        · exact (h.accounts worker).yielded_other hw ((h.accounts taken).slot b hb)
      · intro worker error hfailed
        exact absurd (hfailure.symm.trans hfailed) nofun
      · intro hclosed
        exact absurd (hopen.symm.trans hclosed) nofun
      · intro hended
        rcases hended with hended | hended
        · exact absurd (hrunning.symm.trans hended) nofun
        · exact absurd (hrunning.symm.trans hended) nofun

theorem Tracks.start (h : Tracks g past s) (hcreated : s.consumer = .created) :
    Tracks g (past ++ [.consume]) s.start := by
  have hopen : s.closed = false := by
    by_contra hclosed
    obtain ⟨result,hleft⟩ := h.closed (by simpa using hclosed)
    rw [hcreated] at hleft
    cases hleft
  have hunstarted := h.fresh hcreated
  rw [EndpointReaders.start,if_neg (by simp [hopen])]
  constructor
  · exact nofun
  · intro worker
    rw [answers_quiet worker past fun _ => rfl]
    have haccount := h.accounts worker
    have hcourse := haccount.course
    unfold Course at hcourse
    rw [hunstarted worker] at hcourse
    have hunfinished := haccount.unfinished (by rw [hunstarted worker]; exact nofun)
    apply haccount.ending s.startThreads .reading rfl rfl rfl rfl hcourse
    · intro hfinished
      exact absurd (hunfinished.symm.trans hfinished) nofun
    · intro _
      rw [hunstarted worker]
      rfl
  · intro worker error hfailure
    rw [answers_quiet worker past fun _ => rfl]
    exact h.failure worker error hfailure
  · intro hclosed
    exact absurd (hopen.symm.trans hclosed) nofun
  · intro hended
    rcases hended with hended | hended <;> cases hended

theorem Tracks.exitGroup (h : Tracks g past s) (hleaving : s.consumer = .leaving result) :
    Tracks g (past ++ [.consume]) (s.exitGroup result) := by
  constructor
  · intro hcreated
    cases hcreated
  · intro worker
    rw [answers_quiet worker past fun _ => rfl]
    have haccount := h.accounts worker
    constructor
    · have hcourse := haccount.course
      unfold Course at hcourse ⊢
      cases hthread : s.threads worker
      case closing | done =>
        simp only [EndpointReaders.exitGroup,closeGroup,hthread]
        exact .inr (.inr trivial)
      all_goals
        rw [hthread] at hcourse
        simp only [EndpointReaders.exitGroup,closeGroup,hthread]
        exact hcourse
    · intro b hb
      cases hb
    · exact haccount.finished
    · intro hopen
      cases hopen
    · exact haccount.taken
  · intro worker error hfailure
    rw [answers_quiet worker past fun _ => rfl]
    exact h.failure worker error hfailure
  · exact fun _ => ⟨result,rfl⟩
  · intro hended worker
    have hnormal : s.EndedNormally := by
      rcases hended with hended | hended
      · cases hended
      · exact .inl (hleaving.trans (congrArg Consumer.leaving (Consumer.left.inj hended)))
    rw [answers_quiet worker past fun _ => rfl]
    exact (h.ended hnormal worker).frame rfl rfl

theorem Tracks.step (h : Tracks g past s) (hclose : move ≠ .close)
    (hs : s.step g move = some after) : Tracks g (past ++ [move]) after := by
  cases move with
  | next worker turn => exact h.next hs
  | receive worker => exact h.receive hs
  | close => exact absurd rfl hclose
  | consume =>
    change s.consume g = some after at hs
    unfold EndpointReaders.consume at hs
    cases hconsumer : s.consumer with
    | created =>
      rw [hconsumer] at hs
      obtain rfl := Option.some.inj hs
      exact h.start hconsumer
    | running =>
      rw [hconsumer] at hs
      exact h.take hconsumer hs
    | leaving result =>
      rw [hconsumer] at hs
      obtain rfl := Option.some.inj hs
      exact h.exitGroup hconsumer
    | left result =>
      rw [hconsumer] at hs
      cases hs

theorem Tracks.run {moves : List (Move E n)} (h : Tracks g past s) (hclose : .close ∉ moves)
    (hs : s.run g moves = some after) : Tracks g (past ++ moves) after := by
  induction moves generalizing past s with
  | nil =>
    obtain rfl := Option.some.inj hs
    rwa [List.append_nil]
  | cons move moves ih =>
    obtain ⟨next,hstep,hrest⟩ := Option.bind_eq_some_iff.mp hs
    rw [List.mem_cons,not_or] at hclose
    have htracks := ih (h.step (Ne.symm hclose.1) hstep) hclose.2 hrest
    rwa [List.append_assoc] at htracks

theorem tracks_initial (g : Group E n) : Tracks g [] ({} : EndpointReaders E n) := by
  constructor
  · exact fun _ _ => rfl
  · intro worker
    refine ⟨⟨List.not_mem_nil,fun _ => List.not_mem_nil⟩,?_,?_,fun _ => rfl,List.nil_prefix⟩
    · intro b hb
      cases hb
    · intro hfinished
      cases hfinished
  · intro worker error hfailure
    cases hfailure
  · intro hclosed
    cases hclosed
  · intro hended
    rcases hended with hended | hended <;> cases hended

/-- What holds after any interleaving as long as nobody closes the group.  A running iterator is
suspended at a yield or waits for its condition, and `consume` is its next resumption. -/
structure Faithful (g : Group E n) (moves : List (Move E n)) (s : EndpointReaders E n) : Prop where
  inOrder : ∀ worker, s.yieldedBy worker <+: produced worker moves
  ended : s.EndedNormally → ∀ worker,
    Completed (answers worker moves) ∧ s.yieldedBy worker = produced worker moves
  recorded : ∀ worker error, .raised error ∈ answers worker moves → s.closed = false →
    (∃ error, s.threads worker = .failing error) ∨ s.failure ≠ none
  raises : ∀ worker error, s.failure = some (worker,error) →
    (∃ own, .raised own ∈ answers worker moves ∧ error = failureOf g worker own) ∧
      (s.consumer = .running →
        s.step g .consume = some (s.leave (.error (raisedFor g worker error))))
  waiting : s.closed = false → ∀ worker, ∃ slot inProgress : Option Batch,
    s.batches worker = slot ∧ held (s.threads worker) = inProgress.toList ∧
      produced worker moves = s.yieldedBy worker ++ slot.toList ++ inProgress.toList

theorem Account.recorded {error : ReadError E} (h : Account g s worker turns)
    (hraised : .raised error ∈ turns) (hopen : s.closed = false) :
    (∃ error, s.threads worker = .failing error) ∨ s.failure ≠ none := by
  have hcourse := h.course
  unfold Course at hcourse
  cases hthread : s.threads worker with
  | unstarted | reading =>
    rw [hthread] at hcourse
    exact absurd hraised (hcourse.2 error)
  | publishing b =>
    rw [hthread] at hcourse
    exact absurd hraised (hcourse.1.2 error)
  | failing own => exact .inl ⟨own,rfl⟩
  | closing | done =>
    rw [hthread] at hcourse
    rcases hcourse with hcompleted | hfailed | hclosed
    · exact absurd hraised (hcompleted.2 error)
    · exact .inr hfailed
    · exact absurd (hopen.symm.trans hclosed) nofun

theorem held_toList (thread : Receiver E) :
    ∃ inProgress : Option Batch, held thread = inProgress.toList := by
  cases thread with
  | publishing b => exact ⟨some b,rfl⟩
  | _ => exact ⟨none,rfl⟩

theorem readers_faithful (g : Group E n) (moves : List (Move E n)) (hclose : .close ∉ moves)
    (hs : ({} : EndpointReaders E n).run g moves = some s) : Faithful g moves s := by
  have h : Tracks g moves s := (tracks_initial g).run hclose hs
  constructor
  · intro worker
    exact (h.accounts worker).taken
  · intro hended worker
    have hdelivered := h.ended hended worker
    exact ⟨hdelivered.completed,hdelivered.yielded⟩
  · intro worker error hraised hopen
    exact (h.accounts worker).recorded hraised hopen
  · intro worker error hfailure
    refine ⟨h.failure worker error hfailure,fun hrunning => ?_⟩
    change s.consume g = _
    rw [consume,hrunning]
    change s.take g = _
    rw [EndpointReaders.take,hfailure]
  · intro hopen worker
    obtain ⟨inProgress,hheld⟩ := held_toList (s.threads worker)
    refine ⟨s.batches worker,inProgress,rfl,hheld,?_⟩
    rw [← hheld]
    exact (h.accounts worker).conserves hopen

/-- A batch of worker 1 waits when worker 0 fails behind its first batch. -/
def failingRun : List (Move Unit 2) :=
  [.consume,.next 0 (.batch { source := some 0, firstSequence := some 0, addresses := [7] }),
    .receive 0,.consume,.next 1 (.batch { source := some 0, firstSequence := some 0, addresses := [9] }),
    .receive 1,.next 0 (.raised (.other ())),.receive 0]

theorem readers_faithful_failing : ∃ s : EndpointReaders Unit 2,
    ({} : EndpointReaders Unit 2).run ⟨fun _ => "tcp://h:1",fun _ => "e"⟩ failingRun = some s ∧
      (s.batches 1).isSome ∧ (s.yieldedBy 0).length = 1 ∧
      s.step ⟨fun _ => "tcp://h:1",fun _ => "e"⟩ .consume = some (s.leave
        (.error (.runtime "Worker 0 (tcp://h:1) failed: e"))) := by
  refine ⟨_,rfl,rfl,rfl,?_⟩
  have hfaithful := readers_faithful ⟨fun _ => "tcp://h:1",fun _ => "e"⟩ failingRun
    (by simp [failingRun]) rfl
  exact (hfaithful.raises 0 (.other ()) rfl).2 rfl

end EndpointReaders
end Cpu2Tensor.Client
