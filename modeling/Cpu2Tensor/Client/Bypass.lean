import Cpu2Tensor.Client.Readers
import Mathlib

/-!
# Bounded bypass

Once a worker's batch waits in its slot, the consumer takes fewer than `n` batches of other workers
before it.
-/

namespace Cpu2Tensor.Client.EndpointReaders
open Library

variable {E : Type} {n : Nat} {g : Group E n}

/-- How far a scan from `first` goes before it reaches a worker. -/
def ahead (first : Nat) (worker : Fin n) : Nat := (worker.val + (n - first % n)) % n

theorem ahead_lt (first : Nat) (worker : Fin n) : ahead first worker < n :=
  Nat.mod_lt _ worker.pos

theorem ahead_reaches (first : Nat) (worker : Fin n) :
    (first + ahead first worker) % n = worker.val := by
  have hlt : first % n < n := Nat.mod_lt _ worker.pos
  rw [ahead,Nat.add_mod,Nat.mod_mod,← Nat.add_mod,← Nat.mod_add_mod]
  rw [show first % n + (worker.val + (n - first % n)) = worker.val + n by omega,
    Nat.add_mod_right,Nat.mod_eq_of_lt worker.isLt]

theorem ahead_unique {first k : Nat} {worker : Fin n} (hk : k < n)
    (h : (first + k) % n = worker.val) :
    ahead first worker = k := by
  have hmod : first + ahead first worker ≡ first + k [MOD n] :=
    (ahead_reaches first worker).trans h.symm
  have hsame := Nat.ModEq.add_left_cancel' first hmod
  rwa [Nat.ModEq,Nat.mod_eq_of_lt (ahead_lt first worker),Nat.mod_eq_of_lt hk] at hsame

private theorem rotation_get (first : Nat) {o : Nat} (ho : o < n) :
    (rotation first : List (Fin n))[o]? = some ⟨(first+o) % n,Nat.mod_lt _ (by omega)⟩ := by
  simp [rotation,ho]

private theorem waiting_offset {s : EndpointReaders E n} {worker : Fin n} {b : Batch}
    (h : s.waiting = some (worker,b)) :
    ∃ o < n, (s.nextWorker+o) % n = worker.val ∧
      ∀ other : Fin n, ahead s.nextWorker other < o → s.batches other = none := by
  obtain ⟨before,served,behind,hsplit,hserved,hempty⟩ := List.findSome?_eq_some_iff.mp h
  obtain ⟨_,_,heq⟩ := Option.map_eq_some_iff.mp hserved
  obtain rfl : served = worker := congrArg Prod.fst heq
  have ho : before.length < n := by
    have hlen := congrArg List.length hsplit
    simp only [rotation,List.length_map,List.length_finRange,List.length_append,
      List.length_cons] at hlen
    omega
  refine ⟨before.length,ho,?_,fun other hother => ?_⟩
  · have hget := rotation_get (n := n) s.nextWorker ho
    rw [hsplit,List.getElem?_append_right le_rfl,Nat.sub_self,List.getElem?_cons_zero] at hget
    exact (congrArg Fin.val (Option.some.inj hget)).symm
  · have hget := rotation_get s.nextWorker (ahead_lt s.nextWorker other)
    rw [hsplit,List.getElem?_append_left hother] at hget
    have hmem := List.mem_of_getElem? hget
    have hsame : (⟨(s.nextWorker+ahead s.nextWorker other) % n,
        Nat.mod_lt _ other.pos⟩ : Fin n) = other := Fin.ext (ahead_reaches _ _)
    rw [hsame] at hmem
    exact Option.map_eq_none_iff.mp (hempty other hmem)

private theorem ahead_served {s : EndpointReaders E n} {worker other : Fin n} {b waited : Batch}
    (h : s.waiting = some (other,b)) (hslot : s.batches worker = some waited)
    (hne : other ≠ worker) :
    ahead ((other.val+1) % n) worker + 1 ≤ ahead s.nextWorker worker := by
  obtain ⟨o,ho,hserved,hempty⟩ := waiting_offset h
  have hreach := ahead_reaches s.nextWorker worker
  have hlt := ahead_lt s.nextWorker worker
  have hle : o ≤ ahead s.nextWorker worker := by
    by_contra hgt
    rw [hempty worker (by omega)] at hslot
    cases hslot
  have hless : o < ahead s.nextWorker worker := by
    apply lt_of_le_of_ne hle
    rintro rfl
    exact hne (Fin.ext (hserved.symm.trans hreach))
  have hnext : ahead ((other.val+1) % n) worker = ahead s.nextWorker worker - (o+1) := by
    apply ahead_unique (by omega)
    rw [Nat.mod_add_mod,← hserved,Nat.add_assoc,Nat.mod_add_mod]
    rw [show s.nextWorker + o + (1 + (ahead s.nextWorker worker - (o+1))) =
      s.nextWorker + ahead s.nextWorker worker by omega]
    exact hreach
  omega

/-- The slots, the scan and the batches yielded, before and after one move. -/
inductive Stepped (s t : EndpointReaders E n) : Prop
  | kept (batches : t.batches = s.batches) (closed : t.closed = s.closed)
      (scan : t.nextWorker = s.nextWorker) (yielded : t.yielded = s.yielded)
      (threads : ∀ worker b, t.threads worker = .publishing b →
        s.threads worker = .publishing b ∨ b.worker = worker.val)
  | published (worker : Fin n) (b : Batch) (thread : s.threads worker = .publishing b)
      (empty : s.batches worker = none)
      (batches : t.batches = Function.update s.batches worker (some b))
      (closed : t.closed = s.closed) (scan : t.nextWorker = s.nextWorker)
      (yielded : t.yielded = s.yielded)
      (threads : ∀ worker b, t.threads worker = .publishing b → s.threads worker = .publishing b)
  | served (worker : Fin n) (b : Batch) (isOpen : s.closed = false)
      (waiting : s.waiting = some (worker,b))
      (batches : t.batches = Function.update s.batches worker none) (closed : t.closed = s.closed)
      (scan : t.nextWorker = (worker.val+1) % n) (yielded : t.yielded = s.yielded ++ [b])
      (threads : t.threads = s.threads)
  | emptied (batches : t.batches = fun _ => none) (closed : t.closed = true)
      (yielded : t.yielded = s.yielded) (threads : t.threads = s.threads)

section Steps

variable {s t : EndpointReaders E n}

private theorem publishing_setThread {worker other : Fin n} {thread : Receiver E} {b : Batch}
    (h : (s.setThread worker thread).threads other = .publishing b) :
    s.threads other = .publishing b ∨ other = worker ∧ thread = .publishing b := by
  by_cases ho : other = worker
  · subst ho
    simp only [setThread,Function.update_self] at h
    exact .inr ⟨rfl,h⟩
  · simp only [setThread,Function.update_of_ne ho] at h
    exact .inl h

private theorem stepped_setThread (worker : Fin n) {thread : Receiver E}
    (hthread : ∀ b, thread = .publishing b → b.worker = worker.val) :
    Stepped s (s.setThread worker thread) := by
  refine .kept rfl rfl rfl rfl fun other b hb => ?_
  rcases publishing_setThread hb with hold | ⟨rfl,hnew⟩
  · exact .inl hold
  · exact .inr (hthread b hnew)

private theorem stepped_next {worker : Fin n} {turn : Turn E}
    (hs : s.next g worker turn = some t) :
    Stepped s t := by
  unfold EndpointReaders.next at hs
  split at hs
  · obtain rfl := Option.some.inj hs
    refine stepped_setThread worker fun b hb => ?_
    cases hb
    rfl
  · obtain rfl := Option.some.inj hs
    exact stepped_setThread worker fun b hb => nomatch hb
  · obtain rfl := Option.some.inj hs
    exact stepped_setThread worker fun b hb => nomatch hb
  · cases hs

private theorem stepped_receive {worker : Fin n} (hs : s.receive worker = some t) : Stepped s t := by
  unfold receive at hs
  split at hs
  · rename_i b hthread
    unfold publish at hs
    split_ifs at hs with hclosed hempty
    · obtain rfl := Option.some.inj hs
      exact stepped_setThread worker fun b hb => nomatch hb
    · obtain rfl := Option.some.inj hs
      refine .published worker b hthread hempty rfl rfl rfl rfl fun other b hb => ?_
      rcases publishing_setThread hb with hb | ⟨_,hb⟩
      · exact hb
      · cases hb
  · obtain rfl := Option.some.inj hs
    refine .kept rfl rfl rfl rfl fun other b hb => ?_
    rcases publishing_setThread hb with hb | ⟨_,hb⟩
    · exact .inl hb
    · cases hb
  · obtain rfl := Option.some.inj hs
    refine .kept rfl rfl rfl rfl fun other b hb => ?_
    rcases publishing_setThread hb with hb | ⟨_,hb⟩
    · exact .inl hb
    · cases hb
  · cases hs

private theorem stepped_leave (result : Except GroupError Unit) : Stepped s (s.leave result) :=
  .kept rfl rfl rfl rfl fun _ _ hb => .inl hb

private theorem stepped_take (hs : s.take g = some t) : Stepped s t := by
  unfold EndpointReaders.take at hs
  split at hs
  · obtain rfl := Option.some.inj hs
    exact stepped_leave _
  · by_cases hclosed : s.closed = true
    · rw [if_pos hclosed] at hs
      obtain rfl := Option.some.inj hs
      exact stepped_leave _
    · rw [if_neg hclosed] at hs
      split at hs
      · rename_i worker b hwaiting
        obtain rfl := Option.some.inj hs
        exact .served worker b (by simpa using hclosed) hwaiting rfl rfl rfl rfl rfl
      · split_ifs at hs
        obtain rfl := Option.some.inj hs
        exact stepped_leave _

private theorem stepped_consume (hs : s.consume g = some t) : Stepped s t := by
  unfold EndpointReaders.consume at hs
  split at hs
  · obtain rfl := Option.some.inj hs
    unfold EndpointReaders.start
    split_ifs
    · exact stepped_leave _
    · exact .kept rfl rfl rfl rfl fun _ _ hb => nomatch hb
  · exact stepped_take hs
  · obtain rfl := Option.some.inj hs
    exact .emptied rfl rfl rfl rfl
  · cases hs

theorem stepped_of_step {move : Move E n} (hs : s.step g move = some t) : Stepped s t := by
  cases move with
  | next worker turn => exact stepped_next hs
  | receive worker => exact stepped_receive hs
  | consume => exact stepped_consume hs
  | close =>
    obtain rfl := Option.some.inj hs
    exact .emptied rfl rfl rfl rfl

end Steps

/-- The batches on their way to the consumer carry the index of the worker they come from. -/
structure Labelled (s : EndpointReaders E n) : Prop where
  slots : ∀ worker b, s.batches worker = some b → b.worker = worker.val
  threads : ∀ worker b, s.threads worker = .publishing b → b.worker = worker.val

theorem labelled_initial : Labelled ({} : EndpointReaders E n) where
  slots _ _ h := nomatch h
  threads _ _ h := nomatch h

theorem Labelled.step {s t : EndpointReaders E n} (h : Labelled s) (hs : Stepped s t) : Labelled t := by
  cases hs with
  | kept batches closed scan yielded threads =>
    refine ⟨batches ▸ h.slots,fun worker b hb => ?_⟩
    exact (threads worker b hb).elim (h.threads worker b) id
  | published worker b thread empty batches closed scan yielded threads =>
    refine ⟨fun other c hc => ?_,fun other c hc => h.threads other c (threads other c hc)⟩
    rw [batches] at hc
    by_cases ho : other = worker
    · subst ho
      rw [Function.update_self] at hc
      obtain rfl := Option.some.inj hc
      exact h.threads other b thread
    · rw [Function.update_of_ne ho] at hc
      exact h.slots other c hc
  | served worker b isOpen waiting batches closed scan yielded threads =>
    refine ⟨fun other c hc => ?_,threads ▸ h.threads⟩
    rw [batches] at hc
    by_cases ho : other = worker
    · subst ho
      rw [Function.update_self] at hc
      cases hc
    · rw [Function.update_of_ne ho] at hc
      exact h.slots other c hc
  | emptied batches closed yielded threads =>
    refine ⟨fun other c hc => ?_,threads ▸ h.threads⟩
    rw [batches] at hc
    cases hc

/-- What the iterator has yielded since the batch `b` of `worker` was waiting: at most `n-1` batches
of others, until `b` itself. -/
structure Bypassed (worker : Fin n) (b : Batch) (t : EndpointReaders E n) (later : List Batch) :
    Prop where
  labelled : Labelled t
  taken : (∃ before behind, later = before ++ b::behind ∧ before.length < n ∧
      ∀ other ∈ before, other.worker ≠ worker.val) ∨
    (later.length < n ∧ (∀ other ∈ later, other.worker ≠ worker.val) ∧
      (t.closed = false → t.batches worker = some b ∧
        later.length + ahead t.nextWorker worker < n))

theorem Bypassed.step {worker : Fin n} {b : Batch} {s t : EndpointReaders E n}
    {past later : List Batch} (h : Bypassed worker b s later) (hpast : s.yielded = past ++ later)
    (hs : Stepped s t) : ∃ later, t.yielded = past ++ later ∧ Bypassed worker b t later := by
  have hlabelled := h.labelled.step hs
  rcases h.taken with ⟨before,behind,rfl,hlen,hothers⟩ | ⟨hlen,hothers,hwaits⟩
  · -- what is yielded behind the batch does not matter
    obtain ⟨more,hmore⟩ : ∃ more, t.yielded = s.yielded ++ more := by
      cases hs with
      | served other c isOpen waiting batches closed scan yielded threads => exact ⟨[c],yielded⟩
      | kept _ _ _ yielded _ => exact ⟨[],by simpa using yielded⟩
      | published _ _ _ _ _ _ _ yielded _ => exact ⟨[],by simpa using yielded⟩
      | emptied _ _ yielded _ => exact ⟨[],by simpa using yielded⟩
    refine ⟨before ++ b::(behind ++ more),by rw [hmore,hpast]; simp,hlabelled,.inl ?_⟩
    exact ⟨before,behind ++ more,rfl,hlen,hothers⟩
  · cases hs with
    | kept batches closed scan yielded threads =>
      refine ⟨later,yielded.trans hpast,hlabelled,.inr ⟨hlen,hothers,?_⟩⟩
      rw [batches,closed,scan]
      exact hwaits
    | published other c thread empty batches closed scan yielded threads =>
      refine ⟨later,yielded.trans hpast,hlabelled,.inr ⟨hlen,hothers,fun hopen => ?_⟩⟩
      obtain ⟨hslot,hnear⟩ := hwaits (closed ▸ hopen)
      have hne : worker ≠ other := by
        rintro rfl
        rw [empty] at hslot
        cases hslot
      rw [batches,scan,Function.update_of_ne hne]
      exact ⟨hslot,hnear⟩
    | served other c isOpen waiting batches closed scan yielded threads =>
      obtain ⟨hslot,hnear⟩ := hwaits isOpen
      by_cases hne : other = worker
      · subst hne
        obtain rfl := Option.some.inj ((waiting_eq_some waiting).symm.trans hslot)
        refine ⟨later ++ [c],by rw [yielded,hpast,List.append_assoc],hlabelled,.inl ?_⟩
        exact ⟨later,[],rfl,hlen,hothers⟩
      · have hfalls := ahead_served waiting hslot hne
        have hlabel := h.labelled.slots other c (waiting_eq_some waiting)
        refine ⟨later ++ [c],by rw [yielded,hpast,List.append_assoc],hlabelled,.inr ⟨?_,?_,?_⟩⟩
        · rw [List.length_append,List.length_singleton]
          omega
        · intro x hx
          rcases List.mem_append.mp hx with hx | hx
          · exact hothers x hx
          · rw [List.mem_singleton.mp hx,hlabel]
            exact fun heq => hne (Fin.ext heq)
        · intro _
          rw [batches,scan,Function.update_of_ne (Ne.symm hne),List.length_append,
            List.length_singleton]
          exact ⟨hslot,by omega⟩
    | emptied batches closed yielded threads =>
      refine ⟨later,yielded.trans hpast,hlabelled,.inr ⟨hlen,hothers,fun hopen => ?_⟩⟩
      rw [closed] at hopen
      cases hopen

private theorem run_cons {s t : EndpointReaders E n} {move : Move E n} {moves : List (Move E n)}
    (h : s.run g (move::moves) = some t) :
    ∃ middle, s.step g move = some middle ∧ middle.run g moves = some t :=
  Option.bind_eq_some_iff.mp h

theorem Labelled.run {s t : EndpointReaders E n} {moves : List (Move E n)} (h : Labelled s)
    (hr : s.run g moves = some t) : Labelled t := by
  induction moves generalizing s with
  | nil =>
    obtain rfl := Option.some.inj hr
    exact h
  | cons move moves ih =>
    obtain ⟨middle,hstep,hrest⟩ := run_cons hr
    exact ih (h.step (stepped_of_step hstep)) hrest

theorem Bypassed.run {worker : Fin n} {b : Batch} {s t : EndpointReaders E n}
    {past later : List Batch} {moves : List (Move E n)} (h : Bypassed worker b s later)
    (hpast : s.yielded = past ++ later) (hr : s.run g moves = some t) :
    ∃ later, t.yielded = past ++ later ∧ Bypassed worker b t later := by
  induction moves generalizing s later with
  | nil =>
    obtain rfl := Option.some.inj hr
    exact ⟨later,hpast,h⟩
  | cons move moves ih =>
    obtain ⟨middle,hstep,hrest⟩ := run_cons hr
    obtain ⟨later,hyielded,hnext⟩ := h.step hpast (stepped_of_step hstep)
    exact ih hnext hyielded hrest

/-- In every run, from the moment a worker's batch waits in its slot: fewer than `n` batches of
other workers are taken before it, it is the worker's next batch, and until it is taken or the
group is closed it stays in its slot. -/
theorem bypass_bounded (g : Group E n) (past moves : List (Move E n))
    (s t : EndpointReaders E n) (worker : Fin n) (b : Batch)
    (hpast : ({} : EndpointReaders E n).run g past = some s) (hslot : s.batches worker = some b)
    (hmoves : s.run g moves = some t) :
    ∃ later, t.yielded = s.yielded ++ later ∧
      (later.takeWhile fun other => other.worker ≠ worker.val).length ≤ n-1 ∧
      (∀ own, later.find? (fun other => other.worker = worker.val) = some own → own = b) ∧
      ((∀ other ∈ later, other.worker ≠ worker.val) → t.closed = false →
        t.batches worker = some b) := by
  have hlabelled : Labelled s := labelled_initial.run hpast
  have hlt := worker.isLt
  have hstart : Bypassed worker b s [] :=
    ⟨hlabelled,.inr ⟨by simp; omega,by simp,fun _ => ⟨hslot,by simpa using ahead_lt _ _⟩⟩⟩
  obtain ⟨later,hyielded,hbypassed⟩ := hstart.run (List.append_nil _).symm hmoves
  refine ⟨later,hyielded,?_⟩
  rcases hbypassed.taken with ⟨before,behind,rfl,hlen,hothers⟩ | ⟨hlen,hothers,hwaits⟩
  · have hown : b.worker = worker.val := hlabelled.slots worker b hslot
    refine ⟨?_,?_,fun hnone => absurd hown (hnone b (by simp))⟩
    · rw [List.takeWhile_append_of_pos (by simpa using hothers),List.takeWhile_cons_of_neg
        (by simp [hown]),List.append_nil]
      omega
    · intro own hfind
      have hnone : before.find? (fun other => other.worker = worker.val) = none := by
        simpa using hothers
      rw [List.find?_append,hnone,Option.none_or,List.find?_cons_of_pos (by simp [hown])] at hfind
      exact (Option.some.inj hfind).symm
  · refine ⟨?_,?_,fun _ hopen => (hwaits hopen).1⟩
    · exact (List.takeWhile_sublist _).length_le.trans (by omega)
    · intro own hfind
      have hmem := List.mem_of_find?_eq_some hfind
      have hworker := List.find?_some hfind
      simp only [decide_eq_true_eq] at hworker
      exact absurd hworker (hothers own hmem)

private def firstWorker : Fin 2 := ⟨0,Nat.zero_lt_two⟩

private def secondWorker : Fin 2 := ⟨1,Nat.one_lt_two⟩

/-- Both slots are full. -/
def fullSlots : List (Move Unit 2) :=
  [.consume,
    .next firstWorker (.batch { source := some 0, firstSequence := some 0, addresses := [7] }),
    .next secondWorker (.batch { source := some 0, firstSequence := some 0, addresses := [9] }),
    .receive firstWorker,.receive secondWorker]

/-- Worker 0 fills its slot again as soon as it is served, and worker 1 comes next. -/
theorem bypass_bounded_refilled : ∃ (s t : EndpointReaders Unit 2) (later : List Batch),
    ({} : EndpointReaders Unit 2).run ⟨fun _ => "tcp://h:1",fun _ => "e"⟩ fullSlots = some s ∧
      s.run ⟨fun _ => "tcp://h:1",fun _ => "e"⟩ [.consume,
        .next 0 (.batch { source := some 0, firstSequence := some 1, addresses := [8] }),
        .receive 0,.consume] = some t ∧
      t.yielded = s.yielded ++ later ∧ later.map Batch.addresses = [[7],[9]] ∧
      (later.takeWhile fun other => other.worker ≠ 1).length ≤ 1 := by
  obtain ⟨later,hyielded,hbound,_⟩ := bypass_bounded ⟨fun _ => "tcp://h:1",fun _ => "e"⟩ fullSlots
    [.consume,.next 0 (.batch { source := some 0, firstSequence := some 1, addresses := [8] }),
      .receive 0,.consume] _ _ 1 _ rfl rfl rfl
  exact ⟨_,_,later,rfl,rfl,hyielded,congrArg (List.map Batch.addresses) hyielded.symm,hbound⟩

end Cpu2Tensor.Client.EndpointReaders
