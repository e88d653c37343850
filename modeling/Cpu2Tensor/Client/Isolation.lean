import Cpu2Tensor.Client.Iterators
import Cpu2Tensor.Client.Sessions

/-!
# Iterators of cancelled runs

A call on an iterator of a cancelled run changes nothing but the iterator, at most one iterator of
the current run is not finished, and an action is sent only right after the request it answers.
-/

namespace Cpu2Tensor.Client.Episodes
open Library

variable {V : Type} {world : World V}

def IsRequest (variant : Variant) (frame : Bytes) : Prop :=
  ∃ h, frameHeader frame = .ok h ∧ h.kind = variant.requestKind

def lastOn (log : List Exchange) (connection : Nat) : Option Exchange :=
  (log.filter fun exchange => exchange.connection = connection).getLast?

private theorem lastOn_snoc (log : List Exchange) (exchange : Exchange) :
    lastOn (log ++ [exchange]) exchange.connection = some exchange := by
  simp [lastOn]

structure Kept (m after : Episodes V) : Prop where
  iterators : after.iterators = m.iterators
  variant : after.client.variant = m.client.variant
  run : after.client.env.run = m.client.env.run
  connection : after.client.env.connection = m.client.env.connection
  reading : after.client.env.reading = m.client.env.reading

theorem Kept.trans {a b c : Episodes V} (hab : Kept a b) (hbc : Kept b c) : Kept a c :=
  ⟨hbc.iterators.trans hab.iterators,hbc.variant.trans hab.variant,hbc.run.trans hab.run,
    hbc.connection.trans hab.connection,hbc.reading.trans hab.reading⟩

private theorem guestEvent_env {c c' : Interactive V} {payload : Bytes}
    (h : c.guestEvent world payload = .ok c') : c'.env = c.env ∧ c'.variant = c.variant := by
  unfold Interactive.guestEvent at h
  split at h
  · cases h
  · split at h
    · cases h
    · split at h
      · cases h
      · cases h
        exact ⟨rfl,rfl⟩

/-- A frame leaves the run and the connection alone, and asks for input only if it is a request. -/
private theorem handleFrame_kept (world : World V) (c : Interactive V) (d : Decoded) :
    (handleFrame world c d).1.variant = c.variant ∧
      (handleFrame world c d).1.env.run = c.env.run ∧
      (handleFrame world c d).1.env.connection = c.env.connection ∧
      (handleFrame world c d).1.env.reading = c.env.reading ∧
      ((handleFrame world c d).2 = .returns true ∧ d.kind = c.variant.requestKind ∨
        (handleFrame world c d).2 ≠ .returns true ∧
          (handleFrame world c d).1.env.needsInput = c.env.needsInput) := by
  unfold handleFrame
  split_ifs with hschema hyields hrequest hcomplete herror hevent
  · split <;> simp
  · split <;> simp
  · simp [hrequest]
  · simp
  · split <;> simp
  · split
    · split
      · simp
      · rename_i hok
        obtain ⟨henv,hvariant⟩ := guestEvent_env hok
        simp [henv,hvariant]
    · simp
  · simp

/-- One or more passes of iterator `index` over `connection`: only the iterator's receives are
logged, and the client waits for input only behind a request. -/
structure Passed (index connection : Nat) (m after : Episodes V) (pass : Pass) : Prop where
  kept : Kept m after
  log : ∃ frames : List (Option Bytes),
    after.log = m.log ++ frames.map (Exchange.received index connection)
  waits : (pass = .returns true ∧ ∃ frame,
      lastOn after.log connection = some (.received index connection (some frame)) ∧
        IsRequest m.client.variant frame) ∨
    (pass ≠ .returns true ∧ after.client.env.needsInput = m.client.env.needsInput)

private theorem readPass_passed {index connection : Nat} {first : Bool} {m after : Episodes V}
    {pass : Pass}
    (h : readPass world index m.client.env.run connection first m = some (after,pass)) :
    Passed index connection m after pass := by
  unfold readPass at h
  dsimp only at h
  rw [if_neg (by simp)] at h
  split at h
  · -- the receive fails
    obtain ⟨e,_,heq⟩ := Option.map_eq_some_iff.mp h
    obtain ⟨rfl,rfl⟩ := Prod.mk.inj heq
    exact ⟨⟨rfl,rfl,rfl,rfl,rfl⟩,⟨[none],rfl⟩,.inr ⟨by simp,rfl⟩⟩
  · rename_i frame socket hframe
    have hlast : lastOn (m.noteFrame index connection frame socket).log connection =
        some (.received index connection (some frame)) := lastOn_snoc _ _
    split at h
    · cases h
    · obtain ⟨rfl,rfl⟩ := Prod.mk.inj (Option.some.inj h)
      exact ⟨⟨rfl,rfl,rfl,rfl,rfl⟩,⟨[some frame],rfl⟩,.inr ⟨by simp,rfl⟩⟩
    · rename_i d stream hdecode
      split_ifs at h with hfirst
      · obtain ⟨rfl,rfl⟩ := Prod.mk.inj (Option.some.inj h)
        exact ⟨⟨rfl,rfl,rfl,rfl,rfl⟩,⟨[some frame],rfl⟩,.inr ⟨by simp,rfl⟩⟩
      · obtain ⟨rfl,rfl⟩ := Prod.mk.inj (Option.some.inj h)
        obtain ⟨hvariant,hrun,hconnection,hreading,hwaits⟩ := handleFrame_kept world
          { (m.noteFrame index connection frame socket).client with
            env := { (m.noteFrame index connection frame socket).client.env with stream } } d
        refine ⟨⟨rfl,hvariant,hrun,hconnection,hreading⟩,⟨[some frame],rfl⟩,?_⟩
        refine hwaits.imp (fun ⟨hpass,hkind⟩ => ⟨hpass,frame,hlast,?_⟩) id
        obtain ⟨header,payload,hheader,_,_,rfl⟩ := decode_eq_ok hdecode
        exact ⟨header,hheader,hkind⟩

private theorem readLoop_passed {index connection : Nat} {passes : Nat} {first last : Bool}
    {m after : Episodes V} {pass : Pass}
    (h : readLoop world index m.client.env.run connection passes first m =
      some (after,last,pass)) :
    Passed index connection m after pass := by
  induction passes generalizing m first with
  | zero => cases h
  | succ passes ih =>
    rw [readLoop] at h
    cases hpass : readPass world index m.client.env.run connection first m with
    | none =>
      rw [hpass] at h
      cases h
    | some result =>
      obtain ⟨middle,more⟩ := result
      have hfirst := readPass_passed hpass
      rw [hpass] at h
      cases more with
      | again =>
        have hrest : Passed index connection middle after pass := by
          apply ih
          rw [hfirst.kept.run]
          exact h
        obtain ⟨frames,hframes⟩ := hfirst.log
        obtain ⟨rest,hlog⟩ := hrest.log
        refine ⟨hfirst.kept.trans hrest.kept,⟨frames ++ rest,?_⟩,?_⟩
        · rw [hlog,hframes,List.map_append,List.append_assoc]
        · have hneeds := (hfirst.waits.resolve_left fun hboundary => nomatch hboundary.1).2
          rw [← hneeds,← hfirst.kept.variant]
          exact hrest.waits
      | yields b | returns boundary | raises e =>
        obtain ⟨rfl,heq⟩ := Prod.mk.inj (Option.some.inj h)
        obtain ⟨_,rfl⟩ := Prod.mk.inj heq
        exact hfirst

def Stale (m : Episodes V) (it : ObservationIterator) : Prop := it.run ≠ m.client.env.run

/-- The iterators, the flags and the log of a client between calls. -/
structure Ordered (m : Episodes V) : Prop where
  runs : ∀ it ∈ m.iterators, it.run ≤ m.client.env.run
  idle : m.client.env.reading = false → ∀ it ∈ m.iterators, it.position ≠ .finished → m.Stale it
  single : ∀ (i j : Nat) (a b : ObservationIterator), m.iterators[i]? = some a → m.iterators[j]? = some b →
    ¬m.Stale a → ¬m.Stale b → a.position ≠ .finished → b.position ≠ .finished → i = j
  suspended : ∀ it ∈ m.iterators, ¬m.Stale it → ∀ connection,
    it.position = .suspended connection → m.client.env.connection = some connection
  requested : m.client.env.needsInput = true → m.client.env.reading = false ∧
    ∃ connection iterator frame, m.client.env.connection = some connection ∧
      lastOn m.log connection = some (.received iterator connection (some frame)) ∧
      IsRequest m.client.variant frame

theorem ordered_of_idle {m : Episodes V} (hruns : ∀ it ∈ m.iterators, it.run ≤ m.client.env.run)
    (hidle : ∀ it ∈ m.iterators, it.position ≠ .finished → m.Stale it)
    (hrequested : m.client.env.needsInput = true → m.client.env.reading = false ∧
      ∃ connection iterator frame, m.client.env.connection = some connection ∧
        lastOn m.log connection = some (.received iterator connection (some frame)) ∧
        IsRequest m.client.variant frame) : Ordered m := by
  constructor
  · exact hruns
  · exact fun _ it hit hopen => hidle it hit hopen
  · intro i j a b ha _ hcurrent _ hopen
    exact absurd (hidle a (List.mem_of_getElem? ha) hopen) hcurrent
  · intro it hit hcurrent connection hpos
    exact absurd (hidle it hit (by simp [hpos])) hcurrent
  · exact hrequested

/-- When a run has been given up no iterator is left of the current one. -/
theorem ordered_of_stale {m : Episodes V} (hstale : ∀ it ∈ m.iterators, it.run < m.client.env.run)
    (hneeds : m.client.env.needsInput = false) : Ordered m := by
  apply ordered_of_idle
  · exact fun it hit => (hstale it hit).le
  · exact fun it hit _ => (hstale it hit).ne
  · intro hwaits
    rw [hneeds] at hwaits
    cases hwaits

theorem ordered_initial (world : World V) (variant : Variant) : Ordered (initial world variant) :=
  ordered_of_stale (fun _ hit => nomatch hit) rfl

section Calls

variable {m after : Episodes V} {index : Nat} {it : ObservationIterator}

/-- An iterator of the current run that is not finished has the client reading. -/
theorem Ordered.reads (h : Ordered m) (hit : it ∈ m.iterators) (hcurrent : ¬m.Stale it)
    (hopen : it.position ≠ .finished) :
    m.client.env.reading = true ∧ m.client.env.needsInput = false := by
  have hreading : m.client.env.reading = true := by
    by_contra hidle
    exact hcurrent (h.idle (by simpa using hidle) it hit hopen)
  refine ⟨hreading,?_⟩
  by_contra hneeds
  have := (h.requested (by simpa using hneeds)).1
  rw [hreading] at this
  cases this

theorem Ordered.setIterator (h : Ordered m) (hit : m.iterators[index]? = some it)
    {next : ObservationIterator} (hrun : next.run = it.run)
    (hopen : next.position ≠ .finished → it.position ≠ .finished)
    (hsuspended : ¬m.Stale next → ∀ connection, next.position = .suspended connection →
      m.client.env.connection = some connection) : Ordered (m.setIterator index next) := by
  have hmem := List.mem_of_getElem? hit
  have hlt : index < m.iterators.length := (List.getElem?_eq_some_iff.mp hit).1
  have hget : ∀ (i : Nat) (a : ObservationIterator), (m.setIterator index next).iterators[i]? = some a →
      (i = index ∧ a = next) ∨ m.iterators[i]? = some a := by
    intro i a ha
    by_cases hi : i = index
    · subst hi
      rw [Episodes.setIterator,List.getElem?_set_self hlt] at ha
      exact .inl ⟨rfl,(Option.some.inj ha).symm⟩
    · rw [Episodes.setIterator,List.getElem?_set_ne (Ne.symm hi)] at ha
      exact .inr ha
  have hold : ∀ a ∈ (m.setIterator index next).iterators, a = next ∨ a ∈ m.iterators :=
    fun a ha => (List.mem_or_eq_of_mem_set ha).symm
  have hstale : ∀ a : ObservationIterator, (m.setIterator index next).Stale a ↔ m.Stale a :=
    fun _ => Iff.rfl
  have hnext : m.Stale next ↔ m.Stale it := by rw [Stale,Stale,hrun]
  constructor
  · intro a ha
    rcases hold a ha with rfl | ha
    · exact hrun ▸ h.runs it hmem
    · exact h.runs a ha
  · intro hidle a ha hpos
    rcases hold a ha with rfl | ha
    · exact hnext.mpr (h.idle hidle it hmem (hopen hpos))
    · exact h.idle hidle a ha hpos
  · intro i j a b ha hb hca hcb hpa hpb
    rcases hget i a ha with ⟨hi,hnew⟩ | holda
    · subst hi hnew
      rcases hget j b hb with ⟨hj,_⟩ | holdb
      · exact hj.symm
      · exact h.single i j it b hit holdb (fun hs => hca (hnext.mpr hs)) hcb (hopen hpa) hpb
    · rcases hget j b hb with ⟨hj,hnew⟩ | holdb
      · subst hj hnew
        exact h.single i j a it holda hit hca (fun hs => hcb (hnext.mpr hs)) hpa (hopen hpb)
      · exact h.single i j a b holda holdb hca hcb hpa hpb
  · intro a ha hca connection hpos
    rcases hold a ha with rfl | ha
    · exact hsuspended hca connection hpos
    · exact h.suspended a ha hca connection hpos
  · exact h.requested

private theorem leave_stale (hstale : m.Stale it) (reachedBoundary : Bool) :
    m.leave index it reachedBoundary = m.setIterator index { it with position := .finished } := by
  rw [leave,finishRun,if_neg hstale]

private theorem setIterator_finished (hit : m.iterators[index]? = some it)
    (hpos : it.position = .finished) :
    m.setIterator index { it with position := .finished } = m := by
  have hsame : ({ it with position := .finished } : ObservationIterator) = it := by
    rw [← hpos]
  obtain ⟨hlt,hget⟩ := List.getElem?_eq_some_iff.mp hit
  rw [hsame,Episodes.setIterator,← hget,List.set_getElem_self]

private theorem readPass_stale {run connection : Nat} (hne : run ≠ m.client.env.run) {first : Bool} :
    readPass world index run connection first m = some (m,.raises cancelled) :=
  if_pos hne

theorem next_stale (hit : m.iterators[index]? = some it) (hstale : m.Stale it) {passes : Nat}
    {reply : Reply} (h : m.next world index passes = some (after,reply)) :
    after = m.setIterator index { it with position := .finished } := by
  unfold next at h
  rw [hit] at h
  dsimp only at h
  split at h
  · rename_i hpos
    obtain ⟨rfl,_⟩ := Prod.mk.inj (Option.some.inj h)
    exact (setIterator_finished hit hpos).symm
  · rename_i connection hpos
    cases passes with
    | zero => cases h
    | succ passes =>
      rw [resume,readLoop,readPass_stale hstale] at h
      obtain ⟨rfl,_⟩ := Prod.mk.inj (Option.some.inj h)
      exact leave_stale hstale false
  · have hne : it.run ≠ m.client.env.run := hstale
    rw [if_pos hne] at h
    obtain ⟨rfl,_⟩ := Prod.mk.inj (Option.some.inj h)
    exact leave_stale hstale false

theorem closeIterator_stale (hit : m.iterators[index]? = some it) (hstale : m.Stale it)
    {reply : Reply} (h : m.closeIterator index = some (after,reply)) :
    after = m.setIterator index { it with position := .finished } := by
  unfold closeIterator at h
  rw [hit] at h
  dsimp only at h
  split at h
  · rename_i hpos
    obtain ⟨rfl,_⟩ := Prod.mk.inj (Option.some.inj h)
    exact (setIterator_finished hit hpos).symm
  · obtain ⟨rfl,_⟩ := Prod.mk.inj (Option.some.inj h)
    rfl
  · obtain ⟨rfl,_⟩ := Prod.mk.inj (Option.some.inj h)
    exact leave_stale hstale false

private theorem ordered_cancelled (hruns : ∀ a ∈ m.iterators, a.run ≤ m.client.env.run)
    (hit : it ∈ m.iterators) (hcurrent : ¬m.Stale it) : Ordered (m.leave index it false) := by
  have hrun : it.run = m.client.env.run := not_not.mp hcurrent
  rw [leave,finishRun,if_pos hrun]
  refine ordered_of_stale (fun a ha => ?_) rfl
  rcases List.mem_or_eq_of_mem_set ha with ha | rfl
  · exact Nat.lt_succ_of_le (hruns a ha)
  · exact Nat.lt_succ_of_le (hruns it hit)

private theorem ordered_boundary (h : Ordered m) (hit : m.iterators[index]? = some it)
    (hcurrent : ¬m.Stale it) (hopen : it.position ≠ .finished) {connection : Nat} {frame : Bytes}
    (hkept : Kept m after) (hconnection : m.client.env.connection = some connection)
    (hlast : lastOn after.log connection = some (.received index connection (some frame)))
    (hrequest : IsRequest m.client.variant frame) : Ordered (after.leave index it true) := by
  have hrun : it.run = after.client.env.run := (not_not.mp hcurrent).trans hkept.run.symm
  have hmem := List.mem_of_getElem? hit
  rw [leave,finishRun,if_pos hrun]
  apply ordered_of_idle
  · intro a ha
    rcases List.mem_or_eq_of_mem_set ha with ha | rfl
    · rw [hkept.iterators] at ha
      exact (h.runs a ha).trans hkept.run.ge
    · exact hrun.le
  · intro a ha hpos
    obtain ⟨j,hj⟩ := List.mem_iff_getElem?.mp ha
    change (after.iterators.set index _)[j]? = some a at hj
    rw [hkept.iterators] at hj
    have hne : j ≠ index := by
      rintro rfl
      rw [List.getElem?_set_self (List.getElem?_eq_some_iff.mp hit).1] at hj
      obtain rfl := Option.some.inj hj
      exact hpos rfl
    rw [List.getElem?_set_ne (Ne.symm hne)] at hj
    change a.run ≠ after.client.env.run
    rw [hkept.run]
    intro hsame
    exact hne (h.single j index a it hj hit (not_not.mpr hsame) hcurrent hpos hopen)
  · intro _
    refine ⟨rfl,connection,index,frame,?_,hlast,?_⟩
    · exact hkept.connection.trans hconnection
    · change IsRequest after.client.variant frame
      rw [hkept.variant]
      exact hrequest

private theorem Ordered.kept (h : Ordered m) (hkept : Kept m after)
    (hneeds : after.client.env.needsInput = false) : Ordered after := by
  have hstale : ∀ a : ObservationIterator, after.Stale a ↔ m.Stale a := fun a => by
    rw [Stale,Stale,hkept.run]
  constructor
  · rw [hkept.iterators,hkept.run]
    exact h.runs
  · rw [hkept.iterators,hkept.reading]
    exact fun hidle a ha hpos => (hstale a).mpr (h.idle hidle a ha hpos)
  · rw [hkept.iterators]
    intro i j a b ha hb hca hcb
    exact h.single i j a b ha hb (fun hs => hca ((hstale a).mpr hs))
      fun hs => hcb ((hstale b).mpr hs)
  · rw [hkept.iterators,hkept.connection]
    exact fun a ha hca => h.suspended a ha fun hs => hca ((hstale a).mpr hs)
  · intro hwaits
    rw [hneeds] at hwaits
    cases hwaits

private theorem Ordered.resume (h : Ordered m) (hit : m.iterators[index]? = some it)
    (hcurrent : ¬m.Stale it) (hopen : it.position ≠ .finished) {connection passes : Nat}
    (hconnection : m.client.env.connection = some connection) {reply : Reply}
    (hs : m.resume world index it connection passes = some (after,reply)) : Ordered after := by
  have hrun : it.run = m.client.env.run := not_not.mp hcurrent
  have hmem := List.mem_of_getElem? hit
  obtain ⟨hreading,hneeds⟩ := h.reads hmem hcurrent hopen
  unfold Episodes.resume at hs
  rw [hrun] at hs
  split at hs
  · cases hs
  · rename_i middle first pass hloop
    have hpassed := readLoop_passed hloop
    have hkept := hpassed.kept
    have hruns : ∀ a ∈ middle.iterators, a.run ≤ middle.client.env.run := by
      rw [hkept.iterators,hkept.run]
      exact h.runs
    have hmiddle : it ∈ middle.iterators := hkept.iterators ▸ hmem
    have hstill : ¬middle.Stale it := by rw [Stale,hkept.run]; exact hcurrent
    cases pass with
    | again => cases hs
    | yields b =>
      obtain ⟨rfl,_⟩ := Prod.mk.inj (Option.some.inj hs)
      have hwaits := (hpassed.waits.resolve_left fun hboundary => nomatch hboundary.1).2
      have hmid : middle.iterators[index]? = some it := hkept.iterators ▸ hit
      refine (h.kept hkept (hwaits.trans hneeds)).setIterator hmid hrun.symm (fun _ => hopen)
        fun _ other hpos => ?_
      cases hpos
      exact hkept.connection.trans hconnection
    | returns reachedBoundary =>
      obtain ⟨rfl,_⟩ := Prod.mk.inj (Option.some.inj hs)
      cases reachedBoundary with
      | false => exact ordered_cancelled hruns hmiddle hstill
      | true =>
        obtain ⟨_,frame,hlast,hrequest⟩ := hpassed.waits.resolve_right fun hno => hno.1 rfl
        exact ordered_boundary h hit hcurrent hopen hkept hconnection hlast hrequest
    | raises e =>
      obtain ⟨rfl,_⟩ := Prod.mk.inj (Option.some.inj hs)
      exact ordered_cancelled hruns hmiddle hstill

theorem Ordered.next (h : Ordered m) {passes : Nat} {reply : Reply}
    (hs : m.next world index passes = some (after,reply)) :
    Ordered after := by
  cases hit : m.iterators[index]? with
  | none =>
    rw [Episodes.next,hit] at hs
    cases hs
  | some it =>
    by_cases hstale : m.Stale it
    · rw [next_stale hit hstale hs]
      exact h.setIterator hit rfl (fun hopen => absurd rfl hopen) fun _ _ hpos => nomatch hpos
    · have hrun : it.run = m.client.env.run := not_not.mp hstale
      have hmem := List.mem_of_getElem? hit
      unfold Episodes.next at hs
      rw [hit] at hs
      dsimp only at hs
      split at hs
      · obtain ⟨rfl,_⟩ := Prod.mk.inj (Option.some.inj hs)
        exact h
      · rename_i connection hpos
        exact h.resume hit hstale (by simp [hpos]) (h.suspended it hmem hstale connection hpos) hs
      · rename_i hpos
        rw [if_neg (not_not.mpr hrun)] at hs
        split at hs
        · obtain ⟨rfl,_⟩ := Prod.mk.inj (Option.some.inj hs)
          exact ordered_cancelled h.runs hmem hstale
        · rename_i connection hconnection
          exact h.resume hit hstale (by simp [hpos]) hconnection hs

theorem Ordered.closeIterator (h : Ordered m) {reply : Reply}
    (hs : m.closeIterator index = some (after,reply)) :
    Ordered after := by
  cases hit : m.iterators[index]? with
  | none =>
    rw [Episodes.closeIterator,hit] at hs
    cases hs
  | some it =>
    unfold Episodes.closeIterator at hs
    rw [hit] at hs
    dsimp only at hs
    have hfinished : Ordered (m.setIterator index { it with position := .finished }) :=
      h.setIterator hit rfl (fun hopen => absurd rfl hopen) fun _ _ hpos => nomatch hpos
    split at hs
    · obtain ⟨rfl,_⟩ := Prod.mk.inj (Option.some.inj hs)
      exact h
    · obtain ⟨rfl,_⟩ := Prod.mk.inj (Option.some.inj hs)
      exact hfinished
    · obtain ⟨rfl,_⟩ := Prod.mk.inj (Option.some.inj hs)
      by_cases hstale : m.Stale it
      · rw [leave_stale hstale]
        exact hfinished
      · exact ordered_cancelled h.runs (List.mem_of_getElem? hit) hstale

private theorem ordered_added (hruns : ∀ it ∈ m.iterators, it.run ≤ m.client.env.run)
    (hidle : ∀ it ∈ m.iterators, it.position ≠ .finished → m.Stale it)
    (hreading : m.client.env.reading = true) (hneeds : m.client.env.needsInput = false)
    (first : Bool) : Ordered (m.addIterator first).1 := by
  have hold : ∀ it ∈ (m.addIterator first).1.iterators,
      it ∈ m.iterators ∨ it = { run := m.client.env.run, first } := by
    intro it hit
    simpa [addIterator] using hit
  have hlast : ∀ (i : Nat) (a : ObservationIterator),
      (m.addIterator first).1.iterators[i]? = some a → ¬m.Stale a → a.position ≠ .finished →
      i = m.iterators.length := by
    intro i a ha hcurrent hopen
    by_contra hne
    change (m.iterators ++ [_])[i]? = some a at ha
    have hlen := (List.getElem?_eq_some_iff.mp ha).1
    rw [List.length_append,List.length_singleton] at hlen
    rw [List.getElem?_append_left (by omega)] at ha
    exact hcurrent (hidle a (List.mem_of_getElem? ha) hopen)
  constructor
  · intro it hit
    rcases hold it hit with hit | rfl
    · exact hruns it hit
    · exact le_rfl
  · intro hno
    rw [addIterator,hreading] at hno
    cases hno
  · intro i j a b ha hb hca hcb hpa hpb
    exact (hlast i a ha hca hpa).trans (hlast j b hb hcb hpb).symm
  · intro it hit hcurrent connection hpos
    rcases hold it hit with hit | rfl
    · exact absurd (hidle it hit (by simp [hpos])) hcurrent
    · cases hpos
  · intro hwaits
    rw [addIterator,hneeds] at hwaits
    cases hwaits

theorem Ordered.reset (h : Ordered m) (connect : Transport) : Ordered (m.reset connect).1 := by
  unfold Episodes.reset
  dsimp only
  split_ifs
  · exact h
  · have hstale : ∀ it ∈ m.iterators, it.run < m.client.env.run+1 := fun it hit =>
      Nat.lt_succ_of_le (h.runs it hit)
    cases connect with
    | ok =>
      apply ordered_added
      · exact fun it hit => (hstale it hit).le
      · exact fun it hit _ => (hstale it hit).ne
      · rfl
      · rfl
    | timeout | failed => exact ordered_of_stale hstale rfl

private theorem checkedStep_eq_ok {c : Interactive V} {action : Option Bytes} {env : StdioEnv}
    {bytes : Bytes} (h : c.checkedStep action = .ok (env,bytes)) :
    c.env.reading = false ∧ c.env.needsInput = true ∧
      env = { c.env with needsInput := false, maxActionBytes := 0 } := by
  have hstep : ∃ action, c.env.step action = .ok (env,bytes) := by
    unfold Interactive.checkedStep at h
    cases action with
    | some action =>
      cases hvariant : c.variant with
      | stdio =>
        rw [hvariant] at h
        exact ⟨action,h⟩
      | kernel =>
        rw [hvariant] at h
        dsimp only [KernelEnv.step] at h
        split_ifs at h
        exact ⟨action,h⟩
    | none =>
      cases hvariant : c.variant with
      | stdio =>
        rw [hvariant] at h
        dsimp only at h
        split_ifs at h
      | kernel =>
        rw [hvariant] at h
        cases h
  obtain ⟨action,hstep⟩ := hstep
  obtain ⟨⟨_,hreading,hneeds,_⟩,heq⟩ := StdioEnv.step_eq_ok.mp hstep
  exact ⟨hreading,hneeds,congrArg Prod.fst heq⟩

theorem Ordered.act (h : Ordered m) (action : Option Bytes) (send : Transport) :
    Ordered (m.act action send).1 := by
  unfold Episodes.act
  cases hcheck : m.client.checkedStep action with
  | error e => exact h
  | ok result =>
    obtain ⟨env,bytes⟩ := result
    obtain ⟨hreading,_,rfl⟩ := checkedStep_eq_ok hcheck
    have hstale : ∀ it ∈ m.iterators, it.run < m.client.env.run+1 := fun it hit =>
      Nat.lt_succ_of_le (h.runs it hit)
    cases send with
    | ok =>
      apply ordered_added
      · exact h.runs
      · exact h.idle hreading
      · rfl
      · rfl
    | timeout | failed => exact ordered_of_stale hstale rfl

theorem Ordered.close (h : Ordered m) : Ordered m.close :=
  ordered_of_stale (fun it hit => Nat.lt_succ_of_le (h.runs it hit)) rfl

theorem Ordered.step (h : Ordered m) {call : Call} {reply : Reply}
    (hs : m.step world call = some (after,reply)) :
    Ordered after := by
  cases call with
  | reset connect =>
    obtain rfl := congrArg Prod.fst (Option.some.inj hs)
    exact h.reset connect
  | step action send =>
    obtain rfl := congrArg Prod.fst (Option.some.inj hs)
    exact h.act action send
  | close =>
    obtain ⟨rfl,_⟩ := Prod.mk.inj (Option.some.inj hs)
    exact h.close
  | next iterator passes => exact h.next hs
  | closeIterator iterator => exact h.closeIterator hs

end Calls

private theorem run_cons {m after : Episodes V} {call : Call} {calls : List Call}
    (h : m.run world (call::calls) = some after) :
    ∃ middle reply, m.step world call = some (middle,reply) ∧
      middle.run world calls = some after := by
  obtain ⟨⟨middle,reply⟩,hstep,hrest⟩ := Option.bind_eq_some_iff.mp h
  exact ⟨middle,reply,hstep,hrest⟩

theorem Ordered.run {m after : Episodes V} {calls : List Call} (h : Ordered m)
    (hr : m.run world calls = some after) : Ordered after := by
  induction calls generalizing m with
  | nil =>
    obtain rfl := Option.some.inj hr
    exact h
  | cons call calls ih =>
    obtain ⟨middle,reply,hstep,hrest⟩ := run_cons hr
    exact ih (h.step hstep) hrest

/-- The run counter only grows, and an iterator keeps its run. -/
structure Advances (m after : Episodes V) : Prop where
  run : m.client.env.run ≤ after.client.env.run
  iterators : ∀ (i : Nat) (it : ObservationIterator), m.iterators[i]? = some it →
    ∃ later, after.iterators[i]? = some later ∧ later.run = it.run

theorem Advances.trans {a b c : Episodes V} (hab : Advances a b) (hbc : Advances b c) : Advances a c := by
  refine ⟨hab.run.trans hbc.run,fun i it hit => ?_⟩
  obtain ⟨later,hlater,hrun⟩ := hab.iterators i it hit
  obtain ⟨last,hlast,hsame⟩ := hbc.iterators i later hlater
  exact ⟨last,hlast,hsame.trans hrun⟩

section Advances

variable {m after : Episodes V} {index : Nat} {it : ObservationIterator}

private theorem advances_of_same (hrun : m.client.env.run ≤ after.client.env.run)
    (hiterators : after.iterators = m.iterators) : Advances m after :=
  ⟨hrun,fun _ it hit => ⟨it,hiterators ▸ hit,rfl⟩⟩

private theorem advances_setIterator (hit : m.iterators[index]? = some it)
    {next : ObservationIterator} (hrun : next.run = it.run) :
    Advances m (m.setIterator index next) := by
  refine ⟨le_rfl,fun i a ha => ?_⟩
  by_cases hi : i = index
  · subst hi
    obtain rfl := Option.some.inj (hit.symm.trans ha)
    refine ⟨next,?_,hrun⟩
    rw [setIterator,List.getElem?_set_self (List.getElem?_eq_some_iff.mp hit).1]
  · refine ⟨a,?_,rfl⟩
    rw [setIterator,List.getElem?_set_ne (Ne.symm hi)]
    exact ha

private theorem advances_leave (hit : m.iterators[index]? = some it) (reachedBoundary : Bool) :
    Advances m (m.leave index it reachedBoundary) := by
  have hfinish : Advances m (finishRun it.run reachedBoundary m) := by
    unfold finishRun
    split_ifs
    · exact advances_of_same le_rfl rfl
    · exact advances_of_same (Nat.le_succ _) rfl
    · exact advances_of_same le_rfl rfl
  have hsame : (finishRun it.run reachedBoundary m).iterators = m.iterators := by
    unfold finishRun
    split_ifs <;> rfl
  have hmid : (finishRun it.run reachedBoundary m).iterators[index]? = some it := hsame ▸ hit
  exact hfinish.trans (advances_setIterator hmid rfl)

private theorem advances_resume (hit : m.iterators[index]? = some it)
    (hrun : it.run = m.client.env.run) {connection passes : Nat} {reply : Reply}
    (hs : m.resume world index it connection passes = some (after,reply)) : Advances m after := by
  unfold resume at hs
  split at hs
  · cases hs
  · rename_i middle first pass hloop
    rw [hrun] at hloop
    have hkept := (readLoop_passed hloop).kept
    have hmiddle : Advances m middle := advances_of_same hkept.run.ge hkept.iterators
    have hmid : middle.iterators[index]? = some it := hkept.iterators ▸ hit
    cases pass with
    | again => cases hs
    | yields b =>
      obtain ⟨rfl,_⟩ := Prod.mk.inj (Option.some.inj hs)
      exact hmiddle.trans (advances_setIterator hmid rfl)
    | returns reachedBoundary =>
      obtain ⟨rfl,_⟩ := Prod.mk.inj (Option.some.inj hs)
      exact hmiddle.trans (advances_leave hmid reachedBoundary)
    | raises e =>
      obtain ⟨rfl,_⟩ := Prod.mk.inj (Option.some.inj hs)
      exact hmiddle.trans (advances_leave hmid false)

private theorem advances_next {passes : Nat} {reply : Reply}
    (hs : m.next world index passes = some (after,reply)) :
    Advances m after := by
  cases hit : m.iterators[index]? with
  | none =>
    rw [next,hit] at hs
    cases hs
  | some it =>
    by_cases hstale : m.Stale it
    · rw [next_stale hit hstale hs]
      exact advances_setIterator hit rfl
    · have hrun : it.run = m.client.env.run := not_not.mp hstale
      unfold next at hs
      rw [hit] at hs
      dsimp only at hs
      split at hs
      · obtain ⟨rfl,_⟩ := Prod.mk.inj (Option.some.inj hs)
        exact advances_of_same le_rfl rfl
      · exact advances_resume hit hrun hs
      · rw [if_neg (not_not.mpr hrun)] at hs
        split at hs
        · obtain ⟨rfl,_⟩ := Prod.mk.inj (Option.some.inj hs)
          exact advances_leave hit false
        · exact advances_resume hit hrun hs

private theorem advances_closeIterator {reply : Reply}
    (hs : m.closeIterator index = some (after,reply)) :
    Advances m after := by
  cases hit : m.iterators[index]? with
  | none =>
    rw [closeIterator,hit] at hs
    cases hs
  | some it =>
    unfold closeIterator at hs
    rw [hit] at hs
    dsimp only at hs
    split at hs
    · obtain ⟨rfl,_⟩ := Prod.mk.inj (Option.some.inj hs)
      exact advances_of_same le_rfl rfl
    · obtain ⟨rfl,_⟩ := Prod.mk.inj (Option.some.inj hs)
      exact advances_setIterator hit rfl
    · obtain ⟨rfl,_⟩ := Prod.mk.inj (Option.some.inj hs)
      exact advances_leave hit false

private theorem advances_added (hrun : m.client.env.run ≤ after.client.env.run)
    (hiterators : after.iterators = m.iterators) (first : Bool) :
    Advances m (after.addIterator first).1 := by
  refine ⟨hrun,fun i it hit => ⟨it,?_,rfl⟩⟩
  change (after.iterators ++ [_])[i]? = some it
  rw [hiterators,List.getElem?_append_left (List.getElem?_eq_some_iff.mp hit).1]
  exact hit

private theorem advances_reset (connect : Transport) : Advances m (m.reset connect).1 := by
  unfold reset
  dsimp only
  split_ifs
  · exact advances_of_same le_rfl rfl
  · cases connect with
    | ok =>
      apply advances_added
      · exact Nat.le_succ _
      · rfl
    | timeout | failed => exact advances_of_same (Nat.le_succ _) rfl

private theorem advances_act (action : Option Bytes) (send : Transport) :
    Advances m (m.act action send).1 := by
  unfold act
  cases hcheck : m.client.checkedStep action with
  | error e => exact advances_of_same le_rfl rfl
  | ok result =>
    obtain ⟨env,bytes⟩ := result
    obtain ⟨_,_,rfl⟩ := checkedStep_eq_ok hcheck
    cases send with
    | ok =>
      apply advances_added
      · exact le_rfl
      · rfl
    | timeout | failed => exact advances_of_same (Nat.le_succ _) rfl

theorem advances_step {call : Call} {reply : Reply}
    (hs : m.step world call = some (after,reply)) :
    Advances m after := by
  cases call with
  | reset connect =>
    obtain rfl := congrArg Prod.fst (Option.some.inj hs)
    exact advances_reset connect
  | step action send =>
    obtain rfl := congrArg Prod.fst (Option.some.inj hs)
    exact advances_act action send
  | close =>
    obtain ⟨rfl,_⟩ := Prod.mk.inj (Option.some.inj hs)
    exact advances_of_same (Nat.le_succ _) rfl
  | next iterator passes => exact advances_next hs
  | closeIterator iterator => exact advances_closeIterator hs

end Advances

theorem advances_run {m after : Episodes V} {calls : List Call}
    (hr : m.run world calls = some after) : Advances m after := by
  induction calls generalizing m with
  | nil =>
    obtain rfl := Option.some.inj hr
    exact advances_of_same le_rfl rfl
  | cons call calls ih =>
    obtain ⟨middle,reply,hstep,hrest⟩ := run_cons hr
    exact (advances_step hstep).trans (ih hrest)

structure Isolation (world : World V) (m : Episodes V) : Prop where
  /-- A call on an iterator of a cancelled run only ends the iterator. -/
  stale : ∀ (i : Nat) (it : ObservationIterator), m.iterators[i]? = some it → m.Stale it →
    ∀ call, (call = .closeIterator i ∨ ∃ passes, call = .next i passes) →
    ∀ after reply, m.step world call = some (after,reply) →
      after = m.setIterator i { it with position := .finished }
  /-- A cancelled run stays cancelled. -/
  forever : ∀ (i : Nat) (it : ObservationIterator), m.iterators[i]? = some it → m.Stale it →
    ∀ calls after, m.run world calls = some after →
      ∃ later, after.iterators[i]? = some later ∧ later.run = it.run ∧ after.Stale later
  /-- At most one iterator of the current run can still read. -/
  single : ∀ (i j : Nat) (a b : ObservationIterator), m.iterators[i]? = some a →
    m.iterators[j]? = some b → ¬m.Stale a → ¬m.Stale b → a.position ≠ .finished →
    b.position ≠ .finished → i = j
  /-- Only that iterator reads, and only from the current connection. -/
  reads : ∀ call after reply, m.step world call = some (after,reply) →
    (∀ action send, call ≠ .step action send) → after.log = m.log ∨
      ∃ i passes it connection, ∃ frames : List (Option Bytes), call = .next i passes ∧
        m.iterators[i]? = some it ∧ ¬m.Stale it ∧ it.position ≠ .finished ∧
        m.client.env.connection = some connection ∧
        after.log = m.log ++ frames.map (Exchange.received i connection)
  /-- An action is sent right behind the request it answers, or nothing happens. -/
  sends : ∀ action send after reply, m.step world (.step action send) = some (after,reply) →
    after = m ∨ ∃ connection bytes iterator frame, m.client.env.connection = some connection ∧
      after.log = m.log ++ [.sent connection bytes] ∧
      lastOn m.log connection = some (.received iterator connection (some frame)) ∧
      IsRequest m.client.variant frame
  /-- An action refused for what it is leaves the request as it was. -/
  refused : ∀ action send after e, m.step world (.step action send) = some (after,.raised e) →
    (∃ message, e = .type message ∨ e = .value message) → after = m

section Reads

variable {m after : Episodes V} {index : Nat} {it : ObservationIterator}

private theorem leave_log (reachedBoundary : Bool) :
    (m.leave index it reachedBoundary).log = m.log := by
  unfold leave finishRun
  split_ifs <;> rfl

private theorem resume_log (hrun : it.run = m.client.env.run) {connection passes : Nat}
    {reply : Reply} (hs : m.resume world index it connection passes = some (after,reply)) :
    ∃ frames : List (Option Bytes),
      after.log = m.log ++ frames.map (Exchange.received index connection) := by
  unfold resume at hs
  split at hs
  · cases hs
  · rename_i middle first pass hloop
    rw [hrun] at hloop
    obtain ⟨frames,hlog⟩ := (readLoop_passed hloop).log
    refine ⟨frames,?_⟩
    rw [← hlog]
    cases pass with
    | again => cases hs
    | yields b =>
      obtain ⟨rfl,_⟩ := Prod.mk.inj (Option.some.inj hs)
      rfl
    | returns reachedBoundary =>
      obtain ⟨rfl,_⟩ := Prod.mk.inj (Option.some.inj hs)
      exact leave_log reachedBoundary
    | raises e =>
      obtain ⟨rfl,_⟩ := Prod.mk.inj (Option.some.inj hs)
      exact leave_log false

private theorem next_log (h : Ordered m) {passes : Nat} {reply : Reply}
    (hs : m.next world index passes = some (after,reply)) :
    after.log = m.log ∨
      ∃ it connection, ∃ frames : List (Option Bytes), m.iterators[index]? = some it ∧
        ¬m.Stale it ∧ it.position ≠ .finished ∧ m.client.env.connection = some connection ∧
        after.log = m.log ++ frames.map (Exchange.received index connection) := by
  cases hit : m.iterators[index]? with
  | none =>
    rw [next,hit] at hs
    cases hs
  | some it =>
    by_cases hstale : m.Stale it
    · rw [next_stale hit hstale hs]
      exact .inl rfl
    · have hrun : it.run = m.client.env.run := not_not.mp hstale
      unfold next at hs
      rw [hit] at hs
      dsimp only at hs
      split at hs
      · obtain ⟨rfl,_⟩ := Prod.mk.inj (Option.some.inj hs)
        exact .inl rfl
      · rename_i connection hpos
        obtain ⟨frames,hlog⟩ := resume_log hrun hs
        exact .inr ⟨it,connection,frames,rfl,hstale,by simp [hpos],
          h.suspended it (List.mem_of_getElem? hit) hstale connection hpos,hlog⟩
      · rename_i hpos
        rw [if_neg (not_not.mpr hrun)] at hs
        split at hs
        · obtain ⟨rfl,_⟩ := Prod.mk.inj (Option.some.inj hs)
          exact .inl (leave_log false)
        · rename_i connection hconnection
          obtain ⟨frames,hlog⟩ := resume_log hrun hs
          exact .inr ⟨it,connection,frames,rfl,hstale,by simp [hpos],hconnection,hlog⟩

private theorem closeIterator_log {reply : Reply}
    (hs : m.closeIterator index = some (after,reply)) :
    after.log = m.log := by
  unfold closeIterator at hs
  split at hs
  · cases hs
  · split at hs <;> obtain ⟨rfl,_⟩ := Prod.mk.inj (Option.some.inj hs)
    · rfl
    · rfl
    · exact leave_log false

private theorem reset_log (connect : Transport) : (m.reset connect).1.log = m.log := by
  unfold reset
  dsimp only
  split_ifs
  · rfl
  · cases connect <;> rfl

private theorem act_cases (h : Ordered m) (action : Option Bytes) (send : Transport) :
    (∃ e, m.client.checkedStep action = .error e ∧ m.act action send = (m,.raised e)) ∨
    (∃ connection bytes iterator frame, m.client.env.connection = some connection ∧
      (m.act action send).1.log = m.log ++ [.sent connection bytes] ∧
      lastOn m.log connection = some (.received iterator connection (some frame)) ∧
      IsRequest m.client.variant frame ∧
      ∀ message, (m.act action send).2 ≠ .raised (.type message) ∧
        (m.act action send).2 ≠ .raised (.value message)) := by
  unfold act
  cases hcheck : m.client.checkedStep action with
  | error e => exact .inl ⟨e,rfl,rfl⟩
  | ok result =>
    obtain ⟨env,bytes⟩ := result
    obtain ⟨_,hneeds,rfl⟩ := checkedStep_eq_ok hcheck
    obtain ⟨_,connection,iterator,frame,hconnection,hlast,hrequest⟩ := h.requested hneeds
    have hlog : (m.noteAction bytes).log = m.log ++ [.sent connection bytes] := by
      rw [noteAction,hconnection]
      rfl
    refine .inr ⟨connection,bytes,iterator,frame,hconnection,?_,hlast,hrequest,?_⟩
    · cases send <;> exact hlog
    · cases send <;> exact fun _ => ⟨nofun,nofun⟩

end Reads

/-- Any sequence of calls on a client and its iterators keeps the runs apart. -/
theorem iterators_isolated (world : World V) (variant : Variant) (calls : List Call)
    (m : Episodes V) (hr : (initial world variant).run world calls = some m) :
    Isolation world m := by
  have h : Ordered m := (ordered_initial world variant).run hr
  constructor
  · intro i it hit hstale call hcall after reply hs
    rcases hcall with rfl | ⟨passes,rfl⟩
    · exact closeIterator_stale hit hstale hs
    · exact next_stale hit hstale hs
  · intro i it hit hstale calls after hrun
    have hadvances := advances_run hrun
    obtain ⟨later,hlater,hsame⟩ := hadvances.iterators i it hit
    refine ⟨later,hlater,hsame,?_⟩
    have hlt : it.run < m.client.env.run :=
      lt_of_le_of_ne (h.runs it (List.mem_of_getElem? hit)) hstale
    rw [Stale,hsame]
    exact (hlt.trans_le hadvances.run).ne
  · exact h.single
  · intro call after reply hs hother
    cases call with
    | reset connect =>
      obtain rfl := congrArg Prod.fst (Option.some.inj hs)
      exact .inl (reset_log connect)
    | step action send => exact absurd rfl (hother action send)
    | close =>
      obtain ⟨rfl,_⟩ := Prod.mk.inj (Option.some.inj hs)
      exact .inl rfl
    | next iterator passes =>
      refine (next_log h hs).imp_right ?_
      rintro ⟨it,connection,frames,hit,hcurrent,hopen,hconnection,hlog⟩
      exact ⟨iterator,passes,it,connection,frames,rfl,hit,hcurrent,hopen,hconnection,hlog⟩
    | closeIterator iterator => exact .inl (closeIterator_log hs)
  · intro action send after reply hs
    have hact : m.act action send = (after,reply) := Option.some.inj hs
    rcases act_cases h action send with ⟨e,_,hsame⟩ | ⟨c,bytes,i,frame,hc,hlog,hlast,hreq,_⟩
    · exact .inl (congrArg Prod.fst (hact.symm.trans hsame))
    · rw [hact] at hlog
      exact .inr ⟨c,bytes,i,frame,hc,hlog,hlast,hreq⟩
  · rintro action send after e hs ⟨message,he⟩
    have hact : m.act action send = (after,.raised e) := Option.some.inj hs
    rcases act_cases h action send with ⟨_,_,hsame⟩ | ⟨_,_,_,_,_,_,_,_,hno⟩
    · exact congrArg Prod.fst (hact.symm.trans hsame)
    · rw [hact] at hno
      rcases he with rfl | rfl
      · exact absurd rfl (hno message).1
      · exact absurd rfl (hno message).2

/-- Every worker says hello and asks for up to two bytes of input. -/
def askingWorld : World Unit where
  bytes _ := encodeHeader { kind := .hello, detail := 0x801 } ++
    encodeHeader { kind := .inputRequest, detail := 2 }
  schedule _ := ⟨fun _ => .bytes 32,fun _ => .bytes 32⟩
  loads _ := .ok ()
  eventName _ := none

/-- The second run waits for input; the iterator of the first one ends without a trace. -/
theorem iterators_isolated_asking : ∃ m after : Episodes Unit,
    (initial askingWorld .stdio).run askingWorld [.reset .ok,.reset .ok,.next 1 2] = some m ∧
      m.client.env.needsInput = true ∧
      m.step askingWorld (.next 0 1) = some (after,.raised cancelled) ∧
      after = m.setIterator 0 ⟨1,true,.finished⟩ := by
  have hview : ((initial askingWorld .stdio).run askingWorld
      [.reset .ok,.reset .ok,.next 1 2]).map (fun m =>
        (m.client.env.needsInput,m.iterators,m.client.env.run)) =
      some (true,[⟨1,true,.created⟩,⟨2,true,.finished⟩],2) := by decide +kernel
  obtain ⟨m,hm,heq⟩ := Option.map_eq_some_iff.mp hview
  simp only [Prod.mk.injEq] at heq
  obtain ⟨hneeds,hiterators,hrun⟩ := heq
  have hfirst : m.iterators[0]? = some ⟨1,true,.created⟩ := by rw [hiterators]; rfl
  have hstale : m.Stale ⟨1,true,.created⟩ := by simp [Stale,hrun]
  have hnext : m.step askingWorld (.next 0 1) =
      some (m.leave 0 ⟨1,true,.created⟩ false,.raised cancelled) := by
    rw [step,next,hfirst]
    exact if_pos hstale
  exact ⟨m,_,hm,hneeds,hnext,(iterators_isolated askingWorld .stdio _ m hm).stale 0 _ hfirst hstale
    _ (.inr ⟨1,rfl⟩) _ _ hnext⟩

end Cpu2Tensor.Client.Episodes
