import Cpu2Tensor.Ring.FrameRing

/-!
# Publication through a ring

The thread that owns a source flushes frames into the ring, waits for them and writes headers past
it; the collector moves frames from the ring to the pipe.  The two are ordered only by the counters
`frames_queued` and `frames_sent`, and a frame may be sent before it is counted as queued.  What
other sources do touches neither the ring nor the counters of this one.
-/

namespace Cpu2Tensor.Ring
open Library

/-- Where the owner is in `flush`, `wait_for_frames` and `end_source`. -/
inductive Owner
  | idle
  | pushing (frame : Bytes)
  | retrying (frame : Bytes)
  | counting
  | polling (expected : UInt64)
  | drained
  | ended

/-- Where `collect_frames` is in its visit to the source. -/
inductive Collector
  | scanning
  | looking
  | sending (view : FrameView)
  | popping
  | counting

structure Publication where
  ring : System
  owner : Owner := .idle
  collector : Collector := .scanning
  framesQueued : UInt64 := 0
  framesSent : UInt64 := 0
  collectorDone : Bool := false
  /-- The frames of the source in the pipe. -/
  pipe : List Bytes := []

/-- A wait ends with a header; the drain of a stopped machine sends none for the source. -/
inductive Act
  | flush (frame : Bytes)
  | push
  | retry
  | count
  | wait
  | poll
  | send (header : Option Bytes) (last : Bool)
  | finish
  | collect

/-- What publication to the pipe writes at once. -/
def Act.written : Act → List Bytes
  | .flush frame => [frame]
  | .send header _ => header.toList
  | _ => []

namespace Publication

/-- A call of `try_push`; `flush` fails when its frame is refused. -/
def tryPush (s : Publication) (frame : Bytes) : Option Publication :=
  (s.ring.tryPush (some frame)).bind fun ring =>
    match ring.producer with
    | .idle => none
    | _ => some { s with ring, owner := .pushing frame }

def pushed (frame : Bytes) (ring : System) : Owner :=
  match ring.producer,ring.answer with
  | .idle,some (.ok .stored) => .counting
  | .idle,_ => .retrying frame
  | _,_ => .pushing frame

def looked (ring : System) : Collector :=
  match ring.consumer,ring.view with
  | .idle,none => .scanning
  | .idle,some view => .sending view
  | _,_ => .looking

def popped (ring : System) : Collector :=
  match ring.consumer with
  | .idle => .counting
  | _ => .popping

def collect (c : Capacity) (s : Publication) : Option Publication :=
  match s.collector with
  | .scanning => s.ring.front.map fun ring => { s with ring, collector := .looking }
  | .looking => (s.ring.consume c).map fun ring => { s with ring, collector := looked ring }
  | .sending view => s.ring.pop.map fun ring =>
    { s with ring, collector := .popping, pipe := s.pipe ++ [s.ring.ring.bytes view] }
  | .popping => (s.ring.consume c).map fun ring => { s with ring, collector := popped ring }
  | .counting => some { s with collector := .scanning, framesSent := s.framesSent+1 }

def step (c : Capacity) (s : Publication) (act : Act) : Option Publication :=
  match act,s.owner with
  | .collect,_ => s.collect c
  | .flush frame,.idle => s.tryPush frame
  | .push,.pushing frame =>
    (s.ring.produce c).map fun ring => { s with ring, owner := pushed frame ring }
  | .retry,.retrying frame => if s.collectorDone then none else s.tryPush frame
  | .count,.counting => some { s with owner := .idle, framesQueued := s.framesQueued+1 }
  | .wait,.idle => some { s with owner := .polling s.framesQueued }
  | .poll,.polling expected =>
    if s.framesSent = expected then some { s with owner := .drained }
    else if s.collectorDone then none else some s
  | .send header last,.drained =>
    some { s with pipe := s.pipe ++ header.toList, owner := if last then .ended else .idle }
  | .finish,.ended => some { s with collectorDone := true }
  | _,_ => none

def run (c : Capacity) : List Act → Publication → Option Publication
  | [], s => some s
  | act::acts, s => (s.step c act).bind (run c acts)

end Publication

def Producer.frame? : Producer → Option Bytes
  | .idle => none
  | .starting frame | .loaded frame _ | .copying frame _ _ | .publishing frame _ => some frame

/-- The frames before the ring, and those the queued count lacks. -/
def Owner.held : Owner → List Bytes × Nat
  | .pushing frame | .retrying frame => ([frame],0)
  | .counting => ([],1)
  | _ => ([],0)

/-- The number of frames sent from the ring, and of those the sent count lacks. -/
def Collector.passed : Collector → Nat × Nat
  | .popping => (1,0)
  | .counting => (0,1)
  | _ => (0,0)

namespace Publication

variable {c : Capacity} {s t : Publication} {past : List Bytes}

def Fits (frame : Bytes) : Prop := frame ≠ [] ∧ frame.length ≤ frameRingMaxBytes

abbrev Empty (s : Publication) : Prop := s.ring.stored.length = s.ring.taken.length

def OwnerHolds (s : Publication) : Prop :=
  match s.owner with
  | .pushing frame => s.ring.producer.frame? = some frame ∧ Fits frame
  | .retrying frame => s.ring.producer = .idle ∧ Fits frame
  | .polling expected => s.ring.producer = .idle ∧ expected = s.framesQueued
  | .drained | .ended => s.ring.producer = .idle ∧ s.Empty
  | _ => s.ring.producer = .idle

def CollectorHolds (s : Publication) : Prop :=
  match s.collector,s.ring.consumer with
  | .sending view,.idle => s.ring.view = some view
  | .looking,.fronting _ | .looking,.viewing _ | .popping,.popping _ | .popping,.releasing _
  | .scanning,.idle | .counting,.idle => True
  | _,_ => False

/-- `past` is what publication to the pipe would have written. -/
structure Sound (c : Capacity) (s : Publication) (past : List Bytes) : Prop where
  ring : Inv c s.ring
  within : s.ring.taken.length+s.collector.passed.1 ≤ s.ring.stored.length
  content : s.pipe ++ s.ring.stored.drop (s.ring.taken.length+s.collector.passed.1) ++
    s.owner.held.1 = past
  queued : s.framesQueued+UInt64.ofNat s.owner.held.2 = UInt64.ofNat s.ring.stored.length
  sent : s.framesSent+UInt64.ofNat s.collector.passed.2 = UInt64.ofNat s.ring.taken.length
  owner : s.OwnerHolds
  collector : s.CollectorHolds
  stopped : s.collectorDone = true → s.owner = .ended

theorem Sound.collect (h : Sound c s past) (hs : s.collect c = some t) : Sound c t past := by
  have hwithin := h.within
  have hcontent := h.content
  have hsent := h.sent
  have howner := h.owner
  have hcollector := h.collector
  unfold CollectorHolds at hcollector
  unfold Publication.collect at hs
  split at hs
  all_goals rename_i hphase; rw [hphase] at hwithin hcontent hsent hcollector
  · obtain ⟨ring,hfront,rfl⟩ := Option.map_eq_some_iff.mp hs
    cases (show Stepped c s.ring .front ring from stepped hfront) with
    | front hidle =>
      exact { h with
        ring := stepped_inv h.ring (.front hidle), within := hwithin, content := hcontent
        sent := hsent, collector := trivial }
  · obtain ⟨ring,hconsume,rfl⟩ := Option.map_eq_some_iff.mp hs
    have hc := consumed hconsume
    have hring := consumed_inv h.ring hc
    cases hc with
    | nothing | present | view =>
      exact { h with
        ring := hring, within := hwithin, content := hcontent, sent := hsent
        collector := by trivial }
    | refused hload | granted hload | release hload => simp [hload] at hcollector
  · obtain ⟨ring,hpop,rfl⟩ := Option.map_eq_some_iff.mp hs
    cases (show Stepped c s.ring .pop ring from stepped hpop) with
    | pop hidle =>
      simp only [hidle] at hcollector
      obtain ⟨hlt,hget⟩ := List.getElem?_eq_some_iff.mp (h.ring.view_bytes hcollector)
      change _ ++ List.drop s.ring.taken.length _ ++ _ = _ at hcontent
      rw [List.drop_eq_getElem_cons hlt,hget] at hcontent
      exact { h with
        ring := stepped_inv h.ring (.pop hidle), within := hlt
        content := by simpa [Collector.passed] using hcontent
        sent := hsent, collector := trivial }
  · obtain ⟨ring,hconsume,rfl⟩ := Option.map_eq_some_iff.mp hs
    have hc := consumed hconsume
    have hring := consumed_inv h.ring hc
    have hread := h.ring.consumer
    unfold ConsumerHolds at hread
    simp only [Collector.passed] at hwithin
    cases hc with
    | nothing hload | present hload | view hload => simp [hload] at hcollector
    | refused hload hnone =>
      -- the frame that was sent is still in the ring
      simp only [hload] at hread
      rw [hread,h.ring.empty_iff] at hnone
      omega
    | granted =>
      exact { h with
        ring := hring, within := hwithin, content := hcontent, sent := hsent, collector := trivial }
    | release =>
      refine { h with
        ring := hring, within := ?_, content := ?_, sent := ?_, owner := ?_, collector := trivial }
      · simpa [popped,Collector.passed] using hwithin
      · simpa [popped,Collector.passed] using hcontent
      · simpa [popped,Collector.passed,UInt64.ofNat_add] using hsent
      · unfold OwnerHolds at howner ⊢
        split at howner <;> simp_all
  · cases hs
    exact { h with
      within := hwithin, content := hcontent, sent := by simpa [Collector.passed] using hsent
      collector := by split at hcollector <;> simp_all [CollectorHolds] }

theorem Sound.pipe_eq (h : Sound c s past) (hempty : s.Empty) (hheld : s.owner.held.1 = []) :
    s.pipe = past := by
  rw [← h.content,hheld,List.append_nil,List.drop_eq_nil_of_le (by omega),List.append_nil]

theorem Sound.tryPush {frame : Bytes} (h : Sound c s past) (hheld : s.owner.held.2 = 0)
    (hdone : s.collectorDone = false) (hs : s.tryPush frame = some t) :
    Sound c t (s.pipe ++ s.ring.stored.drop (s.ring.taken.length+s.collector.passed.1) ++
      [frame]) := by
  obtain ⟨ring,hcall,hs⟩ := Option.bind_eq_some_iff.mp hs
  have hqueued := h.queued
  rw [hheld] at hqueued
  have hstep : Stepped c s.ring (.tryPush (some frame)) ring := stepped hcall
  have hring := stepped_inv h.ring hstep
  cases hstep with
  | reject _ _ hidle => simp [hidle] at hs
  | begin _ hidle =>
    have hfits : Fits frame := by
      simpa [Fits,System.tryPush,hidle] using hcall
    cases hs
    exact ⟨hring,h.within,rfl,hqueued,h.sent,⟨rfl,hfits⟩,h.collector,
      fun hd => by simp [hdone] at hd⟩

theorem Sound.push {frame : Bytes} {ring : System} (h : Sound c s past)
    (howner : s.owner = .pushing frame) (hr : s.ring.produce c = some ring) :
    Sound c { s with ring, owner := pushed frame ring } past := by
  have hp := produced hr
  have hring := produced_inv h.ring hp
  have hphase := h.owner
  have hcontent := h.content
  have hqueued := h.queued
  have hstopped (owner : Owner) (hd : s.collectorDone = true) : owner = .ended := by
    cases howner.symm.trans (h.stopped hd)
  unfold OwnerHolds at hphase
  rw [howner] at hphase hcontent hqueued
  cases hp with
  | load hload | room hload _ | copy hload _ | size hload _ =>
    rw [hload] at hphase
    exact ⟨hring,h.within,hcontent,hqueued,h.sent,hphase,h.collector,hstopped _⟩
  | full => exact ⟨hring,h.within,hcontent,hqueued,h.sent,⟨rfl,hphase.2⟩,h.collector,hstopped _⟩
  | publish hload =>
    rw [hload] at hphase
    cases hphase.1
    refine ⟨hring,?_,?_,?_,h.sent,rfl,h.collector,hstopped _⟩
    · have hwithin := h.within
      simp only [List.length_append,List.length_singleton]
      omega
    · dsimp only
      rw [List.drop_append_of_le_length h.within]
      simpa [pushed,Owner.held] using hcontent
    · simpa [pushed,Owner.held,UInt64.ofNat_add] using hqueued

/-- Equal counters mean an empty ring, although each of them lags behind for a moment. -/
theorem Sound.drained (h : Sound c s past) (hheld : s.owner.held.2 = 0)
    (hequal : s.framesSent = s.framesQueued) : s.Empty := by
  have hqueued := h.queued
  have hsent := h.sent
  have hbounded := h.ring.bounded
  have hordered := h.ring.ordered
  have hvalue := c.bound
  have hlag : s.collector.passed.2 ≤ 1 := by cases s.collector <;> simp [Collector.passed]
  rw [hheld,show UInt64.ofNat 0 = 0 from rfl,UInt64.add_zero] at hqueued
  rw [hequal,hqueued,← UInt64.ofNat_add] at hsent
  have heq := (cursor_eq_iff (by omega) (by omega)).mp hsent.symm
  omega

theorem Sound.step {act : Act} (h : Sound c s past) (hs : s.step c act = some t) :
    Sound c t (past ++ act.written) := by
  have hphase := h.owner
  have hcontent := h.content
  have hqueued := h.queued
  have hstopped := h.stopped
  unfold OwnerHolds at hphase
  unfold Publication.step at hs
  split at hs
  case h_1 => simpa [Act.written] using h.collect hs
  case h_10 => cases hs
  all_goals rename_i howner; rw [howner] at hcontent hqueued hphase hstopped
  case h_2 =>
    change _ ++ [] = _ at hcontent
    rw [← hcontent,List.append_nil]
    exact h.tryPush (by rw [howner]; rfl) (by simpa using hstopped) hs
  case h_8 header last =>
    cases hs
    have hpipe := h.pipe_eq hphase.2 (by rw [howner]; rfl)
    have hle : s.ring.stored.length ≤ s.ring.taken.length+s.collector.passed.1 := by omega
    cases last <;> refine { h with
      content := by simp [hpipe,hle,Owner.held,Act.written]
      queued := hqueued, owner := ?_, stopped := ?_ }
    · exact hphase.1
    · simpa using hstopped
    · exact hphase
    · exact fun _ => rfl
  all_goals simp only [Act.written,List.append_nil]
  · obtain ⟨ring,hr,rfl⟩ := Option.map_eq_some_iff.mp hs
    exact h.push howner hr
  · split_ifs at hs with hdone
    rw [← hcontent]
    exact h.tryPush (by rw [howner]; rfl) (by simpa using hdone) hs
  · cases hs
    exact { h with
      content := hcontent, queued := by simpa [Owner.held] using hqueued, owner := hphase
      stopped := by simpa using hstopped }
  · cases hs
    exact { h with
      content := hcontent, queued := hqueued, owner := ⟨hphase,rfl⟩
      stopped := by simpa using hstopped }
  · split_ifs at hs with hequal hdone <;> cases hs
    · have hdrained := h.drained (by rw [howner]; rfl) (hequal.trans hphase.2)
      exact { h with
        content := hcontent, queued := hqueued, owner := ⟨hphase.1,hdrained⟩
        stopped := by simpa using hstopped }
    · exact h
  · cases hs
    exact { h with stopped := fun _ => howner }

theorem Sound.run {acts : List Act} (h : Sound c s past) (hr : run c acts s = some t) :
    Sound c t (past ++ acts.flatMap Act.written) := by
  induction acts generalizing s past with
  | nil =>
    cases hr
    simpa using h
  | cons act acts ih =>
    obtain ⟨u,hs,hr⟩ := Option.bind_eq_some_iff.mp hr
    simpa using ih (h.step hs) hr

theorem sound_start (c : Capacity) (slots : Nat → Slot) :
    Sound c { ring := start slots } [] :=
  ⟨inv_start c slots,le_rfl,rfl,rfl,rfl,rfl,trivial,fun h => by cases h⟩

/-- In every interleaving the pipe holds what direct publication writes, up to what is still on its
way; at the end of a wait, and once the collector is told to stop, nothing is. -/
theorem publication_ordered (c : Capacity) (slots : Nat → Slot) (acts : List Act)
    (s : Publication) (hrun : run c acts { ring := start slots } = some s) :
    s.pipe <+: acts.flatMap Act.written ∧
    (s.owner = .drained ∨ s.owner = .ended →
      s.pipe = acts.flatMap Act.written ∧ s.ring.taken = s.ring.stored) ∧
    (s.collectorDone = true → s.owner = .ended) := by
  have h : Sound c s (acts.flatMap Act.written) := (sound_start c slots).run hrun
  have howner := h.owner
  refine ⟨?_,fun hwaited => ?_,h.stopped⟩
  · rw [← h.content,List.append_assoc]
    exact List.prefix_append _ _
  · have hempty : s.Empty ∧ s.owner.held.1 = [] := by
      unfold OwnerHolds at howner
      rcases hwaited with hw | hw <;> rw [hw] at howner ⊢ <;> exact ⟨howner.2,rfl⟩
    refine ⟨h.pipe_eq hempty.1 hempty.2,?_⟩
    rw [h.ring.taken,← hempty.1,List.take_length]

/-- The collector sends a frame before its owner has counted it. -/
private def earlySend : List Act :=
  [.flush [7],.push,.push,.push,.push,.push] ++ List.replicate 7 .collect ++
    [.count,.wait,.poll,.send (some [9]) true,.finish]

theorem publication_ordered_early :
    ∃ s, run pairCapacity earlySend { ring := start fun _ => ⟨0,fun _ => 0⟩ } = some s ∧
      s.collectorDone = true ∧ s.pipe = [[7],[9]] := by
  have h := publication_ordered pairCapacity (fun _ => ⟨0,fun _ => 0⟩) earlySend _ rfl
  exact ⟨_,rfl,rfl,(h.2.1 (.inr rfl)).1⟩

@[simp] def ownerWork (s : Publication) : Nat :=
  match s.owner,s.ring.producer with
  | .retrying frame,_ => frame.length+6
  | .pushing _,.starting frame => frame.length+5
  | .pushing _,.loaded frame _ => frame.length+4
  | .pushing _,.copying frame _ copied => frame.length-copied+2
  | .pushing _,.publishing _ _ => 1
  | _,_ => 0

@[simp] def collectorWork (s : Publication) : Nat :=
  match s.collector,s.ring.consumer with
  | .counting,_ => 8
  | .scanning,_ => 7
  | .looking,.fronting _ => 6
  | .looking,_ => 5
  | .sending _,_ => 4
  | .popping,.popping _ => 3
  | .popping,_ => 2

def work (s : Publication) : Nat :=
  32*s.ownerWork+8*(s.ring.stored.length-s.ring.taken.length)+s.collectorWork

def Advances (c : Capacity) (s : Publication) : Prop :=
  ∃ act t, act.written = [] ∧ s.step c act = some t ∧ t.collectorDone = s.collectorDone ∧
    t.work < s.work

/-- While a frame is in the ring or not counted, the collector gets on. -/
theorem Sound.collects (h : Sound c s past)
    (hwork : s.ring.taken.length < s.ring.stored.length ∨ s.collector = .counting) :
    Advances c s := by
  have hcollector := h.collector
  have hread := h.ring.consumer
  have hsome (hlt : s.ring.taken.length < s.ring.stored.length) :
      UInt64.ofNat s.ring.taken.length ≠ s.ring.ring.producer := by
    rw [Ne,h.ring.empty_iff]
    omega
  unfold CollectorHolds at hcollector
  unfold ConsumerHolds at hread
  refine ⟨.collect,?_⟩
  cases hphase : s.collector <;> cases hload : s.ring.consumer <;>
    simp only [hphase,hload,reduceCtorEq,or_false] at hcollector hread hwork <;>
    simp only [Act.written,true_and,Publication.step,Publication.collect,System.front,System.pop,
      System.consume,hphase,hload,Option.map_some,Option.some.injEq,exists_eq_left',work]
  case looking.fronting | popping.popping =>
    simp [hread,hsome hwork,looked,popped,hphase,hload]
  case popping.releasing =>
    simp [popped,hphase,hload]
    omega
  all_goals simp [looked,hphase,hload]

theorem Sound.pushes (h : Sound c s past) (hempty : s.Empty) (hheld : s.owner.held.1 ≠ []) :
    Advances c s := by
  have howner := h.owner
  have hproducer := h.ring.producer
  unfold OwnerHolds at howner
  unfold ProducerHolds at hproducer
  cases hphase : s.owner with
  | pushing frame =>
    refine ⟨.push,?_⟩
    cases hload : s.ring.producer <;> simp only [hphase,hload] at howner hproducer <;>
      simp only [Act.written,Publication.step,hphase,System.produce,hload,work]
    case idle => cases howner.1
    case copying frame write copied =>
      cases hbyte : frame[copied]? with
      | some byte =>
        have hlt := (List.getElem?_eq_some_iff.mp hbyte).1
        simp [pushed,hphase,hload,System.setSlot]
        omega
      | none =>
        simp [pushed,hphase,hload,System.setSlot]
        omega
    case loaded =>
      have hroom := h.ring.full_iff.not.mpr (by have := c.nonzero; omega)
      simp [hproducer,hroom,pushed,hphase,hload]
    case starting => simp [pushed,hphase,hload]
    case publishing =>
      simp [pushed,hphase,hload]
      omega
  | retrying frame =>
    rw [hphase] at howner
    obtain ⟨hidle,hframe,hsize⟩ := howner
    have hdone : s.collectorDone = false := by
      have hstopped := h.stopped
      simpa [hphase] using hstopped
    refine ⟨.retry,?_⟩
    simp [Act.written,Publication.step,hphase,work,Publication.tryPush,
      System.tryPush,hidle,hdone,hframe,Nat.not_lt.mpr hsize]
  | _ => simp [hphase,Owner.held] at hheld

/-- Without new frames, `frames` can get into the pipe and the owner's call can return, before the
collector is told to stop. -/
def CanDeliver (c : Capacity) (s : Publication) (frames : List Bytes) : Prop :=
  ∃ later t, run c later s = some t ∧ later.flatMap Act.written = [] ∧
    t.collectorDone = s.collectorDone ∧ (s.collectorDone = true → later = []) ∧ t.pipe = frames ∧
    (t.owner = .idle ∨ t.owner = .drained ∨ t.owner = .ended)

/-- Once nothing is on its way, the owner's call returns. -/
theorem Sound.returns (h : Sound c s past) (hempty : s.Empty) (hheld : s.owner.held.1 = [])
    (hcounted : s.collector ≠ .counting) (hdone : s.collectorDone = false) :
    CanDeliver c s s.pipe := by
  have howner := h.owner
  have hqueued := h.queued
  have hsent := h.sent
  unfold OwnerHolds at howner
  cases hphase : s.owner with
  | idle | drained | ended => exact ⟨[],s,rfl,rfl,rfl,fun _ => rfl,rfl,by simp [hphase]⟩
  | counting =>
    exact ⟨[.count],{ s with owner := .idle, framesQueued := s.framesQueued+1 },
      by simp [Publication.run,Publication.step,hphase],rfl,rfl,by simp [hdone],rfl,.inl rfl⟩
  | polling expected =>
    rw [hphase] at howner hqueued
    have hpassed : s.collector.passed.2 = 0 := by
      cases hc : s.collector <;> first | rfl | exact absurd hc hcounted
    have hequal : s.framesSent = expected := by
      rw [howner.2]
      simpa [hpassed,Owner.held,← hempty,← hqueued] using hsent
    exact ⟨[.poll],{ s with owner := .drained },
      by simp [Publication.run,Publication.step,hphase,hequal],rfl,rfl,by simp [hdone],rfl,
      .inr (.inl rfl)⟩
  | pushing | retrying => simp [hphase,Owner.held] at hheld

theorem Sound.progress (h : Sound c s past) :
    CanDeliver c s past ∨ s.collectorDone = false ∧ Advances c s := by
  cases hdone : s.collectorDone with
  | true =>
    have hended := h.stopped hdone
    have howner := h.owner
    rw [OwnerHolds,hended] at howner
    have hpipe := h.pipe_eq howner.2 (by rw [hended]; rfl)
    exact .inl ⟨[],s,rfl,rfl,rfl,fun _ => rfl,hpipe,.inr (.inr hended)⟩
  | false =>
    by_cases hbusy : s.ring.taken.length < s.ring.stored.length ∨ s.collector = .counting
    · exact .inr ⟨rfl,h.collects hbusy⟩
    · rw [not_or] at hbusy
      have hempty := Nat.le_antisymm (Nat.not_lt.mp hbusy.1) h.ring.ordered
      by_cases hheld : s.owner.held.1 = []
      · rw [← h.pipe_eq hempty hheld]
        exact .inl (h.returns hempty hheld hbusy.2 hdone)
      · exact .inr ⟨rfl,h.pushes hempty hheld⟩

theorem Sound.delivers (h : Sound c s past) : CanDeliver c s past := by
  induction hn : s.work using Nat.strong_induction_on generalizing s with
  | _ n ih =>
  rcases h.progress with hend | ⟨hdone,act,t,hact,hs,hsame,hlt⟩
  · exact hend
  · have ht := h.step hs
    rw [hact,List.append_nil] at ht
    obtain ⟨later,u,hr,hlater,hkept,-,hu⟩ := ih t.work (hn ▸ hlt) ht rfl
    refine ⟨act::later,u,?_,by simp [hact,hlater],hkept.trans hsame,by simp [hdone],hu⟩
    rw [Publication.run,hs]
    exact hr

/-- From every reachable state every frame can get into the pipe and the owner's call can return: no
wait is a deadlock. -/
theorem publication_delivers (c : Capacity) (slots : Nat → Slot) (acts : List Act)
    (s : Publication) (hrun : run c acts { ring := start slots } = some s) :
    CanDeliver c s (acts.flatMap Act.written) :=
  ((sound_start c slots).run hrun).delivers

/-- The third frame meets a full ring. -/
private def thirdFrame : List Act :=
  [.flush [1],.push,.push,.push,.push,.push,.count,.flush [2],.push,.push,.push,.push,.push,.count,
    .flush [3],.push,.push]

theorem publication_delivers_full :
    ∃ s, run pairCapacity thirdFrame { ring := start fun _ => ⟨0,fun _ => 0⟩ } = some s ∧
      s.owner = .retrying [3] ∧ CanDeliver pairCapacity s [[1],[2],[3]] :=
  ⟨_,rfl,rfl,publication_delivers pairCapacity (fun _ => ⟨0,fun _ => 0⟩) thirdFrame _ rfl⟩

end Publication

end Cpu2Tensor.Ring
