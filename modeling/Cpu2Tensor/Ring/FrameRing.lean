import Cpu2Tensor.Library.Bytes
import Cpu2Tensor.Library.Ring

/-!
# The frame ring

`FrameRing`: one producer calls `try_push`, one consumer calls `front` and `pop`.  Every access
to shared memory is a step of its own: the cursor loads, each byte of the copy, the length, the
two cursor stores.  A run is any interleaving of the two threads' steps.
-/

namespace Cpu2Tensor.Ring
open Library

def frameRingMaxBytes : Nat := 4096

/-- The template arguments the static assertions let through. -/
structure Capacity where
  value : Nat
  nonzero : value ≠ 0
  power : value &&& (value-1) = 0
  bound : value ≤ (2^64-1)/2

structure Slot where
  size : Nat
  data : Nat → UInt8

structure FrameView where
  slot : Nat
  size : Nat
  deriving DecidableEq, Repr

structure FrameRing where
  producer : UInt64 := 0
  consumer : UInt64 := 0
  slots : Nat → Slot

inductive FramePush
  | stored
  | full
  deriving DecidableEq, Repr

def Capacity.index (c : Capacity) (position : UInt64) : Nat :=
  (position &&& (UInt64.ofNat c.value - 1)).toNat

def FrameRing.bytes (ring : FrameRing) (view : FrameView) : Bytes :=
  (List.range view.size).map (ring.slots view.slot).data

/-- The next access of `try_push`. -/
inductive Producer
  | idle
  | starting (frame : Bytes)
  | loaded (frame : Bytes) (write : UInt64)
  | copying (frame : Bytes) (write : UInt64) (copied : Nat)
  | publishing (frame : Bytes) (write : UInt64)

/-- The next access of `front` or `pop`. -/
inductive Consumer
  | idle
  | fronting (read : UInt64)
  | viewing (read : UInt64)
  | popping (read : UInt64)
  | releasing (read : UInt64)

structure System where
  ring : FrameRing
  producer : Producer := .idle
  consumer : Consumer := .idle
  /-- What the last `try_push` returned, once it has. -/
  answer : Option (Except String FramePush) := none
  /-- What `front` returned since the last successful `pop`. -/
  view : Option FrameView := none
  /-- Frames for which `try_push` returned stored. -/
  stored : List Bytes := []
  /-- Frames seen at the successful pops. -/
  taken : List Bytes := []

def System.setSlot (s : System) (index : Nat) (slot : Slot) : System :=
  { s with ring := { s.ring with slots := Function.update s.ring.slots index slot } }

/-- The argument check of `try_push`; a null pointer is `none`. -/
def System.tryPush (s : System) (data : Option Bytes) : Option System :=
  match s.producer with
  | .idle =>
    match data with
    | none =>
      some { s with answer := some (.error "frame size must be between 1 and 4096 bytes") }
    | some frame =>
      if frame.length = 0 ∨ frame.length > frameRingMaxBytes then
        some { s with answer := some (.error "frame size must be between 1 and 4096 bytes") }
      else some { s with producer := .starting frame, answer := none }
  | _ => none

def System.produce (c : Capacity) (s : System) : Option System :=
  match s.producer with
  | .idle => none
  | .starting frame => some { s with producer := .loaded frame s.ring.producer }
  | .loaded frame write =>
    if write - s.ring.consumer = UInt64.ofNat c.value then
      some { s with producer := .idle, answer := some (.ok .full) }
    else some { s with producer := .copying frame write 0 }
  | .copying frame write copied =>
    let index := c.index write
    let slot := s.ring.slots index
    match frame[copied]? with
    | some byte =>
      some { s.setSlot index { slot with data := Function.update slot.data copied byte } with
        producer := .copying frame write (copied+1) }
    | none =>
      some { s.setSlot index { slot with size := frame.length } with
        producer := .publishing frame write }
  | .publishing frame write =>
    some { s with
      ring := { s.ring with producer := write+1 }
      producer := .idle
      answer := some (.ok .stored)
      stored := s.stored ++ [frame] }

def System.front (s : System) : Option System :=
  match s.consumer with
  | .idle => some { s with consumer := .fronting s.ring.consumer }
  | _ => none

def System.pop (s : System) : Option System :=
  match s.consumer with
  | .idle => some { s with consumer := .popping s.ring.consumer }
  | _ => none

def System.consume (c : Capacity) (s : System) : Option System :=
  match s.consumer with
  | .idle => none
  | .fronting read =>
    if read = s.ring.producer then some { s with consumer := .idle, view := none }
    else some { s with consumer := .viewing read }
  | .viewing read =>
    let index := c.index read
    some { s with consumer := .idle, view := some ⟨index,(s.ring.slots index).size⟩ }
  | .popping read =>
    if read = s.ring.producer then some { s with consumer := .idle }
    else some { s with consumer := .releasing read }
  | .releasing read =>
    let index := c.index read
    let view := s.view.getD ⟨index,(s.ring.slots index).size⟩
    some { s with
      ring := { s.ring with consumer := read+1 }
      consumer := .idle
      view := none
      taken := s.taken ++ [s.ring.bytes view] }

inductive Label
  | tryPush (data : Option Bytes)
  | produce
  | front
  | pop
  | consume
  deriving DecidableEq, Repr

def step (c : Capacity) (s : System) : Label → Option System
  | .tryPush data => s.tryPush data
  | .produce => s.produce c
  | .front => s.front
  | .pop => s.pop
  | .consume => s.consume c

def run (c : Capacity) : List Label → System → Option System
  | [], s => some s
  | label::labels, s => (step c s label).bind (run c labels)

/-- A new ring; its slots hold whatever the memory held. -/
def start (slots : Nat → Slot) : System := { ring := { slots } }

section Steps

variable {c : Capacity} {s t : System}

inductive Produced (c : Capacity) (s : System) : System → Prop
  | load {frame : Bytes} (hphase : s.producer = .starting frame) :
    Produced c s { s with producer := .loaded frame s.ring.producer }
  | full {frame : Bytes} {write : UInt64} (hphase : s.producer = .loaded frame write)
      (hfull : write - s.ring.consumer = UInt64.ofNat c.value) :
    Produced c s { s with producer := .idle, answer := some (.ok .full) }
  | room {frame : Bytes} {write : UInt64} (hphase : s.producer = .loaded frame write)
      (hroom : write - s.ring.consumer ≠ UInt64.ofNat c.value) :
    Produced c s { s with producer := .copying frame write 0 }
  | copy {frame : Bytes} {write : UInt64} {copied : Nat} {byte : UInt8}
      (hphase : s.producer = .copying frame write copied) (hbyte : frame[copied]? = some byte) :
    Produced c s { s.setSlot (c.index write)
      { s.ring.slots (c.index write) with
        data := Function.update (s.ring.slots (c.index write)).data copied byte } with
      producer := .copying frame write (copied+1) }
  | size {frame : Bytes} {write : UInt64} {copied : Nat}
      (hphase : s.producer = .copying frame write copied) (hend : frame[copied]? = none) :
    Produced c s { s.setSlot (c.index write)
      { s.ring.slots (c.index write) with size := frame.length } with
      producer := .publishing frame write }
  | publish {frame : Bytes} {write : UInt64} (hphase : s.producer = .publishing frame write) :
    Produced c s { s with
      ring := { s.ring with producer := write+1 }
      producer := .idle
      answer := some (.ok .stored)
      stored := s.stored ++ [frame] }

theorem produced (hs : s.produce c = some t) : Produced c s t := by
  unfold System.produce at hs
  split at hs
  · cases hs
  · rename_i hphase
    cases hs
    exact .load hphase
  · rename_i hphase
    split at hs
    · rename_i hfull
      cases hs
      exact .full hphase hfull
    · rename_i hroom
      cases hs
      exact .room hphase hroom
  · rename_i hphase
    dsimp only at hs
    split at hs
    · rename_i hbyte
      cases hs
      exact .copy hphase hbyte
    · rename_i hend
      cases hs
      exact .size hphase hend
  · rename_i hphase
    cases hs
    exact .publish hphase

/-- The accesses of `front` and `pop` after the load of the consumer's own cursor. -/
inductive Consumed (c : Capacity) (s : System) : System → Prop
  | nothing {read : UInt64} (hphase : s.consumer = .fronting read)
      (hempty : read = s.ring.producer) :
    Consumed c s { s with consumer := .idle, view := none }
  | present {read : UInt64} (hphase : s.consumer = .fronting read)
      (hsome : read ≠ s.ring.producer) :
    Consumed c s { s with consumer := .viewing read }
  | view {read : UInt64} (hphase : s.consumer = .viewing read) :
    Consumed c s { s with
      consumer := .idle
      view := some ⟨c.index read,(s.ring.slots (c.index read)).size⟩ }
  | refused {read : UInt64} (hphase : s.consumer = .popping read)
      (hempty : read = s.ring.producer) :
    Consumed c s { s with consumer := .idle }
  | granted {read : UInt64} (hphase : s.consumer = .popping read)
      (hsome : read ≠ s.ring.producer) :
    Consumed c s { s with consumer := .releasing read }
  | release {read : UInt64} (hphase : s.consumer = .releasing read) :
    Consumed c s { s with
      ring := { s.ring with consumer := read+1 }
      consumer := .idle
      view := none
      taken := s.taken ++
        [s.ring.bytes (s.view.getD ⟨c.index read,(s.ring.slots (c.index read)).size⟩)] }

theorem consumed (hs : s.consume c = some t) : Consumed c s t := by
  unfold System.consume at hs
  split at hs
  · cases hs
  · rename_i hphase
    split at hs
    · rename_i hempty
      cases hs
      exact .nothing hphase hempty
    · rename_i hsome
      cases hs
      exact .present hphase hsome
  · rename_i hphase
    cases hs
    exact .view hphase
  · rename_i hphase
    split at hs
    · rename_i hempty
      cases hs
      exact .refused hphase hempty
    · rename_i hsome
      cases hs
      exact .granted hphase hsome
  · rename_i hphase
    cases hs
    exact .release hphase

inductive Stepped (c : Capacity) (s : System) : Label → System → Prop
  | reject (data : Option Bytes) (message : String) (hidle : s.producer = .idle) :
    Stepped c s (.tryPush data) { s with answer := some (.error message) }
  | begin (frame : Bytes) (hidle : s.producer = .idle) :
    Stepped c s (.tryPush (some frame)) { s with producer := .starting frame, answer := none }
  | produce {t : System} (hp : Produced c s t) : Stepped c s .produce t
  | front (hidle : s.consumer = .idle) :
    Stepped c s .front { s with consumer := .fronting s.ring.consumer }
  | pop (hidle : s.consumer = .idle) :
    Stepped c s .pop { s with consumer := .popping s.ring.consumer }
  | consume {t : System} (hc : Consumed c s t) : Stepped c s .consume t

theorem stepped {label : Label} (hs : step c s label = some t) : Stepped c s label t := by
  cases label with
  | tryPush data =>
    simp only [step,System.tryPush] at hs
    split at hs
    · rename_i hidle
      split at hs
      · cases hs
        exact .reject _ _ hidle
      · split at hs
        · cases hs
          exact .reject _ _ hidle
        · cases hs
          exact .begin _ hidle
    · cases hs
  | produce => exact .produce (produced hs)
  | front =>
    simp only [step,System.front] at hs
    split at hs
    · rename_i hidle
      cases hs
      exact .front hidle
    · cases hs
  | pop =>
    simp only [step,System.pop] at hs
    split at hs
    · rename_i hidle
      cases hs
      exact .pop hidle
    · cases hs
  | consume => exact .consume (consumed hs)

end Steps

def Stores (slot : Slot) (frame : Bytes) : Prop :=
  slot.size = frame.length ∧ (List.range frame.length).map slot.data = frame

section Invariant

variable {c : Capacity} {s t : System}

theorem Capacity.exists_exponent (c : Capacity) : ∃ k < 64, c.value = 2^k := by
  obtain ⟨k,hk⟩ := (Nat.and_sub_one_eq_zero_iff_isPowerOfTwo c.nonzero).mp c.power
  refine ⟨k,?_,hk⟩
  have hb := c.bound
  rw [hk] at hb
  exact (Nat.pow_lt_pow_iff_right (by omega : 1 < 2)).mp (lt_of_le_of_lt hb (by norm_num))

theorem Capacity.index_ofNat (c : Capacity) (position : Nat) :
    c.index (UInt64.ofNat position) = position % c.value := by
  obtain ⟨k,hk,hc⟩ := c.exists_exponent
  rw [Capacity.index,hc]
  exact cursor_mask hk position

/-- What the producer's place in `try_push` says about its slot. -/
def ProducerHolds (c : Capacity) (s : System) : Prop :=
  match s.producer with
  | .idle | .starting _ => True
  | .loaded _ write => write = UInt64.ofNat s.stored.length
  | .copying frame write copied =>
    write = UInt64.ofNat s.stored.length ∧ s.stored.length < s.taken.length + c.value ∧
      copied ≤ frame.length ∧
      (List.range copied).map (s.ring.slots (s.stored.length % c.value)).data = frame.take copied
  | .publishing frame write =>
    write = UInt64.ofNat s.stored.length ∧ s.stored.length < s.taken.length + c.value ∧
      Stores (s.ring.slots (s.stored.length % c.value)) frame

/-- What the consumer's place in `front` or `pop` says about the oldest frame. -/
def ConsumerHolds (s : System) : Prop :=
  match s.consumer with
  | .idle => True
  | .fronting read | .popping read => read = UInt64.ofNat s.taken.length
  | .viewing read | .releasing read =>
    read = UInt64.ofNat s.taken.length ∧ s.taken.length < s.stored.length

def ViewHolds (c : Capacity) (s : System) : Prop :=
  ∀ view, s.view = some view → view.slot = s.taken.length % c.value ∧
    ∃ frame, s.stored[s.taken.length]? = some frame ∧ view.size = frame.length

structure Inv (c : Capacity) (s : System) : Prop where
  written : s.ring.producer = UInt64.ofNat s.stored.length
  read : s.ring.consumer = UInt64.ofNat s.taken.length
  ordered : s.taken.length ≤ s.stored.length
  bounded : s.stored.length ≤ s.taken.length + c.value
  taken : s.taken = s.stored.take s.taken.length
  window : Window Stores c.value s.ring.slots s.stored s.taken.length
  producer : ProducerHolds c s
  consumer : ConsumerHolds s
  view : ViewHolds c s

theorem inv_start (c : Capacity) (slots : Nat → Slot) : Inv c (start slots) where
  written := rfl
  read := rfl
  ordered := le_rfl
  bounded := Nat.zero_le _
  taken := rfl
  window := window_nil _
  producer := trivial
  consumer := trivial
  view := fun _ h => by cases h

theorem Capacity.value_lt (c : Capacity) : c.value < 2^64 := by
  have hb := c.bound
  omega

theorem Inv.full_iff (hi : Inv c s) :
    UInt64.ofNat s.stored.length - s.ring.consumer = UInt64.ofNat c.value ↔
      s.stored.length = s.taken.length + c.value := by
  have hc := c.value_lt
  have hb := hi.bounded
  have ho := hi.ordered
  rw [hi.read,cursor_sub_eq_iff ho (by omega) hc]
  omega

theorem Inv.empty_iff (hi : Inv c s) :
    UInt64.ofNat s.taken.length = s.ring.producer ↔ s.taken.length = s.stored.length := by
  have hc := c.value_lt
  have hb := hi.bounded
  rw [hi.written]
  exact cursor_eq_iff hi.ordered (by omega)

theorem Inv.oldest (hi : Inv c s) (hlt : s.taken.length < s.stored.length) :
    ∃ frame, s.stored[s.taken.length]? = some frame ∧
      Stores (s.ring.slots (s.taken.length % c.value)) frame :=
  ⟨_,List.getElem?_eq_getElem hlt,hi.window _ _ le_rfl (List.getElem?_eq_getElem hlt)⟩

theorem Inv.view_bytes (hi : Inv c s) {view : FrameView} (hv : s.view = some view) :
    s.stored[s.taken.length]? = some (s.ring.bytes view) := by
  obtain ⟨hslot,frame,hframe,hsize⟩ := hi.view view hv
  have hstores := hi.window _ _ le_rfl hframe
  rw [FrameRing.bytes,hslot,hsize,hstores.2]
  exact hframe

theorem Inv.released (hi : Inv c s) (hlt : s.taken.length < s.stored.length) :
    ∃ frame, s.stored[s.taken.length]? = some frame ∧
      s.ring.bytes (s.view.getD ⟨c.index (UInt64.ofNat s.taken.length),
        (s.ring.slots (c.index (UInt64.ofNat s.taken.length))).size⟩) = frame := by
  obtain ⟨frame,hframe,hstores⟩ := hi.oldest hlt
  refine ⟨frame,hframe,?_⟩
  cases hv : s.view with
  | none =>
    rw [Option.getD_none,FrameRing.bytes,c.index_ofNat,hstores.1]
    exact hstores.2
  | some view =>
    have hbytes := hi.view_bytes hv
    rw [hframe] at hbytes
    exact (Option.some.inj hbytes).symm

theorem ConsumerHolds.grow (hc : ConsumerHolds s) (hs : s.stored.length ≤ t.stored.length)
    (ht : t.taken = s.taken) (hphase : t.consumer = s.consumer) : ConsumerHolds t := by
  unfold ConsumerHolds at *
  rw [hphase,ht]
  split at hc <;> simp_all
  all_goals omega

theorem ViewHolds.grow (hv : ViewHolds c s) (hs : s.stored <+: t.stored) (ht : t.taken = s.taken)
    (hview : t.view = s.view) : ViewHolds c t := by
  intro view hsome
  rw [hview] at hsome
  obtain ⟨hslot,frame,hframe,hsize⟩ := hv view hsome
  obtain ⟨rest,hrest⟩ := hs
  rw [ht,← hrest]
  refine ⟨hslot,frame,?_,hsize⟩
  rw [List.getElem?_append_left (List.getElem?_eq_some_iff.mp hframe).1]
  exact hframe

theorem ProducerHolds.pop (hp : ProducerHolds c s) (ht : s.taken.length ≤ t.taken.length)
    (hs : t.stored = s.stored) (hphase : t.producer = s.producer)
    (hslots : t.ring.slots = s.ring.slots) : ProducerHolds c t := by
  unfold ProducerHolds at *
  rw [hphase,hs,hslots]
  split at hp <;> simp_all
  all_goals omega

private theorem range_map_update {data : Nat → UInt8} {frame : Bytes} {copied : Nat} {byte : UInt8}
    (hcopied : (List.range copied).map data = frame.take copied)
    (hbyte : frame[copied]? = some byte) :
    (List.range (copied+1)).map (Function.update data copied byte) = frame.take (copied+1) := by
  have hkeep : (List.range copied).map (Function.update data copied byte) =
      (List.range copied).map data := by
    apply List.map_congr_left
    intro i hi
    exact Function.update_of_ne (by simpa using (List.mem_range.mp hi).ne) _ _
  rw [List.range_succ,List.map_append,hkeep,hcopied,List.take_add_one,hbyte]
  simp

theorem produced_inv (hi : Inv c s) (hs : Produced c s t) : Inv c t := by
  have hp := hi.producer
  unfold ProducerHolds at hp
  cases hs with
  | load hphase => exact { hi with producer := hi.written }
  | full hphase hfull => exact { hi with producer := trivial }
  | room hphase hroom =>
    rw [hphase] at hp
    obtain rfl := hp
    rw [Ne,hi.full_iff] at hroom
    exact { hi with producer :=
      ⟨rfl,lt_of_le_of_ne hi.bounded hroom,Nat.zero_le _,by simp⟩ }
  | copy hphase hbyte =>
    rw [hphase] at hp
    obtain ⟨rfl,hroom,hle,hcopied⟩ := hp
    rw [c.index_ofNat]
    refine { hi with window := hi.window.write hroom _, producer := ⟨rfl,hroom,?_,?_⟩ }
    · exact (List.getElem?_eq_some_iff.mp hbyte).1
    · dsimp only [System.setSlot]
      rw [Function.update_self]
      exact range_map_update hcopied hbyte
  | @size frame write copied hphase hend =>
    rw [hphase] at hp
    obtain ⟨rfl,hroom,hle,hcopied⟩ := hp
    rw [c.index_ofNat]
    refine { hi with window := hi.window.write hroom _, producer := ⟨rfl,hroom,?_⟩ }
    dsimp only [System.setSlot]
    rw [Function.update_self]
    have heq : copied = frame.length := le_antisymm hle (List.getElem?_eq_none_iff.mp hend)
    rw [heq,List.take_length] at hcopied
    exact ⟨rfl,hcopied⟩
  | publish hphase =>
    rw [hphase] at hp
    obtain ⟨rfl,hroom,hstores⟩ := hp
    have ho := hi.ordered
    refine
      { written := ?_, read := hi.read, ordered := ?_, bounded := ?_, taken := ?_
        window := hi.window.publish hstores, producer := trivial, consumer := ?_, view := ?_ }
    · simp only [List.length_append,List.length_singleton,UInt64.ofNat_add]
      rfl
    · simp only [List.length_append,List.length_singleton]
      omega
    · simp only [List.length_append,List.length_singleton]
      omega
    · dsimp only
      rw [List.take_append_of_le_length ho]
      exact hi.taken
    · exact hi.consumer.grow (by simp) rfl rfl
    · exact hi.view.grow (List.prefix_append _ _) rfl rfl

theorem consumed_inv (hi : Inv c s) (hs : Consumed c s t) : Inv c t := by
  have hc := hi.consumer
  unfold ConsumerHolds at hc
  cases hs with
  | nothing hphase hempty =>
    exact { hi with consumer := trivial, view := fun _ h => by cases h }
  | present hphase hsome =>
    rw [hphase] at hc
    obtain rfl := hc
    rw [Ne,hi.empty_iff] at hsome
    exact { hi with consumer := ⟨rfl,lt_of_le_of_ne hi.ordered hsome⟩ }
  | view hphase =>
    rw [hphase] at hc
    obtain ⟨rfl,hlt⟩ := hc
    refine { hi with consumer := trivial, view := ?_ }
    intro view hview
    cases hview
    obtain ⟨frame,hframe,hstores⟩ := hi.oldest hlt
    rw [c.index_ofNat]
    exact ⟨rfl,frame,hframe,hstores.1⟩
  | refused hphase hempty => exact { hi with consumer := trivial }
  | granted hphase hsome =>
    rw [hphase] at hc
    obtain rfl := hc
    rw [Ne,hi.empty_iff] at hsome
    exact { hi with consumer := ⟨rfl,lt_of_le_of_ne hi.ordered hsome⟩ }
  | release hphase =>
    rw [hphase] at hc
    obtain ⟨rfl,hlt⟩ := hc
    obtain ⟨frame,hframe,hseen⟩ := hi.released hlt
    rw [hseen]
    have hb := hi.bounded
    refine
      { written := hi.written, read := ?_, ordered := ?_, bounded := ?_, taken := ?_
        window := ?_, producer := ?_, consumer := trivial, view := fun _ h => by cases h }
    · simp only [List.length_append,List.length_singleton,UInt64.ofNat_add]
      rfl
    · simp only [List.length_append,List.length_singleton]
      omega
    · simp only [List.length_append,List.length_singleton]
      omega
    · simp only [List.length_append,List.length_singleton]
      rw [List.take_add_one,hframe,← hi.taken]
      rfl
    · simp only [List.length_append,List.length_singleton]
      exact hi.window.release
    · exact hi.producer.pop (by simp) rfl rfl rfl

theorem stepped_inv {label : Label} (hi : Inv c s) (hs : Stepped c s label t) : Inv c t := by
  cases hs with
  | reject _ _ hidle => exact { hi with producer := hi.producer }
  | begin _ hidle => exact { hi with producer := trivial }
  | produce hp => exact produced_inv hi hp
  | front hidle => exact { hi with consumer := hi.read }
  | pop hidle => exact { hi with consumer := hi.read }
  | consume hc => exact consumed_inv hi hc

theorem run_inv {labels : List Label} (hi : Inv c s) (hr : run c labels s = some t) : Inv c t := by
  induction labels generalizing s with
  | nil =>
    cases hr
    exact hi
  | cons label labels ih =>
    obtain ⟨u,hs,hr⟩ := Option.bind_eq_some_iff.mp hr
    exact ih (stepped_inv hi (stepped hs)) hr

end Invariant

section Views

variable {c : Capacity} {s t : System}

theorem stepped_view {view : FrameView} {label : Label} (hi : Inv c s) (hv : s.view = some view)
    (hs : Stepped c s label t) (ht : t.taken.length = s.taken.length) :
    t.view = some view ∧ t.ring.slots view.slot = s.ring.slots view.slot := by
  obtain ⟨hslot,frame,hframe,hsize⟩ := hi.view view hv
  have hlt := (List.getElem?_eq_some_iff.mp hframe).1
  cases hs with
  | reject _ _ hidle => exact ⟨hv,rfl⟩
  | begin _ hidle => exact ⟨hv,rfl⟩
  | front hidle => exact ⟨hv,rfl⟩
  | pop hidle => exact ⟨hv,rfl⟩
  | produce hp =>
    -- The producer writes the slot of the next frame, which is not the oldest one's.
    have hwrites (write : UInt64) (slot : Slot) (hw : write = UInt64.ofNat s.stored.length)
        (hroom : s.stored.length < s.taken.length + c.value) :
        (s.setSlot (c.index write) slot).ring.slots view.slot = s.ring.slots view.slot := by
      dsimp only [System.setSlot]
      rw [hw,c.index_ofNat,hslot,Function.update_of_ne (slot_ne hlt hroom)]
    have hphases := hi.producer
    unfold ProducerHolds at hphases
    cases hp with
    | load hphase => exact ⟨hv,rfl⟩
    | full hphase hfull => exact ⟨hv,rfl⟩
    | room hphase hroom => exact ⟨hv,rfl⟩
    | copy hphase hbyte =>
      rw [hphase] at hphases
      exact ⟨hv,hwrites _ _ hphases.1 hphases.2.1⟩
    | size hphase hend =>
      rw [hphase] at hphases
      exact ⟨hv,hwrites _ _ hphases.1 hphases.2.1⟩
    | publish hphase => exact ⟨hv,rfl⟩
  | consume hc =>
    have hphases := hi.consumer
    unfold ConsumerHolds at hphases
    cases hc with
    | nothing hphase hempty =>
      rw [hphase] at hphases
      obtain rfl := hphases
      rw [hi.empty_iff] at hempty
      omega
    | present hphase hsome => exact ⟨hv,rfl⟩
    | view hphase =>
      rw [hphase] at hphases
      obtain ⟨rfl,_⟩ := hphases
      have hstores := hi.window _ _ le_rfl hframe
      rw [c.index_ofNat,hstores.1,← hsize,← hslot]
      exact ⟨rfl,rfl⟩
    | refused hphase hempty => exact ⟨hv,rfl⟩
    | granted hphase hsome => exact ⟨hv,rfl⟩
    | release hphase => simp at ht

theorem stepped_taken {label : Label} (hs : Stepped c s label t) : s.taken.length ≤ t.taken.length := by
  cases hs with
  | produce hp => cases hp <;> exact le_rfl
  | consume hc =>
    cases hc with
    | release hphase => simp
    | _ => exact le_rfl
  | _ => exact le_rfl

theorem run_taken {labels : List Label} (hr : run c labels s = some t) :
    s.taken.length ≤ t.taken.length := by
  induction labels generalizing s with
  | nil =>
    cases hr
    exact le_rfl
  | cons label labels ih =>
    obtain ⟨u,hs,hr⟩ := Option.bind_eq_some_iff.mp hr
    exact (stepped_taken (stepped hs)).trans (ih hr)

theorem run_view {view : FrameView} {labels : List Label} (hi : Inv c s) (hv : s.view = some view)
    (hr : run c labels s = some t) (ht : t.taken.length = s.taken.length) :
    t.view = some view ∧ t.ring.slots view.slot = s.ring.slots view.slot := by
  induction labels generalizing s with
  | nil =>
    cases hr
    exact ⟨hv,rfl⟩
  | cons label labels ih =>
    obtain ⟨u,hs,hr⟩ := Option.bind_eq_some_iff.mp hr
    have hsu := stepped_taken (stepped hs)
    have hut := run_taken hr
    obtain ⟨hview,hslot⟩ := stepped_view hi hv (stepped hs) (by omega)
    rw [← hslot]
    exact ih (stepped_inv hi (stepped hs)) hview hr (by omega)

end Views

section Answers

variable {c : Capacity} {s t : System}

def Pending (s : System) : Prop := s.producer ≠ .idle → s.answer = none

theorem stepped_pending {label : Label} (hp : Pending s) (hs : Stepped c s label t) : Pending t := by
  cases hs with
  | reject _ _ hidle => exact fun hn => absurd hidle hn
  | begin _ hidle => exact fun _ => rfl
  | front hidle => exact hp
  | pop hidle => exact hp
  | produce h =>
    cases h with
    | full hphase hfull => exact fun hn => absurd rfl hn
    | publish hphase => exact fun hn => absurd rfl hn
    | load hphase | room hphase hroom | copy hphase hbyte | size hphase hend =>
      exact fun _ => hp (by rw [hphase]; simp)
  | consume h => cases h <;> exact hp

theorem run_pending {labels : List Label} (hp : Pending s) (hr : run c labels s = some t) : Pending t := by
  induction labels generalizing s with
  | nil =>
    cases hr
    exact hp
  | cons label labels ih =>
    obtain ⟨u,hs,hr⟩ := Option.bind_eq_some_iff.mp hr
    exact ih (stepped_pending hp (stepped hs)) hr

def Committed (s : System) : Prop :=
  (s.answer = none ∧ ((∃ frame write copied, s.producer = .copying frame write copied) ∨
    ∃ frame write, s.producer = .publishing frame write)) ∨
  (s.answer = some (.ok .stored) ∧ s.producer = .idle)

theorem stepped_committed {label : Label} (hc : Committed s) (hs : Stepped c s label t)
    (hl : ∀ data, label ≠ .tryPush data) : Committed t := by
  cases hs with
  | reject data _ hidle => exact absurd rfl (hl data)
  | begin frame hidle => exact absurd rfl (hl (some frame))
  | front hidle => exact hc
  | pop hidle => exact hc
  | produce h =>
    rcases hc with ⟨hnone,hphases⟩ | ⟨_,hidle⟩
    · cases h with
      | load hphase | full hphase hfull | room hphase hroom => simp [hphase] at hphases
      | copy hphase hbyte => exact .inl ⟨hnone,.inl ⟨_,_,_,rfl⟩⟩
      | size hphase hend => exact .inl ⟨hnone,.inr ⟨_,_,rfl⟩⟩
      | publish hphase => exact .inr ⟨rfl,rfl⟩
    · cases h with
      | load hphase | full hphase hfull | room hphase hroom | copy hphase hbyte
      | size hphase hend | publish hphase =>
        rw [hidle] at hphase
        cases hphase
  | consume h => cases h <;> exact hc

theorem run_committed {labels : List Label} (hc : Committed s) (hr : run c labels s = some t)
    (hl : ∀ data, .tryPush data ∉ labels) : Committed t := by
  induction labels generalizing s with
  | nil =>
    cases hr
    exact hc
  | cons label labels ih =>
    obtain ⟨u,hs,hr⟩ := Option.bind_eq_some_iff.mp hr
    refine ih (stepped_committed hc (stepped hs) fun data heq => ?_) hr fun data hmem => ?_
    · exact hl data (heq ▸ List.mem_cons_self)
    · exact hl data (List.mem_cons_of_mem _ hmem)

def Label.pushes : Label → Prop
  | .tryPush _ | .produce => True
  | _ => False

theorem unstored_ring {u : System} {label : Label} {labels : List Label} (hp : Pending s)
    (hs : step c s label = some u) (hlabel : label.pushes) (hr : run c labels u = some t)
    (hl : ∀ data, .tryPush data ∉ labels)
    (ha : t.answer = some (.ok .full) ∨ ∃ message, t.answer = some (.error message)) :
    u.ring = s.ring := by
  have hstores : ¬Committed u := by
    intro hc
    rcases run_committed hc hr hl with ⟨hnone,_⟩ | ⟨hstored,_⟩
    · simp [hnone] at ha
    · simp [hstored] at ha
  cases stepped hs with
  | reject _ _ hidle => rfl
  | begin _ hidle => rfl
  | produce h =>
    cases h with
    | load hphase => rfl
    | full hphase hfull => rfl
    | room hphase hroom => rfl
    | copy hphase hbyte =>
      exact absurd (.inl ⟨hp (by simp [hphase]),.inl ⟨_,_,_,rfl⟩⟩) hstores
    | size hphase hend => exact absurd (.inl ⟨hp (by simp [hphase]),.inr ⟨_,_,rfl⟩⟩) hstores
    | publish hphase => exact absurd (.inr ⟨rfl,rfl⟩) hstores
  | front _ => exact hlabel.elim
  | pop _ => exact hlabel.elim
  | consume _ => exact hlabel.elim

theorem full_count (hi : Inv c s) (hp : Pending s) (hs : Produced c s t)
    (ha : t.answer = some (.ok .full)) : s.stored.length = s.taken.length + c.value := by
  have hphases := hi.producer
  unfold ProducerHolds at hphases
  cases hs with
  | full hphase hfull =>
    rw [hphase] at hphases
    obtain rfl := hphases
    exact hi.full_iff.mp hfull
  | publish hphase => cases ha
  | load hphase | room hphase hroom | copy hphase hbyte | size hphase hend =>
    have hnone := hp (by simp [hphase])
    dsimp only [System.setSlot] at ha
    rw [hnone] at ha
    cases ha

end Answers

/-- In every interleaving the popped frames are a prefix of the stored ones; a push finds the ring
full only when `Capacity` frames are waiting; what is seen through a view is the next frame to
pop, in bytes that no step changes before that pop; and a push that is rejected or finds the ring
full changes nothing. -/
theorem frameRing_fifo (c : Capacity) (slots : Nat → Slot) (labels : List Label) (s : System)
    (hrun : run c labels (start slots) = some s) :
    s.taken <+: s.stored ∧
    (∀ t, step c s .produce = some t → t.answer = some (.ok .full) →
      s.stored.length = s.taken.length + c.value) ∧
    (∀ view, s.view = some view →
      s.stored[s.taken.length]? = some (s.ring.bytes view) ∧
      ∀ later t, run c later s = some t → t.taken.length = s.taken.length →
        t.view = some view ∧ t.ring.slots view.slot = s.ring.slots view.slot) ∧
    ∀ label u later t, step c s label = some u → label.pushes → run c later u = some t →
      (∀ data, .tryPush data ∉ later) →
      (t.answer = some (.ok .full) ∨ ∃ message, t.answer = some (.error message)) →
      u.ring = s.ring := by
  have hi : Inv c s := run_inv (inv_start c slots) hrun
  have hp : Pending s := run_pending (fun hn => absurd rfl hn) hrun
  refine ⟨?_,?_,?_,?_⟩
  · rw [hi.taken]
    exact List.take_prefix _ _
  · intro t hs hfull
    exact full_count hi hp (produced hs) hfull
  · intro view hv
    exact ⟨hi.view_bytes hv,fun later t hr ht => run_view hi hv hr ht⟩
  · intro label u later t hs hlabel hr hl ha
    exact unstored_ring hp hs hlabel hr hl ha

def pairCapacity : Capacity where
  value := 2
  nonzero := by decide
  power := by decide
  bound := by decide

/-- The second frame is pushed while the first is read. -/
def twoFrames : List Label :=
  [.tryPush (some [7]),.produce,.produce,.produce,.produce,.produce,.tryPush (some [8,9]),.produce,
    .front,.consume,.produce,.produce,.consume,.pop,.produce,.consume,.produce,.consume,.produce,
    .front,.consume,.consume]

theorem frameRing_fifo_two :
    ∃ s view, run pairCapacity twoFrames (start fun _ => ⟨0,fun _ => 0⟩) = some s ∧
      s.taken = [[7]] ∧ s.taken <+: s.stored ∧ s.view = some view ∧ s.ring.bytes view = [8,9] ∧
      s.stored[s.taken.length]? = some (s.ring.bytes view) := by
  obtain ⟨s,view,hs,ht,hv,hbytes⟩ : ∃ s view,
      run pairCapacity twoFrames (start fun _ => ⟨0,fun _ => 0⟩) = some s ∧ s.taken = [[7]] ∧
        s.view = some view ∧ s.ring.bytes view = [8,9] := ⟨_,_,rfl,rfl,rfl,rfl⟩
  have hfifo := frameRing_fifo pairCapacity _ twoFrames s hs
  exact ⟨s,view,hs,ht,hfifo.1,hv,hbytes,(hfifo.2.2.1 view hv).1⟩

end Cpu2Tensor.Ring
