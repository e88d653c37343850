import Cpu2Tensor.Library.Bytes

/-!
# Blocks laid out in one buffer

Intervals that follow one another with gaps, the bytes an interval of a buffer holds, and what
writing a chain of blocks leaves in each of them.
-/

namespace Cpu2Tensor.Library

/-- The first multiple of `alignment` that is not below `n`. -/
def roundUp (n alignment : Nat) : Nat := (n+alignment-1)/alignment*alignment

theorem dvd_roundUp (n alignment : Nat) : alignment ∣ roundUp n alignment :=
  Dvd.intro_left _ rfl

theorem le_roundUp (n : Nat) {alignment : Nat} (ha : 0 < alignment) : n ≤ roundUp n alignment := by
  have hdiv := Nat.div_add_mod (n+alignment-1) alignment
  have hmod := Nat.mod_lt (n+alignment-1) ha
  rw [Nat.mul_comm] at hdiv
  rw [roundUp]
  omega

structure Interval where
  offset : Nat
  size : Nat
  deriving DecidableEq, Repr

def Interval.stop (i : Interval) : Nat := i.offset+i.size

/-- Two intervals without a common position; an empty one is disjoint from any. -/
def Interval.Disjoint (i j : Interval) : Prop :=
  ∀ position, ¬ (i.offset ≤ position ∧ position < i.stop ∧ j.offset ≤ position ∧ position < j.stop)

/-- Intervals from `start` on, each after the one before it, the last one ending at `stop`. -/
def Stacked : Nat → List Interval → Nat → Prop
  | start, [], stop => start = stop
  | start, i::rest, stop => start ≤ i.offset ∧ Stacked i.stop rest stop

variable {intervals : List Interval} {offset size start : Nat}

theorem Stacked.le {stop : Nat} (h : Stacked start intervals stop) : start ≤ stop := by
  induction intervals generalizing start with
  | nil => exact Nat.le_of_eq h
  | cons i rest ih =>
    have hrest := ih h.2
    have hstart := h.1
    rw [Interval.stop] at hrest
    omega

theorem Stacked.inside {stop : Nat} (h : Stacked start intervals stop) {i : Interval}
    (hi : i ∈ intervals) : start ≤ i.offset ∧ i.stop ≤ stop := by
  induction intervals generalizing start with
  | nil => cases hi
  | cons first rest ih =>
    cases hi with
    | head => exact ⟨h.1,h.2.le⟩
    | tail _ hi =>
      have hrest := ih h.2 hi
      have hstart := h.1
      have hstop : first.offset ≤ first.stop := Nat.le_add_right _ _
      exact ⟨by omega,hrest.2⟩

theorem Stacked.pairwise {stop : Nat} (h : Stacked start intervals stop) :
    intervals.Pairwise Interval.Disjoint := by
  induction intervals generalizing start with
  | nil => exact List.Pairwise.nil
  | cons first rest ih =>
    refine List.Pairwise.cons ?_ (ih h.2)
    intro other hother position hposition
    have hafter := (h.2.inside hother).1
    omega

def segment (memory : Bytes) (offset size : Nat) : Bytes := (memory.drop offset).take size

theorem segment_length {memory : Bytes} (h : offset+size ≤ memory.length) :
    (segment memory offset size).length = size := by
  rw [segment,List.length_take,List.length_drop]
  omega

theorem segment_patch (memory new : Bytes) (h : offset ≤ memory.length) :
    segment (patch memory offset new) offset new.length = new := by
  have htake : (memory.take offset).length = offset := List.length_take_of_le h
  rw [segment,patch,List.append_assoc,List.drop_append_of_le_length (Nat.le_of_eq htake.symm),
    List.drop_of_length_le (Nat.le_of_eq htake),List.nil_append]
  exact List.take_left ..

variable {blocks : List Block} {position : Nat}

theorem segment_patch_before (memory new : Bytes) (hbefore : position+size ≤ offset)
    (h : offset ≤ memory.length) :
    segment (patch memory offset new) position size = segment memory position size := by
  have htake : (memory.take offset).length = offset := List.length_take_of_le h
  rw [segment,segment,List.take_drop,List.take_drop,patch,List.append_assoc,
    List.take_append_of_le_length (by omega),List.take_take,Nat.min_eq_left hbefore]

structure Block where
  offset : Nat
  data : Bytes

def Block.interval (b : Block) : Interval := ⟨b.offset,b.data.length⟩

def writeAll (memory : Bytes) (blocks : List Block) : Bytes :=
  blocks.foldl (fun memory b => patch memory b.offset b.data) memory

theorem segment_writeAll_before {stop : Nat} (h : Stacked start (blocks.map Block.interval) stop)
    (memory : Bytes) (hfits : stop ≤ memory.length) (hbefore : position+size ≤ start) :
    segment (writeAll memory blocks) position size = segment memory position size := by
  induction blocks generalizing start memory with
  | nil => rfl
  | cons b rest ih =>
    have hstop : b.offset+b.data.length ≤ stop := h.2.le
    have hstart : start ≤ b.offset := h.1
    have hlength := patch_length memory b.data b.offset (hstop.trans hfits)
    have hrest := ih h.2 (patch memory b.offset b.data) (by omega)
      (by simp only [Block.interval,Interval.stop]; omega)
    exact hrest.trans (segment_patch_before memory b.data (by omega) (by omega))

theorem segment_writeAll {stop : Nat} (h : Stacked start (blocks.map Block.interval) stop)
    (memory : Bytes) (hfits : stop ≤ memory.length) {b : Block} (hb : b ∈ blocks) :
    segment (writeAll memory blocks) b.offset b.data.length = b.data := by
  induction blocks generalizing start memory with
  | nil => cases hb
  | cons first rest ih =>
    have hstop : first.offset+first.data.length ≤ stop := h.2.le
    have hlength := patch_length memory first.data first.offset (hstop.trans hfits)
    cases hb with
    | head =>
      -- the later blocks all lie after this one
      have hrest := segment_writeAll_before h.2 (patch memory b.offset b.data) (by omega)
        (Nat.le_refl (b.offset+b.data.length))
      exact hrest.trans (segment_patch memory b.data (by omega))
    | tail _ hb => exact ih h.2 (patch memory first.offset first.data) (by omega) hb

end Cpu2Tensor.Library
