import Mathlib

/-!
# Rings of slots between two cursors

Two cursors count the items that were published and released; they run free modulo `2^64`.  The
item with number `i` lives in slot `i % capacity`, and as long as at most `capacity` items are
unreleased no two of them share a slot.
-/

namespace Cpu2Tensor.Library

section Cursors

variable {first last : Nat}

theorem cursor_eq_iff (h : first ≤ last) (hd : last - first < 2^64) :
    UInt64.ofNat first = UInt64.ofNat last ↔ first = last := by
  rw [UInt64.ofNat_eq_iff_mod_eq_toNat,UInt64.toNat_ofNat']
  omega

/-- The distance of two cursors is the number of items between them. -/
theorem cursor_sub_eq_iff (h : first ≤ last) (hd : last - first < 2^64) {count : Nat}
    (hc : count < 2^64) :
    UInt64.ofNat last - UInt64.ofNat first = UInt64.ofNat count ↔ last - first = count := by
  rw [← UInt64.ofNat_sub h,UInt64.ofNat_eq_iff_mod_eq_toNat,UInt64.toNat_ofNat']
  omega

theorem cursor_mask {k : Nat} (hk : k < 64) (position : Nat) :
    (UInt64.ofNat position &&& (UInt64.ofNat (2^k) - 1)).toNat = position % 2^k := by
  have hpos : 1 ≤ 2^k := Nat.one_le_two_pow
  have hlt : 2^k < 2^64 := Nat.pow_lt_pow_right (by omega) hk
  have hmask : (UInt64.ofNat (2^k) - 1).toNat = 2^k-1 := by
    rw [show (1 : UInt64) = UInt64.ofNat 1 from rfl,← UInt64.ofNat_sub hpos,UInt64.toNat_ofNat',
      Nat.mod_eq_of_lt (by omega)]
  rw [UInt64.toNat_and,hmask,Nat.and_two_pow_sub_one_eq_mod,UInt64.toNat_ofNat',
    Nat.mod_mod_of_dvd _ (Nat.pow_dvd_pow 2 hk.le)]

end Cursors

section Windows

variable {α β : Type*} {Stores : α → β → Prop} {capacity first : Nat} {slots : Nat → α}
  {items : List β}

/-- Every item from number `first` on is stored in its slot. -/
def Window (Stores : α → β → Prop) (capacity : Nat) (slots : Nat → α) (items : List β)
    (first : Nat) : Prop :=
  ∀ i item, first ≤ i → items[i]? = some item → Stores (slots (i % capacity)) item

theorem window_nil (first : Nat) : Window Stores capacity slots [] first := by
  intro i item _ hi
  simp at hi

theorem slot_ne {i j : Nat} (hij : i < j) (hj : j < i+capacity) :
    i % capacity ≠ j % capacity := by
  intro h
  have hdvd : capacity ∣ j - i := (Nat.modEq_iff_dvd' hij.le).mp h
  have := Nat.le_of_dvd (by omega) hdvd
  omega

theorem Window.write (hw : Window Stores capacity slots items first)
    (hroom : items.length < first+capacity) (a : α) :
    Window Stores capacity (Function.update slots (items.length % capacity) a) items first := by
  intro i item hi hitem
  have hlt : i < items.length := (List.getElem?_eq_some_iff.mp hitem).1
  rw [Function.update_of_ne (slot_ne hlt (by omega))]
  exact hw i item hi hitem

theorem Window.publish (hw : Window Stores capacity slots items first) {item : β}
    (hs : Stores (slots (items.length % capacity)) item) :
    Window Stores capacity slots (items ++ [item]) first := by
  intro i other hi hother
  by_cases hlt : i < items.length
  · rw [List.getElem?_append_left hlt] at hother
    exact hw i other hi hother
  · obtain ⟨hb,hother⟩ := List.getElem?_eq_some_iff.mp hother
    have heq : i = items.length := by
      simp only [List.length_append,List.length_singleton] at hb
      omega
    subst heq
    simp only [List.getElem_concat_length] at hother
    exact hother ▸ hs

theorem Window.release (hw : Window Stores capacity slots items first) :
    Window Stores capacity slots items (first+1) :=
  fun i item hi hitem => hw i item (by omega) hitem

end Windows

end Cpu2Tensor.Library
