import Mathlib

/-!
# Little-endian words in byte strings

A byte string is a list of bytes.  Words are stored least significant byte first, and a
load past the end of the string reads zero bytes, so that every load is total.
-/

namespace Cpu2Tensor.Library

abbrev Bytes := List UInt8

/-- The `size` low bytes of a value, least significant first. -/
def store (value : Nat) : Nat → Bytes
  | 0 => []
  | size+1 => UInt8.ofNat value :: store (value/256) size

/-- The little-endian value of the first `size` bytes. -/
def load : Bytes → Nat → Nat
  | _, 0 => 0
  | [], _+1 => 0
  | byte :: bytes, size+1 => byte.toNat + 256*load bytes size

@[simp] theorem store_length (value size : Nat) : (store value size).length = size := by
  induction size generalizing value with
  | zero => rfl
  | succ size ih => simp [store,ih]

@[simp] theorem load_zero (bytes : Bytes) : load bytes 0 = 0 := by cases bytes <;> rfl

@[simp] theorem load_nil (size : Nat) : load [] size = 0 := by cases size <;> rfl

theorem load_lt (bytes : Bytes) (size : Nat) : load bytes size < 256^size := by
  induction size generalizing bytes with
  | zero => simp
  | succ size ih =>
    cases bytes with
    | nil => simp
    | cons byte bytes =>
      have hb := byte.toNat_lt
      have hr := ih bytes
      simp only [load,pow_succ]
      omega

theorem load_store_append (value size : Nat) (rest : Bytes) :
    load (store value size ++ rest) size = value % 256^size := by
  induction size generalizing value with
  | zero => simp [Nat.mod_one]
  | succ size ih =>
    rw [store,List.cons_append,load,ih,UInt8.toNat_ofNat',Nat.pow_succ 256,
      Nat.mul_comm (256^size),Nat.mod_mul]

theorem load_store (value size : Nat) : load (store value size) size = value % 256^size := by
  simpa using load_store_append value size []

variable {count offset size : Nat}

theorem load_store_of_lt {value : Nat} (hv : value < 256^size) (rest : Bytes) :
    load (store value size ++ rest) size = value := by
  rw [load_store_append,Nat.mod_eq_of_lt hv]

theorem store_load (bytes : Bytes) (size : Nat) (hs : size ≤ bytes.length) :
    store (load bytes size) size = bytes.take size := by
  induction size generalizing bytes with
  | zero => simp [store]
  | succ size ih =>
    cases bytes with
    | nil => simp at hs
    | cons byte bytes =>
      have hb := byte.toNat_lt
      have hdiv : (byte.toNat + 256*load bytes size)/256 = load bytes size := by omega
      have hbyte : UInt8.ofNat (byte.toNat + 256*load bytes size) = byte := by
        apply UInt8.toNat_inj.mp
        rw [UInt8.toNat_ofNat']
        omega
      rw [load,store,hdiv,hbyte,ih bytes (by simpa using hs),List.take_succ_cons]

theorem load_append (first rest : Bytes) (size : Nat) (hs : size ≤ first.length) :
    load (first ++ rest) size = load first size := by
  induction size generalizing first with
  | zero => simp
  | succ size ih =>
    cases first with
    | nil => simp at hs
    | cons byte first => rw [List.cons_append,load,load,ih first (by simpa using hs)]

theorem load_take (bytes : Bytes) (hs : size ≤ count) :
    load (bytes.take count) size = load bytes size := by
  induction size generalizing bytes count with
  | zero => simp
  | succ size ih =>
    cases count with
    | zero => omega
    | succ count =>
      cases bytes with
      | nil => rfl
      | cons byte bytes => rw [List.take_succ_cons,load,load,ih bytes (by omega)]

theorem load_drop_take (bytes : Bytes) (hs : offset+size ≤ count) :
    load ((bytes.take count).drop offset) size = load (bytes.drop offset) size := by
  rw [List.drop_take,load_take _ (by omega)]

theorem load_drop_append {first : Bytes} (rest : Bytes) (hs : offset+size ≤ first.length) :
    load ((first ++ rest).drop offset) size = load (first.drop offset) size := by
  rw [List.drop_append_of_le_length (by omega),load_append _ _ _ (by simp; omega)]

theorem drop_append_eq (first rest : Bytes) (hs : offset = first.length) :
    (first ++ rest).drop offset = rest := by
  subst hs
  exact List.drop_left ..

def patch (bytes : Bytes) (offset : Nat) (new : Bytes) : Bytes :=
  bytes.take offset ++ new ++ bytes.drop (offset+new.length)

theorem patch_length (bytes new : Bytes) (offset : Nat) (hn : offset+new.length ≤ bytes.length) :
    (patch bytes offset new).length = bytes.length := by
  simp only [patch,List.length_append,List.length_take,List.length_drop]
  omega

theorem take_patch (bytes new : Bytes) (h : offset ≤ bytes.length) :
    (patch bytes offset new).take (offset+new.length) = bytes.take offset ++ new := by
  have hlen : (bytes.take offset ++ new).length = offset+new.length := by
    rw [List.length_append,List.length_take_of_le h]
  rw [patch,← hlen]
  exact List.take_left ..

theorem take_patch_before (bytes new : Bytes) (hc : count ≤ offset) (h : offset ≤ bytes.length) :
    (patch bytes offset new).take count = bytes.take count := by
  have hlen : (bytes.take offset).length = offset := List.length_take_of_le h
  rw [patch,List.append_assoc,List.take_append_of_le_length (by omega),List.take_take,
    Nat.min_eq_left hc]

theorem patch_patch (bytes first second : Bytes) (h : offset ≤ bytes.length) :
    patch (patch bytes offset first) (offset+first.length) second =
      patch bytes offset (first ++ second) := by
  have hlen : (bytes.take offset ++ first).length = offset+first.length := by
    rw [List.length_append,List.length_take_of_le h]
  have hdrop : (patch bytes offset first).drop (offset+first.length+second.length) =
      bytes.drop (offset+(first ++ second).length) := by
    rw [patch,← hlen,List.drop_length_add_append,List.drop_drop,hlen,List.length_append,Nat.add_assoc]
  rw [patch,take_patch bytes first h,hdrop,patch,List.append_assoc (bytes.take offset)]

end Cpu2Tensor.Library
