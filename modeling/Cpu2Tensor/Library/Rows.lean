import Cpu2Tensor.Library.Bytes

/-!
# Rows in byte strings

A byte string holds rows one behind the other.  How long a row is may be written in the row.
-/

namespace Cpu2Tensor.Library

/-- The first `rows` rows; `size` reads the length of the row at the start. -/
def splitRows (size : Bytes → Nat) : Nat → Bytes → List Bytes
  | 0, _ => []
  | rows+1, bytes => bytes.take (size bytes) :: splitRows size rows (bytes.drop (size bytes))

def rowsSize (size : Bytes → Nat) : Nat → Bytes → Nat
  | 0, _ => 0
  | rows+1, bytes => size bytes + rowsSize size rows (bytes.drop (size bytes))

/-- The length of a complete row does not depend on what follows it. -/
def Framed (size : Bytes → Nat) : Prop :=
  ∀ row rest : Bytes, size row ≤ row.length → size (row ++ rest) = size row

theorem framed_const (width : Nat) : Framed fun _ => width := fun _ _ _ => rfl

variable {size : Bytes → Nat}

@[simp] theorem splitRows_length (rows : Nat) (bytes : Bytes) :
    (splitRows size rows bytes).length = rows := by
  induction rows generalizing bytes with
  | zero => rfl
  | succ rows ih => rw [splitRows,List.length_cons,ih]

theorem rowsSize_const (width rows : Nat) (bytes : Bytes) :
    rowsSize (fun _ => width) rows bytes = rows*width := by
  induction rows generalizing bytes with
  | zero => rw [rowsSize,Nat.zero_mul]
  | succ rows ih => rw [rowsSize,ih,Nat.succ_mul,Nat.add_comm]

/-- The rows of a string that ends with its last row, and those of the rest behind it. -/
theorem splitRows_append (hsize : Framed size) (rows more : Nat) (first rest : Bytes)
    (hfirst : rowsSize size rows first = first.length) :
    splitRows size (rows+more) (first ++ rest) =
      splitRows size rows first ++ splitRows size more rest := by
  induction rows generalizing first with
  | zero =>
    obtain rfl := List.length_eq_zero_iff.mp hfirst.symm
    rw [Nat.zero_add,List.nil_append,splitRows,List.nil_append]
  | succ rows ih =>
    rw [rowsSize] at hfirst
    have hle : size first ≤ first.length := by omega
    have htail : rowsSize size rows (first.drop (size first)) = (first.drop (size first)).length := by
      rw [List.length_drop]
      omega
    rw [Nat.succ_add,splitRows,hsize first rest hle,List.take_append_of_le_length hle,
      List.drop_append_of_le_length hle,ih _ htail,splitRows,List.cons_append]

theorem rowsSize_append (hsize : Framed size) (rows more : Nat) (first rest : Bytes)
    (hfirst : rowsSize size rows first = first.length) :
    rowsSize size (rows+more) (first ++ rest) = first.length + rowsSize size more rest := by
  induction rows generalizing first with
  | zero =>
    obtain rfl := List.length_eq_zero_iff.mp hfirst.symm
    rw [Nat.zero_add,List.nil_append,List.length_nil,Nat.zero_add]
  | succ rows ih =>
    rw [rowsSize] at hfirst
    have hle : size first ≤ first.length := by omega
    have htail : rowsSize size rows (first.drop (size first)) = (first.drop (size first)).length := by
      rw [List.length_drop]
      omega
    rw [Nat.succ_add,rowsSize,hsize first rest hle,List.drop_append_of_le_length hle,ih _ htail,
      List.length_drop]
    omega

theorem rowsSize_flatMap {α : Type} (hsize : Framed size) (rows : α → Nat) (bytes : α → Bytes)
    (parts : List α) (hparts : ∀ part ∈ parts, rowsSize size (rows part) (bytes part) =
      (bytes part).length) :
    rowsSize size (parts.map rows).sum (parts.flatMap bytes) = (parts.flatMap bytes).length := by
  induction parts with
  | nil => rfl
  | cons part parts ih =>
    obtain ⟨hpart,hrest⟩ := List.forall_mem_cons.mp hparts
    rw [List.map_cons,List.sum_cons,List.flatMap_cons,rowsSize_append hsize _ _ _ _ hpart,ih hrest,
      List.length_append]

theorem splitRows_flatMap {α : Type} (hsize : Framed size) (rows : α → Nat) (bytes : α → Bytes)
    (parts : List α) (hparts : ∀ part ∈ parts, rowsSize size (rows part) (bytes part) =
      (bytes part).length) :
    splitRows size (parts.map rows).sum (parts.flatMap bytes) =
      parts.flatMap fun part => splitRows size (rows part) (bytes part) := by
  induction parts with
  | nil => rfl
  | cons part parts ih =>
    obtain ⟨hpart,hrest⟩ := List.forall_mem_cons.mp hparts
    rw [List.map_cons,List.sum_cons,List.flatMap_cons,List.flatMap_cons,
      splitRows_append hsize _ _ _ _ hpart,ih hrest]

end Cpu2Tensor.Library
