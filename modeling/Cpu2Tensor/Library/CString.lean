import Cpu2Tensor.Library.Bytes

/-!
# Strings that end with a zero byte

A pointer is the memory from its target on.  Memory without a zero byte is read as if one followed
it, so that every function is total.
-/

namespace Cpu2Tensor.Library

def cstring (memory : Bytes) : Bytes := memory.takeWhile (· != 0)

def strlen (memory : Bytes) : Nat := (cstring memory).length

def strchr (memory : Bytes) (c : UInt8) : Option Nat := (cstring memory).findIdx? (· == c)

/-- Copies a string with its zero byte to the start of the buffer. -/
def strcpy (buffer memory : Bytes) : Bytes := patch buffer 0 (cstring memory ++ [0])

@[simp] theorem cstring_nil : cstring [] = [] := rfl

theorem cstring_cons (c : UInt8) (memory : Bytes) :
    cstring (c :: memory) = if c = 0 then [] else c :: cstring memory := by
  by_cases hc : c = 0
  · simp [cstring,hc]
  · simp [cstring,hc]

theorem zero_notMem_cstring (memory : Bytes) : 0 ∉ cstring memory := by
  intro hzero
  simpa using List.mem_takeWhile_imp hzero

variable {offset : Nat} {s : Bytes}

theorem cstring_append (hs : 0 ∉ s) (rest : Bytes) : cstring (s ++ rest) = s ++ cstring rest := by
  apply List.takeWhile_append_of_pos
  intro c hc
  rw [bne_iff_ne]
  intro hzero
  exact hs (hzero ▸ hc)

theorem cstring_terminated (hs : 0 ∉ s) (rest : Bytes) : cstring (s ++ 0 :: rest) = s := by
  rw [cstring_append hs,cstring_cons,if_pos rfl,List.append_nil]

theorem cstring_strcpy (buffer memory : Bytes) :
    cstring (strcpy buffer memory) = cstring memory := by
  rw [strcpy,patch,List.take_zero,List.nil_append,List.append_assoc,List.singleton_append]
  exact cstring_terminated (zero_notMem_cstring memory) _

theorem getD_eq_cstring (memory : Bytes) {i : Nat} (hi : i ≤ strlen memory) :
    memory.getD i 0 = (cstring memory).getD i 0 := by
  induction memory generalizing i with
  | nil => rfl
  | cons c memory ih =>
    rw [strlen,cstring_cons] at hi
    rw [cstring_cons]
    by_cases hc : c = 0
    · rw [if_pos hc,List.length_nil,Nat.le_zero] at hi
      rw [if_pos hc,hi,hc]
      rfl
    · rw [if_neg hc] at hi ⊢
      cases i with
      | zero => rfl
      | succ i =>
        rw [List.getD_cons_succ,List.getD_cons_succ]
        exact ih (by simpa [strlen] using hi)

theorem take_eq_cstring (memory : Bytes) {count : Nat} (hc : count ≤ strlen memory) :
    memory.take count = (cstring memory).take count := by
  have hsplit : cstring memory ++ memory.dropWhile (· != 0) = memory :=
    List.takeWhile_append_dropWhile
  conv_lhs => rw [← hsplit]
  exact List.take_append_of_le_length hc

variable {c : UInt8} {memory : Bytes}

theorem strchr_eq_none_iff : strchr memory c = none ↔ c ∉ cstring memory := by
  rw [strchr,List.findIdx?_eq_none_iff]
  simp only [beq_eq_false_iff_ne]
  exact ⟨fun h hc => h c hc rfl,fun h x hx hxc => h (hxc ▸ hx)⟩

theorem strchr_append {before : Bytes} (hc : c ≠ 0) (hbefore : c ∉ before) (hzero : 0 ∉ before)
    (after : Bytes) : strchr (before ++ c :: after) c = some before.length := by
  rw [strchr,cstring_append hzero,cstring_cons,if_neg hc,List.findIdx?_append,
    List.findIdx?_eq_none_iff.mpr,List.findIdx?_cons,if_pos (beq_self_eq_true c)]
  · simp
  · intro x hx
    rw [beq_eq_false_iff_ne]
    intro hxc
    exact hbefore (hxc ▸ hx)

theorem strchr_eq_some (hc : c ≠ 0) (h : strchr memory c = some offset) :
    ∃ before after, memory = before ++ c :: after ∧ before.length = offset ∧ c ∉ before ∧
      0 ∉ before := by
  induction memory generalizing offset with
  | nil => cases h
  | cons x memory ih =>
    rw [strchr,cstring_cons] at h
    by_cases hx : x = 0
    · rw [if_pos hx] at h
      cases h
    · rw [if_neg hx,List.findIdx?_cons] at h
      by_cases hxc : x = c
      · subst hxc
        rw [if_pos (beq_self_eq_true x)] at h
        cases h
        exact ⟨[],memory,rfl,rfl,List.not_mem_nil,List.not_mem_nil⟩
      · rw [if_neg (by simpa using hxc),Option.map_eq_some_iff] at h
        obtain ⟨found,hfound,rfl⟩ := h
        obtain ⟨before,after,rfl,hlen,hbefore,hzero⟩ := ih hfound
        refine ⟨x :: before,after,rfl,by simp [hlen],?_,?_⟩
        · simp [Ne.symm hxc,hbefore]
        · simp [Ne.symm hx,hzero]

theorem strchr_induct (hc : c ≠ 0) {motive : Bytes → Prop}
    (last : ∀ memory, c ∉ cstring memory → motive memory)
    (before : ∀ first rest, c ∉ first → 0 ∉ first → motive rest → motive (first ++ c :: rest))
    (memory : Bytes) : motive memory := by
  induction hsize : memory.length using Nat.strong_induction_on generalizing memory with
  | _ size ih =>
    cases hfind : strchr memory c with
    | none => exact last memory (strchr_eq_none_iff.mp hfind)
    | some offset =>
      obtain ⟨first,rest,rfl,_,hfirst,hzero⟩ := strchr_eq_some hc hfind
      have hless : rest.length < size := by
        rw [← hsize,List.length_append,List.length_cons]
        omega
      exact before first rest hfirst hzero (ih rest.length hless rest rfl)

theorem strchr_lt (h : strchr memory c = some offset) : offset < memory.length :=
  (List.findIdx?_eq_some_iff_findIdx_eq.mp h).1.trans_le
    (List.takeWhile_sublist _).length_le

end Cpu2Tensor.Library
