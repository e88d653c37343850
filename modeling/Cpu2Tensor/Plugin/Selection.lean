import Cpu2Tensor.Library.CString

/-!
# The selection of registers

`register_selection.hpp` and the loop of `register_setup` each scan a list of names between colons
in their own way: one looks a byte ahead, one walks from colon to colon, one cuts a copy of the
list into strings.  Each is compared with `Selection`, the grammar of such lists.
-/

namespace Cpu2Tensor.RegisterSelection
open Library

def colon : UInt8 := 58

def nameByte (c : UInt8) : Bool :=
  (97 ≤ c && c ≤ 122) || (65 ≤ c && c ≤ 90) || (48 ≤ c && c ≤ 57) || c == 95

def validRegisterSelection (names : Bytes) : Bool :=
  let size := strlen names
  if size = 0 ∨ size > 1023 ∨ names.getD 0 0 = colon ∨ names.getD (size-1) 0 = colon then false
  else (List.range size).all fun i =>
    (names.getD i 0 == colon && names.getD (i+1) 0 != colon) || nameByte (names.getD i 0)

def firstSize (names : Bytes) : Nat :=
  match strchr names colon with
  | none => strlen names
  | some last => last

def listedRegister (names name : Bytes) : Bool :=
  if names.getD 0 0 = 0 then false
  else if firstSize names = strlen name ∧
      names.take (strlen name) = name.take (strlen name) then true
  else match h : strchr names colon with
    | none => false
    | some last => listedRegister (names.drop (last+1)) name
termination_by names.length
decreasing_by
  have hlt := strchr_lt h
  simp only [List.length_drop]
  omega

/-- The loop of `register_setup` over its copy of the list: the colon after a name becomes a zero
byte, and the string that this ends must be the name of a register. -/
def requestedFound (registers : List Bytes) (names : Bytes) : Bool :=
  match h : strchr names colon with
  | none => registers.any fun register => register == cstring names
  | some next =>
    if registers.any fun register => register == cstring (names.set next 0) then
      requestedFound registers (names.drop (next+1))
    else false
termination_by names.length
decreasing_by
  have hlt := strchr_lt h
  simp only [List.length_drop]
  omega

/-- One or more names, joined by single colons. -/
structure Selection (names : List Bytes) (text : Bytes) : Prop where
  some : names ≠ []
  named : ∀ name ∈ names, name ≠ [] ∧ ∀ c ∈ name, nameByte c = true
  joined : [colon].intercalate names = text

theorem colon_notMem {name : Bytes} (h : ∀ c ∈ name, nameByte c = true) : colon ∉ name := by
  intro hc
  exact absurd (h colon hc) (by decide)

variable {first names text : Bytes}

theorem Selection.splitOn {names : List Bytes} (h : Selection names text) :
    text.splitOn colon = names := by
  rw [← h.joined]
  exact List.splitOn_intercalate colon (fun name hname => colon_notMem (h.named name hname).2)
    h.some

theorem selection_splitOn
    (h : ∀ name ∈ text.splitOn colon, name ≠ [] ∧ ∀ c ∈ name, nameByte c = true) :
    Selection (text.splitOn colon) text :=
  ⟨List.splitOn_ne_nil colon text,h,List.intercalate_splitOn colon⟩

theorem splitOn_cons_colon (text : Bytes) :
    (colon :: text).splitOn colon = [] :: text.splitOn colon := by
  rw [List.splitOn_cons_eq_if_modifyHead,if_pos (beq_self_eq_true colon)]

theorem splitOn_cons_ne {c : UInt8} (hc : c ≠ colon) (text : Bytes) :
    (c :: text).splitOn colon = (text.splitOn colon).modifyHead (c :: ·) := by
  rw [List.splitOn_cons_eq_if_modifyHead,if_neg (by simpa using hc)]

theorem splitOn_append_colon {before : Bytes} (h : colon ∉ before) (after : Bytes) :
    (before ++ colon :: after).splitOn colon = before :: after.splitOn colon := by
  induction before with
  | nil => exact splitOn_cons_colon after
  | cons c before ih =>
    rw [List.mem_cons,not_or] at h
    rw [List.cons_append,splitOn_cons_ne (Ne.symm h.1),ih h.2,List.modifyHead_cons]

theorem splitOn_of_notMem (h : colon ∉ text) : text.splitOn colon = [text] := by
  induction text with
  | nil => rfl
  | cons c text ih =>
    rw [List.mem_cons,not_or] at h
    rw [splitOn_cons_ne (Ne.symm h.1),ih h.2,List.modifyHead_cons]

/-- The loop of the validation, over what is left of the string. -/
def scan : Bytes → Bool
  | [] => true
  | c :: rest => ((c == colon && rest.getD 0 0 != colon) || nameByte c) && scan rest

theorem all_range_eq_scan (text : Bytes) :
    ((List.range text.length).all fun i =>
      (text.getD i 0 == colon && text.getD (i+1) 0 != colon) || nameByte (text.getD i 0)) =
      scan text := by
  induction text with
  | nil => rfl
  | cons c text ih =>
    rw [List.length_cons,List.range_succ_eq_map,List.all_cons,List.all_map,scan,← ih]
    rfl

/-- The name that is being read may still be empty, the others may not. -/
def Started : List Bytes → Prop
  | [] => True
  | first :: names =>
    (∀ c ∈ first, nameByte c = true) ∧
      ∀ name ∈ names, name ≠ [] ∧ ∀ c ∈ name, nameByte c = true

theorem started_splitOn_iff (text : Bytes) :
    Started (text.splitOn colon) ↔ scan text = true ∧ text.getLast? ≠ some colon := by
  induction text with
  | nil => simp [Started,scan]
  | cons c text ih =>
    obtain ⟨first,names,hsplit⟩ := List.exists_cons_of_ne_nil (List.splitOn_ne_nil colon text)
    by_cases hc : c = colon
    · subst hc
      rw [splitOn_cons_colon,hsplit]
      rw [hsplit] at ih
      have hname : nameByte colon = false := by decide
      cases text with
      | nil =>
        cases hsplit
        simp [Started]
      | cons d text =>
        have hfirst : first = [] ↔ d = colon := by
          by_cases hd : d = colon
          · subst hd
            rw [splitOn_cons_colon] at hsplit
            cases hsplit
            simp
          · rw [splitOn_cons_ne hd] at hsplit
            cases hrest : text.splitOn colon with
            | nil => exact absurd hrest (List.splitOn_ne_nil colon text)
            | cons p ps =>
              rw [hrest] at hsplit
              cases hsplit
              simp [hd]
        have hlast : (colon :: d :: text).getLast? = (d :: text).getLast? := by
          rw [List.getLast?_cons_cons]
        have hscan : scan (colon :: d :: text) = (d != colon && scan (d :: text)) := by
          rw [scan,hname]
          simp
        rw [hlast,hscan]
        constructor
        · intro hstarted
          have hgood := hstarted.2 first List.mem_cons_self
          have hrest := ih.mp ⟨hgood.2,fun name hn => hstarted.2 name (List.mem_cons_of_mem _ hn)⟩
          have hd : d ≠ colon := fun hd => hgood.1 (hfirst.mpr hd)
          exact ⟨by simp [hd,hrest.1],hrest.2⟩
        · intro hrest
          rw [Bool.and_eq_true,bne_iff_ne] at hrest
          have hstarted := ih.mpr ⟨hrest.1.2,hrest.2⟩
          refine ⟨by simp,?_⟩
          intro name hname
          rcases List.mem_cons.mp hname with rfl | hname
          · exact ⟨fun hnil => hrest.1.1 (hfirst.mp hnil),hstarted.1⟩
          · exact hstarted.2 name hname
    · rw [splitOn_cons_ne hc,hsplit,List.modifyHead_cons]
      rw [hsplit] at ih
      have hscan : scan (c :: text) = (nameByte c && scan text) := by
        rw [scan,beq_eq_false_iff_ne.mpr hc]
        simp
      have hlast : (c :: text).getLast? ≠ some colon ↔ text.getLast? ≠ some colon := by
        cases text with
        | nil => simpa using hc
        | cons d text => rw [List.getLast?_cons_cons]
      rw [hscan,hlast,Bool.and_eq_true,and_assoc,← ih]
      simp only [Started,List.forall_mem_cons,and_assoc]

theorem named_splitOn_iff (text : Bytes) :
    (∀ name ∈ text.splitOn colon, name ≠ [] ∧ ∀ c ∈ name, nameByte c = true) ↔
      text ≠ [] ∧ text.getD 0 0 ≠ colon ∧ text.getLast? ≠ some colon ∧ scan text = true := by
  cases text with
  | nil => simp
  | cons c text =>
    obtain ⟨first,names,hsplit⟩ := List.exists_cons_of_ne_nil (List.splitOn_ne_nil colon text)
    have hstarted := started_splitOn_iff (c :: text)
    by_cases hc : c = colon
    · subst hc
      rw [splitOn_cons_colon]
      simp
    · rw [splitOn_cons_ne hc,hsplit,List.modifyHead_cons] at hstarted ⊢
      have hgood : (∀ name ∈ (c :: first) :: names, name ≠ [] ∧ ∀ c ∈ name, nameByte c = true) ↔
          Started ((c :: first) :: names) := by
        simp [Started]
      rw [hgood,hstarted]
      simp [hc,and_comm]

theorem getD_last (h : cstring names ≠ []) :
    some (names.getD (strlen names-1) 0) = (cstring names).getLast? := by
  rw [getD_eq_cstring names (Nat.sub_le _ _),List.getLast?_eq_getElem?,List.getD_eq_getElem?_getD]
  have hpos := List.length_pos_of_ne_nil h
  rw [strlen,List.getElem?_eq_getElem (by omega)]
  rfl

theorem validRegisterSelection_iff (names : Bytes) :
    validRegisterSelection names = true ↔ strlen names ≤ 1023 ∧
      ∀ name ∈ (cstring names).splitOn colon, name ≠ [] ∧ ∀ c ∈ name, nameByte c = true := by
  have hall : ((List.range (strlen names)).all fun i =>
      (names.getD i 0 == colon && names.getD (i+1) 0 != colon) || nameByte (names.getD i 0)) =
      scan (cstring names) := by
    rw [← all_range_eq_scan,Bool.eq_iff_iff,List.all_eq_true,List.all_eq_true]
    refine forall₂_congr fun i hi => ?_
    rw [List.mem_range] at hi
    rw [getD_eq_cstring names hi.le,getD_eq_cstring names hi]
  rw [named_splitOn_iff,validRegisterSelection,hall,getD_eq_cstring names (Nat.zero_le _)]
  by_cases hnil : cstring names = []
  · simp [strlen,hnil]
  · have hpos := List.length_pos_of_ne_nil hnil
    rw [← getD_last hnil]
    simp only [ne_eq,Option.some.injEq]
    have hsize : strlen names ≠ 0 := Nat.ne_of_gt hpos
    split
    · rename_i hrefused
      simp only [Bool.false_eq_true,false_iff]
      rintro ⟨hlong,_,hfirst,hlast,_⟩
      rcases hrefused with hzero | hrefused | hrefused | hrefused
      · exact hsize hzero
      · omega
      · exact hfirst hrefused
      · exact hlast hrefused
    · rename_i haccepted
      simp only [not_or,Nat.not_lt] at haccepted
      simp only [haccepted.2.1,hnil,haccepted.2.2.1,haccepted.2.2.2,not_false_eq_true,true_and]

theorem colon_ne_zero : colon ≠ 0 := by decide

theorem take_strlen (name : Bytes) : name.take (strlen name) = cstring name := by
  rw [take_eq_cstring name le_rfl,strlen,List.take_length]

theorem getD_zero_eq_zero_iff (names : Bytes) : names.getD 0 0 = 0 ↔ cstring names = [] := by
  cases names with
  | nil => simp
  | cons c names => simp [cstring_cons]

theorem cstring_before (h : 0 ∉ first) (rest : Bytes) :
    cstring (first ++ colon :: rest) = first ++ colon :: cstring rest := by
  rw [cstring_append h,cstring_cons,if_neg colon_ne_zero]

theorem sameName_iff (names : Bytes) (name : Bytes) (hfirst : first <+: names) :
    (first.length = strlen name ∧ names.take (strlen name) = name.take (strlen name)) ↔
      first = cstring name := by
  rw [take_strlen]
  constructor
  · rintro ⟨hsize,hbytes⟩
    rw [← hbytes,← hsize]
    exact List.prefix_iff_eq_take.mp hfirst
  · rintro rfl
    exact ⟨rfl,(List.prefix_iff_eq_take.mp hfirst).symm⟩

theorem listedRegister_last (hsome : cstring names ≠ []) (hlast : colon ∉ cstring names)
    (name : Bytes) : listedRegister names name = true ↔ cstring names = cstring name := by
  have hfind := strchr_eq_none_iff.mpr hlast
  have hsame := sameName_iff names name ( List.takeWhile_prefix (· != 0))
  have hfirst : firstSize names = (cstring names).length := by rw [firstSize,hfind]; rfl
  rw [listedRegister,if_neg (by rwa [getD_zero_eq_zero_iff]),hfirst,hfind]
  split
  · rename_i heq
    exact iff_of_true rfl (hsame.mp heq)
  · rename_i hne
    exact iff_of_false nofun fun heq => hne (hsame.mpr heq)

theorem listedRegister_before (hfirst : colon ∉ first) (hzero : 0 ∉ first) (rest name : Bytes) :
    listedRegister (first ++ colon :: rest) name = true ↔
      first = cstring name ∨ listedRegister rest name = true := by
  have hfind := strchr_append colon_ne_zero hfirst hzero rest
  have hsame := sameName_iff (first ++ colon :: rest) name (List.prefix_append ..)
  have hsize : firstSize (first ++ colon :: rest) = first.length := by rw [firstSize,hfind]
  have hsome : cstring (first ++ colon :: rest) ≠ [] := by simp [cstring_before hzero]
  rw [listedRegister,if_neg (by rwa [getD_zero_eq_zero_iff]),hsize,hfind]
  split
  · rename_i heq
    exact iff_of_true rfl (Or.inl (hsame.mp heq))
  · rename_i hne
    have hdrop : (first ++ colon :: rest).drop (first.length+1) = rest := by
      rw [List.drop_length_add_append]
      rfl
    rw [← hsame,or_iff_right hne]
    simp only [hdrop]

theorem listedRegister_iff (names name : Bytes)
    (h : ∀ other ∈ (cstring names).splitOn colon, other ≠ []) :
    listedRegister names name = true ↔ cstring name ∈ (cstring names).splitOn colon := by
  induction names using strchr_induct colon_ne_zero with
  | last names hlast =>
    rw [splitOn_of_notMem hlast] at h ⊢
    have hsome : cstring names ≠ [] := h _ (List.mem_singleton_self _)
    rw [listedRegister_last hsome hlast,List.mem_singleton,eq_comm]
  | before first rest hfirst hzero ih =>
    rw [cstring_before hzero,splitOn_append_colon hfirst] at h ⊢
    have hrest := ih fun other hother => h other (List.mem_cons_of_mem _ hother)
    rw [listedRegister_before hfirst hzero,hrest,List.mem_cons,eq_comm]

theorem requestedFound_last (registers : List Bytes) (hlast : colon ∉ cstring names) :
    requestedFound registers names = true ↔ cstring names ∈ registers := by
  rw [requestedFound,strchr_eq_none_iff.mpr hlast]
  simp

theorem requestedFound_before (registers : List Bytes) (hfirst : colon ∉ first)
    (hzero : 0 ∉ first) (rest : Bytes) :
    requestedFound registers (first ++ colon :: rest) = true ↔
      first ∈ registers ∧ requestedFound registers rest = true := by
  have hdrop : (first ++ colon :: rest).drop (first.length+1) = rest := by
    rw [List.drop_length_add_append]
    rfl
  -- The zero byte written over the colon ends the name.
  have hcut : cstring ((first ++ colon :: rest).set first.length 0) = first := by
    rw [List.set_append_right _ _ le_rfl,Nat.sub_self,List.set_cons_zero]
    exact cstring_terminated hzero rest
  rw [requestedFound,strchr_append colon_ne_zero hfirst hzero]
  simp only [hcut,hdrop]
  simp

theorem requestedFound_iff (registers : List Bytes) (names : Bytes) :
    requestedFound registers names = true ↔
      ∀ name ∈ (cstring names).splitOn colon, name ∈ registers := by
  induction names using strchr_induct colon_ne_zero with
  | last names hlast =>
    rw [requestedFound_last registers hlast,splitOn_of_notMem hlast,List.forall_mem_singleton]
  | before first rest hfirst hzero ih =>
    rw [requestedFound_before registers hfirst hzero,cstring_before hzero,
      splitOn_append_colon hfirst,List.forall_mem_cons,ih]

/-- A selection is accepted exactly when it is a list of names of the grammar that fits its
buffer.  The walk then finds exactly the names of the list, and the loop over a copy of the list
passes exactly when each of them, that is each name the walk would find, has a register. -/
theorem registerSelection_grammar (names : Bytes) :
    (validRegisterSelection names = true ↔
      strlen names ≤ 1023 ∧ ∃ list, Selection list (cstring names)) ∧
    ∀ list, Selection list (cstring names) →
      (∀ name, listedRegister names name = true ↔ cstring name ∈ list) ∧
      ∀ registers buffer,
        (requestedFound registers (strcpy buffer names) = true ↔
          ∀ name ∈ list, name ∈ registers) ∧
        (requestedFound registers (strcpy buffer names) = true ↔
          ∀ name, listedRegister names name = true → cstring name ∈ registers) := by
  refine ⟨?_,?_⟩
  · rw [validRegisterSelection_iff]
    refine and_congr_right fun _ => ⟨fun h => ⟨_,selection_splitOn h⟩,?_⟩
    rintro ⟨list,hlist⟩
    rw [hlist.splitOn]
    exact hlist.named
  · intro list hlist
    have hlisted : ∀ name, listedRegister names name = true ↔ cstring name ∈ list := by
      intro name
      rw [listedRegister_iff names name,hlist.splitOn]
      rw [hlist.splitOn]
      exact fun other hother => (hlist.named other hother).1
    have hrequested : ∀ registers buffer,
        requestedFound registers (strcpy buffer names) = true ↔
          ∀ name ∈ list, name ∈ registers := by
      intro registers buffer
      rw [requestedFound_iff,cstring_strcpy,hlist.splitOn]
    refine ⟨hlisted,fun registers buffer => ⟨hrequested registers buffer,?_⟩⟩
    rw [hrequested]
    constructor
    · intro h name hname
      exact h _ ((hlisted name).mp hname)
    · intro h name hname
      -- A name of the list has no zero byte, so it is the string of its own memory.
      have hzero : 0 ∉ name := fun hzero => absurd ((hlist.named name hname).2 0 hzero) (by decide)
      have hself : cstring name = name := by simpa using cstring_append hzero []
      have hfound := h name ((hlisted name).mpr (hself.symm ▸ hname))
      rwa [hself] at hfound

/-- Of `rax:r8` the walk finds `r8`, and not `ra`. -/
theorem registerSelection_grammar_two :
    listedRegister [114,97,120,58,114,56,0] [114,56,0] = true ∧
    ¬ listedRegister [114,97,120,58,114,56,0] [114,97,0] = true := by
  have h := ((registerSelection_grammar [114,97,120,58,114,56,0]).2 [[114,97,120],[114,56]]
    ⟨by decide,by decide +kernel,by decide⟩).1
  rw [h,h]
  decide

end Cpu2Tensor.RegisterSelection
