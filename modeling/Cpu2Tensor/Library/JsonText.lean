import Cpu2Tensor.Library.Brackets

/-!
# JSON texts

The JSON grammar over bytes, by the parts of its usual presentation, with a bound on how far
objects and arrays nest.  Bytes above 127 stand for themselves in a string.
-/

namespace Cpu2Tensor.Library

abbrev space : UInt8 := 32
abbrev horizontalTab : UInt8 := 9
abbrev comma : UInt8 := 44
abbrev colon : UInt8 := 58
abbrev fullStop : UInt8 := 46

def whitespace (byte : UInt8) : Prop := byte ∈ [space,horizontalTab,10,13]

def digit (byte : UInt8) : Prop := 48 ≤ byte ∧ byte ≤ 57

instance : DecidablePred digit := fun byte => inferInstanceAs (Decidable (48 ≤ byte ∧ byte ≤ 57))

/-- The decimal digits and the letters a to f in either case. -/
def hexDigit (byte : UInt8) : Prop :=
  digit byte ∨ (65 ≤ byte ∧ byte ≤ 70) ∨ (97 ≤ byte ∧ byte ≤ 102)

/-- The bytes that may follow a backslash alone, from the quotation mark to the letter t. -/
def escapedByte (byte : UInt8) : Prop :=
  byte ∈ [quotationMark,backslash,47,98,102,110,114,116]

/-- The characters of a JSON string and its closing quotation mark. -/
inductive JsonCharacters : Bytes → Prop
  | close : JsonCharacters [quotationMark]
  | plain {byte : UInt8} {rest : Bytes} : space ≤ byte → byte ≠ quotationMark →
      byte ≠ backslash → JsonCharacters rest → JsonCharacters (byte :: rest)
  | escape {byte : UInt8} {rest : Bytes} : escapedByte byte → JsonCharacters rest →
      JsonCharacters (backslash :: byte :: rest)
  | unicode {code rest : Bytes} : code.length = 4 → (∀ byte ∈ code, hexDigit byte) →
      JsonCharacters rest → JsonCharacters (backslash :: 117 :: (code ++ rest))

/-- An integer without a leading zero, an optional fraction and an optional exponent. -/
structure JsonNumber (text : Bytes) where
  sign : Bytes
  integer : Bytes
  fraction : Bytes
  exponent : Bytes
  text_eq : text = sign ++ integer ++ fraction ++ exponent
  signed : sign = [] ∨ sign = [45]
  counted : integer = [48] ∨
    ∃ first rest, integer = first :: rest ∧ digit first ∧ first ≠ 48 ∧ ∀ byte ∈ rest, digit byte
  divided : fraction = [] ∨
    ∃ digits, fraction = fullStop :: digits ∧ digits ≠ [] ∧ ∀ byte ∈ digits, digit byte
  raised : exponent = [] ∨
    ∃ letter sign digits, exponent = letter :: (sign ++ digits) ∧ letter ∈ [(69 : UInt8),101] ∧
      sign ∈ [([] : Bytes),[43],[45]] ∧ digits ≠ [] ∧ ∀ byte ∈ digits, digit byte

def jsonWords : List Bytes := [[116,114,117,101],[102,97,108,115,101],[110,117,108,108]]

inductive JsonPart
  | value | object | array | members | member | elements | element
  deriving DecidableEq

/-- The texts of a part of the grammar whose objects and arrays nest at most so deep. -/
inductive JsonText : JsonPart → Nat → Bytes → Prop
  | word {depth : Nat} {text : Bytes} : text ∈ jsonWords → JsonText .value depth text
  | number {depth : Nat} {text : Bytes} : Nonempty (JsonNumber text) → JsonText .value depth text
  | string {depth : Nat} {text : Bytes} : JsonCharacters text →
      JsonText .value depth (quotationMark :: text)
  | objectValue {depth : Nat} {text : Bytes} : JsonText .object depth text →
      JsonText .value depth text
  | arrayValue {depth : Nat} {text : Bytes} : JsonText .array depth text →
      JsonText .value depth text
  | emptyObject {depth : Nat} {blank : Bytes} : (∀ byte ∈ blank, whitespace byte) →
      JsonText .object (depth+1) (openBrace :: (blank ++ [closeBrace]))
  | object {depth : Nat} {text : Bytes} : JsonText .members depth text →
      JsonText .object (depth+1) (openBrace :: (text ++ [closeBrace]))
  | emptyArray {depth : Nat} {blank : Bytes} : (∀ byte ∈ blank, whitespace byte) →
      JsonText .array (depth+1) (openBracket :: (blank ++ [closeBracket]))
  | array {depth : Nat} {text : Bytes} : JsonText .elements depth text →
      JsonText .array (depth+1) (openBracket :: (text ++ [closeBracket]))
  | lastMember {depth : Nat} {text : Bytes} : JsonText .member depth text →
      JsonText .members depth text
  | members {depth : Nat} {text rest : Bytes} : JsonText .member depth text →
      JsonText .members depth rest → JsonText .members depth (text ++ comma :: rest)
  | member {depth : Nat} {before name after text : Bytes} : (∀ byte ∈ before, whitespace byte) →
      JsonCharacters name → (∀ byte ∈ after, whitespace byte) → JsonText .element depth text →
      JsonText .member depth (before ++ quotationMark :: (name ++ (after ++ colon :: text)))
  | lastElement {depth : Nat} {text : Bytes} : JsonText .element depth text →
      JsonText .elements depth text
  | elements {depth : Nat} {text rest : Bytes} : JsonText .element depth text →
      JsonText .elements depth rest → JsonText .elements depth (text ++ comma :: rest)
  | element {depth : Nat} {before text after : Bytes} : (∀ byte ∈ before, whitespace byte) →
      JsonText .value depth text → (∀ byte ∈ after, whitespace byte) →
      JsonText .element depth (before ++ (text ++ after))

variable {byte : UInt8} {depth : Nat} {text : Bytes}

theorem whitespace_plain (h : whitespace byte) : plainByte byte := by
  simp only [whitespace,List.mem_cons,List.not_mem_nil,or_false] at h
  rcases h with rfl | rfl | rfl | rfl <;> decide

theorem digit_plain (h : digit byte) : plainByte byte := by
  obtain ⟨hlow,hhigh⟩ := h
  have hhigh : byte.toNat ≤ 57 := UInt8.le_iff_toNat_le.mp hhigh
  have hlow : 48 ≤ byte.toNat := UInt8.le_iff_toNat_le.mp hlow
  intro hmem
  simp only [List.mem_cons,List.not_mem_nil,or_false] at hmem
  rcases hmem with rfl | rfl | rfl | rfl | rfl <;> revert hlow hhigh <;> decide

theorem hexDigit_unquoted (h : hexDigit byte) : byte ≠ quotationMark ∧ byte ≠ backslash := by
  constructor <;>
  · rintro rfl
    revert h
    unfold hexDigit digit
    decide

theorem JsonCharacters.quoted {text : Bytes} (h : JsonCharacters text) : Quoted text := by
  induction h with
  | close => exact .close
  | plain _ hquote hslash _ ih => exact .plain hquote hslash ih
  | escape _ _ ih => exact .escape ih
  | @unicode code rest _ hcode _ ih =>
    apply Quoted.escape
    clear * - hcode ih
    induction code with
    | nil => exact ih
    | cons byte code hind =>
      have hbyte := hexDigit_unquoted (hcode byte (by simp))
      exact .plain hbyte.1 hbyte.2 (hind fun b hb => hcode b (by simp [hb]))

theorem JsonNumber.plain (n : JsonNumber text) : ∀ byte ∈ text, plainByte byte := by
  intro byte hbyte
  rw [n.text_eq] at hbyte
  simp only [List.mem_append] at hbyte
  rcases hbyte with ((hbyte | hbyte) | hbyte) | hbyte
  · rcases n.signed with h | h <;> rw [h] at hbyte
    · simp at hbyte
    · obtain rfl : byte = 45 := by simpa using hbyte
      decide
  · rcases n.counted with h | ⟨first,rest,h,hfirst,-,hrest⟩ <;> rw [h] at hbyte
    · obtain rfl : byte = 48 := by simpa using hbyte
      decide
    · rcases List.mem_cons.mp hbyte with rfl | hbyte
      · exact digit_plain hfirst
      · exact digit_plain (hrest byte hbyte)
  · rcases n.divided with h | ⟨digits,h,-,hdigits⟩ <;> rw [h] at hbyte
    · simp at hbyte
    · rcases List.mem_cons.mp hbyte with rfl | hbyte
      · decide
      · exact digit_plain (hdigits byte hbyte)
  · rcases n.raised with h | ⟨letter,sign,digits,h,hletter,hsign,-,hdigits⟩ <;> rw [h] at hbyte
    · simp at hbyte
    · simp only [List.mem_cons,List.mem_append,List.not_mem_nil,or_false] at hbyte hletter hsign
      rcases hbyte with rfl | hbyte | hbyte
      · rcases hletter with rfl | rfl <;> decide
      · rcases hsign with rfl | rfl | rfl
        · simp at hbyte
        · obtain rfl : byte = 43 := by simpa using hbyte
          decide
        · obtain rfl : byte = 45 := by simpa using hbyte
          decide
      · exact digit_plain (hdigits byte hbyte)

theorem jsonWords_plain : ∀ text ∈ jsonWords, ∀ byte ∈ text, plainByte byte := by
  decide +kernel

private theorem blank_balanced (ht : ∀ byte ∈ text, whitespace byte) : Balanced depth text :=
  .of_plain fun byte hbyte => whitespace_plain (ht byte hbyte)

private theorem separated_balanced {separator : UInt8} {rest : Bytes} (hs : plainByte separator)
    (ht : Balanced depth text) (hr : Balanced depth rest) :
    Balanced depth (text ++ separator :: rest) :=
  ht.append (.plain hs hr)

theorem JsonText.balanced {part : JsonPart} (h : JsonText part depth text) :
    Balanced depth text := by
  induction h with
  | word hword => exact .of_plain (jsonWords_plain _ hword)
  | number hnumber =>
    obtain ⟨n⟩ := hnumber
    exact .of_plain n.plain
  | string hstring => exact .quoted hstring.quoted
  | objectValue _ ih => exact ih
  | arrayValue _ ih => exact ih
  | emptyObject hblank => exact .enclosed .brace (blank_balanced hblank)
  | object _ ih => exact .enclosed .brace ih
  | emptyArray hblank => exact .enclosed .bracket (blank_balanced hblank)
  | array _ ih => exact .enclosed .bracket ih
  | lastMember _ ih => exact ih
  | members _ _ ihfirst ihrest => exact separated_balanced (by decide) ihfirst ihrest
  | member hbefore hname hafter _ ih =>
    apply (blank_balanced hbefore).append
    exact .string hname.quoted (separated_balanced (by decide) (blank_balanced hafter) ih)
  | lastElement _ ih => exact ih
  | elements _ _ ihfirst ihrest => exact separated_balanced (by decide) ihfirst ihrest
  | element hbefore _ hafter ih =>
    exact (blank_balanced hbefore).append (ih.append (blank_balanced hafter))

theorem JsonText.balancedObject (h : JsonText .object depth text) : BalancedObject depth text := by
  cases h with
  | emptyObject hblank => exact .intro (blank_balanced hblank)
  | object hmembers => exact .intro hmembers.balanced

end Cpu2Tensor.Library
