import Cpu2Tensor.Library.Bytes

/-!
# Bracketed texts

Texts whose braces and brackets match outside double-quoted strings, where a backslash in a
string takes the byte after it.  The depth of a text bounds how far its brackets nest.
-/

namespace Cpu2Tensor.Library

abbrev quotationMark : UInt8 := 34
abbrev backslash : UInt8 := 92
abbrev openBrace : UInt8 := 123
abbrev closeBrace : UInt8 := 125
abbrev openBracket : UInt8 := 91
abbrev closeBracket : UInt8 := 93

/-- The byte that closes what an opening byte opens. -/
inductive Pairs : UInt8 → UInt8 → Prop
  | brace : Pairs openBrace closeBrace
  | bracket : Pairs openBracket closeBracket

def plainByte (byte : UInt8) : Prop :=
  byte ∉ [quotationMark,openBrace,closeBrace,openBracket,closeBracket]

instance : DecidablePred plainByte := fun byte =>
  inferInstanceAs (Decidable (byte ∉ _))

/-- What follows the opening quotation mark of a string, up to its closing one. -/
inductive Quoted : Bytes → Prop
  | close : Quoted [quotationMark]
  | plain {byte : UInt8} {rest : Bytes} :
      byte ≠ quotationMark → byte ≠ backslash → Quoted rest → Quoted (byte :: rest)
  | escape {byte : UInt8} {rest : Bytes} : Quoted rest → Quoted (backslash :: byte :: rest)

/-- Brackets match and nest at most `depth` deep. -/
inductive Balanced : Nat → Bytes → Prop
  | nil {depth : Nat} : Balanced depth []
  | plain {depth : Nat} {byte : UInt8} {rest : Bytes} :
      plainByte byte → Balanced depth rest → Balanced depth (byte :: rest)
  | string {depth : Nat} {quoted rest : Bytes} :
      Quoted quoted → Balanced depth rest → Balanced depth (quotationMark :: (quoted ++ rest))
  | nest {depth : Nat} {opening closing : UInt8} {inner rest : Bytes} :
      Pairs opening closing → Balanced depth inner → Balanced (depth+1) rest →
      Balanced (depth+1) (opening :: (inner ++ closing :: rest))

/-- A balanced text in braces, the braces counted in the depth. -/
inductive BalancedObject : Nat → Bytes → Prop
  | intro {depth : Nat} {inner : Bytes} :
      Balanced depth inner → BalancedObject (depth+1) (openBrace :: (inner ++ [closeBrace]))

namespace Balanced

variable {depth : Nat}

theorem append {first second : Bytes} (hf : Balanced depth first) (hs : Balanced depth second) :
    Balanced depth (first ++ second) := by
  induction hf with
  | nil => exact hs
  | plain hbyte _ ih => exact .plain hbyte (ih hs)
  | string hquoted _ ih =>
    rw [List.cons_append,List.append_assoc]
    exact .string hquoted (ih hs)
  | nest hpair hinner _ _ ih =>
    rw [List.cons_append,List.append_assoc,List.cons_append]
    exact .nest hpair hinner (ih hs)

theorem of_plain {text : Bytes} (ht : ∀ byte ∈ text, plainByte byte) : Balanced depth text := by
  induction text with
  | nil => exact .nil
  | cons byte text ih =>
    exact .plain (ht byte (by simp)) (ih fun b hb => ht b (by simp [hb]))

theorem quoted {depth : Nat} {text : Bytes} (ht : Quoted text) :
    Balanced depth (quotationMark :: text) := by
  have h : Balanced depth (quotationMark :: (text ++ [])) := .string ht .nil
  rwa [List.append_nil] at h

theorem enclosed {opening closing : UInt8} {inner : Bytes} (hpair : Pairs opening closing)
    (hinner : Balanced depth inner) : Balanced (depth+1) (opening :: (inner ++ [closing])) :=
  .nest hpair hinner .nil

end Balanced

/-- What closes a stack of open brackets, each by its closing byte, when at most `capacity`
brackets may be open at once. -/
inductive Closes (capacity : Nat) : List UInt8 → Bytes → Prop
  | done : Closes capacity [] []
  | close {depth : Nat} {closing : UInt8} {stack : List UInt8} {inner rest : Bytes} :
      depth + (stack.length+1) = capacity → Balanced depth inner → Closes capacity stack rest →
      Closes capacity (closing :: stack) (inner ++ closing :: rest)

namespace Closes

variable {capacity : Nat} {closing : UInt8} {stack : List UInt8} {text : Bytes}

theorem plain {byte : UInt8} (hbyte : plainByte byte)
    (h : Closes capacity (closing :: stack) text) :
    Closes capacity (closing :: stack) (byte :: text) := by
  cases h with
  | close hdepth hinner hrest =>
    rw [← List.cons_append]
    exact .close hdepth (.plain hbyte hinner) hrest

theorem string {quoted : Bytes} (hquoted : Quoted quoted)
    (h : Closes capacity (closing :: stack) text) :
    Closes capacity (closing :: stack) (quotationMark :: (quoted ++ text)) := by
  cases h with
  | close hdepth hinner hrest =>
    rw [← List.append_assoc,← List.cons_append]
    exact .close hdepth (.string hquoted hinner) hrest

/-- An opening byte and what closes it belong to the text of the bracket around it. -/
theorem opened {opening inner : UInt8} (hpair : Pairs opening inner)
    (h : Closes capacity (inner :: closing :: stack) text) :
    Closes capacity (closing :: stack) (opening :: text) := by
  cases h with
  | @close depth _ _ first _ hdepth hfirst hrest =>
    cases hrest with
    | @close outer _ _ second rest houter hsecond hrest =>
      rw [List.length_cons] at hdepth
      obtain rfl : outer = depth+1 := by omega
      have h : Closes capacity (closing :: stack)
          ((opening :: (first ++ inner :: second)) ++ closing :: rest) :=
        .close houter (.nest hpair hfirst hsecond) hrest
      rwa [List.cons_append,List.append_assoc,List.cons_append] at h

theorem closed (hdepth : stack.length < capacity) (h : Closes capacity stack text) :
    Closes capacity (closing :: stack) (closing :: text) := by
  have hcapacity : capacity-(stack.length+1) + (stack.length+1) = capacity := by omega
  exact .close hcapacity .nil h

theorem balancedObject (h : Closes (capacity+1) [closeBrace] text) :
    BalancedObject (capacity+1) (openBrace :: text) := by
  cases h with
  | @close depth _ _ inner _ hdepth hinner hrest =>
    cases hrest
    obtain rfl : depth = capacity := by simpa using hdepth
    exact .intro hinner

end Closes

end Cpu2Tensor.Library
