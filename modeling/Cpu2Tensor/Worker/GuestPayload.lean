import Cpu2Tensor.Library.JsonText

/-!
# Guest payloads of the kernel console

`split_guest_payload` of the kernel worker finds where the JSON object of a console line ends and
what was printed after it.  What it finds is compared with `BalancedObject`, which knows of no
scanner, and through it with the JSON grammar.
-/

namespace Cpu2Tensor.KernelProtocol
open Library

def jsonDepthCapacity : Nat := 16

inductive GuestSuffix
  | none | kernelPrintk | invalid
  deriving DecidableEq, Repr

structure GuestPayload where
  jsonSize : Nat
  suffixOffset : Nat
  suffixSize : Nat
  suffix : GuestSuffix
  deriving DecidableEq, Repr

def marker : Bytes := [67,50,84,32]

def containsC2tMarker : Bytes → Bool
  | [] => false
  | byte :: bytes => marker.isPrefixOf (byte :: bytes) || containsC2tMarker bytes

def digits : Nat → Bytes → Option Bytes
  | 0, bytes => some bytes
  | _+1, [] => none
  | count+1, byte :: bytes => if digit byte then digits count bytes else none

/-- The last loop: every byte is printable, and some byte was not a space. -/
def printable (nonSpace : Bool) : Bytes → Bool
  | [] => nonSpace
  | byte :: bytes =>
    if byte < 32 ∨ 126 < byte then false else printable (nonSpace || byte ≠ space) bytes

def isKernelPrintkSuffix (bytes : Bytes) : Bool :=
  if bytes.length < 12 ∨ bytes.head? ≠ some openBracket ∨ containsC2tMarker bytes then false
  else
    let seconds := (bytes.drop 1).dropWhile (· = space)
    let fraction := seconds.dropWhile (digit ·)
    if fraction.length = seconds.length ∨ fraction.head? ≠ some fullStop then false
    else
      match digits 6 (fraction.drop 1) with
      | none => false
      | some rest =>
        if rest.take 2 ≠ [closeBracket,space] then false else printable false (rest.drop 2)

def classify (suffix : Bytes) : GuestSuffix :=
  if isKernelPrintkSuffix suffix then .kernelPrintk else .invalid

def blank (byte : UInt8) : Bool := byte = space ∨ byte = horizontalTab

/-- The variables of the loop; the stack has its last entry first. -/
structure Scan where
  closing : List UInt8 := []
  quoted : Bool := false
  escaped : Bool := false
  deriving DecidableEq

/-- What a pass of the loop does: go on, give the line back whole, or find the root closed. -/
inductive Pass
  | next (scan : Scan)
  | whole
  | closed
  deriving DecidableEq

def Scan.pass (s : Scan) (byte : UInt8) : Pass :=
  if s.quoted then
    if s.escaped then .next { s with escaped := false }
    else if byte = backslash then .next { s with escaped := true }
    else if byte = quotationMark then .next { s with quoted := false }
    else .next s
  else if byte = quotationMark then .next { s with quoted := true }
  else if byte = openBrace ∨ byte = openBracket then
    if s.closing.length = jsonDepthCapacity then .whole
    else
      .next { s with
        closing := (if byte = openBrace then closeBrace else closeBracket) :: s.closing }
  else if byte ≠ closeBrace ∧ byte ≠ closeBracket then .next s
  else
    match s.closing with
    | [] => .whole
    | top :: closing =>
      if top ≠ byte then .whole
      else if closing ≠ [] then .next { s with closing := closing }
      else .closed

/-- The loop: how many bytes it takes to close the root object. -/
def Scan.rootSize (s : Scan) : Bytes → Option Nat
  | [] => none
  | byte :: bytes =>
    match s.pass byte with
    | .whole => none
    | .closed => some 1
    | .next s => (s.rootSize bytes).map (·+1)

def whole (bytes : Bytes) : GuestPayload := ⟨bytes.length,bytes.length,0,.none⟩

def splitGuestPayload (bytes : Bytes) : GuestPayload :=
  let start := (bytes.takeWhile blank).length
  if (bytes.drop start).head? ≠ some openBrace then whole bytes
  else
    match Scan.rootSize {} (bytes.drop start) with
    | none => whole bytes
    | some size =>
      let jsonSize := start+size
      let suffixOffset := jsonSize + ((bytes.drop jsonSize).takeWhile blank).length
      if suffixOffset = bytes.length then whole bytes
      else
        { jsonSize := jsonSize
          suffixOffset := suffixOffset
          suffixSize := bytes.length-suffixOffset
          suffix := classify (bytes.drop suffixOffset) }

section Passes

variable {closing : List UInt8} {byte : UInt8}

private theorem pass_escaped : (Scan.mk closing true true).pass byte = .next ⟨closing,true,false⟩ :=
  rfl

private theorem pass_backslash :
    (Scan.mk closing true false).pass backslash = .next ⟨closing,true,true⟩ := rfl

private theorem pass_unquote :
    (Scan.mk closing true false).pass quotationMark = .next ⟨closing,false,false⟩ := rfl

private theorem pass_character (hslash : byte ≠ backslash) (hquote : byte ≠ quotationMark) :
    (Scan.mk closing true false).pass byte = .next ⟨closing,true,false⟩ := by
  simp only [Scan.pass,if_true,Bool.false_eq_true,if_false,if_neg hslash,if_neg hquote]

private theorem pass_quote :
    (Scan.mk closing false false).pass quotationMark = .next ⟨closing,true,false⟩ := rfl

private theorem pass_plain (hbyte : plainByte byte) :
    (Scan.mk closing false false).pass byte = .next ⟨closing,false,false⟩ := by
  simp only [plainByte,List.mem_cons,List.not_mem_nil,or_false,not_or] at hbyte
  obtain ⟨hquote,hbrace,hclosebrace,hbracket,hclosebracket⟩ := hbyte
  simp [Scan.pass,hquote,hbrace,hclosebrace,hbracket,hclosebracket]

variable {inner opening : UInt8}

private theorem pass_open (hpair : Pairs opening inner) :
    (Scan.mk closing false false).pass opening =
      if closing.length = jsonDepthCapacity then .whole
      else .next ⟨inner :: closing,false,false⟩ := by
  cases hpair <;> rfl

private theorem pass_close (hpair : Pairs opening inner) :
    (Scan.mk closing false false).pass inner =
      match closing with
      | [] => .whole
      | top :: closing =>
        if top ≠ inner then .whole
        else if closing ≠ [] then .next ⟨closing,false,false⟩
        else .closed := by
  cases hpair <;> rfl

end Passes

private theorem byte_cases (byte : UInt8) :
    byte = quotationMark ∨ (∃ inner, Pairs byte inner) ∨ (∃ opening, Pairs opening byte) ∨
      plainByte byte := by
  by_cases hplain : plainByte byte
  · exact .inr (.inr (.inr hplain))
  · simp only [plainByte,not_not,List.mem_cons,List.not_mem_nil,or_false] at hplain
    rcases hplain with rfl | rfl | rfl | rfl | rfl
    · exact .inl rfl
    · exact .inr (.inl ⟨_,.brace⟩)
    · exact .inr (.inr (.inl ⟨_,.brace⟩))
    · exact .inr (.inl ⟨_,.bracket⟩)
    · exact .inr (.inr (.inl ⟨_,.bracket⟩))

/-- Some bracket is open, no more than there is room for, and only a string has escapes. -/
structure Scan.Open (s : Scan) : Prop where
  nonempty : s.closing ≠ []
  bounded : s.closing.length ≤ jsonDepthCapacity
  escapes : s.escaped = true → s.quoted = true

/-- Every pass over an open scan that does not give the line back. -/
inductive Scan.Moves : Scan → UInt8 → Pass → Prop
  | escaped {closing : List UInt8} {byte : UInt8} :
      Moves ⟨closing,true,true⟩ byte (.next ⟨closing,true,false⟩)
  | backslash {closing : List UInt8} :
      Moves ⟨closing,true,false⟩ backslash (.next ⟨closing,true,true⟩)
  | unquote {closing : List UInt8} :
      Moves ⟨closing,true,false⟩ quotationMark (.next ⟨closing,false,false⟩)
  | character {closing : List UInt8} {byte : UInt8} :
      byte ≠ quotationMark → byte ≠ Library.backslash →
      Moves ⟨closing,true,false⟩ byte (.next ⟨closing,true,false⟩)
  | quote {closing : List UInt8} :
      Moves ⟨closing,false,false⟩ quotationMark (.next ⟨closing,true,false⟩)
  | opened {closing : List UInt8} {opening inner : UInt8} :
      Pairs opening inner → closing.length < jsonDepthCapacity →
      Moves ⟨closing,false,false⟩ opening (.next ⟨inner :: closing,false,false⟩)
  | closed {closing : List UInt8} {inner : UInt8} : closing ≠ [] →
      Moves ⟨inner :: closing,false,false⟩ inner (.next ⟨closing,false,false⟩)
  | root {inner : UInt8} : Moves ⟨[inner],false,false⟩ inner .closed
  | plain {closing : List UInt8} {byte : UInt8} : plainByte byte →
      Moves ⟨closing,false,false⟩ byte (.next ⟨closing,false,false⟩)

variable {byte : UInt8} {bytes leading object tail : Bytes} {s : Scan}

theorem Scan.pass_moves (hs : s.Open) (byte : UInt8) (hpass : s.pass byte ≠ .whole) :
    s.Moves byte (s.pass byte) := by
  obtain ⟨closing,quoted,escaped⟩ := s
  obtain ⟨hnonempty,hbounded,hescapes⟩ := hs
  cases quoted with
  | true =>
    cases escaped with
    | true => exact .escaped
    | false =>
      by_cases hslash : byte = Library.backslash
      · subst hslash
        exact .backslash
      · by_cases hquote : byte = quotationMark
        · subst hquote
          exact .unquote
        · rw [pass_character hslash hquote]
          exact .character hquote hslash
  | false =>
    obtain rfl : escaped = false := by simpa using hescapes
    rcases byte_cases byte with rfl | ⟨inner,hpair⟩ | ⟨opening,hpair⟩ | hplain
    · exact .quote
    · rw [pass_open hpair] at hpass ⊢
      split at hpass
      · exact absurd rfl hpass
      · rename_i hroom
        rw [if_neg hroom]
        exact .opened hpair (Nat.lt_of_le_of_ne hbounded hroom)
    · obtain ⟨top,closing,rfl⟩ := List.exists_cons_of_ne_nil hnonempty
      rw [pass_close hpair] at hpass ⊢
      dsimp only at hpass ⊢
      by_cases htop : top = byte
      · subst htop
        by_cases hclosing : closing = []
        · subst hclosing
          simpa using Scan.Moves.root
        · simpa [hclosing] using Scan.Moves.closed hclosing
      · exact absurd (if_pos htop) hpass
    · rw [pass_plain hplain]
      exact .plain hplain

variable {size : Nat} {t : Scan}

theorem Scan.Moves.keepsOpen (hs : s.Open) (h : s.Moves byte (.next t)) : t.Open := by
  obtain ⟨hnonempty,hbounded,hescapes⟩ := hs
  cases h with
  | escaped => exact ⟨hnonempty,hbounded,by simp⟩
  | backslash => exact ⟨hnonempty,hbounded,by simp⟩
  | unquote => exact ⟨hnonempty,hbounded,by simp⟩
  | character => exact ⟨hnonempty,hbounded,by simp⟩
  | quote => exact ⟨hnonempty,hbounded,by simp⟩
  | opened _ hroom => exact ⟨by simp,hroom,by simp⟩
  | closed hclosing =>
    rw [List.length_cons] at hbounded
    exact ⟨hclosing,Nat.le_of_succ_le hbounded,by simp⟩
  | plain => exact ⟨hnonempty,hbounded,by simp⟩

/-- What a scan with open brackets has still to read. -/
def Scan.Remaining (s : Scan) (text : Bytes) : Prop :=
  match s.quoted,s.escaped with
  | false,_ => Closes jsonDepthCapacity s.closing text
  | true,false => ∃ quoted rest, text = quoted ++ rest ∧ Quoted quoted ∧
      Closes jsonDepthCapacity s.closing rest
  | true,true => ∃ byte quoted rest, text = byte :: (quoted ++ rest) ∧ Quoted quoted ∧
      Closes jsonDepthCapacity s.closing rest

private theorem remaining_next {text : Bytes} (hs : s.Open) (hmoves : s.Moves byte (.next t))
    (ht : t.Remaining text) : s.Remaining (byte :: text) := by
  obtain ⟨top,closing,htop⟩ := List.exists_cons_of_ne_nil hs.nonempty
  cases hmoves with
  | escaped =>
    obtain ⟨quoted,rest,rfl,hquoted,hrest⟩ := ht
    exact ⟨byte,quoted,rest,rfl,hquoted,hrest⟩
  | backslash =>
    obtain ⟨taken,quoted,rest,rfl,hquoted,hrest⟩ := ht
    exact ⟨Library.backslash :: taken :: quoted,rest,rfl,.escape hquoted,hrest⟩
  | unquote => exact ⟨[quotationMark],text,rfl,.close,ht⟩
  | character hquote hslash =>
    obtain ⟨quoted,rest,rfl,hquoted,hrest⟩ := ht
    exact ⟨byte :: quoted,rest,rfl,.plain hquote hslash hquoted,hrest⟩
  | quote =>
    subst htop
    obtain ⟨quoted,rest,rfl,hquoted,hrest⟩ := ht
    exact Closes.string hquoted hrest
  | opened hpair =>
    subst htop
    exact Closes.opened hpair ht
  | closed hclosing => exact Closes.closed hs.bounded ht
  | plain hplain =>
    subst htop
    exact Closes.plain hplain ht

private theorem remaining_root (hmoves : s.Moves byte .closed) : s.Remaining [byte] := by
  cases hmoves with
  | root => exact Closes.closed (by decide) .done

/-- The run: what the loop has taken closes all the brackets that were open. -/
theorem Scan.rootSize_remaining (hs : s.Open) (h : s.rootSize bytes = some size) :
    size ≤ bytes.length ∧ s.Remaining (bytes.take size) := by
  induction bytes generalizing s size with
  | nil => cases h
  | cons byte bytes ih =>
    rw [Scan.rootSize] at h
    split at h
    · cases h
    · rename_i hpass
      cases h
      have hmoves := Scan.pass_moves hs byte (by rw [hpass]; exact nofun)
      rw [hpass] at hmoves
      exact ⟨by simp,remaining_root hmoves⟩
    · rename_i t hpass
      obtain ⟨rest,hrest,rfl⟩ := Option.map_eq_some_iff.mp h
      have hmoves := Scan.pass_moves hs byte (by rw [hpass]; exact nofun)
      rw [hpass] at hmoves
      obtain ⟨hsize,hremaining⟩ := ih (hmoves.keepsOpen hs) hrest
      exact ⟨by simpa using hsize,remaining_next hs hmoves hremaining⟩

section Complete

variable {closing : List UInt8} {rest : Bytes}

private theorem rootSize_next {t : Scan} (hpass : s.pass byte = .next t) (bytes : Bytes) :
    s.rootSize (byte :: bytes) = (t.rootSize bytes).map (·+1) := by
  rw [Scan.rootSize,hpass]

private theorem rootSize_quoted {quoted : Bytes} (hquoted : Quoted quoted) :
    (Scan.mk closing true false).rootSize (quoted ++ rest) =
      ((Scan.mk closing false false).rootSize rest).map (·+quoted.length) := by
  induction hquoted with
  | close => exact rootSize_next pass_unquote rest
  | plain hquote hslash _ ih =>
    rw [List.cons_append,rootSize_next (pass_character hslash hquote),ih,Option.map_map]
    rfl
  | escape _ ih =>
    rw [List.cons_append,List.cons_append,rootSize_next pass_backslash,
      rootSize_next pass_escaped,ih,Option.map_map,Option.map_map]
    rfl

private theorem rootSize_balanced {depth : Nat} {inner : Bytes} (hinner : Balanced depth inner)
    (hclosing : closing ≠ []) (hdepth : depth + closing.length = jsonDepthCapacity) :
    (Scan.mk closing false false).rootSize (inner ++ rest) =
      ((Scan.mk closing false false).rootSize rest).map (·+inner.length) := by
  induction hinner generalizing closing rest with
  | nil => simp
  | plain hplain _ ih =>
    rw [List.cons_append,rootSize_next (pass_plain hplain),ih hclosing hdepth,Option.map_map]
    rfl
  | @string _ quoted more hquoted _ ih =>
    rw [List.cons_append,List.append_assoc,rootSize_next pass_quote,rootSize_quoted hquoted,
      ih hclosing hdepth,Option.map_map,Option.map_map]
    congr 1
    funext size
    simp only [Function.comp_apply,List.length_cons,List.length_append]
    omega
  | @nest depth opening closed inner more hpair _ _ ihinner ihmore =>
    have hopen : (Scan.mk closing false false).pass opening =
        .next ⟨closed :: closing,false,false⟩ := by
      rw [pass_open hpair,if_neg (by omega)]
    have hclose : (Scan.mk (closed :: closing) false false).pass closed =
        .next ⟨closing,false,false⟩ := by
      rw [pass_close hpair]
      simp [hclosing]
    have hinside : depth + (closed :: closing).length = jsonDepthCapacity := by
      rw [List.length_cons]
      omega
    rw [List.cons_append,List.append_assoc,List.cons_append,rootSize_next hopen,
      ihinner (by simp) hinside,rootSize_next hclose,ihmore hclosing hdepth]
    simp only [Option.map_map]
    congr 1
    funext size
    simp only [Function.comp_apply,List.length_cons,List.length_append]
    omega

theorem rootSize_balancedObject (hobject : BalancedObject jsonDepthCapacity object) (rest : Bytes) :
    Scan.rootSize {} (object ++ rest) = some object.length := by
  obtain ⟨depth,inner,hdepth,rfl,hinner⟩ :
      ∃ depth inner, depth+1 = jsonDepthCapacity ∧ object = openBrace :: (inner ++ [closeBrace]) ∧
        Balanced depth inner := by
    generalize hcapacity : jsonDepthCapacity = capacity at hobject
    obtain ⟨hinner⟩ := hobject
    exact ⟨_,_,rfl,rfl,hinner⟩
  have hopen : Scan.pass {} openBrace = .next ⟨[closeBrace],false,false⟩ := rfl
  have hclose : (Scan.mk [closeBrace] false false).rootSize ([closeBrace] ++ rest) = some 1 := rfl
  have hinside : depth + [closeBrace].length = jsonDepthCapacity := hdepth
  rw [List.cons_append,List.append_assoc,rootSize_next hopen,
    rootSize_balanced hinner (by simp) hinside,hclose]
  simp only [Option.map_some,List.length_cons,List.length_append,List.length_nil]
  rw [Nat.add_comm 1]

end Complete

theorem balancedObject_of_rootSize (hfirst : bytes.head? = some openBrace)
    (h : Scan.rootSize {} bytes = some size) :
    size ≤ bytes.length ∧ BalancedObject jsonDepthCapacity (bytes.take size) := by
  obtain ⟨bytes,rfl⟩ : ∃ rest, bytes = openBrace :: rest := by
    cases bytes with
    | nil => cases hfirst
    | cons byte bytes => exact ⟨bytes,by rw [Option.some.inj hfirst]⟩
  have hopen : Scan.pass {} openBrace = .next ⟨[closeBrace],false,false⟩ := rfl
  rw [rootSize_next hopen] at h
  obtain ⟨rest,hrest,rfl⟩ := Option.map_eq_some_iff.mp h
  obtain ⟨hsize,hremaining⟩ := Scan.rootSize_remaining ⟨by simp,by decide,by simp⟩ hrest
  exact ⟨by simpa using hsize,Closes.balancedObject hremaining⟩

/-- An opening bracket, spaces, seconds, a full stop, six digits, a closing bracket and a space,
then printable text that is not all spaces. -/
def MatchesPrintk (bytes : Bytes) : Prop :=
  ∃ spaces seconds micros text, bytes = openBracket ::
      (spaces ++ (seconds ++ fullStop :: (micros ++ closeBracket :: space :: text))) ∧
    (∀ byte ∈ spaces, byte = space) ∧ seconds ≠ [] ∧ (∀ byte ∈ seconds, digit byte) ∧
    micros.length = 6 ∧ (∀ byte ∈ micros, digit byte) ∧
    (∀ byte ∈ text, 32 ≤ byte ∧ byte ≤ 126) ∧ ∃ byte ∈ text, byte ≠ space

theorem containsC2tMarker_iff (bytes : Bytes) :
    containsC2tMarker bytes = true ↔ marker <:+: bytes := by
  induction bytes with
  | nil => simp [containsC2tMarker,marker]
  | cons byte bytes ih =>
    rw [containsC2tMarker,Bool.or_eq_true,List.isPrefixOf_iff_prefix,ih,List.infix_cons_iff]

theorem digits_eq_some (count : Nat) (bytes rest : Bytes) :
    digits count bytes = some rest ↔
      ∃ read, bytes = read ++ rest ∧ read.length = count ∧ ∀ byte ∈ read, digit byte := by
  induction count generalizing bytes with
  | zero => simp [digits,eq_comm]
  | succ count ih =>
    cases bytes with
    | nil => simp +contextual [digits,eq_comm]
    | cons byte bytes =>
      rw [digits]
      constructor
      · intro h
        split at h
        · rename_i hbyte
          obtain ⟨read,rfl,hlen,hread⟩ := (ih bytes).mp h
          exact ⟨byte :: read,rfl,by rw [List.length_cons,hlen],
            List.forall_mem_cons.mpr ⟨hbyte,hread⟩⟩
        · cases h
      · rintro ⟨read,hbytes,hlen,hread⟩
        cases read with
        | nil => simp at hlen
        | cons first read =>
          obtain ⟨rfl,rfl⟩ := List.cons.inj hbytes
          obtain ⟨hbyte,hread⟩ := List.forall_mem_cons.mp hread
          rw [if_pos hbyte]
          exact (ih _).mpr ⟨read,rfl,by simpa using hlen,hread⟩

theorem printable_iff (nonSpace : Bool) (bytes : Bytes) :
    printable nonSpace bytes = true ↔
      (∀ byte ∈ bytes, 32 ≤ byte ∧ byte ≤ 126) ∧
        (nonSpace = true ∨ ∃ byte ∈ bytes, byte ≠ space) := by
  induction bytes generalizing nonSpace with
  | nil => simp [printable]
  | cons byte bytes ih =>
    rw [printable]
    split
    · rename_i hrange
      simp only [Bool.false_eq_true,List.forall_mem_cons,false_iff,not_and_or]
      left; left
      rcases hrange with h | h
      · exact .inl (UInt8.not_le.mpr h)
      · exact .inr (UInt8.not_le.mpr h)
    · rename_i hrange
      rw [not_or,UInt8.not_lt,UInt8.not_lt] at hrange
      rw [ih]
      simp only [List.forall_mem_cons,hrange,true_and,List.exists_mem_cons_iff,Bool.or_eq_true,
        decide_eq_true_eq,and_true,or_assoc]

private theorem dropWhile_length {test : UInt8 → Bool} :
    (bytes.dropWhile test).length = bytes.length ↔ bytes.takeWhile test = [] := by
  have hsum : (bytes.takeWhile test ++ bytes.dropWhile test).length = bytes.length := by
    rw [List.takeWhile_append_dropWhile]
  rw [List.length_append] at hsum
  rw [← List.length_eq_zero_iff]
  omega

private theorem isKernelPrintkSuffix_eq_true (bytes : Bytes) :
    isKernelPrintkSuffix bytes = true ↔
      12 ≤ bytes.length ∧ ¬ marker <:+: bytes ∧
        ∃ after rest, bytes = openBracket :: after ∧
          (after.dropWhile (· = space)).takeWhile (digit ·) ≠ [] ∧
          (after.dropWhile (· = space)).dropWhile (digit ·) = fullStop :: rest ∧
          ∃ text, digits 6 rest = some (closeBracket :: space :: text) ∧
            printable false text = true := by
  unfold isKernelPrintkSuffix
  rw [← containsC2tMarker_iff]
  constructor
  · intro h
    dsimp only at h
    split_ifs at h with hcheck hfraction
    simp only [not_or,not_lt,ne_eq,not_not,List.head?_eq_some_iff] at hcheck hfraction
    obtain ⟨hlen,⟨after,rfl⟩,hmarker⟩ := hcheck
    obtain ⟨hlength,rest,hrest⟩ := hfraction
    simp only [List.drop_succ_cons,List.drop_zero] at h hlength hrest
    rw [hrest,List.drop_one,List.tail_cons] at h
    refine ⟨hlen,hmarker,after,rest,rfl,fun hnone => hlength (dropWhile_length.mpr hnone),
      hrest,?_⟩
    split at h
    · cases h
    · rename_i tail hdigits
      split_ifs at h with htail
      simp only [ne_eq,not_not] at htail
      refine ⟨tail.drop 2,?_,h⟩
      rw [hdigits]
      congr 1
      conv_lhs => rw [← List.take_append_drop 2 tail,htail]
      rfl
  · rintro ⟨hlen,hmarker,after,rest,rfl,hseconds,hrest,text,hdigits,htext⟩
    rw [if_neg (by simpa [hmarker] using hlen),List.drop_one,List.tail_cons]
    dsimp only
    rw [if_neg]
    · rw [hrest,List.drop_one,List.tail_cons,hdigits]
      simpa using htext
    · rw [not_or]
      exact ⟨fun hlength => hseconds (dropWhile_length.mp hlength),by rw [hrest]; simp⟩

theorem isKernelPrintkSuffix_iff (bytes : Bytes) :
    isKernelPrintkSuffix bytes = true ↔
      MatchesPrintk bytes ∧ 12 ≤ bytes.length ∧ ¬ marker <:+: bytes := by
  rw [isKernelPrintkSuffix_eq_true]
  constructor
  · rintro ⟨hlen,hmarker,after,rest,rfl,hseconds,hfraction,text,hdigits,htext⟩
    refine ⟨?_,hlen,hmarker⟩
    obtain ⟨micros,rfl,hmicros,hmicro⟩ := (digits_eq_some 6 _ _).mp hdigits
    obtain ⟨hprintable,hnonspace⟩ := (printable_iff false text).mp htext
    refine ⟨after.takeWhile (· = space),(after.dropWhile (· = space)).takeWhile (digit ·),micros,
      text,?_,?_,hseconds,?_,hmicros,hmicro,hprintable,by simpa using hnonspace⟩
    · rw [← hfraction,List.takeWhile_append_dropWhile,List.takeWhile_append_dropWhile]
    · exact fun byte hbyte => by simpa using List.mem_takeWhile_imp hbyte
    · exact fun byte hbyte => by simpa using List.mem_takeWhile_imp hbyte
  · rintro ⟨⟨spaces,seconds,micros,text,rfl,hspaces,hseconds,hsecond,hmicros,hmicro,hprintable,
      hnonspace⟩,hlen,hmarker⟩
    obtain ⟨first,more,rfl⟩ := List.exists_cons_of_ne_nil hseconds
    have hfirst : digit first := hsecond first (by simp)
    have hskip (rest : Bytes) : (spaces ++ (first :: more ++ rest)).dropWhile (· = space) =
        first :: more ++ rest := by
      rw [List.dropWhile_append_of_pos fun byte hbyte => by simpa using hspaces byte hbyte,
        List.cons_append,List.dropWhile_cons_of_neg]
      rintro h
      obtain rfl : first = space := by simpa using h
      exact absurd hfirst (by decide)
    refine ⟨hlen,hmarker,_,micros ++ closeBracket :: space :: text,rfl,?_,?_,text,?_,?_⟩
    · rw [hskip,List.cons_append,List.takeWhile_cons_of_pos (by simpa using hfirst)]
      simp
    · rw [hskip,List.dropWhile_append_of_pos fun byte hbyte => by simpa using hsecond byte hbyte,
        List.dropWhile_cons_of_neg (by decide)]
    · exact (digits_eq_some 6 _ _).mpr ⟨micros,rfl,hmicros,hmicro⟩
    · exact (printable_iff false text).mpr ⟨hprintable,.inr hnonspace⟩

private theorem takeWhile_blank {rest : Bytes} (hleading : ∀ b ∈ leading, blank b = true)
    (hbyte : blank byte = false) : (leading ++ byte :: rest).takeWhile blank = leading := by
  rw [List.takeWhile_append_of_pos hleading,List.takeWhile_cons_of_neg (by simp [hbyte]),
    List.append_nil]

private theorem drop_takeWhile (test : UInt8 → Bool) (bytes : Bytes) :
    bytes.drop (bytes.takeWhile test).length = bytes.dropWhile test := by
  conv_lhs =>
    arg 2
    rw [← @List.takeWhile_append_dropWhile _ test bytes]
  exact List.drop_left

private theorem take_takeWhile (test : UInt8 → Bool) (bytes : Bytes) :
    bytes.take (bytes.takeWhile test).length = bytes.takeWhile test := by
  conv_lhs =>
    arg 2
    rw [← @List.takeWhile_append_dropWhile _ test bytes]
  exact List.take_left

private theorem head_object {depth : Nat} (h : BalancedObject depth object) :
    ∃ inner, object = openBrace :: inner := by
  obtain ⟨-⟩ := h
  exact ⟨_,rfl⟩

/-- A line of blanks, a balanced object and a tail splits behind the object, unless the tail is
blank. -/
theorem splitGuestPayload_object (hleading : ∀ byte ∈ leading, blank byte = true)
    (hobject : BalancedObject jsonDepthCapacity object) :
    splitGuestPayload (leading ++ (object ++ tail)) =
      if tail.dropWhile blank = [] then whole (leading ++ (object ++ tail))
      else
        { jsonSize := leading.length+object.length
          suffixOffset := leading.length+object.length+(tail.takeWhile blank).length
          suffixSize := (tail.dropWhile blank).length
          suffix := classify (tail.dropWhile blank) } := by
  obtain ⟨inner,hinner⟩ := head_object hobject
  have hstart : (leading ++ (object ++ tail)).takeWhile blank = leading := by
    rw [hinner,List.cons_append]
    exact takeWhile_blank hleading rfl
  have hhead : (object ++ tail).head? = some openBrace := by rw [hinner]; rfl
  have hjson : (leading ++ (object ++ tail)).drop (leading.length+object.length) = tail := by
    rw [← List.append_assoc,← List.length_append,List.drop_left]
  have htail : (tail.takeWhile blank).length + (tail.dropWhile blank).length = tail.length := by
    rw [← List.length_append,List.takeWhile_append_dropWhile]
  have hsuffix : (leading ++ (object ++ tail)).drop
      (leading.length+object.length+(tail.takeWhile blank).length) = tail.dropWhile blank := by
    rw [← List.drop_drop,hjson,drop_takeWhile]
  unfold splitGuestPayload
  rw [hstart]
  dsimp only
  rw [List.drop_left,if_neg (by simp [hhead]),rootSize_balancedObject hobject]
  dsimp only
  rw [hjson,hsuffix]
  simp only [List.length_append]
  by_cases hblank : tail.dropWhile blank = []
  · rw [if_pos hblank,if_pos]
    rw [hblank,List.length_nil] at htail
    omega
  · have hpos := List.length_pos_of_ne_nil hblank
    rw [if_neg hblank,if_neg (by omega)]
    have hsize : leading.length+(object.length+tail.length)-
        (leading.length+object.length+(tail.takeWhile blank).length) =
          (tail.dropWhile blank).length := by omega
    rw [hsize]

theorem splitGuestPayload_cases (bytes : Bytes) :
    splitGuestPayload bytes = whole bytes ∨
      ∃ leading object tail, bytes = leading ++ (object ++ tail) ∧
        (∀ byte ∈ leading, blank byte = true) ∧ BalancedObject jsonDepthCapacity object := by
  by_cases hsplit : splitGuestPayload bytes = whole bytes
  · exact .inl hsplit
  right
  unfold splitGuestPayload at hsplit
  dsimp only at hsplit
  split at hsplit
  · exact absurd rfl hsplit
  · rename_i hhead
    rw [ne_eq,not_not] at hhead
    split at hsplit
    · exact absurd rfl hsplit
    · rename_i size hsize
      obtain ⟨-,hobject⟩ := balancedObject_of_rootSize hhead hsize
      refine ⟨bytes.takeWhile blank,_,(bytes.drop (bytes.takeWhile blank).length).drop size,?_,
        fun byte hbyte => List.mem_takeWhile_imp hbyte,hobject⟩
      rw [List.take_append_drop,drop_takeWhile,List.takeWhile_append_dropWhile]

/-- A payload cut behind the shortest object of a line, with nothing dropped but blanks. -/
structure Splits (bytes : Bytes) (payload : GuestPayload) : Prop where
  ordered : payload.jsonSize ≤ payload.suffixOffset
  complete : payload.suffixOffset + payload.suffixSize = bytes.length
  nonempty : 0 < payload.suffixSize
  between : ∀ byte ∈ (bytes.take payload.suffixOffset).drop payload.jsonSize, blank byte = true
  object : ∃ leading object, bytes.take payload.jsonSize = leading ++ object ∧
    (∀ byte ∈ leading, blank byte = true) ∧ BalancedObject jsonDepthCapacity object ∧
    ∀ shorter, shorter <+: bytes.drop leading.length →
      BalancedObject jsonDepthCapacity shorter → object.length ≤ shorter.length
  suffix : payload.suffix =
    open Classical in
    if MatchesPrintk (bytes.drop payload.suffixOffset) ∧ 12 ≤ payload.suffixSize ∧
      ¬ marker <:+: bytes.drop payload.suffixOffset then .kernelPrintk else .invalid

private theorem classify_eq (suffix : Bytes) : classify suffix =
    open Classical in
    if MatchesPrintk suffix ∧ 12 ≤ suffix.length ∧ ¬ marker <:+: suffix then .kernelPrintk
    else .invalid := by
  unfold classify
  by_cases hsuffix : isKernelPrintkSuffix suffix = true
  · rw [if_pos hsuffix,if_pos ((isKernelPrintkSuffix_iff suffix).mp hsuffix)]
  · rw [if_neg hsuffix,if_neg fun h => hsuffix ((isKernelPrintkSuffix_iff suffix).mpr h)]

private theorem object_shortest {shorter : Bytes}
    (hobject : BalancedObject jsonDepthCapacity object) (hshorter : shorter <+: object ++ tail)
    (hbalanced : BalancedObject jsonDepthCapacity shorter) : object.length ≤ shorter.length := by
  obtain ⟨rest,hrest⟩ := hshorter
  have hfound := rootSize_balancedObject hobject tail
  rw [← hrest,rootSize_balancedObject hbalanced rest] at hfound
  exact (Option.some.inj hfound).ge

private theorem splits_object (hleading : ∀ byte ∈ leading, blank byte = true)
    (hobject : BalancedObject jsonDepthCapacity object) (htail : tail.dropWhile blank ≠ []) :
    Splits (leading ++ (object ++ tail)) (splitGuestPayload (leading ++ (object ++ tail))) := by
  have hlength : (tail.takeWhile blank).length + (tail.dropWhile blank).length = tail.length := by
    rw [← List.length_append,List.takeWhile_append_dropWhile]
  have hjson : (leading ++ (object ++ tail)).drop (leading.length+object.length) = tail := by
    rw [← List.append_assoc,← List.length_append,List.drop_left]
  have hsuffix : (leading ++ (object ++ tail)).drop
      (leading.length+object.length+(tail.takeWhile blank).length) = tail.dropWhile blank := by
    rw [← List.drop_drop,hjson,drop_takeWhile]
  rw [splitGuestPayload_object hleading hobject,if_neg htail]
  refine ⟨by simp,?_,List.length_pos_of_ne_nil htail,?_,?_,?_⟩
  · simp only [List.length_append]
    omega
  · intro byte hbyte
    rw [List.drop_take,hjson,Nat.add_sub_cancel_left,take_takeWhile] at hbyte
    exact List.mem_takeWhile_imp hbyte
  · refine ⟨leading,object,?_,hleading,hobject,?_⟩
    · rw [← List.append_assoc,← List.length_append,List.take_left]
    · intro shorter hshorter hbalanced
      rw [List.drop_left] at hshorter
      exact object_shortest hobject hshorter hbalanced
  · rw [hsuffix]
    exact classify_eq _

/-- A payload is the whole line without a suffix, or it is cut behind the shortest balanced
object; and a JSON object followed by more than blanks is always cut at its end. -/
theorem splitGuestPayload_exact (bytes : Bytes) :
    (splitGuestPayload bytes = ⟨bytes.length,bytes.length,0,.none⟩ ∨
      Splits bytes (splitGuestPayload bytes)) ∧
    ∀ leading object between rest, bytes = leading ++ (object ++ (between ++ rest)) →
      (∀ byte ∈ leading, blank byte = true) → JsonText .object jsonDepthCapacity object →
      (∀ byte ∈ between, blank byte = true) →
      (∃ first more, rest = first :: more ∧ blank first = false) →
      Splits bytes (splitGuestPayload bytes) ∧
        (splitGuestPayload bytes).jsonSize = leading.length+object.length ∧
        (splitGuestPayload bytes).suffixOffset = leading.length+object.length+between.length ∧
        (splitGuestPayload bytes).suffixSize = rest.length := by
  constructor
  · rcases splitGuestPayload_cases bytes with hwhole | ⟨leading,object,tail,rfl,hleading,hobject⟩
    · exact .inl hwhole
    · by_cases htail : tail.dropWhile blank = []
      · left
        rw [splitGuestPayload_object hleading hobject,if_pos htail]
        rfl
      · exact .inr (splits_object hleading hobject htail)
  · rintro leading object between rest rfl hleading hobject hbetween ⟨first,more,rfl,hfirst⟩
    have hobject := hobject.balancedObject
    have htake : (between ++ first :: more).takeWhile blank = between :=
      takeWhile_blank hbetween hfirst
    have hdrop : (between ++ first :: more).dropWhile blank = first :: more := by
      rw [← drop_takeWhile,htake,List.drop_left]
    have htail : (between ++ first :: more).dropWhile blank ≠ [] := by simp [hdrop]
    refine ⟨splits_object hleading hobject htail,?_⟩
    rw [splitGuestPayload_object hleading hobject,if_neg htail,htake,hdrop]
    exact ⟨rfl,rfl,rfl⟩

/-- An object whose only name is a closing brace and whose only value is an empty object. -/
def nestedObject : Bytes :=
  [openBrace,quotationMark,closeBrace,quotationMark,colon,openBrace,closeBrace,closeBrace]

private theorem nestedObject_text : JsonText .object jsonDepthCapacity nestedObject := by
  have hinner : JsonText .element 15 [openBrace,closeBrace] :=
    @JsonText.element 15 [] [openBrace,closeBrace] [] (by simp)
      (.objectValue (@JsonText.emptyObject 14 [] (by simp))) (by simp)
  have hname : JsonCharacters [closeBrace,quotationMark] :=
    .plain (by decide) (by decide) (by decide) .close
  exact @JsonText.object 15 _ (.lastMember (@JsonText.member 15 [] _ [] _ (by simp) hname (by simp)
    hinner))

/-- A blank, the object, a blank and one more byte. -/
theorem splitGuestPayload_exact_nested :
    JsonText .object jsonDepthCapacity nestedObject ∧
      (splitGuestPayload ([space] ++ (nestedObject ++ ([space] ++ [120])))).jsonSize = 9 :=
  ⟨nestedObject_text,((splitGuestPayload_exact _).2 [space] nestedObject [space] [120]
    rfl (by simp [blank]) nestedObject_text (by simp [blank]) ⟨120,[],rfl,by decide⟩).2.1⟩

end Cpu2Tensor.KernelProtocol
