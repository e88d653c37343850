import Cpu2Tensor.Library.Brackets
import Cpu2Tensor.Library.CString
import Cpu2Tensor.Library.PrefixCode

/-!
# Previews of guest payloads in diagnostics

`escaped_preview` writes a payload into a buffer of the caller with its quotes, backslashes and
unprintable bytes escaped.
-/

namespace Cpu2Tensor.KernelProtocol
open Library InformationTheory

def eventCapacity : Nat := 1024

/-- The digits "0123456789abcdef". -/
def hex : Bytes := [48,49,50,51,52,53,54,55,56,57,97,98,99,100,101,102]

/-- The buffer of the caller and the number of bytes written to it. -/
structure Preview where
  output : Bytes
  used : Nat

/-- Writes at `used++`.  There is no result when that is outside the buffer. -/
def Preview.put (p : Preview) (byte : UInt8) : Option Preview :=
  if p.used < p.output.length then some ⟨p.output.set p.used byte,p.used+1⟩ else none

def Preview.escape (p : Preview) (byte : UInt8) : Option Preview :=
  if byte = quotationMark ∨ byte = backslash then do
    let p ← p.put backslash
    p.put byte
  else if 32 ≤ byte ∧ byte ≤ 126 then p.put byte
  else do
    let p ← p.put backslash
    let p ← p.put 120
    let p ← p.put (hex.getD (byte >>> 4).toNat 0)
    p.put (hex.getD (byte &&& 15).toNat 0)

def escapedPreview (output bytes : Bytes) : Option Bytes := do
  let p ← bytes.foldlM Preview.escape ⟨output,0⟩
  let p ← p.put 0
  return p.output

def ascii (text : String) : Bytes := text.toList.map fun c => UInt8.ofNat c.toNat

def decimal (n : Nat) : Bytes := ascii (toString n)

/-- What the failure report reads of a parsed event. -/
structure ParsedEvent where
  parseError : Bytes
  parseEnd : Nat
  type : Bytes

def shownSize (size : Nat) : Nat := if size < eventCapacity then size else eventCapacity

/-- The line of a failure; `preview` is the local buffer with whatever it holds. -/
def logGuestFailure (preview reason bytes : Bytes) (event : Option ParsedEvent) : Option Bytes := do
  let shown := shownSize bytes.length
  let preview ← escapedPreview preview (bytes.take shown)
  return ascii "cpu2tensor: guest-event failure reason=" ++ reason ++ ascii " bytes=" ++
    decimal bytes.length ++ ascii " shown=" ++ decimal shown ++ ascii " truncated=" ++
    ascii (if shown < bytes.length then "true" else "false") ++
    (match event with
      | none => []
      | some event => ascii " parse_error=\"" ++ event.parseError ++ ascii "\" parse_end=" ++
          decimal event.parseEnd ++ ascii " root_type=" ++ event.type) ++
    ascii " payload=\"" ++ cstring preview ++ ascii "\"\n"

def logGuestSuffix (preview bytes : Bytes) : Option Bytes := do
  let shown := shownSize bytes.length
  let preview ← escapedPreview preview (bytes.take shown)
  return ascii "cpu2tensor: guest-event suffix class=kernel-printk bytes=" ++
    decimal bytes.length ++ ascii " shown=" ++ decimal shown ++ ascii " truncated=" ++
    ascii (if shown < bytes.length then "true" else "false") ++ ascii " payload=\"" ++
    cstring preview ++ ascii "\"\n"

/-- The bytes that stand for one byte of the payload. -/
def escapeWord (byte : UInt8) : Bytes :=
  if byte = quotationMark ∨ byte = backslash then [backslash,byte]
  else if 32 ≤ byte ∧ byte ≤ 126 then [byte]
  else [backslash,120,hex.getD (byte >>> 4).toNat 0,hex.getD (byte &&& 15).toNat 0]

/-- Printable bytes that stand for themselves. -/
def Plain (c : UInt8) : Prop := (32 ≤ c ∧ c ≤ 126) ∧ c ≠ quotationMark ∧ c ≠ backslash

/-- The readings of a preview are sequences of these. -/
inductive PreviewWord : Bytes → Prop
  | plain {c : UInt8} (h : Plain c) : PreviewWord [c]
  | quoted {c : UInt8} (h : c = quotationMark ∨ c = backslash) : PreviewWord [backslash,c]
  | hex {high low : UInt8} (hhigh : high ∈ hex) (hlow : low ∈ hex) :
      PreviewWord [backslash,120,high,low]

theorem previewWord_code : PrefixCode { w | PreviewWord w } where
  nonempty := nofun
  apart := by
    intro u hu v hv hstart
    cases hu with
    | plain hu =>
      cases hv with
      | plain => simpa using hstart
      | quoted => exact absurd (by simpa using hstart) hu.2.2
      | hex => exact absurd (by simpa using hstart) hu.2.2
    | @quoted c hu =>
      cases hv with
      | plain => simp at hstart
      | quoted => simpa using hstart
      | hex =>
        have hc : c = 120 := by simpa using hstart
        rcases hu with rfl | rfl
        · exact absurd hc (by decide)
        · exact absurd hc (by decide)
    | hex hhigh hlow =>
      cases hv with
      | plain => simp at hstart
      | quoted => simp at hstart
      | hex => simpa using hstart

theorem high_eq (byte : UInt8) : (byte >>> 4).toNat = byte.toNat/16 := by
  rw [UInt8.toNat_shiftRight,Nat.shiftRight_eq_div_pow]
  rfl

theorem low_eq (byte : UInt8) : (byte &&& 15).toNat = byte.toNat%16 := by
  rw [UInt8.toNat_and]
  exact Nat.and_two_pow_sub_one_eq_mod byte.toNat 4

theorem high_lt (byte : UInt8) : (byte >>> 4).toNat < 16 := by
  have hlt := byte.toNat_lt
  rw [high_eq]
  omega

theorem low_lt (byte : UInt8) : (byte &&& 15).toNat < 16 := by
  rw [low_eq]
  omega

theorem hex_getD_mem : ∀ i < 16, hex.getD i 0 ∈ hex := by decide

theorem hex_getD_inj : ∀ i < 16, ∀ j < 16, hex.getD i 0 = hex.getD j 0 → i = j := by decide

theorem hex_printable : ∀ c ∈ hex, 32 ≤ c ∧ c ≤ 126 := by decide +kernel

theorem escapeWord_word (byte : UInt8) : PreviewWord (escapeWord byte) := by
  rw [escapeWord]
  split
  · rename_i h
    exact .quoted h
  · rename_i hquoted
    rw [not_or] at hquoted
    split
    · rename_i h
      exact .plain ⟨h,hquoted⟩
    · exact .hex (hex_getD_mem _ (high_lt byte)) (hex_getD_mem _ (low_lt byte))

variable {bytes output w written : Bytes} {p : Preview}

theorem PreviewWord.printable (h : PreviewWord w) : ∀ c ∈ w, 32 ≤ c ∧ c ≤ 126 := by
  cases h with
  | plain h => simpa using h.1
  | quoted h => rcases h with rfl | rfl <;> decide +kernel
  | hex hhigh hlow =>
    have hhead : ∀ c ∈ [backslash,120], 32 ≤ c ∧ c ≤ 126 := by decide +kernel
    intro c hc
    rcases List.mem_append.mp (show c ∈ [backslash,120] ++ [_,_] from hc) with hc | hc
    · exact hhead c hc
    · rcases List.mem_pair.mp hc with rfl | rfl
      · exact hex_printable _ hhigh
      · exact hex_printable _ hlow

theorem PreviewWord.length_le (h : PreviewWord w) : w.length ≤ 4 := by
  cases h with
  | plain => simp
  | quoted => simp
  | hex => simp

theorem escapeWord_injective : Function.Injective escapeWord := by
  intro a b hab
  rw [escapeWord,escapeWord] at hab
  split at hab
  · split at hab
    · simpa using hab
    · split at hab
      · simp at hab
      · simp at hab
  · split at hab
    · split at hab
      · simp at hab
      · split at hab
        · simpa using hab
        · simp at hab
    · split at hab
      · simp at hab
      · split at hab
        · simp at hab
        · -- The two digits are the byte.
          rw [List.cons.injEq,List.cons.injEq,List.cons.injEq,List.cons.injEq] at hab
          have hhigh := hex_getD_inj _ (high_lt a) _ (high_lt b) hab.2.2.1
          have hlow := hex_getD_inj _ (low_lt a) _ (low_lt b) hab.2.2.2.1
          rw [high_eq,high_eq] at hhigh
          rw [low_eq,low_eq] at hlow
          apply UInt8.toNat_inj.mp
          omega

def previewText (bytes : Bytes) : Bytes := (bytes.map escapeWord).flatten

theorem previewText_words (bytes : Bytes) : ∀ w ∈ bytes.map escapeWord, PreviewWord w := by
  intro w hw
  obtain ⟨byte,_,rfl⟩ := List.mem_map.mp hw
  exact escapeWord_word byte

theorem previewText_injective : Function.Injective previewText := by
  intro a b hab
  have hwords := previewWord_code.uniquelyDecodable _ _ (previewText_words a)
    (previewText_words b) hab
  exact List.map_injective_iff.mpr escapeWord_injective hwords

theorem previewText_printable (bytes : Bytes) : ∀ c ∈ previewText bytes, 32 ≤ c ∧ c ≤ 126 := by
  intro c hc
  obtain ⟨w,hw,hc⟩ := List.mem_flatten.mp hc
  exact (previewText_words bytes w hw).printable c hc

theorem previewText_length_le (bytes : Bytes) : (previewText bytes).length ≤ 4*bytes.length := by
  induction bytes with
  | nil => exact Nat.le_refl 0
  | cons byte bytes ih =>
    have hword := (escapeWord_word byte).length_le
    have hsplit : previewText (byte :: bytes) = escapeWord byte ++ previewText bytes := rfl
    rw [hsplit,List.length_append,List.length_cons]
    omega

theorem Preview.put_eq (h : p.used < p.output.length) (byte : UInt8) :
    p.put byte = some ⟨patch p.output p.used [byte],p.used+1⟩ := by
  rw [put,if_pos h,patch,List.set_eq_take_append_cons_drop,if_pos h]
  simp

theorem Preview.foldlM_put (word : Bytes) (h : p.used+word.length ≤ p.output.length) :
    word.foldlM Preview.put p = some ⟨patch p.output p.used word,p.used+word.length⟩ := by
  induction word generalizing p with
  | nil => simp [patch]
  | cons byte word ih =>
    rw [List.length_cons] at h
    have hlen := patch_length p.output [byte] p.used (by simp only [List.length_singleton]; omega)
    rw [List.foldlM_cons,Preview.put_eq (by omega)]
    have hrest := ih (p := ⟨patch p.output p.used [byte],p.used+1⟩)
      (by simp only [hlen]; omega)
    show word.foldlM Preview.put ⟨patch p.output p.used [byte],p.used+1⟩ = _
    rw [hrest]
    have hpatch := patch_patch p.output [byte] word (show p.used ≤ _ by omega)
    simp only [List.length_singleton,List.singleton_append] at hpatch
    simp only [hpatch,List.length_cons,Nat.add_assoc,Nat.add_comm 1]

theorem Preview.foldlM_put_fits {word : Bytes} {q : Preview} (hp : p.used ≤ p.output.length)
    (h : word.foldlM Preview.put p = some q) : p.used+word.length ≤ p.output.length := by
  induction word generalizing p with
  | nil => exact hp
  | cons byte word ih =>
    rw [List.foldlM_cons,Preview.put] at h
    split at h
    · rename_i hlt
      have hrest := ih (p := ⟨p.output.set p.used byte,p.used+1⟩) (by simpa using hlt) h
      simp only [List.length_set] at hrest
      rw [List.length_cons]
      omega
    · cases h

theorem Preview.escape_eq (p : Preview) (byte : UInt8) :
    p.escape byte = (escapeWord byte).foldlM Preview.put p := by
  rw [escape,escapeWord]
  split
  · simp
  · split
    · simp
    · simp

theorem foldlM_escape (bytes : Bytes) (p : Preview) :
    bytes.foldlM Preview.escape p = (previewText bytes).foldlM Preview.put p := by
  induction bytes generalizing p with
  | nil => rfl
  | cons byte bytes ih =>
    have hsplit : previewText (byte :: bytes) = escapeWord byte ++ previewText bytes := rfl
    rw [hsplit,List.foldlM_append,List.foldlM_cons,Preview.escape_eq]
    simp only [ih]

theorem escapedPreview_eq_foldlM (output bytes : Bytes) :
    escapedPreview output bytes =
      ((previewText bytes ++ [0]).foldlM Preview.put ⟨output,0⟩).map Preview.output := by
  rw [escapedPreview,foldlM_escape,List.foldlM_append]
  cases (previewText bytes).foldlM Preview.put ⟨output,0⟩ with
  | none => rfl
  | some p => simp [Option.map_eq_bind]

/-- A buffer with room for the text and its zero byte gets them, and nothing else. -/
theorem escapedPreview_eq (h : (previewText bytes).length+1 ≤ output.length) :
    escapedPreview output bytes =
      some (previewText bytes ++ 0 :: output.drop ((previewText bytes).length+1)) := by
  have hput := Preview.foldlM_put (previewText bytes ++ [0]) (p := ⟨output,0⟩) (by simpa using h)
  rw [escapedPreview_eq_foldlM,hput]
  simp [patch]

theorem escapedPreview_fits (h : escapedPreview output bytes = some written) :
    (previewText bytes).length+1 ≤ output.length := by
  rw [escapedPreview_eq_foldlM,Option.map_eq_some_iff] at h
  obtain ⟨p,hp,_⟩ := h
  simpa using Preview.foldlM_put_fits (Nat.zero_le _) hp

theorem shownSize_le (size : Nat) : shownSize size ≤ eventCapacity := by
  rw [shownSize]
  split
  · omega
  · exact le_rfl

theorem shown_fits {preview : Bytes} (h : preview.length = 4*eventCapacity+1) (bytes : Bytes) :
    ∃ written, escapedPreview preview (bytes.take (shownSize bytes.length)) = some written := by
  have htext := previewText_length_le (bytes.take (shownSize bytes.length))
  have htake := List.length_take_le (shownSize bytes.length) bytes
  have hshown := shownSize_le bytes.length
  exact ⟨_,escapedPreview_eq (by omega)⟩

theorem zero_notMem_previewText (bytes : Bytes) : 0 ∉ previewText bytes := by
  intro hzero
  exact absurd (previewText_printable bytes 0 hzero).1 (by decide +kernel)

theorem cstring_escapedPreview (h : escapedPreview output bytes = some written) :
    cstring written = previewText bytes := by
  have heq := escapedPreview_eq (escapedPreview_fits h)
  rw [h,Option.some.injEq] at heq
  rw [heq]
  exact cstring_terminated (zero_notMem_previewText bytes) _

/-- A preview of `n` bytes is printable text with one zero byte after it, `4*n+1` bytes at most;
nothing after them is touched.  It has one reading as plain bytes and escapes.  The buffers of the
reports hold the preview of what they show of any payload.  Payloads with the same preview are
the same. -/
theorem escapedPreview_faithful :
    (∀ bytes output : Bytes, 4*bytes.length+1 ≤ output.length → ∃ text,
      escapedPreview output bytes = some (text ++ 0 :: output.drop (text.length+1)) ∧
      (∀ c ∈ text, 32 ≤ c ∧ c ≤ 126) ∧ text.length+1 ≤ 4*bytes.length+1 ∧
      ∃! words : List Bytes, (∀ w ∈ words, PreviewWord w) ∧ words.flatten = text) ∧
    (∀ preview : Bytes, preview.length = 4*eventCapacity+1 → ∀ reason bytes event,
      (logGuestFailure preview reason bytes event).isSome = true ∧
      (logGuestSuffix preview bytes).isSome = true) ∧
    (∀ first second output output' written written',
      escapedPreview output first = some written → escapedPreview output' second = some written' →
      cstring written = cstring written' → first = second) := by
  refine ⟨?_,?_,?_⟩
  · intro bytes output hroom
    have hlen := previewText_length_le bytes
    refine ⟨previewText bytes,escapedPreview_eq (by omega),previewText_printable bytes,by omega,
      bytes.map escapeWord,⟨previewText_words bytes,rfl⟩,?_⟩
    rintro words ⟨hwords,hflatten⟩
    exact previewWord_code.uniquelyDecodable _ _ hwords (previewText_words bytes) hflatten
  · intro preview hpreview reason bytes event
    obtain ⟨written,hwritten⟩ := shown_fits hpreview bytes
    simp only [logGuestFailure,logGuestSuffix,hwritten]
    exact ⟨rfl,rfl⟩
  · intro first second output output' written written' hfirst hsecond hsame
    rw [cstring_escapedPreview hfirst,cstring_escapedPreview hsecond] at hsame
    exact previewText_injective hsame

/-- A quote, a newline and a letter in a buffer of thirteen bytes. -/
theorem escapedPreview_faithful_three : ∃ text,
    escapedPreview (List.replicate 13 7) [34,10,65] =
      some (text ++ 0 :: (List.replicate 13 7).drop (text.length+1)) ∧
    (∀ c ∈ text, 32 ≤ c ∧ c ≤ 126) ∧ text.length+1 ≤ 13 ∧
    ∃! words : List Bytes, (∀ w ∈ words, PreviewWord w) ∧ words.flatten = text :=
  escapedPreview_faithful.1 [34,10,65] (List.replicate 13 7) (by decide)

end Cpu2Tensor.KernelProtocol
