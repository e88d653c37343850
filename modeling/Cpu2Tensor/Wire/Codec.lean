import Cpu2Tensor.Wire.Header

/-!
# What the header codec accepts

`decode_header` reads back what `encode_header` wrote, subject to the checks of `headerFault`.
The payload size of an accepted header is bounded for every kind but one.
-/

namespace Cpu2Tensor
open Library

@[simp] theorem Kind.ofCode_code (kind : Kind) : Kind.ofCode kind.code = some kind := by
  cases kind <;> rfl

theorem Kind.code_lt (kind : Kind) : kind.code < 256^2 := by cases kind <;> decide

theorem Kind.ofCode_eq_some {code : Nat} {kind : Kind} (h : Kind.ofCode code = some kind) :
    code = kind.code := by
  have hcode := List.find?_some h
  exact (beq_iff_eq.mp hcode).symm

theorem check_eq_none {p : Prop} [Decidable p] {message : String} {rest : Option String} :
    (if p then some message else rest) = none ↔ ¬p ∧ rest = none := by
  by_cases hp : p <;> simp [hp]

@[simp] theorem encodeHeader_length (h : Header) : (encodeHeader h).length = headerBytes := by
  simp [encodeHeader,headerBytes]

private theorem uint16_word (value : UInt16) : value.toNat < 256^2 := by
  simpa using value.toNat_lt

private theorem uint32_word (value : UInt32) : value.toNat < 256^4 := by
  simpa using value.toNat_lt

private theorem uint64_word (value : UInt64) : value.toNat < 256^8 := by
  simpa using value.toNat_lt

private theorem encodeHeader_eq (h : Header) :
    encodeHeader h = store wireMagic 4 ++ (store h.version.toNat 2 ++ (store h.kind.code 2 ++
      (store h.source.toNat 4 ++ (store h.count.toNat 4 ++ (store h.sequence.toNat 8 ++
        store h.detail.toNat 8))))) := by
  simp only [encodeHeader,List.append_assoc]

theorem drop_store_append (value size offset : Nat) (rest : Bytes) (hs : size ≤ offset) :
    (store value size ++ rest).drop offset = rest.drop (offset-size) := by
  rw [List.drop_append,store_length,List.drop_eq_nil_of_le (by simpa using hs),List.nil_append]

/-- Decoding an encoded header returns it, or the first error of its fields. -/
theorem decodeHeader_encodeHeader (h : Header) :
    decodeHeader (encodeHeader h) =
      match headerFault h with
      | some message => .error message
      | none => .ok h := by
  have hmagic : load (encodeHeader h) 4 = wireMagic := by
    rw [encodeHeader_eq]
    exact load_store_of_lt (by decide) _
  have hversion : load ((encodeHeader h).drop 4) 2 = h.version.toNat := by
    rw [encodeHeader_eq,drop_store_append _ _ _ _ (by omega)]
    exact load_store_of_lt (uint16_word _) _
  have hkind : load ((encodeHeader h).drop 6) 2 = h.kind.code := by
    rw [encodeHeader_eq,drop_store_append _ _ _ _ (by omega),drop_store_append _ _ _ _ (by omega)]
    exact load_store_of_lt (Kind.code_lt _) _
  have hsource : load ((encodeHeader h).drop 8) 4 = h.source.toNat := by
    rw [encodeHeader_eq,drop_store_append _ _ _ _ (by omega),drop_store_append _ _ _ _ (by omega),
      drop_store_append _ _ _ _ (by omega)]
    exact load_store_of_lt (uint32_word _) _
  have hcount : load ((encodeHeader h).drop 12) 4 = h.count.toNat := by
    rw [encodeHeader_eq,drop_store_append _ _ _ _ (by omega),drop_store_append _ _ _ _ (by omega),
      drop_store_append _ _ _ _ (by omega),drop_store_append _ _ _ _ (by omega)]
    exact load_store_of_lt (uint32_word _) _
  have hsequence : load ((encodeHeader h).drop 16) 8 = h.sequence.toNat := by
    rw [encodeHeader_eq,drop_store_append _ _ _ _ (by omega),drop_store_append _ _ _ _ (by omega),
      drop_store_append _ _ _ _ (by omega),drop_store_append _ _ _ _ (by omega),
      drop_store_append _ _ _ _ (by omega)]
    exact load_store_of_lt (uint64_word _) _
  have hdetail : load ((encodeHeader h).drop 24) 8 = h.detail.toNat := by
    rw [encodeHeader_eq,drop_store_append _ _ _ _ (by omega),drop_store_append _ _ _ _ (by omega),
      drop_store_append _ _ _ _ (by omega),drop_store_append _ _ _ _ (by omega),
      drop_store_append _ _ _ _ (by omega),drop_store_append _ _ _ _ (by omega)]
    exact (load_store _ 8).trans (Nat.mod_eq_of_lt (uint64_word _))
  simp only [decodeHeader,encodeHeader_length,ne_eq,not_true,if_false,hmagic,hversion,hkind,
    hsource,hcount,hsequence,hdetail,Kind.ofCode_code,UInt32.ofNat_toNat,UInt64.ofNat_toNat,
    UInt16.ofNat_toNat,headerFault]
  split
  · rfl
  · split
    · rfl
    · cases fieldFault h <;> rfl

variable {bytes : Bytes} {h : Header}

theorem decodeHeader_eq_ok (hd : decodeHeader bytes = .ok h) :
    bytes.length = headerBytes ∧ load (bytes.drop 6) 2 = h.kind.code ∧
      load (bytes.drop 12) 4 = h.count.toNat ∧ h.count.toNat ≤ maxAddresses ∧
      fieldFault h = none := by
  unfold decodeHeader at hd
  split at hd
  · cases hd
  rename_i hlen
  split at hd
  · cases hd
  dsimp only at hd
  split at hd
  · cases hd
  split at hd
  · cases hd
  rename_i hlimit
  split at hd
  · cases hd
  rename_i kind hkind
  split at hd
  · cases hd
  rename_i hfault
  cases hd
  have hcount : (UInt32.ofNat (load (bytes.drop 12) 4)).toNat = load (bytes.drop 12) 4 := by
    apply UInt32.toNat_ofNat_of_lt'
    exact load_lt _ 4
  refine ⟨not_not.mp hlen,Kind.ofCode_eq_some hkind,hcount.symm,?_,hfault⟩
  rw [hcount]
  omega

theorem source_of_headerFault (hf : headerFault h = none) : h.source.toNat < maxSources := by
  simp only [headerFault,check_eq_none] at hf
  omega

theorem helloFault_of_headerFault (hk : h.kind = .hello) (hf : headerFault h = none) :
    helloFault h.version h.detail = none := by
  simp only [headerFault,check_eq_none,fieldFault,hk] at hf
  exact hf.2.2.2

theorem has_or (features a b : UInt64) :
    Has features (a ||| b) ↔ Has features a ∨ Has features b := by
  have hsplit : features &&& (a ||| b) = (features &&& a) ||| (features &&& b) :=
    UInt64.eq_of_toBitVec_eq BitVec.and_or_distrib_left
  unfold Has
  rw [hsplit,Ne,UInt64.or_eq_zero_iff]
  tauto

theorem reduced_of_helloFault {version : UInt16} {features : UInt64}
    (hf : helloFault version features = none)
    (hreduced : Has features featureObservationReduction) :
    Has features featureAddressContext ∧ ¬Has features featureKernel ∧ ¬Has features featureMemory ∧
      ¬Has features featureRegisters ∧ ¬Has features featureTransitionWindows := by
  simp only [helloFault,check_eq_none,has_or] at hf
  obtain ⟨_,_,_,_,_,_,_,_,hf,_⟩ := hf
  simp only [hreduced,true_and,not_or,not_not] at hf
  obtain ⟨_,_,haddress,⟨⟨hkernel,hmemory⟩,hregisters⟩,hwindows⟩ := hf
  exact ⟨haddress,hkernel,hmemory,hregisters,hwindows⟩

/-- A write of `size` bytes at `offset` of the workers' fixed frame buffer. -/
structure BufferWrite where
  offset : Nat
  size : Nat

def BufferWrite.Fits (write : BufferWrite) : Prop := write.offset + write.size ≤ maxFrameBytes

/-- `run` reads the whole payload behind the header with one `read_exact`. -/
def runPayloadRead (h : Header) : BufferWrite := ⟨headerBytes,payloadSize h⟩

/-- `run_kernel` asks for the missing `frame_needed - frame_used` bytes again and again,
taking whatever number of bytes the pipe returns. -/
def runKernelReads (needed : Nat) : Nat → List Nat → List BufferWrite
  | _, [] => []
  | used, count::counts =>
    ⟨used,needed-used⟩ :: runKernelReads needed (used+min count (needed-used)) counts

private theorem runKernelReads_fit (needed : Nat) (hn : needed ≤ maxFrameBytes) (used : Nat)
    (hu : used ≤ needed) (counts : List Nat) :
    ∀ write ∈ runKernelReads needed used counts, write.Fits := by
  induction counts generalizing used with
  | nil => simp [runKernelReads]
  | cons count counts ih =>
    intro write hw
    rcases List.mem_cons.mp hw with rfl | hw
    · simp only [BufferWrite.Fits]
      omega
    · exact ih _ (by omega) write hw

private theorem payloadSize_le (hc : h.count.toNat ≤ maxAddresses) (hf : fieldFault h = none) :
    payloadSize h ≤ maxPayloadBytes ↔ ¬(h.kind = .reducedContext ∧ 57 ≤ h.count.toNat) := by
  cases hk : h.kind <;>
    simp only [fieldFault,payloadSize,hk,check_eq_none,reduceCtorEq,false_and,true_and,
      not_false_eq_true,iff_true] at hf ⊢ <;>
    simp only [maxPayloadBytes,layoutBytes,transitionCountBytes,transitionWindowBytes,
      contextFilterBytes,observationSummaryBytes,reducedContextBytes,contextBytes,
      maxAddresses] at hf hc ⊢ <;>
    omega

/-- The payload announced by an accepted header fits the frame buffer of both worker loops
exactly when it is not a `reduced_context` frame of 57 rows or more. -/
theorem payload_fits_iff (bytes : Bytes) (h : Header) (hd : decodeHeader bytes = .ok h) :
    (payloadSize h ≤ maxPayloadBytes ∧ headerBytes + payloadSize h ≤ maxFrameBytes ∧
      (runPayloadRead h).Fits ∧
      ∀ counts, ∀ write ∈ runKernelReads (headerBytes + payloadSize h) headerBytes counts,
        write.Fits) ↔
    ¬(load (bytes.drop 6) 2 = Kind.reducedContext.code ∧ 57 ≤ load (bytes.drop 12) 4) := by
  obtain ⟨_,hkind,hcount,hle,hfault⟩ := decodeHeader_eq_ok hd
  have hcode : h.kind.code = Kind.reducedContext.code ↔ h.kind = .reducedContext := by
    cases h.kind <;> decide
  rw [hkind,hcount,hcode,← payloadSize_le hle hfault]
  constructor
  · exact fun hall => hall.1
  · intro hsize
    have hframe : headerBytes + payloadSize h ≤ maxFrameBytes := Nat.add_le_add_left hsize _
    exact ⟨hsize,hframe,hframe,runKernelReads_fit _ hframe _ (Nat.le_add_right _ _)⟩

theorem payload_fits_iff_blocks :
    decodeHeader (encodeHeader { kind := .blocks, count := 1 }) =
        .ok { kind := .blocks, count := 1 } ∧
      payloadSize { kind := .blocks, count := 1 } ≤ maxPayloadBytes := by
  have hd : decodeHeader (encodeHeader { kind := .blocks, count := 1 }) =
      .ok { kind := .blocks, count := 1 } := by
    rw [decodeHeader_encodeHeader]
    rfl
  exact ⟨hd,((payload_fits_iff _ _ hd).mpr (by decide)).1⟩

/-- A reduced context header of 57 rows is accepted and announces 4104 payload bytes. -/
theorem payload_overflows_reducedContext :
    ∃ h, decodeHeader (encodeHeader { kind := .reducedContext, count := 57, detail := 4104 }) =
        .ok h ∧ maxPayloadBytes < payloadSize h ∧ ¬(runPayloadRead h).Fits := by
  refine ⟨{ kind := .reducedContext, count := 57, detail := 4104 },?_,by decide,?_⟩
  · rw [decodeHeader_encodeHeader]
    rfl
  · unfold BufferWrite.Fits
    decide

/-- A header whose kind is any value that the 16-bit C++ enumeration can hold. -/
@[ext] structure RawHeader where
  kind : UInt16
  source : UInt32
  count : UInt32
  sequence : UInt64
  detail : UInt64
  version : UInt16
  deriving DecidableEq, Repr

def Header.raw (h : Header) : RawHeader :=
  ⟨UInt16.ofNat h.kind.code,h.source,h.count,h.sequence,h.detail,h.version⟩

def RawHeader.encode (h : RawHeader) : Bytes :=
  store wireMagic 4 ++ (store h.version.toNat 2 ++ (store h.kind.toNat 2 ++
    (store h.source.toNat 4 ++ (store h.count.toNat 4 ++ (store h.sequence.toNat 8 ++
      store h.detail.toNat 8)))))

theorem Header.raw_kind (h : Header) : h.raw.kind.toNat = h.kind.code :=
  UInt16.toNat_ofNat_of_lt' (by simpa using h.kind.code_lt)

theorem Header.raw_encode (h : Header) : h.raw.encode = encodeHeader h := by
  rw [RawHeader.encode,h.raw_kind,encodeHeader_eq]
  rfl

theorem decodeHeader_words (hd : decodeHeader bytes = .ok h) :
    bytes.length = headerBytes ∧ load bytes 4 = wireMagic ∧
      load (bytes.drop 4) 2 = h.version.toNat ∧ load (bytes.drop 6) 2 = h.kind.code ∧
      load (bytes.drop 8) 4 = h.source.toNat ∧ load (bytes.drop 12) 4 = h.count.toNat ∧
      load (bytes.drop 16) 8 = h.sequence.toNat ∧ load (bytes.drop 24) 8 = h.detail.toNat := by
  obtain ⟨hlen,hkind,hcount,_⟩ := decodeHeader_eq_ok hd
  unfold decodeHeader at hd
  split at hd
  · cases hd
  split at hd
  · cases hd
  rename_i hmagic
  dsimp only at hd
  split at hd
  · cases hd
  split at hd
  · cases hd
  split at hd
  · cases hd
  split at hd
  · cases hd
  cases hd
  refine ⟨hlen,not_not.mp hmagic,?_,hkind,?_,hcount,?_,?_⟩
  · exact (UInt16.toNat_ofNat_of_lt' (load_lt _ 2)).symm
  · exact (UInt32.toNat_ofNat_of_lt' (load_lt _ 4)).symm
  · exact (UInt64.toNat_ofNat_of_lt' (load_lt _ 8)).symm
  · exact (UInt64.toNat_ofNat_of_lt' (load_lt _ 8)).symm

private theorem take_append_word {offset size : Nat} :
    (bytes.drop offset).take size ++ bytes.drop (offset+size) = bytes.drop offset := by
  rw [← List.drop_drop,List.take_append_drop]

theorem encodeHeader_decodeHeader (hd : decodeHeader bytes = .ok h) : encodeHeader h = bytes := by
  obtain ⟨hlen,hmagic,hversion,hkind,hsource,hcount,hsequence,hdetail⟩ := decodeHeader_words hd
  have hword {offset size : Nat} (hfit : offset+size ≤ headerBytes) :
      store (load (bytes.drop offset) size) size = (bytes.drop offset).take size := by
    apply store_load
    rw [List.length_drop]
    omega
  unfold headerBytes at hlen hword
  rw [encodeHeader_eq,← hmagic,← hversion,← hkind,← hsource,← hcount,← hsequence,← hdetail,
    store_load bytes 4 (by omega),hword (by omega),hword (by omega),hword (by omega),
    hword (by omega),hword (by omega),hword (by omega)]
  have hlast : (bytes.drop 24).take 8 = bytes.drop 24 := by
    rw [List.take_eq_self_iff,List.length_drop]
    omega
  rw [hlast,take_append_word,take_append_word,take_append_word,take_append_word,take_append_word,
    List.take_append_drop]

theorem RawHeader.encode_injective : Function.Injective RawHeader.encode := by
  intro a b h
  unfold RawHeader.encode at h
  obtain ⟨_,h⟩ := List.append_inj h (by simp)
  obtain ⟨hversion,h⟩ := List.append_inj h (by simp)
  obtain ⟨hkind,h⟩ := List.append_inj h (by simp)
  obtain ⟨hsource,h⟩ := List.append_inj h (by simp)
  obtain ⟨hcount,h⟩ := List.append_inj h (by simp)
  obtain ⟨hsequence,hdetail⟩ := List.append_inj h (by simp)
  have hword {x y size : Nat} (hx : x < 256^size) (hy : y < 256^size)
      (heq : store x size = store y size) : x = y := by
    rw [← load_store_of_lt hx [],heq,load_store_of_lt hy]
  ext1
  · exact UInt16.toNat_inj.mp (hword (uint16_word _) (uint16_word _) hkind)
  · exact UInt32.toNat_inj.mp (hword (uint32_word _) (uint32_word _) hsource)
  · exact UInt32.toNat_inj.mp (hword (uint32_word _) (uint32_word _) hcount)
  · exact UInt64.toNat_inj.mp (hword (uint64_word _) (uint64_word _) hsequence)
  · exact UInt64.toNat_inj.mp (hword (uint64_word _) (uint64_word _) hdetail)
  · exact UInt16.toNat_inj.mp (hword (uint16_word _) (uint16_word _) hversion)

/-- Decoding undoes encoding in every field, encoding undoes decoding in every byte, and a decoded
header is forwarded unchanged. -/
theorem header_codec :
    (∀ (raw : RawHeader) (h : Header), decodeHeader raw.encode = .ok h → h.raw = raw) ∧
    (∀ (bytes : Bytes) (h : Header), decodeHeader bytes = .ok h → encodeHeader h = bytes) ∧
    (∀ (bytes : Bytes) (h : Header), decodeHeader bytes = .ok h →
      decodeHeader (encodeHeader h) = .ok h) ∧
    ∀ h other : Header, encodeHeader h = encodeHeader other → h = other := by
  refine ⟨fun raw h hd => ?_,fun bytes h => encodeHeader_decodeHeader,fun bytes h hd => ?_,
    fun h other heq => ?_⟩
  · apply RawHeader.encode_injective
    rw [h.raw_encode,encodeHeader_decodeHeader hd]
  · rw [encodeHeader_decodeHeader hd]
    exact hd
  · rw [← h.raw_encode,← other.raw_encode] at heq
    have hraw := RawHeader.encode_injective heq
    have hcode : h.raw.kind.toNat = other.raw.kind.toNat := by rw [hraw]
    rw [h.raw_kind,other.raw_kind] at hcode
    have hkind : some h.kind = some other.kind := by
      rw [← Kind.ofCode_code h.kind,hcode,Kind.ofCode_code]
    obtain ⟨kind,source,count,sequence,detail,version⟩ := h
    obtain ⟨kind',source',count',sequence',detail',version'⟩ := other
    simp only [Header.raw,RawHeader.mk.injEq] at hraw
    obtain ⟨_,rfl,rfl,rfl,rfl,rfl⟩ := hraw
    obtain rfl := Option.some.inj hkind
    rfl

/-- A Hello survives both ways. -/
theorem header_codec_hello :
    (∃ h, decodeHeader (RawHeader.encode ⟨1,0,0,0,2,3⟩) = .ok h ∧ h.raw = ⟨1,0,0,0,2,3⟩) ∧
      decodeHeader (encodeHeader { kind := .hello, detail := 2 }) =
        .ok { kind := .hello, detail := 2 } := by
  have hd : decodeHeader (encodeHeader { kind := .hello, detail := 2 }) =
      .ok { kind := .hello, detail := 2 } := by decide +kernel
  exact ⟨⟨_,hd,header_codec.1 ⟨1,0,0,0,2,3⟩ _ hd⟩,header_codec.2.2.1 _ _ hd⟩

end Cpu2Tensor
