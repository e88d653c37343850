import Cpu2Tensor.Hardware.Sketch

/-!
# The two sketches count the same

Both paths are brought to one description: the bins of the bytes and of the adjacent pairs of each
trace, and for every feature how often it occurs among them.
-/

namespace Cpu2Tensor.Hardware
open Library

namespace TraceRow

def segment (r : TraceRow) (segments i : Nat) : Nat := i*segments/r.length

def byteBin (r : TraceRow) (segments i : Nat) : Nat := r.segment segments i*256+(r.byte i).toNat

def pairBin (r : TraceRow) (segments pairBins i : Nat) : Nat :=
  segments*256+pairHash pairBins (r.byte i).toNat (r.byte (i+1)).toNat

def byteBins (r : TraceRow) (segments : Nat) : List Nat := (List.range r.length).map (r.byteBin segments)

def pairsBins (r : TraceRow) (segments pairBins : Nat) : List Nat :=
  if pairBins = 0 then [] else (List.range (r.length-1)).map (r.pairBin segments pairBins)

theorem segment_lt (r : TraceRow) {segments i : Nat} (hs : 0 < segments) (hi : i < r.length) :
    r.segment segments i < segments := by
  rw [segment,Nat.div_lt_iff_lt_mul (by omega),Nat.mul_comm segments]
  exact Nat.mul_lt_mul_of_pos_right hi hs

theorem byteBin_lt (r : TraceRow) {segments i : Nat} (hs : 0 < segments) (hi : i < r.length) :
    r.byteBin segments i < segments*256 := by
  have hsegment := r.segment_lt hs hi
  have hbyte := (r.byte i).toNat_lt
  rw [byteBin]
  omega

theorem pairHash_lt {pairBins : Nat} (h : pairBins ≠ 0) (current next : Nat) :
    pairHash pairBins current next < pairBins := by
  have hle : pairHash pairBins current next ≤ pairBins-1 := Nat.and_le_right
  omega

theorem pairBin_lt (r : TraceRow) (segments : Nat) {pairBins : Nat} (h : pairBins ≠ 0) (i : Nat) :
    r.pairBin segments pairBins i < segments*256+pairBins := by
  have hlt := pairHash_lt h (r.byte i).toNat (r.byte (i+1)).toNat
  rw [pairBin]
  omega

theorem mem_byteBins (r : TraceRow) {segments : Nat} (hs : 0 < segments) :
    ∀ j ∈ r.byteBins segments, j < segments*256 := by
  intro j hj
  obtain ⟨i,hi,rfl⟩ := List.mem_map.mp hj
  exact r.byteBin_lt hs (List.mem_range.mp hi)

theorem mem_pairsBins (r : TraceRow) (segments pairBins : Nat) :
    ∀ j ∈ r.pairsBins segments pairBins, segments*256 ≤ j ∧ j < segments*256+pairBins := by
  intro j hj
  rw [pairsBins] at hj
  split at hj
  case isTrue => cases hj
  case isFalse h =>
    obtain ⟨i,_,rfl⟩ := List.mem_map.mp hj
    exact ⟨Nat.le_add_right _ _,r.pairBin_lt segments h i⟩

def count (r : TraceRow) (segments pairBins j : Nat) : Nat :=
  (r.byteBins segments).count j+(r.pairsBins segments pairBins).count j

theorem count_byte (r : TraceRow) {segments j : Nat} (pairBins : Nat) (hj : j < segments*256) :
    r.count segments pairBins j = (r.byteBins segments).count j := by
  have hpairs : (r.pairsBins segments pairBins).count j = 0 := by
    rw [List.count_eq_zero]
    intro hmem
    have := (r.mem_pairsBins segments pairBins j hmem).1
    omega
  rw [count,hpairs,Nat.add_zero]

theorem count_pair (r : TraceRow) {segments j : Nat} (pairBins : Nat) (hs : 0 < segments)
    (hj : segments*256 ≤ j) :
    r.count segments pairBins j = (r.pairsBins segments pairBins).count j := by
  have hbytes : (r.byteBins segments).count j = 0 := by
    rw [List.count_eq_zero]
    intro hmem
    have := r.mem_byteBins hs j hmem
    omega
  rw [count,hbytes,Nat.zero_add]

theorem count_le (r : TraceRow) {segments : Nat} (pairBins : Nat) (hs : 0 < segments) (j : Nat) :
    r.count segments pairBins j ≤ r.length := by
  by_cases hj : j < segments*256
  · rw [r.count_byte pairBins hj]
    exact List.count_le_length.trans (by simp [byteBins])
  · rw [r.count_pair pairBins hs (Nat.le_of_not_lt hj)]
    refine List.count_le_length.trans ?_
    rw [pairsBins]
    split <;> simp

end TraceRow

theorem increment_iterate {n : Nat} (h : n ≤ 2^24) : increment^[n] 0 = n := by
  induction n with
  | zero => rfl
  | succ n ih =>
    rw [Function.iterate_succ_apply',ih (by omega),increment,if_pos (by omega)]

theorem bump_eq {dimensions i : Nat} (f : Nat → Nat) (hi : i < dimensions) :
    bump ((List.range dimensions).map f) i =
      .ok ((List.range dimensions).map fun j => if j = i then increment (f j) else f j) := by
  rw [bump,if_pos (by simpa using hi)]
  congr 1
  apply List.ext_getElem
  · simp
  · intro j hj _
    rw [List.getElem_modify]
    by_cases hji : i = j
    · simp [hji]
    · simp [hji,Ne.symm hji]

theorem foldlM_bump {dimensions : Nat} {bins : List Nat} (h : ∀ i ∈ bins, i < dimensions)
    (f : Nat → Nat) :
    bins.foldlM bump ((List.range dimensions).map f) =
      .ok ((List.range dimensions).map fun j => increment^[bins.count j] (f j)) := by
  induction bins generalizing f with
  | nil => rfl
  | cons i rest ih =>
    rw [List.foldlM_cons,bump_eq f (h i List.mem_cons_self)]
    show rest.foldlM bump _ = _
    rw [ih fun j hj => h j (List.mem_cons_of_mem _ hj)]
    congr 1
    apply List.map_congr_left
    intro j _
    rw [List.count_cons]
    by_cases hji : i = j
    · simp [hji]
    · simp [hji,Ne.symm hji]

theorem nativePairHash_eq {pairBins : Nat} (hpos : pairBins ≠ 0) (hfits : pairBins < 2^32)
    (byte next : UInt8) :
    nativePairHash pairBins byte next = pairHash pairBins byte.toNat next.toNat := by
  have hmask : (UInt32.ofNat pairBins-1).toNat = pairBins-1 := by
    have hle : (1 : UInt32) ≤ UInt32.ofNat pairBins := by
      rw [UInt32.le_iff_toNat_le,UInt32.toNat_ofNat_of_lt' hfits]
      exact Nat.one_le_iff_ne_zero.mpr hpos
    rw [UInt32.toNat_sub_of_le _ _ hle,UInt32.toNat_ofNat_of_lt' hfits]
    rfl
  have hkey : ((byte.toUInt32 <<< 8) ||| next.toUInt32).toNat =
      (byte.toNat <<< 8) ||| next.toNat := by
    have hbyte := byte.toNat_lt
    rw [UInt32.toNat_or,UInt32.toNat_shiftLeft,UInt8.toNat_toUInt32,UInt8.toNat_toUInt32]
    congr 1
    rw [Nat.mod_eq_of_lt]
    · rfl
    · show byte.toNat <<< 8 < 2^32
      rw [Nat.shiftLeft_eq]
      omega
  rw [nativePairHash,pairHash]
  simp only [UInt32.toNat_and,UInt32.toNat_xor,UInt32.toNat_shiftRight,hmask,hkey]
  rfl

/-- The features that a position of a trace increments, in the order of the loop. -/
def TraceRow.bumps (r : TraceRow) (segments pairBins i : Nat) : List Nat :=
  [r.byteBin segments i] ++
    if pairBins ≠ 0 ∧ i+1 < r.length then [r.pairBin segments pairBins i] else []

theorem TraceRow.count_bumps (r : TraceRow) (segments pairBins j : Nat) :
    ((List.range r.length).flatMap (r.bumps segments pairBins)).count j =
      r.count segments pairBins j := by
  have hpairs : (List.range r.length).flatMap (fun i =>
      if pairBins ≠ 0 ∧ i+1 < r.length then [r.pairBin segments pairBins i] else []) =
        r.pairsBins segments pairBins := by
    rw [pairsBins]
    split
    case isTrue h => simp [h]
    case isFalse h =>
      rw [← filterMap_range_succ_lt,List.filterMap_eq_flatMap_toList]
      congr 1
      funext i
      by_cases hi : i+1 < r.length
      · rw [if_pos ⟨h,hi⟩,if_pos hi]
        rfl
      · rw [if_neg fun hboth => hi hboth.2,if_neg hi]
        rfl
  have hperm := List.flatMap_append_perm (List.range r.length) (fun i => [r.byteBin segments i])
    fun i => if pairBins ≠ 0 ∧ i+1 < r.length then [r.pairBin segments pairBins i] else []
  have hcount := hperm.count_eq j
  rw [List.count_append,hpairs,← List.map_eq_flatMap] at hcount
  exact hcount.symm

theorem TraceRow.mem_bumps (r : TraceRow) {segments pairBins j : Nat} (hs : 0 < segments)
    (hj : j ∈ (List.range r.length).flatMap (r.bumps segments pairBins)) :
    j < segments*256+pairBins := by
  have hcount := List.count_pos_iff.mpr hj
  rw [r.count_bumps] at hcount
  by_cases hbyte : j < segments*256
  · exact hbyte.trans_le (Nat.le_add_right _ _)
  · rw [r.count_pair pairBins hs (Nat.le_of_not_lt hbyte)] at hcount
    exact (r.mem_pairsBins segments pairBins j (List.count_pos_iff.mp hcount)).2

section Packed

variable {traces : List Bytes} {r : TraceRow}

theorem byteAt_eq (hr : r ∈ layRows 0 0 traces) {i : Nat} (hi : i < r.length) :
    byteAt traces.flatten (r.start+i) = .ok (r.byte i) := by
  have hlookup := (layRows_lookup 0 0 hr hi).2
  rw [Nat.sub_zero] at hlookup
  rw [byteAt,hlookup]

theorem nativeStep_eq (hr : r ∈ layRows 0 0 traces) {segments pairBins : Nat}
    (hfits : r.length*segments < 2^63) (hpairs : pairBins < 2^32) (features : List Nat) {i : Nat}
    (hi : i < r.length) :
    nativeStep traces.flatten segments pairBins r.start r.length features i =
      (r.bumps segments pairBins i).foldlM bump features := by
  have hsegment : nativeSegment segments r.length i = r.segment segments i := by
    have hmul : i*segments ≤ r.length*segments := Nat.mul_le_mul_right _ (Nat.le_of_lt hi)
    rw [nativeSegment,TraceRow.segment,Nat.mod_eq_of_lt (by omega)]
  rw [nativeStep,byteAt_eq hr hi,hsegment,TraceRow.bumps,List.foldlM_append,List.foldlM_cons]
  by_cases h : pairBins ≠ 0 ∧ i+1 < r.length
  · have hnext : byteAt traces.flatten (r.start+i+1) = .ok (r.byte (i+1)) := byteAt_eq hr h.2
    simp only [if_pos h,hnext]
    show (bump features (r.byteBin segments i) >>= fun features =>
      bump features (segments*256+nativePairHash pairBins (r.byte i) (r.byte (i+1)))) = _
    rw [nativePairHash_eq h.1 hpairs]
    simp only [List.foldlM_nil,List.foldlM_cons,bind_pure]
    rfl
  · simp only [if_neg h,List.foldlM_nil,bind_pure]
    rfl

theorem foldlM_nativeStep (hr : r ∈ layRows 0 0 traces) {segments pairBins : Nat}
    (hfits : r.length*segments < 2^63) (hpairs : pairBins < 2^32) (features : List Nat)
    {positions : List Nat} (hpositions : ∀ i ∈ positions, i < r.length) :
    positions.foldlM (nativeStep traces.flatten segments pairBins r.start r.length) features =
      (positions.flatMap (r.bumps segments pairBins)).foldlM bump features := by
  induction positions generalizing features with
  | nil => rfl
  | cons i rest ih =>
    rw [List.foldlM_cons,List.flatMap_cons,List.foldlM_append,
      nativeStep_eq hr hfits hpairs features (hpositions i List.mem_cons_self)]
    congr 1
    funext features
    exact ih features fun j hj => hpositions j (List.mem_cons_of_mem _ hj)

theorem nativeRow_eq (hr : r ∈ layRows 0 0 traces) (hshort : r.length < 2^24)
    {segments pairBins dimensions : Nat} (hs : 0 < segments) (hfits : r.length*segments < 2^63)
    (hpairs : pairBins < 2^32) (hdimensions : segments*256+pairBins ≤ dimensions) :
    nativeRow traces.flatten segments pairBins dimensions r.start (r.start+r.length) =
      .ok ((List.range dimensions).map (r.count segments pairBins)) := by
  have hinside : ∀ j ∈ (List.range r.length).flatMap (r.bumps segments pairBins),
      j < dimensions := fun j hj => (r.mem_bumps hs hj).trans_le hdimensions
  have hzeros : List.replicate dimensions 0 = (List.range dimensions).map fun _ => 0 := by
    rw [List.map_const',List.length_range]
  rw [nativeRow,Nat.add_sub_cancel_left,
    foldlM_nativeStep hr hfits hpairs _ (fun i hi => List.mem_range.mp hi),hzeros,
    foldlM_bump hinside]
  congr 1
  apply List.map_congr_left
  intro j _
  have hle := r.count_le pairBins hs j
  have hbound : r.count segments pairBins j ≤ 2^24 := hle.trans (Nat.le_of_lt hshort)
  rw [r.count_bumps,increment_iterate hbound]

theorem packRawTraces_ok {bytes : Bytes} {offsets : List Nat}
    (h : packRawTraces traces = .ok (bytes,offsets)) :
    traces ≠ [] ∧ (∀ trace ∈ traces, trace ≠ []) ∧ bytes = traces.flatten ∧
      offsets = prefixSums 0 (traces.map List.length) := by
  rw [packRawTraces] at h
  split at h
  case isTrue => cases h
  case isFalse hempty =>
    split at h
    case isTrue => cases h
    case isFalse hany =>
      cases h
      refine ⟨by simpa using hempty,?_,rfl,rfl⟩
      intro trace htrace hnil
      apply hany
      rw [List.any_eq_true]
      exact ⟨trace,htrace,by rw [hnil]; rfl⟩

theorem zip_offsets (start index : Nat) (traces : List Bytes) :
    (prefixSums start (traces.map List.length)).zip
        (prefixSums start (traces.map List.length)).tail =
      (layRows index start traces).map fun r => (r.start,r.start+r.length) := by
  induction traces generalizing start index with
  | nil => rfl
  | cons trace rest ih =>
    have hrest := ih (start+trace.length) (index+1)
    rw [prefixSums_cons] at hrest
    rw [List.map_cons,prefixSums,List.tail_cons,prefixSums_cons,List.zip_cons_cons,layRows,
      List.map_cons,← hrest]
    rfl

theorem layRows_pos (index start : Nat) (hnonempty : ∀ trace ∈ traces, trace ≠ [])
    (hr : r ∈ layRows index start traces) : 0 < r.length := by
  have hmem := List.mem_map_of_mem (f := TraceRow.bytes) hr
  rw [layRows_bytes] at hmem
  exact List.length_pos_iff.mpr (hnonempty _ hmem)

theorem checkArguments_ok (hempty : traces ≠ []) (hnonempty : ∀ trace ∈ traces, trace ≠ []) :
    checkArguments traces.flatten (prefixSums 0 (traces.map List.length)) = .ok () := by
  have hlength := prefixSums_length 0 (traces.map List.length)
  have hcount : 0 < traces.length := List.length_pos_iff.mpr hempty
  rw [List.length_map] at hlength
  have hlast := prefixSums_getLast 0 traces
  rw [Nat.zero_add] at hlast
  have hhead : (prefixSums 0 (traces.map List.length)).headD 0 = 0 := by
    rw [prefixSums_cons]
    rfl
  have hcover : ¬ ((prefixSums 0 (traces.map List.length)).headD 0 ≠ 0 ∨
      (prefixSums 0 (traces.map List.length)).getLastD 0 ≠ traces.flatten.length) := by
    rw [hhead,hlast]
    exact fun h => h.elim (· rfl) (· rfl)
  rw [checkArguments,if_neg (by omega),if_neg hcover,zip_offsets 0 0,if_neg]
  rw [List.any_map,List.any_eq_true]
  intro hany
  obtain ⟨r,hr,hle⟩ := hany
  have hpos := layRows_pos 0 0 hnonempty hr
  simp only [Function.comp_apply,decide_eq_true_eq] at hle
  omega

theorem checkOffsets_ok (start : Nat) (traces : List Bytes)
    (hnonempty : ∀ trace ∈ traces, trace ≠ []) {size : Nat}
    (hsize : size = start+traces.flatten.length) :
    checkOffsets size start (prefixSums start (traces.map List.length)).tail = .ok () := by
  induction traces generalizing start with
  | nil => exact if_pos (by simpa using hsize.symm)
  | cons trace rest ih =>
    have hpos : 0 < trace.length :=
      List.length_pos_iff.mpr (hnonempty trace List.mem_cons_self)
    rw [List.flatten_cons,List.length_append] at hsize
    rw [List.map_cons,prefixSums,List.tail_cons,prefixSums_cons,checkOffsets,if_neg (by omega)]
    exact ih _ (fun t ht => hnonempty t (List.mem_cons_of_mem _ ht)) (by omega)

private theorem bind_ok {α β : Type} {x : Except SketchError α} {f : α → Except SketchError β}
    {b : β} (h : x >>= f = .ok b) : ∃ a, x = .ok a ∧ f a = .ok b := by
  cases x with
  | error e => cases h
  | ok a => exact ⟨a,rfl,h⟩

private theorem mapM_inv {α β : Type} {f : α → Except SketchError β} {xs : List α}
    {ys : List β} (h : xs.mapM f = .ok ys) : ys.length = xs.length ∧ ∀ y ∈ ys, ∃ x, f x = .ok y := by
  induction xs generalizing ys with
  | nil =>
    cases h
    exact ⟨rfl,nofun⟩
  | cons x rest ih =>
    rw [List.mapM_cons] at h
    obtain ⟨first,hfirst,h⟩ := bind_ok h
    obtain ⟨later,hlater,h⟩ := bind_ok h
    cases h
    have hrest := ih hlater
    refine ⟨congrArg Nat.succ hrest.1,?_⟩
    intro y hy
    cases hy with
    | head => exact ⟨x,hfirst⟩
    | tail _ hy => exact hrest.2 y hy

private theorem mapM_ok {α β : Type} {f : α → Except SketchError β} {g : α → β} {xs : List α}
    (h : ∀ x ∈ xs, f x = .ok (g x)) : xs.mapM f = .ok (xs.map g) := by
  induction xs with
  | nil => rfl
  | cons x rest ih =>
    rw [List.mapM_cons,h x List.mem_cons_self,ih fun y hy => h y (List.mem_cons_of_mem _ hy)]
    rfl

theorem nativeCounts_eq (hempty : traces ≠ []) (hnonempty : ∀ trace ∈ traces, trace ≠ [])
    (hshort : ∀ trace ∈ traces, trace.length < 2^24) {segments pairBins : Nat}
    {includeLength : Bool} (hs : 0 < segments) (hs32 : segments < 2^32) (hp32 : pairBins < 2^32)
    (hpower : pairBins = 0 ∨ pairBins &&& (pairBins-1) = 0)
    (hfits : ∀ trace ∈ traces, trace.length*segments < 2^63)
    (hsize : traces.length ≤ (2^63-1)/(segments*256+pairBins+includeLength.toNat)/4) :
    nativeCounts traces.flatten (prefixSums 0 (traces.map List.length)) segments pairBins
        includeLength =
      .ok ((layRows 0 0 traces).map fun r =>
        (List.range (segments*256+pairBins+includeLength.toNat)).map (r.count segments pairBins)) := by
  have hlength := prefixSums_length 0 (traces.map List.length)
  have hcount : 0 < traces.length := List.length_pos_iff.mpr hempty
  rw [List.length_map] at hlength
  have hdimensions : segments ≤ (2^64-1-pairBins-1)/256 := by omega
  have hhead : (prefixSums 0 (traces.map List.length)).headD 0 = 0 := by
    rw [prefixSums_cons]
    rfl
  have hrows : ((layRows 0 0 traces).map fun r => (r.start,r.start+r.length)).mapM
      (fun span => nativeRow traces.flatten segments pairBins
        (segments*256+pairBins+includeLength.toNat) span.1 span.2) =
      .ok ((layRows 0 0 traces).map fun r =>
        (List.range (segments*256+pairBins+includeLength.toNat)).map (r.count segments pairBins)) := by
    rw [List.mapM_map]
    apply mapM_ok
    intro r hr
    have hmem := List.mem_map_of_mem (f := TraceRow.bytes) hr
    rw [layRows_bytes] at hmem
    exact nativeRow_eq hr (hshort _ hmem) hs (hfits _ hmem) hp32 (Nat.le_add_right _ _)
  have hvalid : ¬ (segments = 0 ∨ ¬ (pairBins = 0 ∨ pairBins &&& (pairBins-1) = 0) ∨
      (prefixSums 0 (traces.map List.length)).length < 2) := by
    intro h
    rcases h with h | h | h
    · omega
    · exact h hpower
    · omega
  rw [nativeCounts,if_neg hvalid,if_neg (Nat.not_lt.mpr hdimensions),if_neg,
    if_neg (not_not.mpr hhead),checkOffsets_ok 0 traces hnonempty (Nat.zero_add _).symm,
    zip_offsets 0 0]
  · exact hrows
  · rw [hlength,Nat.add_sub_cancel]
    exact Nat.not_lt.mpr hsize

end Packed

theorem bump_length {features features' : List Nat} {i : Nat} (h : bump features i = .ok features') :
    features'.length = features.length := by
  rw [bump] at h
  split at h
  case isTrue =>
    cases h
    exact List.length_modify ..
  case isFalse => cases h

theorem nativeStep_length {bytes : Bytes} {segments pairBins start length i : Nat}
    {features features' : List Nat}
    (h : nativeStep bytes segments pairBins start length features i = .ok features') :
    features'.length = features.length := by
  rw [nativeStep] at h
  obtain ⟨byte,_,h⟩ := bind_ok h
  obtain ⟨once,honce,h⟩ := bind_ok h
  split at h
  case isTrue =>
    obtain ⟨next,_,h⟩ := bind_ok h
    rw [bump_length h,bump_length honce]
  case isFalse =>
    cases h
    exact bump_length honce

theorem nativeRow_length {bytes : Bytes} {segments pairBins dimensions start stop : Nat}
    {row : List Nat} (h : nativeRow bytes segments pairBins dimensions start stop = .ok row) :
    row.length = dimensions := by
  have hfold : ∀ (positions : List Nat) (features : List Nat),
      positions.foldlM (nativeStep bytes segments pairBins start (stop-start)) features = .ok row →
        row.length = features.length := by
    intro positions
    induction positions with
    | nil =>
      intro features h
      cases h
      rfl
    | cons i rest ih =>
      intro features h
      rw [List.foldlM_cons] at h
      obtain ⟨next,hnext,h⟩ := bind_ok h
      rw [ih next h,nativeStep_length hnext]
  rw [hfold _ _ h,List.length_replicate]

theorem nativeCounts_shape {bytes : Bytes} {offsets : List Nat} {segments pairBins : Nat}
    {includeLength : Bool} {result : List (List Nat)}
    (h : nativeCounts bytes offsets segments pairBins includeLength = .ok result) :
    offsets.length-1 ≤ (2^63-1)/(segments*256+pairBins+includeLength.toNat)/4 ∧
      result.length = (offsets.zip offsets.tail).length ∧
      ∀ row ∈ result, row.length = segments*256+pairBins+includeLength.toNat := by
  rw [nativeCounts] at h
  split at h
  case isTrue => cases h
  case isFalse =>
    split at h
    case isTrue => cases h
    case isFalse =>
      split at h
      case isTrue => cases h
      case isFalse hsize =>
        split at h
        case isTrue => cases h
        case isFalse =>
          obtain ⟨_,_,h⟩ := bind_ok h
          have hrows := mapM_inv h
          refine ⟨Nat.not_lt.mp hsize,hrows.1,?_⟩
          intro row hrow
          obtain ⟨⟨start,stop⟩,hnative⟩ := hrows.2 row hrow
          exact nativeRow_length hnative

theorem int64_natCast {n : Nat} (h : n < 2^63) : int64 (n : Int) = n := by
  rw [int64]
  apply Int.bmod_eq_of_le <;> omega

theorem int64_sum {a b c : Nat} (h : a+(b+c) < 2^63) :
    int64 (int64 (int64 (a : Int)+b)+c) = (a+(b+c) : Nat) := by
  have ha : a < 2^63 := by omega
  have hab : a+b < 2^63 := by omega
  have habc : a+b+c < 2^63 := by omega
  rw [int64_natCast ha,← Nat.cast_add,int64_natCast hab,← Nat.cast_add,int64_natCast habc,
    Nat.add_assoc]

theorem RawTraceSketchConfig.byteDimensions_le (config : RawTraceSketchConfig) :
    config.segments*256+config.pairBins ≤ config.featureDimensions :=
  Nat.le_add_right _ _

section Tensors

variable {traces : List Bytes}

theorem arange_index (traces : List Bytes) :
    arange traces.length = (layRows 0 0 traces).map fun r => (r.index : Int) := by
  have hindex := layRows_index 0 0 traces
  rw [← List.range_eq_range'] at hindex
  rw [arange,← hindex,List.map_map]
  rfl

theorem arange_size (traces : List Bytes) :
    arange traces.flatten.length =
      ragged (layRows 0 0 traces) TraceRow.length fun r i => ((r.start+i : Nat) : Int) := by
  rw [arange,List.range_eq_range',range_ragged 0 0,map_ragged]
  rfl

theorem lengths_eq (traces : List Bytes) :
    List.zipWith (fun stop start => stop-start) (prefixSums 0 (traces.map List.length)).tail
        (prefixSums 0 (traces.map List.length)).dropLast =
      (layRows 0 0 traces).map TraceRow.length := by
  rw [prefixSums_tail 0,prefixSums_dropLast 0,List.zipWith_map,List.zipWith_self]
  apply List.map_congr_left
  intro r _
  exact Nat.add_sub_cancel_left r.start r.length

def rowTensors (traces : List Bytes) (segments : Nat) : Indices where
  traceIndex := ragged (layRows 0 0 traces) TraceRow.length fun r _ => (r.index : Int)
  positions := ragged (layRows 0 0 traces) TraceRow.length fun _ i => (i : Int)
  repeatedLengths := ragged (layRows 0 0 traces) TraceRow.length fun r _ => (r.length : Int)
  segment := ragged (layRows 0 0 traces) TraceRow.length fun r i => (r.segment segments i : Int)

theorem indices_eq (hshort : ∀ trace ∈ traces, trace.length < 2^24) {segments : Nat}
    (hs : 0 < segments) (hfits : ∀ trace ∈ traces, trace.length*segments < 2^63) :
    indices traces.flatten.length (prefixSums 0 (traces.map List.length))
        ((layRows 0 0 traces).map TraceRow.length) segments = rowTensors traces segments := by
  have hmem : ∀ r ∈ layRows 0 0 traces, r.length < 2^24 ∧ r.length*segments < 2^63 := by
    intro r hr
    have hbytes := List.mem_map_of_mem (f := TraceRow.bytes) hr
    rw [layRows_bytes] at hbytes
    exact ⟨hshort _ hbytes,hfits _ hbytes⟩
  have htrace : repeatInterleave (arange ((layRows 0 0 traces).map TraceRow.length).length)
      ((layRows 0 0 traces).map TraceRow.length) =
        ragged (layRows 0 0 traces) TraceRow.length fun r _ => (r.index : Int) := by
    rw [List.length_map,layRows_length,arange_index,repeatInterleave_map]
  have hstarts : repeatInterleave
      ((prefixSums 0 (traces.map List.length)).dropLast.map Int.ofNat)
      ((layRows 0 0 traces).map TraceRow.length) =
        ragged (layRows 0 0 traces) TraceRow.length fun r _ => (r.start : Int) := by
    rw [prefixSums_dropLast 0,List.map_map,repeatInterleave_map]
    rfl
  have hlengths : repeatInterleave (((layRows 0 0 traces).map TraceRow.length).map Int.ofNat)
      ((layRows 0 0 traces).map TraceRow.length) =
        ragged (layRows 0 0 traces) TraceRow.length fun r _ => (r.length : Int) := by
    rw [List.map_map,repeatInterleave_map]
    rfl
  have hpositions : List.zipWith (fun i start => int64 (i-start)) (arange traces.flatten.length)
      (ragged (layRows 0 0 traces) TraceRow.length fun r _ => (r.start : Int)) =
        ragged (layRows 0 0 traces) TraceRow.length fun _ i => (i : Int) := by
    rw [arange_size,zipWith_ragged]
    apply ragged_congr
    intro r hr i hi
    have hr := (hmem r hr).1
    rw [Nat.cast_add,add_sub_cancel_left,int64_natCast (by omega)]
  have hsegment : List.zipWith
      (fun position length => min (int64 (position*segments)/length) (segments-1))
      (ragged (layRows 0 0 traces) TraceRow.length fun _ i => (i : Int))
      (ragged (layRows 0 0 traces) TraceRow.length fun r _ => (r.length : Int)) =
        ragged (layRows 0 0 traces) TraceRow.length fun r i => (r.segment segments i : Int) := by
    rw [zipWith_ragged]
    apply ragged_congr
    intro r hr i hi
    have hmul : i*segments ≤ r.length*segments := Nat.mul_le_mul_right _ (Nat.le_of_lt hi)
    have hr := (hmem r hr).2
    have hlt := r.segment_lt hs hi
    rw [← Nat.cast_mul,int64_natCast (by omega),← Int.natCast_ediv]
    rw [TraceRow.segment] at hlt ⊢
    omega
  rw [indices,htrace,hstarts,hlengths,hpositions,hsegment,rowTensors]

theorem rowBin_lt {r : TraceRow} (hr : r ∈ layRows 0 0 traces) {bin dimensions : Nat}
    (hbin : bin < dimensions) : r.index*dimensions+bin < traces.length*dimensions := by
  have hindex : r.index < traces.length := by
    have hmem := List.mem_map_of_mem (f := TraceRow.index) hr
    rw [layRows_index,List.mem_range'_1] at hmem
    omega
  have hmul := Nat.mul_le_mul_right dimensions hindex
  rw [Nat.succ_mul] at hmul
  omega

theorem flatBins_eq (config : RawTraceSketchConfig)
    (hsize : traces.length*config.featureDimensions < 2^63) :
    flatBins traces.flatten config (rowTensors traces config.segments) =
      ragged (layRows 0 0 traces) TraceRow.length fun r i =>
        ((r.index*config.featureDimensions+r.byteBin config.segments i : Nat) : Int) := by
  rw [flatBins,rowTensors,zipWith_ragged,flatten_ragged 0 0 traces,zipWith_ragged]
  apply ragged_congr
  intro r hr i hi
  have hbin := r.byteBin_lt config.segments_pos hi
  have hdimensions := (Nat.le_add_right _ config.pairBins).trans config.byteDimensions_le
  have hlt := (rowBin_lt hr (hbin.trans_le hdimensions)).trans hsize
  have hsegment : int64 ((r.segment config.segments i : Int)*256) =
      (r.segment config.segments i*256 : Nat) := by
    have hsmall : r.segment config.segments i*256 < 2^63 := by
      rw [TraceRow.byteBin] at hlt
      omega
    rw [← int64_natCast hsmall]
    push_cast
    rfl
  rw [hsegment,← Nat.cast_mul]
  exact int64_sum hlt

theorem pairIndices_eq (hshort : ∀ trace ∈ traces, trace.length < 2^24)
    (config : RawTraceSketchConfig) (hpairs : config.pairBins ≠ 0)
    (hsize : traces.length*config.featureDimensions < 2^63) :
    pairIndices traces.flatten config (rowTensors traces config.segments) =
      .ok {
        pairTrace := ragged (layRows 0 0 traces) (fun r => r.length-1) fun r _ => (r.index : Int)
        pairIndices := ragged (layRows 0 0 traces) (fun r => r.length-1) fun r i =>
          ((r.index*config.featureDimensions+r.pairBin config.segments config.pairBins i : Nat) :
            Int) } := by
  have hmask : List.zipWith (fun position length => decide (int64 (position+1) < length))
      (ragged (layRows 0 0 traces) TraceRow.length fun _ i => (i : Int))
      (ragged (layRows 0 0 traces) TraceRow.length fun r _ => (r.length : Int)) =
        ragged (layRows 0 0 traces) TraceRow.length fun r i => decide (i+1 < r.length) := by
    rw [zipWith_ragged]
    apply ragged_congr
    intro r hr i hi
    have hbytes := List.mem_map_of_mem (f := TraceRow.bytes) hr
    rw [layRows_bytes] at hbytes
    have hlength : r.length < 2^24 := hshort _ hbytes
    rw [show ((i : Int)+1) = ((i+1 : Nat) : Int) by push_cast; rfl,int64_natCast (by omega)]
    simp only [Nat.cast_lt]
  have hrange : List.range (ragged (layRows 0 0 traces) TraceRow.length fun r i =>
      decide (i+1 < r.length)).length =
        ragged (layRows 0 0 traces) TraceRow.length fun r i => r.start+i := by
    have hcount := congrArg List.length (range_ragged 0 0 traces)
    rw [ragged_length] at hcount ⊢
    rw [← hcount,List.length_range',List.range_eq_range',range_ragged 0 0]
  have hnext : (ragged (layRows 0 0 traces) (fun r => r.length-1) fun r i => r.start+i).mapM
      (fun i => byteAt traces.flatten (i+1)) =
        .ok (ragged (layRows 0 0 traces) (fun r => r.length-1) fun r i => r.byte (i+1)) := by
    rw [mapM_ok (g := fun i => traces.flatten.getD (i+1) 0)]
    · rw [map_ragged]
      refine congrArg Except.ok (ragged_congr ?_)
      intro r hr i hi
      have hlookup := (layRows_lookup 0 0 hr (show i+1 < r.length by omega)).2
      rw [Nat.sub_zero,← Nat.add_assoc] at hlookup
      rw [List.getD_eq_getElem?_getD,hlookup]
      rfl
    · intro position hposition
      obtain ⟨r,hr,i,hi,rfl⟩ := mem_ragged.mp hposition
      have hbyte := byteAt_eq hr (show i+1 < r.length by omega)
      have hlookup := (layRows_lookup 0 0 hr (show i+1 < r.length by omega)).2
      rw [Nat.sub_zero,← Nat.add_assoc] at hlookup
      rw [Nat.add_assoc,hbyte,List.getD_eq_getElem?_getD,← Nat.add_assoc,hlookup]
      rfl
  rw [pairIndices,rowTensors]
  dsimp only
  rw [hmask,hrange,maskSelect_ragged,maskSelect_ragged,hnext,flatten_ragged 0 0 traces,
    maskSelect_ragged]
  show Except.ok _ = _
  rw [zipWith_ragged,zipWith_ragged]
  refine congrArg Except.ok (congrArg (PairIndices.mk _) ?_)
  apply ragged_congr
  intro r hr i hi
  have hbin := (r.pairBin_lt config.segments hpairs i).trans_le config.byteDimensions_le
  have hlt := (rowBin_lt hr hbin).trans hsize
  rw [← Nat.cast_mul]
  exact int64_sum hlt

/-- The rows of a histogram of row bins are the counts of each row's own bins. -/
theorem histogram_eq {dimensions : Nat} {n : TraceRow → Nat} {bin : TraceRow → Nat → Nat}
    (hbin : ∀ r ∈ layRows 0 0 traces, ∀ i < n r, bin r i < dimensions) :
    histogram (ragged (layRows 0 0 traces) n fun r i => ((r.index*dimensions+bin r i : Nat) : Int))
        traces.length dimensions =
      .ok ((layRows 0 0 traces).map fun r => (List.range dimensions).map fun j =>
        ((List.range (n r)).map (bin r)).count j) := by
  have hinside : ∀ x ∈ ragged (layRows 0 0 traces) n
      (fun r i => ((r.index*dimensions+bin r i : Nat) : Int)),
      0 ≤ x ∧ x < (traces.length*dimensions : Nat) := by
    intro x hx
    obtain ⟨r,hr,i,hi,rfl⟩ := mem_ragged.mp hx
    exact ⟨Int.natCast_nonneg _,Int.ofNat_lt.mpr (rowBin_lt hr (hbin r hr i hi))⟩
  have hindex : (layRows 0 0 traces).map TraceRow.index =
      List.range' 0 (layRows 0 0 traces).length := by
    rw [layRows_index,layRows_length]
  rw [histogram,reshape_bincount hinside]
  refine congrArg Except.ok ?_
  apply List.ext_getElem
  · simp
  · intro k hk hk'
    rw [List.length_map] at hk'
    simp only [List.getElem_map,List.getElem_range]
    apply List.map_congr_left
    intro j hj
    have hcount := count_ragged hindex hbin (List.mem_range.mp hj) (List.getElem?_eq_getElem hk')
    rw [Nat.zero_add] at hcount
    rw [← hcount,← map_ragged (fun n : Nat => (n : Int)),
      List.count_map_of_injective _ _ Nat.cast_injective]

theorem ragged_div {dimensions : Nat} {n : TraceRow → Nat} {bin : TraceRow → Nat → Nat}
    (hbin : ∀ r ∈ layRows 0 0 traces, ∀ i < n r, bin r i < dimensions) :
    (ragged (layRows 0 0 traces) n fun r i => ((r.index*dimensions+bin r i : Nat) : Int)).map
        (· / (dimensions : Int)) =
      ragged (layRows 0 0 traces) n fun r _ => (r.index : Int) := by
  rw [map_ragged]
  apply ragged_congr
  intro r hr i hi
  have hlt := hbin r hr i hi
  rw [← Int.natCast_ediv,Nat.mul_comm,Nat.mul_add_div (by omega),Nat.div_eq_of_lt hlt,Nat.add_zero]

theorem byteBin_inside (config : RawTraceSketchConfig) :
    ∀ r ∈ layRows 0 0 traces, ∀ i < r.length,
      r.byteBin config.segments i < config.featureDimensions := by
  intro r _ i hi
  have hdimensions := (Nat.le_add_right _ config.pairBins).trans config.byteDimensions_le
  exact (r.byteBin_lt config.segments_pos hi).trans_le hdimensions

theorem pairBin_inside (config : RawTraceSketchConfig) (hpairs : config.pairBins ≠ 0) :
    ∀ r ∈ layRows 0 0 traces, ∀ i < r.length-1,
      r.pairBin config.segments config.pairBins i < config.featureDimensions := by
  intro r _ i _
  exact (r.pairBin_lt config.segments hpairs i).trans_le config.byteDimensions_le

def rowPairs (traces : List Bytes) (config : RawTraceSketchConfig) : PairIndices :=
  if config.pairBins = 0 then ⟨[],[]⟩
  else
    { pairTrace := ragged (layRows 0 0 traces) (fun r => r.length-1) fun r _ => (r.index : Int)
      pairIndices := ragged (layRows 0 0 traces) (fun r => r.length-1) fun r i =>
        ((r.index*config.featureDimensions+r.pairBin config.segments config.pairBins i : Nat) :
          Int) }

theorem rowPairs_div (traces : List Bytes) (config : RawTraceSketchConfig) :
    (rowPairs traces config).pairIndices.map (· / (config.featureDimensions : Int)) =
      (rowPairs traces config).pairTrace := by
  rw [rowPairs]
  split
  case isTrue => rfl
  case isFalse hpairs => exact ragged_div (pairBin_inside config hpairs)

theorem histogram_rowPairs (traces : List Bytes) (config : RawTraceSketchConfig) :
    histogram (rowPairs traces config).pairIndices traces.length config.featureDimensions =
      .ok ((layRows 0 0 traces).map fun r => (List.range config.featureDimensions).map fun j =>
        (r.pairsBins config.segments config.pairBins).count j) := by
  unfold rowPairs TraceRow.pairsBins
  split
  case isTrue =>
    have hnone : ([] : List Int) = ragged (layRows 0 0 traces) (fun _ => 0) fun r _ =>
        ((r.index*config.featureDimensions+0 : Nat) : Int) := by
      simp [ragged]
    show histogram [] _ _ = _
    rw [hnone]
    exact histogram_eq fun r hr i hi => absurd hi (Nat.not_lt_zero i)
  case isFalse hpairs => exact histogram_eq (pairBin_inside config hpairs)

theorem fallbackSketch_eq (hempty : traces ≠ []) (hnonempty : ∀ trace ∈ traces, trace ≠ [])
    (hshort : ∀ trace ∈ traces, trace.length < 2^24) (config : RawTraceSketchConfig)
    (hfits : ∀ trace ∈ traces, trace.length*config.segments < 2^63)
    (hsize : traces.length*config.featureDimensions < 2^63) :
    fallbackSketch traces.flatten (prefixSums 0 (traces.map List.length)) config =
      .ok {
        tensors := rowTensors traces config.segments
        flatBins := ragged (layRows 0 0 traces) TraceRow.length fun r i =>
          ((r.index*config.featureDimensions+r.byteBin config.segments i : Nat) : Int)
        byteCounts := (layRows 0 0 traces).map fun r =>
          (List.range config.featureDimensions).map fun j => (r.byteBins config.segments).count j
        pairs := rowPairs traces config
        pairCounts := (layRows 0 0 traces).map fun r =>
          (List.range config.featureDimensions).map fun j =>
            (r.pairsBins config.segments config.pairBins).count j } := by
  have htensors := indices_eq hshort config.segments_pos hfits
  have hbytes : histogram (ragged (layRows 0 0 traces) TraceRow.length fun r i =>
      ((r.index*config.featureDimensions+r.byteBin config.segments i : Nat) : Int)) traces.length
        config.featureDimensions =
      .ok ((layRows 0 0 traces).map fun r => (List.range config.featureDimensions).map fun j =>
        (r.byteBins config.segments).count j) := histogram_eq (byteBin_inside config)
  have hpairs : fallbackPairs traces.flatten config (rowTensors traces config.segments) =
      .ok (rowPairs traces config) := by
    rw [fallbackPairs,rowPairs]
    split
    case isTrue => rfl
    case isFalse h => exact pairIndices_eq hshort config h hsize
  rw [fallbackSketch,checkArguments_ok hempty hnonempty]
  dsimp only
  rw [lengths_eq,htensors,flatBins_eq config hsize,hpairs,List.length_map,layRows_length,hbytes]
  show (histogram (rowPairs traces config).pairIndices traces.length config.featureDimensions >>= _) = _
  rw [histogram_rowPairs]
  rfl

end Tensors

def feature (rows : List (List Nat)) (trace index : Nat) : Option Nat :=
  (rows[trace]?).bind (·[index]?)

/-- The counts of the two paths for the same traces.  The native loop writes only to the row of the
trace it reads; a flat index of the fallback belongs to the row it leads to when divided by the
length of a row. -/
structure SketchesAgree (traces : List Bytes) (config : RawTraceSketchConfig)
    (native : List (List Nat)) (fallback : Fallback) : Prop where
  byteBins : ∀ trace < traces.length, ∀ segment < config.segments, ∀ value < 256, ∃ count,
    feature native trace (segment*256+value) = some count ∧
      feature fallback.byteCounts trace (segment*256+value) = some count
  pairBins : ∀ trace < traces.length, ∀ hash < config.pairBins, ∃ count,
    feature native trace (config.byteDimensions+hash) = some count ∧
      feature fallback.pairCounts trace (config.byteDimensions+hash) = some count
  segments : fallback.tensors.segment = traces.flatMap fun trace =>
    (List.range trace.length).map fun i => (nativeSegment config.segments trace.length i : Int)
  segments_lt : ∀ segment ∈ fallback.tensors.segment, 0 ≤ segment ∧ segment < config.segments
  byteSum : ∀ (k : Nat) (trace : Bytes) (row : List Nat),
    traces[k]? = some trace → native[k]? = some row →
    (row.take config.byteDimensions).sum = trace.length
  pairSum : config.pairBins ≠ 0 → ∀ (k : Nat) (trace : Bytes) (row : List Nat),
    traces[k]? = some trace → native[k]? = some row →
    ((row.drop config.byteDimensions).take config.pairBins).sum = trace.length-1
  byteRows : fallback.flatBins.map (· / (config.featureDimensions : Int)) =
    fallback.tensors.traceIndex
  pairRows : fallback.pairs.pairIndices.map (· / (config.featureDimensions : Int)) =
    fallback.pairs.pairTrace

def Agreement (traces : List Bytes) (bytes : Bytes) (offsets : List Nat)
    (config : RawTraceSketchConfig) : Prop :=
  ∃ native fallback, nativeSketch bytes offsets config = .ok native ∧
    fallbackSketch bytes offsets config = .ok fallback ∧
    SketchesAgree traces config native fallback

/-- The dimensions fit `unsigned`, and the table of floats fits a buffer. -/
structure Representable (traces : List Bytes) (config : RawTraceSketchConfig) : Prop where
  segments : config.segments < 2^32
  pairBins : config.pairBins < 2^32
  size : traces.length ≤ (2^63-1)/config.featureDimensions/4

theorem Agreement.representable {traces : List Bytes} {bytes : Bytes} {offsets : List Nat}
    {config : RawTraceSketchConfig} (hpack : packRawTraces traces = .ok (bytes,offsets))
    (h : Agreement traces bytes offsets config) : Representable traces config := by
  obtain ⟨hempty,_,rfl,rfl⟩ := packRawTraces_ok hpack
  obtain ⟨native,_,hnative,_,_⟩ := h
  have hcount : 0 < traces.length := List.length_pos_iff.mpr hempty
  have hlength := prefixSums_length 0 (traces.map List.length)
  rw [List.length_map] at hlength
  rw [nativeSketch] at hnative
  obtain ⟨_,_,hnative⟩ := bind_ok hnative
  obtain ⟨result,hresult,hnative⟩ := bind_ok hnative
  obtain ⟨hsize,hrows,hdimensions⟩ := nativeCounts_shape hresult
  rw [zip_offsets 0 0,List.length_map,layRows_length] at hrows
  rw [hlength,Nat.add_sub_cancel] at hsize hnative
  have hflat : result.flatten.length = traces.length*
      (config.segments % 2^32*256+config.pairBins % 2^32+config.includeLength.toNat) := by
    rw [List.length_flatten,List.map_congr_left hdimensions,List.map_const',List.sum_replicate,
      smul_eq_mul,hrows]
  have hreshape : result.flatten.length = traces.length*config.featureDimensions := by
    by_contra hne
    rw [reshape,if_neg hne] at hnative
    cases hnative
  rw [hflat] at hreshape
  have hequal := Nat.eq_of_mul_eq_mul_left hcount hreshape
  rw [hequal] at hsize
  have hsegments := Nat.mod_le config.segments (2^32)
  have hpairs := Nat.mod_le config.pairBins (2^32)
  have hsegments_lt := Nat.mod_lt config.segments (show 0 < 2^32 by decide)
  have hpairs_lt := Nat.mod_lt config.pairBins (show 0 < 2^32 by decide)
  rw [RawTraceSketchConfig.featureDimensions] at hequal
  exact ⟨by omega,by omega,hsize⟩

theorem nativeSketch_eq {traces : List Bytes} (hempty : traces ≠ [])
    (hnonempty : ∀ trace ∈ traces, trace ≠ []) (hshort : ∀ trace ∈ traces, trace.length < 2^24)
    {config : RawTraceSketchConfig}
    (hfits : ∀ trace ∈ traces, trace.length*config.segments < 2^63)
    (h : Representable traces config) :
    nativeSketch traces.flatten (prefixSums 0 (traces.map List.length)) config =
      .ok ((layRows 0 0 traces).map fun r => (List.range config.featureDimensions).map
        (r.count config.segments config.pairBins)) := by
  have hlength := prefixSums_length 0 (traces.map List.length)
  rw [List.length_map] at hlength
  have hcounts := nativeCounts_eq hempty hnonempty hshort config.segments_pos h.segments h.pairBins
    config.pairBins_power hfits h.size
  rw [nativeSketch,checkArguments_ok hempty hnonempty,Nat.mod_eq_of_lt h.segments,
    Nat.mod_eq_of_lt h.pairBins,hcounts,hlength,Nat.add_sub_cancel]
  have hreshape : reshape traces.length config.featureDimensions
      ((layRows 0 0 traces).map fun r => (List.range config.featureDimensions).map
        (r.count config.segments config.pairBins)).flatten =
      some ((layRows 0 0 traces).map fun r => (List.range config.featureDimensions).map
        (r.count config.segments config.pairBins)) := by
    rw [← layRows_length 0 0 traces,← List.length_map]
    apply reshape_flatten
    intro row hrow
    obtain ⟨r,_,rfl⟩ := List.mem_map.mp hrow
    rw [List.length_map,List.length_range]
  have hdimensions : config.segments*256+config.pairBins+config.includeLength.toNat =
      config.featureDimensions := rfl
  simp only [bind,Except.bind]
  rw [hdimensions,hreshape]
  rfl

theorem TraceRow.sum_byteBins (r : TraceRow) (config : RawTraceSketchConfig) :
    (((List.range config.featureDimensions).map
      (r.count config.segments config.pairBins)).take config.byteDimensions).sum = r.length := by
  have hdimensions : config.byteDimensions ≤ config.featureDimensions :=
    (Nat.le_add_right _ config.pairBins).trans config.byteDimensions_le
  have hcounts : (List.range config.byteDimensions).map (r.count config.segments config.pairBins) =
      (List.range config.byteDimensions).map fun j => (r.byteBins config.segments).count j :=
    List.map_congr_left fun j hj => r.count_byte _ (List.mem_range.mp hj)
  have hsum : ((List.range config.byteDimensions).map fun j =>
      (r.byteBins config.segments).count j).sum = (r.byteBins config.segments).length :=
    sum_count (r.mem_byteBins config.segments_pos)
  rw [← List.map_take,List.take_range,Nat.min_eq_left hdimensions,hcounts,hsum,byteBins,
    List.length_map,List.length_range]

theorem TraceRow.sum_pairBins (r : TraceRow) (config : RawTraceSketchConfig) (hpairs : config.pairBins ≠ 0) :
    ((((List.range config.featureDimensions).map
      (r.count config.segments config.pairBins)).drop config.byteDimensions).take
        config.pairBins).sum = r.length-1 := by
  let hashes := (List.range (r.length-1)).map fun i =>
    pairHash config.pairBins (r.byte i).toNat (r.byte (i+1)).toNat
  have hbins : r.pairsBins config.segments config.pairBins =
      hashes.map (config.byteDimensions + ·) := by
    rw [pairsBins,if_neg hpairs,List.map_map]
    rfl
  have hinj : Function.Injective (config.byteDimensions + ·) := fun a b h => Nat.add_left_cancel h
  have hcounts : (List.range config.pairBins).map (fun hash =>
      r.count config.segments config.pairBins (config.byteDimensions+hash)) =
        (List.range config.pairBins).map fun hash => hashes.count hash := by
    apply List.map_congr_left
    intro hash _
    have hle : config.segments*256 ≤ config.byteDimensions+hash := Nat.le_add_right _ _
    rw [r.count_pair config.pairBins config.segments_pos hle,hbins]
    exact List.count_map_of_injective _ _ hinj _
  have hlt : ∀ hash ∈ hashes, hash < config.pairBins := by
    intro hash hhash
    obtain ⟨i,_,rfl⟩ := List.mem_map.mp hhash
    exact pairHash_lt hpairs _ _
  have hinside : config.byteDimensions+config.pairBins ≤ config.featureDimensions :=
    config.byteDimensions_le
  rw [← List.map_drop,← List.map_take,take_drop_range hinside,List.map_map]
  refine (congrArg List.sum hcounts).trans ((sum_count hlt).trans ?_)
  rw [List.length_map,List.length_range]

section Agreement

variable {traces : List Bytes}

theorem feature_rows {k j dimensions : Nat} {r : TraceRow} (hr : (layRows 0 0 traces)[k]? = some r)
    (hj : j < dimensions) (f : TraceRow → Nat → Nat) :
    feature ((layRows 0 0 traces).map fun r => (List.range dimensions).map (f r)) k j =
      some (f r j) := by
  simp [feature,hr,hj]

theorem segments_eq {config : RawTraceSketchConfig}
    (hfits : ∀ trace ∈ traces, trace.length*config.segments < 2^63) :
    (rowTensors traces config.segments).segment = traces.flatMap fun trace =>
      (List.range trace.length).map fun i =>
        (nativeSegment config.segments trace.length i : Int) := by
  have hrows : traces.flatMap (fun trace => (List.range trace.length).map fun i =>
      (nativeSegment config.segments trace.length i : Int)) =
        ragged (layRows 0 0 traces) TraceRow.length fun r i =>
          (nativeSegment config.segments r.length i : Int) := by
    conv_lhs => rw [← layRows_bytes 0 0 traces,List.flatMap_map]
    rfl
  rw [hrows,rowTensors]
  apply ragged_congr
  intro r hr i hi
  have hmem := List.mem_map_of_mem (f := TraceRow.bytes) hr
  rw [layRows_bytes] at hmem
  have hlt : r.length*config.segments < 2^63 := hfits _ hmem
  have hmul : i*config.segments ≤ r.length*config.segments :=
    Nat.mul_le_mul_right _ (Nat.le_of_lt hi)
  rw [nativeSegment,TraceRow.segment,Nat.mod_eq_of_lt (by omega)]

theorem layRows_getElem? {k : Nat} {trace : Bytes} (h : traces[k]? = some trace) :
    ∃ r, (layRows 0 0 traces)[k]? = some r ∧ r.bytes = trace := by
  have hbytes := congrArg (·[k]?) (layRows_bytes 0 0 traces)
  simp only [List.getElem?_map,h,Option.map_eq_some_iff] at hbytes
  exact hbytes

theorem Representable.agreement (hempty : traces ≠ [])
    (hnonempty : ∀ trace ∈ traces, trace ≠ []) (hshort : ∀ trace ∈ traces, trace.length < 2^24)
    {config : RawTraceSketchConfig}
    (hfits : ∀ trace ∈ traces, trace.length*config.segments < 2^63)
    (h : Representable traces config) :
    Agreement traces traces.flatten (prefixSums 0 (traces.map List.length)) config := by
  have hpos : 0 < config.featureDimensions := by
    have := config.segments_pos
    have := config.byteDimensions_le
    omega
  have hsize : traces.length*config.featureDimensions < 2^63 := by
    have hle := h.size
    rw [Nat.div_div_eq_div_mul,Nat.le_div_iff_mul_le (by omega),← Nat.mul_assoc] at hle
    omega
  have hbytes : config.segments*256+config.pairBins ≤ config.featureDimensions :=
    config.byteDimensions_le
  refine ⟨_,_,nativeSketch_eq hempty hnonempty hshort hfits h,
    fallbackSketch_eq hempty hnonempty hshort config hfits hsize,?_⟩
  constructor
  · intro k hk segment hsegment value hvalue
    obtain ⟨r,hr,_⟩ := layRows_getElem? (List.getElem?_eq_getElem hk)
    have hbin : segment*256+value < config.segments*256 := by omega
    refine ⟨_,feature_rows hr (by omega) _,?_⟩
    rw [r.count_byte _ hbin]
    exact feature_rows hr (by omega) fun r j => (r.byteBins config.segments).count j
  · intro k hk hash hhash
    obtain ⟨r,hr,_⟩ := layRows_getElem? (List.getElem?_eq_getElem hk)
    have hbin : config.byteDimensions+hash < config.featureDimensions := by
      rw [RawTraceSketchConfig.byteDimensions]
      omega
    have hle : config.segments*256 ≤ config.byteDimensions+hash := Nat.le_add_right _ _
    refine ⟨_,feature_rows hr hbin _,?_⟩
    rw [r.count_pair _ config.segments_pos hle]
    exact feature_rows hr hbin fun r j => (r.pairsBins config.segments config.pairBins).count j
  · exact segments_eq hfits
  · intro segment hsegment
    obtain ⟨r,_,i,hi,rfl⟩ := mem_ragged.mp hsegment
    exact ⟨Int.natCast_nonneg _,Int.ofNat_lt.mpr (r.segment_lt config.segments_pos hi)⟩
  · intro k trace row htrace hrow
    obtain ⟨r,hr,rfl⟩ := layRows_getElem? htrace
    rw [List.getElem?_map,hr] at hrow
    obtain rfl := Option.some.inj hrow
    exact r.sum_byteBins config
  · intro hpairs k trace row htrace hrow
    obtain ⟨r,hr,rfl⟩ := layRows_getElem? htrace
    rw [List.getElem?_map,hr] at hrow
    obtain rfl := Option.some.inj hrow
    exact r.sum_pairBins config hpairs
  · exact ragged_div (byteBin_inside config)
  · exact rowPairs_div traces config

/-- The native sketch and the fallback count the same exactly when the dimensions fit the native
parser and the output fits a buffer. -/
theorem sketches_agree_iff {bytes : Bytes} {offsets : List Nat} (config : RawTraceSketchConfig)
    (hpack : packRawTraces traces = .ok (bytes,offsets))
    (hshort : ∀ trace ∈ traces, trace.length < 2^24)
    (hfits : ∀ trace ∈ traces, trace.length*config.segments < 2^63) :
    Agreement traces bytes offsets config ↔ Representable traces config := by
  constructor
  · exact Agreement.representable hpack
  · intro h
    obtain ⟨hempty,hnonempty,rfl,rfl⟩ := packRawTraces_ok hpack
    exact h.agreement hempty hnonempty hshort hfits

theorem sketches_agree_iff_three :
    packRawTraces [[1,2,2],[7]] = .ok ([1,2,2,7],[0,3,4]) ∧
      Agreement [[1,2,2],[7]] [1,2,2,7] [0,3,4] { segments := 2, pairBins := 4 } := by
  have hpack : packRawTraces [[1,2,2],[7]] = .ok ([1,2,2,7],[0,3,4]) := rfl
  refine ⟨hpack,(sketches_agree_iff _ hpack ?_ ?_).mpr ⟨?_,?_,?_⟩⟩
  · decide
  · decide
  · decide
  · decide
  · decide

/-- With 2^32 pair bins the native parser sees none, so that its rows have another length. -/
theorem sketches_disagree_pairBins :
    packRawTraces [[0,0]] = .ok ([0,0],[0,2]) ∧
      ¬ Agreement [[0,0]] [0,0] [0,2] { segments := 1, pairBins := 2^32 } := by
  have hpack : packRawTraces [[0,0]] = .ok ([0,0],[0,2]) := rfl
  refine ⟨hpack,?_⟩
  intro h
  exact Nat.lt_irrefl _ (h.representable hpack).pairBins

end Agreement

end Cpu2Tensor.Hardware
