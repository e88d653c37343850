import Cpu2Tensor.Window.Transition

/-!
# The transition reducer is an exact bounded counter

The table of a source holds the first `capacity` distinct pairs of neighbouring blocks of the
current window with their exact counts; every other occurrence is in the overflow number.
-/

namespace Cpu2Tensor
open Library

def slotCells (window : Nat) (slots : Nat → WindowSlot) (slot : Nat) : Option (Nat × Nat) :=
  if (slots slot).window = window then some ((slots slot).fromAddress,(slots slot).destination)
  else none

/-- The table of a source counts the pairs of `log` in the window it was last reset for. -/
structure WindowSource.Counts (capacity : Nat) (log : List Nat) (source : WindowSource) :
    Prop where
  last : log.getLast? = if source.hasPrevious then some source.previous else none
  observed : source.observed = (adjacentPairs log).length
  overflow : source.overflow = overflowCount capacity (adjacentPairs log)
  distinct : source.distinct = (retained capacity (adjacentPairs log)).length
  entry : ∀ i pair, (retained capacity (adjacentPairs log))[i]? = some pair →
    source.indices i < capacity ∧ source.slots (source.indices i) =
      ⟨source.window,pair.1,pair.2,(adjacentPairs log).count pair⟩
  chained : Chained capacity (slotHome capacity) (slotCells source.window source.slots)
  holds : ∀ pair, Holds capacity (slotCells source.window source.slots) pair ↔
    pair ∈ retained capacity (adjacentPairs log)
  used : used capacity (slotCells source.window source.slots) = source.distinct
  stale : ∀ slot, (source.slots slot).window ≤ source.window

section Probe

variable {k window : Nat} {source : WindowSource}

private theorem slotHome_lt (pair : Nat × Nat) : slotHome (2^k) pair < 2^k := by
  rw [slotHome,Nat.and_two_pow_sub_one_eq_mod]
  exact Nat.mod_lt _ (by positivity)

private theorem find_probes (pair : Nat × Nat) :
    Probes (2^k) (slotHome (2^k)) (slotCells window source.slots) pair
      (fun slot => (source.slots slot).window == window)
      (fun slot => (source.slots slot).fromAddress == pair.1 &&
        (source.slots slot).destination == pair.2)
      (fun slot => (slot+1) &&& (2^k-1)) := by
  refine ⟨by positivity,slotHome_lt _,fun slot _ => ?_,fun slot _ => ?_,fun slot _ hb => ?_⟩
  · exact Nat.and_two_pow_sub_one_eq_mod _ _
  · by_cases hw : (source.slots slot).window = window <;> simp [slotCells,hw]
  · have hw : (source.slots slot).window = window := by simpa using hb
    simp [slotCells,hw,Prod.ext_iff]

end Probe

private theorem slotCells_update (window slot : Nat) (slots : Nat → WindowSlot)
    (content : WindowSlot) (hw : content.window = window) :
    slotCells window (Function.update slots slot content) =
      Function.update (slotCells window slots) slot
        (some (content.fromAddress,content.destination)) := by
  funext i
  by_cases hi : i = slot
  · subst hi
    simp [slotCells,hw]
  · simp [slotCells,hi]

variable {capacity : Nat} {source : WindowSource}

theorem WindowSource.reset_counts {window : Nat}
    (hstale : ∀ slot, (source.slots slot).window < window) :
    (source.reset window).Counts capacity [] := by
  have hcells : slotCells window source.slots = fun _ => none := by
    funext slot
    have := hstale slot
    exact if_neg (by omega)
  have hnone : retained capacity (adjacentPairs ([] : List Nat)) = [] := by
    simp [retained,firstOccurrences,adjacentPairs]
  refine ⟨rfl,rfl,rfl,?_,?_,?_,?_,?_,fun slot => (hstale slot).le⟩
  · rw [hnone]
    rfl
  · intro i pair hpair
    simp [hnone] at hpair
  · change Chained capacity (slotHome capacity) (slotCells window source.slots)
    rw [hcells]
    exact chained_empty _ _
  · intro pair
    change Holds capacity (slotCells window source.slots) pair ↔ _
    simp [hcells,Holds,hnone]
  · change Library.used capacity (slotCells window source.slots) = 0
    rw [hcells]
    exact used_empty _

theorem WindowSource.Counts.first {address : Nat} (hc : source.Counts capacity []) :
    WindowSource.Counts capacity [address]
      { source with previous := address, hasPrevious := true } := by
  have hpairs : adjacentPairs [address] = adjacentPairs ([] : List Nat) := rfl
  obtain ⟨_,hobserved,hoverflow,hdistinct,hentry,hchained,hholds,hused,hstale⟩ := hc
  refine ⟨rfl,?_,?_,?_,?_,hchained,?_,hused,hstale⟩ <;> rw [hpairs]
  · exact hobserved
  · exact hoverflow
  · exact hdistinct
  · exact hentry
  · exact hholds

/-- The state of a source between its counters and its table. -/
private def WindowSource.advance (source : WindowSource) (address : Nat) : WindowSource :=
  { source with observed := source.observed+1, previous := address }

section Count

variable {k address : Nat} {log : List Nat} {source : WindowSource}
  (hc : source.Counts (2^k) (log ++ [source.previous])) (hprevious : source.hasPrevious = true)
include hc hprevious

variable {slot : Nat}

private theorem count_vacant
    (hfind : source.find (2^k) source.window (source.previous,address) = .vacant slot) :
    source.distinct < 2^k ∧ WindowSource.Counts (2^k) (log ++ [source.previous] ++ [address])
      { source.advance address with
        slots := Function.update source.slots slot ⟨source.window,source.previous,address,1⟩
        indices := Function.update source.indices source.distinct slot
        distinct := source.distinct+1 } := by
  have hp := @find_probes k source.window source (source.previous,address)
  obtain ⟨hslot,hfree,habsent,hkeep⟩ := hp.vacant hc.chained hfind
  have hnew : (source.previous,address) ∉
      retained (2^k) (adjacentPairs (log ++ [source.previous])) := fun hmem =>
    habsent ((hc.holds _).mpr hmem)
  have hroom : source.distinct < 2^k := by
    rw [← hc.used]
    have hmore := used_update hslot hfree (source.previous,address)
    have hle : used (2^k) (Function.update (slotCells source.window source.slots) slot
        (some (source.previous,address))) ≤ 2^k := by
      unfold used
      exact (Finset.card_filter_le _ _).trans_eq (Finset.card_range _)
    omega
  have hlt : (retained (2^k) (adjacentPairs (log ++ [source.previous]))).length < 2^k := by
    rw [← hc.distinct]
    exact hroom
  have hkept := retained_snoc_of_lt hnew hlt
  -- A pair that was not kept by a counter with room has not occurred at all.
  have hzero : (adjacentPairs (log ++ [source.previous])).count (source.previous,address) = 0 := by
    apply List.count_eq_zero.mpr
    intro hmem
    apply hnew
    rw [retained_of_length_lt hlt]
    exact (mem_firstOccurrences _ _).mpr hmem
  have hcells : slotCells source.window (Function.update source.slots slot
      ⟨source.window,source.previous,address,1⟩) =
      Function.update (slotCells source.window source.slots) slot
        (some (source.previous,address)) :=
    slotCells_update source.window slot source.slots ⟨source.window,source.previous,address,1⟩ rfl
  refine ⟨hroom,?_,?_,?_,?_,?_,?_,?_,?_,?_⟩
  · simp [WindowSource.advance,hprevious]
  · rw [adjacentPairs_snoc,List.length_append,← hc.observed]
    rfl
  · rw [adjacentPairs_snoc,overflowCount_snoc_of_lt hnew hlt]
    exact hc.overflow
  · rw [adjacentPairs_snoc,hkept,List.length_append,← hc.distinct]
    rfl
  · intro i pair hpair
    rw [adjacentPairs_snoc,hkept] at hpair
    rw [adjacentPairs_snoc]
    by_cases hi : i = source.distinct
    · subst hi
      rw [hc.distinct,List.getElem?_append_right le_rfl] at hpair
      obtain rfl : (source.previous,address) = pair := by simpa using hpair
      simp [hslot,hzero,WindowSource.advance]
    · have hlow : i < (retained (2^k) (adjacentPairs (log ++ [source.previous]))).length := by
        have hbound := (List.getElem?_eq_some_iff.mp hpair).1
        rw [List.length_append,List.length_singleton] at hbound
        rw [hc.distinct] at hi
        omega
      rw [List.getElem?_append_left hlow] at hpair
      obtain ⟨hidx,hcontent⟩ := hc.entry i pair hpair
      have hmem : pair ∈ retained (2^k) (adjacentPairs (log ++ [source.previous])) :=
        List.mem_of_getElem? hpair
      have hne : source.indices i ≠ slot := by
        intro heq
        rw [← heq] at hfree
        simp [slotCells,hcontent] at hfree
      have hother : (source.previous,address) ≠ pair := fun heq => hnew (heq ▸ hmem)
      simp [hi,hidx,hne,hcontent,hother,List.count_append,WindowSource.advance]
  · change Chained (2^k) (slotHome (2^k)) (slotCells source.window (Function.update _ _ _))
    rw [hcells]
    exact hkeep
  · intro pair
    change Holds (2^k) (slotCells source.window (Function.update _ _ _)) pair ↔ _
    rw [hcells,holds_update hslot hfree,hc.holds,adjacentPairs_snoc,hkept]
    simp [or_comm]
  · change used (2^k) (slotCells source.window (Function.update _ _ _)) = source.distinct+1
    rw [hcells,used_update hslot hfree,hc.used]
  · intro i
    change (Function.update source.slots slot _ i).window ≤ source.window
    by_cases hi : i = slot
    · subst hi
      simp
    · simpa [hi] using hc.stale i

private theorem count_found
    (hfind : source.find (2^k) source.window (source.previous,address) = .found slot) :
    (source.slots slot).count ≤ (adjacentPairs (log ++ [source.previous])).length ∧
      WindowSource.Counts (2^k) (log ++ [source.previous] ++ [address])
        { source.advance address with
          slots := Function.update source.slots slot
            { source.slots slot with count := (source.slots slot).count+1 } } := by
  have hp := @find_probes k source.window source (source.previous,address)
  obtain ⟨hslot,hcell⟩ := hp.found hfind
  have hmem := (hc.holds _).mp ⟨slot,hslot,hcell⟩
  obtain ⟨j,hj⟩ := List.mem_iff_getElem?.mp hmem
  obtain ⟨hidx,hcontent⟩ := hc.entry j _ hj
  have hsame : source.indices j = slot := by
    apply hc.chained.unique _ _ _ hidx hslot _ hcell
    simp [slotCells,hcontent]
  rw [hsame] at hcontent
  have hwindow : (source.slots slot).window = source.window := by rw [hcontent]
  have hcells : slotCells source.window (Function.update source.slots slot
      { source.slots slot with count := (source.slots slot).count+1 }) =
      slotCells source.window source.slots := by
    funext i
    by_cases hi : i = slot
    · subst hi
      simp [slotCells]
    · simp [slotCells,hi]
  refine ⟨?_,?_,?_,?_,?_,?_,?_,?_,?_,?_⟩
  · rw [hcontent]
    exact List.count_le_length
  · simp [WindowSource.advance,hprevious]
  · rw [adjacentPairs_snoc,List.length_append,← hc.observed]
    rfl
  · rw [adjacentPairs_snoc,overflowCount_snoc_of_mem hmem]
    exact hc.overflow
  · rw [adjacentPairs_snoc,retained_snoc_of_mem hmem]
    exact hc.distinct
  · intro i pair hpair
    rw [adjacentPairs_snoc,retained_snoc_of_mem hmem] at hpair
    rw [adjacentPairs_snoc]
    obtain ⟨hidx',hcontent'⟩ := hc.entry i pair hpair
    by_cases hi : source.indices i = slot
    · rw [hi,hcontent] at hcontent'
      have hpair' : (source.previous,address) = pair := by
        injection hcontent' with _ hfrom hto
        exact Prod.ext hfrom hto
      subst hpair'
      simp [hi,hslot,hcontent,List.count_append,WindowSource.advance]
    · have hother : (source.previous,address) ≠ pair := by
        intro heq
        subst heq
        apply hi
        apply hc.chained.unique _ _ _ hidx' hslot _ hcell
        simp [slotCells,hcontent']
      simp [hi,hidx',hcontent',hother,List.count_append,WindowSource.advance]
  · change Chained (2^k) (slotHome (2^k)) (slotCells source.window (Function.update _ _ _))
    rw [hcells]
    exact hc.chained
  · intro pair
    change Holds (2^k) (slotCells source.window (Function.update _ _ _)) pair ↔ _
    rw [hcells,adjacentPairs_snoc,retained_snoc_of_mem hmem]
    exact hc.holds pair
  · change used (2^k) (slotCells source.window (Function.update _ _ _)) = source.distinct
    rw [hcells]
    exact hc.used
  · intro i
    change (Function.update source.slots slot _ i).window ≤ source.window
    by_cases hi : i = slot
    · subst hi
      simp [hwindow]
    · simpa [hi] using hc.stale i

/-- A pair that passes every slot without a match belongs to the overflow of a full table. -/
private theorem count_exhausted
    (hfind : source.find (2^k) source.window (source.previous,address) = .exhausted) :
    source.overflow ≤ (adjacentPairs (log ++ [source.previous])).length ∧
      WindowSource.Counts (2^k) (log ++ [source.previous] ++ [address])
        { source.advance address with overflow := source.overflow+1 } := by
  have hp := @find_probes k source.window source (source.previous,address)
  have hnew : (source.previous,address) ∉
      retained (2^k) (adjacentPairs (log ++ [source.previous])) := by
    intro hmem
    obtain ⟨slot,hslot,hcell⟩ := (hc.holds _).mpr hmem
    exact (hp.exhausted hfind slot hslot).2 hcell
  have hfull : (retained (2^k) (adjacentPairs (log ++ [source.previous]))).length = 2^k := by
    rw [← hc.distinct,← hc.used]
    exact hp.exhausted_used hfind
  refine ⟨?_,?_,?_,?_,?_,?_,hc.chained,?_,hc.used,hc.stale⟩
  · rw [hc.overflow]
    exact List.countP_le_length
  · simp [WindowSource.advance,hprevious]
  · rw [adjacentPairs_snoc,List.length_append,← hc.observed]
    rfl
  · rw [adjacentPairs_snoc,overflowCount_snoc_of_full hnew hfull,← hc.overflow]
  · rw [adjacentPairs_snoc,retained_snoc_of_full hfull]
    exact hc.distinct
  · intro i pair hpair
    rw [adjacentPairs_snoc,retained_snoc_of_full hfull] at hpair
    have hother : (source.previous,address) ≠ pair := fun heq =>
      hnew (heq ▸ List.mem_of_getElem? hpair)
    rw [adjacentPairs_snoc]
    obtain ⟨hidx,hcontent⟩ := hc.entry i pair hpair
    simp [hidx,hcontent,hother,List.count_append,WindowSource.advance]
  · intro pair
    rw [adjacentPairs_snoc,retained_snoc_of_full hfull]
    exact hc.holds pair

private theorem count_consistent {rest : WindowSource} :
    WindowSource.count (2^k) source.window (source.previous,address) (source.advance address) ≠
      .error (.failure "Transition index capacity is inconsistent") rest := by
  intro he
  have hsame : (source.advance address).find (2^k) source.window (source.previous,address) =
      source.find (2^k) source.window (source.previous,address) := rfl
  simp only [WindowSource.count,bind_eq_error,get_eq_error,get_eq_ok,false_or] at he
  obtain ⟨_,_,⟨rfl,rfl⟩,he⟩ := he
  rw [hsame] at he
  cases hfind : source.find (2^k) source.window (source.previous,address) with
  | vacant slot =>
    simp only [hfind,bind_eq_error,refuse_eq_error,set_eq_error,and_false,exists_false,
      or_false] at he
    exact (count_vacant hc hprevious hfind).1.ne he.1
  | found slot =>
    simp only [hfind,bind_eq_error,refuse_eq_error,set_eq_error,and_false,exists_false,
      or_false] at he
    exact absurd he.2.1 (by decide)
  | exhausted =>
    simp only [hfind,bind_eq_error,refuse_eq_error,set_eq_error,and_false,exists_false,
      or_false] at he
    exact absurd he.2.1 (by decide)

private theorem count_counts (hblocks : (log ++ [source.previous] ++ [address]).length < 2^64) :
    ∃ next, WindowSource.count (2^k) source.window (source.previous,address)
        (source.advance address) = .ok () next ∧ next.window = source.window ∧
      next.Counts (2^k) (log ++ [source.previous] ++ [address]) := by
  have hpairs := adjacentPairs_length (log ++ [source.previous])
  have hlen : (log ++ [source.previous] ++ [address]).length =
      (log ++ [source.previous]).length+1 := by simp
  have hsame : (source.advance address).find (2^k) source.window (source.previous,address) =
      source.find (2^k) source.window (source.previous,address) := rfl
  simp only [WindowSource.count,bind_eq_ok,get_eq_ok]
  cases hfind : source.find (2^k) source.window (source.previous,address) with
  | vacant slot =>
    obtain ⟨hroom,hcounts⟩ := count_vacant hc hprevious hfind
    refine ⟨_,⟨_,_,⟨rfl,rfl⟩,?_⟩,?_,hcounts⟩
    · rw [hsame,hfind]
      simp only [bind_eq_ok,exists_unit,refuse_eq_ok,set_eq_ok]
      exact ⟨_,⟨hroom.ne,rfl⟩,rfl⟩
    · rfl
  | found slot =>
    obtain ⟨hle,hcounts⟩ := count_found hc hprevious hfind
    refine ⟨_,⟨_,_,⟨rfl,rfl⟩,?_⟩,?_,hcounts⟩
    · rw [hsame,hfind]
      simp only [bind_eq_ok,exists_unit,refuse_eq_ok,set_eq_ok]
      refine ⟨_,⟨?_,rfl⟩,rfl⟩
      change ¬(source.slots slot).count = uint64Max
      simp only [uint64Max]
      omega
    · rfl
  | exhausted =>
    obtain ⟨hle,hcounts⟩ := count_exhausted hc hprevious hfind
    refine ⟨_,⟨_,_,⟨rfl,rfl⟩,?_⟩,?_,hcounts⟩
    · rw [hsame,hfind]
      simp only [bind_eq_ok,exists_unit,refuse_eq_ok,set_eq_ok]
      refine ⟨_,⟨?_,rfl⟩,rfl⟩
      change ¬source.overflow = uint64Max
      simp only [uint64Max]
      omega
    · rfl

end Count

/-- A table counts the blocks of `log` in `window`, or it still shows an earlier window and
`log` is empty. -/
def WindowSource.Ready (capacity window : Nat) (log : List Nat) (source : WindowSource) : Prop :=
  (source.window = window ∧ source.Counts capacity log) ∨
    (source.window < window ∧ (∀ slot, (source.slots slot).window ≤ source.window) ∧ log = [])

section Observe

variable {k window address : Nat} {log : List Nat} {source : WindowSource}

private theorem ready_entered (hr : source.Ready (2^k) window log) :
    ∃ entered, (if source.window ≠ window then source.reset window else source) = entered ∧
      entered.window = window ∧ entered.Counts (2^k) log := by
  obtain ⟨hwindow,hc⟩ | ⟨hwindow,hstale,rfl⟩ := hr
  · exact ⟨source,by simp [hwindow],hwindow,hc⟩
  · refine ⟨source.reset window,by simp [hwindow.ne],rfl,?_⟩
    apply WindowSource.reset_counts
    intro slot
    have := hstale slot
    omega

private theorem counts_unentered (hc : source.Counts (2^k) log) (hp : source.hasPrevious = false) :
    log = [] := by
  have hlast := hc.last
  simpa [hp] using hlast

private theorem counts_entered (hc : source.Counts (2^k) log) (hp : source.hasPrevious = true) :
    ∃ earlier, log = earlier ++ [source.previous] := by
  have hlast := hc.last
  rw [hp,if_pos rfl] at hlast
  exact ⟨_,(List.dropLast_append_getLast? _ hlast).symm⟩

theorem WindowSource.observe_counts (hr : source.Ready (2^k) window log)
    (hlen : (log ++ [address]).length < 2^64) :
    ∃ next, WindowSource.observe (2^k) window address source = .ok () next ∧
      next.window = window ∧ next.Counts (2^k) (log ++ [address]) := by
  obtain ⟨entered,hentered,rfl,hc⟩ := ready_entered hr
  simp only [WindowSource.observe,bind_eq_ok,exists_unit,modify_eq_ok,get_eq_ok,ite_eq_ok,
    set_eq_ok,refuse_eq_ok]
  cases hp : entered.hasPrevious with
  | false =>
    obtain rfl := counts_unentered hc hp
    exact ⟨_,⟨_,rfl,_,_,⟨hentered,hentered⟩,.inl ⟨hp,rfl⟩⟩,rfl,hc.first⟩
  | true =>
    obtain ⟨earlier,rfl⟩ := counts_entered hc hp
    obtain ⟨next,hcount,hwindow,hnext⟩ := count_counts hc hp hlen
    refine ⟨next,⟨_,rfl,_,_,⟨hentered,hentered⟩,.inr ⟨by simp [hp],_,⟨?_,rfl⟩,_,rfl,hcount⟩⟩,
      hwindow,hnext⟩
    have hpairs := adjacentPairs_length (earlier ++ [entered.previous])
    rw [hc.observed,hpairs]
    simp only [List.length_append,List.length_singleton] at hlen ⊢
    simp only [uint64Max]
    omega

theorem WindowSource.observe_consistent (hr : source.Ready (2^k) window log) (rest : WindowSource) :
    WindowSource.observe (2^k) window address source ≠
      .error (.failure "Transition index capacity is inconsistent") rest := by
  intro he
  obtain ⟨entered,hentered,rfl,hc⟩ := ready_entered hr
  simp only [WindowSource.observe,bind_eq_error,modify_eq_error,modify_eq_ok,get_eq_error,
    get_eq_ok,exists_unit,false_or] at he
  obtain ⟨_,rfl,_,_,⟨rfl,rfl⟩,he⟩ := he
  rw [hentered] at he
  cases hp : entered.hasPrevious with
  | false =>
    rw [if_pos hp] at he
    exact set_eq_error.mp he
  | true =>
    obtain ⟨earlier,rfl⟩ := counts_entered hc hp
    rw [if_neg (by simp [hp])] at he
    simp only [bind_eq_error,refuse_eq_error,refuse_eq_ok,set_eq_error,set_eq_ok,exists_unit,
      false_or] at he
    obtain ⟨_,hmessage,_⟩ | ⟨_,⟨_,rfl⟩,_,rfl,he⟩ := he
    · exact absurd hmessage (by decide)
    · exact count_consistent hc hp he

end Observe

end Cpu2Tensor
