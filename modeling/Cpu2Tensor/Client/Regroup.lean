import Cpu2Tensor.Client.Batch

/-!
# Merging in groups

`merge_batches` of batches that were merged in groups is `merge_batches` of all of them.
-/

namespace Cpu2Tensor.Client
open Library

/-- In every list `merge i` counts as `members i` for `f`. -/
def Absorbs {α γ ι : Type} (f : List α → γ) (members : ι → List α) (merge : ι → α) : Prop :=
  ∀ before i after, f (before ++ merge i::after) = f (before ++ (members i ++ after))

theorem Absorbs.map {α γ ι : Type} {f : List α → γ} {members : ι → List α} {merge : ι → α}
    (h : Absorbs f members merge) (groups : List ι) :
    f (groups.map merge) = f (groups.flatMap members) := by
  have hbefore : ∀ before, f (before ++ groups.map merge) = f (before ++ groups.flatMap members) := by
    induction groups with
    | nil => exact fun _ => rfl
    | cons i groups ih =>
      intro before
      rw [List.map_cons,List.flatMap_cons,h,← List.append_assoc,ih,List.append_assoc]
  exact hbefore []

private theorem foldl_max (widths : List Nat) (start : Nat) :
    widths.foldl max start = max start (widths.foldl max 0) := by
  induction widths generalizing start with
  | nil => simp
  | cons width widths ih =>
    rw [List.foldl_cons,List.foldl_cons,ih,ih (max 0 width)]
    simp [max_assoc]

private theorem maxWidth_append (a b : List ByteMatrix) :
    maxWidth (a ++ b) = max (maxWidth a) (maxWidth b) := by
  rw [maxWidth,List.map_append,List.foldl_append,foldl_max]
  rfl

theorem padMatrices_absorb (before group after : List ByteMatrix) :
    padMatrices (before ++ padMatrices group::after) = padMatrices (before ++ (group ++ after)) := by
  have hwidth : maxWidth (before ++ padMatrices group::after) =
      maxWidth (before ++ (group ++ after)) := by
    have hsingle : maxWidth [padMatrices group] = maxWidth group := by
      simp [maxWidth,padMatrices]
    rw [← List.singleton_append,maxWidth_append,maxWidth_append,hsingle,maxWidth_append,
      maxWidth_append]
  have hpad : (padMatrices group).rows.map (padRow (maxWidth (before ++ (group ++ after)))) =
      group.flatMap fun m => m.rows.map (padRow (maxWidth (before ++ (group ++ after)))) := by
    rw [padMatrices,List.map_flatMap]
    refine List.flatMap_congr fun m hm => ?_
    rw [List.map_map]
    refine List.map_congr_left fun row hrow => ?_
    refine padRow_padRow (m.shaped row hrow ▸ le_maxWidth hm) ?_
    simp [maxWidth_append]
  apply ByteMatrix.ext
  · exact hwidth
  · show (before ++ padMatrices group::after).flatMap _ = (before ++ (group ++ after)).flatMap _
    rw [hwidth]
    simp only [List.flatMap_append,List.flatMap_cons,hpad]

section Tables

variable {T α : Type} (m : Batch)

def entryOf (table : Option T) : List (Batch × T) := table.toList.map fun t => (m,t)

theorem selectTable_append (table : Batch → Option T) (a b : List Batch) :
    selectTable table (a ++ b) = selectTable table a ++ selectTable table b :=
  List.filterMap_append

theorem selectTable_ne_nil (table : Batch → Option T) (batches : List Batch) :
    selectTable table batches ≠ [] ↔ ∃ b ∈ batches, (table b).isSome = true := by
  rw [selectTable,Ne,List.filterMap_eq_nil_iff]
  simp [Option.isSome_iff_ne_none]

theorem selectTable_cons (table : Batch → Option T) (b : Batch) (batches : List Batch) :
    selectTable table (b::batches) = entryOf b (table b) ++ selectTable table batches := by
  rw [selectTable,List.filterMap_cons,entryOf]
  cases table b <;> rfl

end Tables

variable {T α : Type} {shape : OptionalShape}

private theorem flatMap_absorb (field : Batch × T → List α) {entry : Batch × T}
    {group : List (Batch × T)} (h : field entry = group.flatMap field)
    (before after : List (Batch × T)) :
    (before ++ entry::after).flatMap field = (before ++ (group ++ after)).flatMap field := by
  rw [List.flatMap_append,List.flatMap_cons,h,List.flatMap_append,List.flatMap_append]

/-- The tables of `selected` as one table with the names `names`. -/
def joinRegisters (selected : List (Batch × RegisterChanges)) (names : Option Names) :
    RegisterChanges where
  columns := fun column => selected.flatMap fun entry => entry.2.columns column
  values := padMatrices (selected.map fun entry => entry.2.values)
  names := names
  sequences := some (selected.flatMap fun entry =>
    rowSequences entry.1.firstSequence entry.2.rows entry.2.sequences)

private theorem mergeRegisters_eq (selected : List (Batch × RegisterChanges)) :
    mergeRegisters selected =
      (selected.getLast?.map fun last => last.2.names).map (joinRegisters selected) := by
  rw [mergeRegisters,Option.map_map]
  rfl

private theorem joinRegisters_absorb (m : Batch) (before group after : List (Batch × RegisterChanges))
    (own names : Option Names) :
    joinRegisters (before ++ (m,joinRegisters group own)::after) names =
      joinRegisters (before ++ (group ++ after)) names := by
  unfold joinRegisters
  rw [RegisterChanges.mk.injEq]
  refine ⟨funext fun column => ?_,?_,rfl,congrArg some ?_⟩
  · refine flatMap_absorb (fun entry => entry.2.columns column) ?_ before after
    rfl
  · simp only [List.map_append,List.map_cons]
    exact padMatrices_absorb _ _ _
  · refine flatMap_absorb (fun entry =>
      rowSequences entry.1.firstSequence entry.2.rows entry.2.sequences) ?_ before after
    rfl

private theorem getLast_absorb (name : T → α) (entry : T) {last : T} {group : List T}
    (hlast : group.getLast? = some last) (hname : name entry = name last) (before after : List T) :
    (before ++ entry::after).getLast?.map name = (before ++ (group ++ after)).getLast?.map name := by
  rw [← List.singleton_append]
  simp only [List.getLast?_append,hlast]
  cases after.getLast? with
  | none => simp [hname]
  | some other => rfl

theorem mergeRegisters_absorb (m : Batch) (before group after : List (Batch × RegisterChanges)) :
    mergeRegisters (before ++ (entryOf m (mergeRegisters group) ++ after)) =
      mergeRegisters (before ++ (group ++ after)) := by
  cases hlast : group.getLast? with
  | none =>
    obtain rfl := List.getLast?_eq_none_iff.mp hlast
    rfl
  | some last =>
    have hgroup : mergeRegisters group = some (joinRegisters group last.2.names) := by
      rw [mergeRegisters_eq,hlast]
      rfl
    rw [hgroup]
    change mergeRegisters (before ++ (m,joinRegisters group last.2.names)::after) = _
    have hnames := getLast_absorb (fun entry : Batch × RegisterChanges => entry.2.names)
      (m,joinRegisters group last.2.names) hlast rfl before after
    rw [mergeRegisters_eq,mergeRegisters_eq,hnames]
    congr 1
    funext names
    exact joinRegisters_absorb m before group after _ names

def joinContext (selected : List (Batch × AddressContext)) : AddressContext where
  columns := fun column => selected.flatMap fun entry => entry.2.columns column
  sequences := some (selected.flatMap fun entry =>
    rowSequences entry.1.firstSequence entry.2.rows entry.2.sequences)

private theorem mergeContext_of_ne {selected : List (Batch × AddressContext)} (hne : selected ≠ []) :
    mergeContext selected = some (joinContext selected) := by
  rw [mergeContext,if_neg hne]
  rfl

theorem mergeContext_absorb (m : Batch) (before group after : List (Batch × AddressContext)) :
    mergeContext (before ++ (entryOf m (mergeContext group) ++ after)) =
      mergeContext (before ++ (group ++ after)) := by
  by_cases hnil : group = []
  · subst hnil
    rfl
  · rw [mergeContext_of_ne hnil]
    change mergeContext (before ++ (m,joinContext group)::after) = _
    rw [mergeContext_of_ne (by simp),mergeContext_of_ne (by simp [hnil]),Option.some_inj]
    unfold joinContext
    rw [AddressContext.mk.injEq]
    refine ⟨funext fun column => ?_,congrArg some ?_⟩
    · refine flatMap_absorb (fun entry => entry.2.columns column) ?_ before after
      rfl
    · refine flatMap_absorb (fun entry =>
        rowSequences entry.1.firstSequence entry.2.rows entry.2.sequences) ?_ before after
      rfl

structure OptionalShape where
  values : Bool
  mapping : MappingColumn → Bool

def MemoryAccesses.Fits (shape : OptionalShape) (t : MemoryAccesses) : Prop :=
  t.values.isSome = shape.values ∧ ∀ column, (t.mapping column).isSome = shape.mapping column

/-- An optional column of tables that all have it, or all do not. -/
def joinOptional {α β : Type} (present : Bool) (concatenate : List α → β)
    (values : List (Option α)) : Option β :=
  if present then some (concatenate (values.filterMap id)) else none

/-- `mergeMemory` for tables of one shape. -/
def joinMemory (shape : OptionalShape) (selected : List (Batch × MemoryAccesses)) :
    Option MemoryAccesses :=
  if selected = [] then none
  else some
    { columns := fun column => selected.flatMap fun entry => entry.2.columns column
      values := joinOptional shape.values padMatrices (selected.map fun entry => entry.2.values)
      mapping := fun column => joinOptional (shape.mapping column) List.flatten
        (selected.map fun entry => entry.2.mapping column)
      sequences := some (selected.flatMap fun entry =>
        rowSequences entry.1.firstSequence entry.2.rows entry.2.sequences) }

theorem optionalColumn_eq {β : Type} (name : String) (concatenate : List α → β)
    {values : List (Option α)} {present : Bool} (hne : values ≠ [])
    (h : ∀ value ∈ values, value.isSome = present) :
    optionalColumn name concatenate values = .ok (joinOptional present concatenate values) := by
  unfold optionalColumn joinOptional
  cases present with
  | false =>
    have hall : ∀ value ∈ values, value = none := fun value hvalue => by simpa using h value hvalue
    obtain ⟨value,hvalue⟩ := List.exists_mem_of_ne_nil values hne
    rw [if_pos (List.any_eq_true.mpr ⟨value,hvalue,by simp [hall value hvalue]⟩),
      if_pos (List.all_eq_true.mpr fun other hother => by simp [hall other hother])]
    rfl
  | true =>
    have hany : values.any Option.isNone = false := by
      rw [List.any_eq_false]
      intro value hvalue
      simp [Option.isSome_iff_ne_none.mp (h value hvalue)]
    rw [if_neg (by simp [hany])]
    rfl

theorem mergeMemory_eq {selected : List (Batch × MemoryAccesses)}
    (h : ∀ entry ∈ selected, entry.2.Fits shape) :
    mergeMemory selected = .ok (joinMemory shape selected) := by
  by_cases hnil : selected = []
  · rw [mergeMemory,joinMemory,if_pos hnil,if_pos hnil]
  · have hvalues : optionalColumn "values" padMatrices (selected.map fun entry => entry.2.values) =
        .ok (joinOptional shape.values padMatrices (selected.map fun entry => entry.2.values)) :=
      optionalColumn_eq _ _ (by simpa using hnil)
        (List.forall_mem_map.mpr fun entry he => (h entry he).1)
    have hmapping (column : MappingColumn) : optionalColumn column.name List.flatten
        (selected.map fun entry => entry.2.mapping column) =
        .ok (joinOptional (shape.mapping column) List.flatten
          (selected.map fun entry => entry.2.mapping column)) :=
      optionalColumn_eq _ _ (by simpa using hnil)
        (List.forall_mem_map.mpr fun entry he => (h entry he).2 column)
    rw [mergeMemory,joinMemory,if_neg hnil,if_neg hnil,hvalues]
    simp only [hmapping]
    refine congrArg (fun t => Except.ok (some t)) ?_
    rw [MemoryAccesses.mk.injEq]
    refine ⟨rfl,rfl,funext fun column => ?_,rfl⟩
    cases column <;> rfl

private theorem joinOptional_absorb (present : Bool) (concatenate : List α → α)
    (h : ∀ before group after, concatenate (before ++ concatenate group::after) =
      concatenate (before ++ (group ++ after))) (before group after : List (Option α)) :
    joinOptional present concatenate (before ++ joinOptional present concatenate group::after) =
      joinOptional present concatenate (before ++ (group ++ after)) := by
  unfold joinOptional
  cases present with
  | false => rfl
  | true => simp [h]

theorem joinMemory_absorb (shape : OptionalShape) (m : Batch)
    (before group after : List (Batch × MemoryAccesses)) :
    joinMemory shape (before ++ (entryOf m (joinMemory shape group) ++ after)) =
      joinMemory shape (before ++ (group ++ after)) := by
  by_cases hnil : group = []
  · subst hnil
    rfl
  · have hgroup : ∃ t, joinMemory shape group = some t := ⟨_,if_neg hnil⟩
    obtain ⟨t,ht⟩ := hgroup
    have htable := ht
    rw [joinMemory,if_neg hnil,Option.some_inj] at htable
    rw [ht]
    change joinMemory shape (before ++ (m,t)::after) = _
    rw [joinMemory,if_neg (by simp),joinMemory,if_neg (by simp [hnil]),Option.some_inj,
      MemoryAccesses.mk.injEq]
    refine ⟨funext fun column => ?_,?_,funext fun column => ?_,congrArg some ?_⟩
    · refine flatMap_absorb (fun entry => entry.2.columns column) ?_ before after
      rw [← htable]
    · simp only [List.map_append,List.map_cons]
      rw [← joinOptional_absorb shape.values padMatrices padMatrices_absorb,← htable]
    · simp only [List.map_append,List.map_cons]
      rw [← joinOptional_absorb (shape.mapping column) List.flatten (by simp),
        ← htable]
    · refine flatMap_absorb (fun entry =>
        rowSequences entry.1.firstSequence entry.2.rows entry.2.sequences) ?_ before after
      rw [← htable]
      rfl

def blockBatches (batches : List Batch) : List Batch := batches.filter fun b => b.addresses ≠ []

private theorem blockBatches_append (a b : List Batch) :
    blockBatches (a ++ b) = blockBatches a ++ blockBatches b :=
  List.filter_append ..

private theorem blockBatches_addresses (batches : List Batch) :
    (blockBatches batches).flatMap Batch.addresses = [] ↔ blockBatches batches = [] := by
  constructor
  · intro h
    by_contra hne
    obtain ⟨b,hb⟩ := List.exists_mem_of_ne_nil _ hne
    have hempty := List.flatMap_eq_nil_iff.mp h b hb
    simp [blockBatches,hempty] at hb
  · intro h
    rw [h]
    rfl

abbrev BatchGroup := Batch × List Batch

def BatchGroup.members (group : BatchGroup) : List Batch := group.1::group.2

def BatchGroup.merged (shape : OptionalShape) (group : BatchGroup) : Batch :=
  mergedBatch group.1 group.members (joinMemory shape (selectTable Batch.memory group.members))

section Groups

variable (shape : OptionalShape)

private theorem merged_addresses (group : BatchGroup) : (group.merged shape).addresses =
    (blockBatches group.members).flatMap Batch.addresses := by
  change (if blockBatches group.members = [] then group.1.addresses else _) = _
  split
  · rename_i hnil
    have hfirst : group.1 ∉ blockBatches group.members := by simp [hnil]
    rw [hnil]
    simpa [blockBatches,BatchGroup.members] using hfirst
  · rfl

private theorem merged_sequences {group : BatchGroup} (hne : blockBatches group.members ≠ []) :
    (group.merged shape).sequencesOfBlocks =
      (blockBatches group.members).flatMap Batch.sequencesOfBlocks := by
  have hsome : (group.merged shape).blockSequences =
      some ((blockBatches group.members).flatMap Batch.sequencesOfBlocks) := if_neg hne
  rw [Batch.sequencesOfBlocks,hsome]
  rfl

private theorem blockBatches_absorb {α : Type} {field : Batch → List α} (group : BatchGroup)
    (hfield : blockBatches group.members ≠ [] →
      field (group.merged shape) = (blockBatches group.members).flatMap field)
    (before after : List Batch) :
    (blockBatches (before ++ group.merged shape::after)).flatMap field =
      (blockBatches (before ++ (group.members ++ after))).flatMap field := by
  rw [← List.singleton_append]
  simp only [blockBatches_append,List.flatMap_append]
  congr 2
  by_cases hnil : blockBatches group.members = []
  · have hempty : (group.merged shape).addresses = [] := by
      rw [merged_addresses,hnil]
      rfl
    rw [hnil]
    simp [blockBatches,hempty]
  · have hrows : (group.merged shape).addresses ≠ [] := by
      rw [merged_addresses]
      exact fun h => hnil ((blockBatches_addresses _).mp h)
    rw [← hfield hnil]
    simp [blockBatches,hrows]

theorem absorbs_addresses : Absorbs (fun batches => (blockBatches batches).flatMap Batch.addresses)
    BatchGroup.members (BatchGroup.merged shape) := fun before group after =>
  blockBatches_absorb shape group (fun _ => merged_addresses shape group) before after

theorem absorbs_blockSequences : Absorbs (fun batches => if blockBatches batches = [] then none
      else some ((blockBatches batches).flatMap Batch.sequencesOfBlocks))
    BatchGroup.members (BatchGroup.merged shape) := by
  intro before group after
  have hsame := absorbs_addresses shape before group after
  have hnil : blockBatches (before ++ group.merged shape::after) = [] ↔
      blockBatches (before ++ (group.members ++ after)) = [] := by
    rw [← blockBatches_addresses,← blockBatches_addresses]
    exact Eq.congr_left hsame
  dsimp only
  rw [blockBatches_absorb shape group (merged_sequences shape) before after]
  simp only [hnil]

theorem absorbs_registers : Absorbs (fun batches => mergeRegisters (selectTable Batch.registers batches))
    BatchGroup.members (BatchGroup.merged shape) := by
  intro before group after
  simp only [selectTable_append,selectTable_cons]
  exact mergeRegisters_absorb _ _ _ _

theorem absorbs_context : Absorbs (fun batches => mergeContext (selectTable Batch.context batches))
    BatchGroup.members (BatchGroup.merged shape) := by
  intro before group after
  simp only [selectTable_append,selectTable_cons]
  exact mergeContext_absorb _ _ _ _

theorem absorbs_memory : Absorbs (fun batches => joinMemory shape (selectTable Batch.memory batches))
    BatchGroup.members (BatchGroup.merged shape) := by
  intro before group after
  simp only [selectTable_append,selectTable_cons]
  exact joinMemory_absorb _ _ _ _ _

private theorem merged_eq (group : BatchGroup) : group.merged shape =
    { group.1 with
      addresses := (group.merged shape).addresses
      blockSequences := if blockBatches group.members = [] then none
        else some ((blockBatches group.members).flatMap Batch.sequencesOfBlocks)
      registers := mergeRegisters (selectTable Batch.registers group.members)
      memory := joinMemory shape (selectTable Batch.memory group.members)
      context := mergeContext (selectTable Batch.context group.members) } := rfl

theorem merged_groups (group : BatchGroup) (groups : List BatchGroup) :
    BatchGroup.merged shape (group.merged shape,groups.map (BatchGroup.merged shape)) =
      BatchGroup.merged shape (group.1,group.2 ++ groups.flatMap BatchGroup.members) := by
  have hmerged : BatchGroup.members (group.merged shape,groups.map (BatchGroup.merged shape)) =
      (group::groups).map (BatchGroup.merged shape) := rfl
  have hmembers : BatchGroup.members (group.1,group.2 ++ groups.flatMap BatchGroup.members) =
      (group::groups).flatMap BatchGroup.members := rfl
  have haddresses := merged_addresses shape (group.merged shape,groups.map (BatchGroup.merged shape))
  have hwhole := merged_addresses shape (group.1,group.2 ++ groups.flatMap BatchGroup.members)
  rw [hmerged] at haddresses
  rw [hmembers] at hwhole
  have hblocks := haddresses.trans (((absorbs_addresses shape).map _).trans hwhole.symm)
  have hsequences := (absorbs_blockSequences shape).map (group::groups)
  have hregisters := (absorbs_registers shape).map (group::groups)
  have hcontext := (absorbs_context shape).map (group::groups)
  have hmemory := (absorbs_memory shape).map (group::groups)
  rw [← hmerged,← hmembers] at hsequences hregisters hcontext hmemory
  rw [merged_eq shape (_,_),hblocks,hsequences,hregisters,hcontext,hmemory]
  rfl

end Groups

/-- The memory tables of a list of batches have the same optional columns. -/
def ConsistentColumns (batches : List Batch) : Prop :=
  ∀ b ∈ batches, ∀ other ∈ batches, ∀ t ∈ b.memory, ∀ u ∈ other.memory,
    t.values.isSome = u.values.isSome ∧
    ∀ column, (t.mapping column).isSome = (u.mapping column).isSome

def Batch.Fits (shape : OptionalShape) (b : Batch) : Prop := ∀ t ∈ b.memory, t.Fits shape

private theorem shape_of_consistent {batches : List Batch} (h : ConsistentColumns batches) :
    ∃ shape, ∀ b ∈ batches, b.Fits shape := by
  by_cases hany : ∃ b ∈ batches, ∃ t, t ∈ b.memory
  · obtain ⟨b,hb,t,ht⟩ := hany
    refine ⟨⟨t.values.isSome,fun column => (t.mapping column).isSome⟩,fun other hother u hu => ?_⟩
    exact h other hother b hb u hu t ht
  · exact ⟨⟨false,fun _ => false⟩,fun b hb t ht => absurd ⟨b,hb,t,ht⟩ hany⟩

private theorem merged_fits (shape : OptionalShape) (group : BatchGroup) :
    (group.merged shape).Fits shape := by
  intro t ht
  change joinMemory shape _ = some t at ht
  unfold joinMemory at ht
  split at ht
  · cases ht
  · obtain rfl := Option.some_inj.mp ht
    have hsome {α β : Type} (present : Bool) (concatenate : List α → β) (values : List (Option α)) :
        (joinOptional present concatenate values).isSome = present := by
      cases present <;> rfl
    exact ⟨hsome _ _ _,fun column => hsome _ _ _⟩

private theorem mergeBatches_eq (group : BatchGroup)
    (hkey : ∀ b ∈ group.members, b.key = group.1.key) (hfits : ∀ b ∈ group.members, b.Fits shape) :
    mergeBatches group.1 group.2 = .ok (group.merged shape) := by
  have hany : (group.1::group.2).any (fun b => b.key ≠ group.1.key) = false := by
    rw [List.any_eq_false]
    intro b hb
    simpa using hkey b hb
  have hmemory : mergeMemory (selectTable Batch.memory (group.1::group.2)) =
      .ok (joinMemory shape (selectTable Batch.memory group.members)) := by
    apply mergeMemory_eq
    rintro ⟨b,t⟩ hentry
    obtain ⟨other,hother,hmap⟩ := List.mem_filterMap.mp hentry
    obtain ⟨u,hu,heq⟩ := Option.map_eq_some_iff.mp hmap
    cases heq
    exact hfits b hother t hu
  rw [mergeBatches,if_neg (by rw [hany]; decide),hmemory]
  rfl

private theorem mapM_ok {α β ε : Type} {f : α → Except ε β} {g : α → β} {items : List α}
    (h : ∀ item ∈ items, f item = .ok (g item)) : items.mapM f = .ok (items.map g) := by
  induction items with
  | nil => rfl
  | cons item items ih =>
    rw [List.mapM_cons,h item List.mem_cons_self,ih fun other ho => h other (List.mem_cons_of_mem _ ho)]
    rfl

/-- `merge_batches` of batches merged in any consecutive groups is `merge_batches` of the whole
list. -/
theorem mergeBatches_regroup (first : Batch) (rest : List Batch) (group : BatchGroup)
    (groups : List BatchGroup) (hcut : (group::groups).flatMap BatchGroup.members = first::rest)
    (hkey : ∀ b ∈ first::rest, b.key = first.key) (hcolumns : ConsistentColumns (first::rest)) :
    ∃ head tail merged,
      (group::groups).mapM (fun g => mergeBatches g.1 g.2) = .ok (head::tail) ∧
      mergeBatches head tail = .ok merged ∧ mergeBatches first rest = .ok merged ∧
      merged.firstSequence = first.firstSequence ∧
      (merged.registers.isSome = true ↔ ∃ b ∈ first::rest, b.registers.isSome = true) ∧
      ∀ t ∈ merged.registers,
        t.values.width =
          maxWidth ((selectTable Batch.registers (first::rest)).map fun entry => entry.2.values) ∧
        (selectTable Batch.registers (first::rest)).getLast?.map (fun last => last.2.names) =
          some t.names := by
  obtain ⟨shape,hfits⟩ := shape_of_consistent hcolumns
  have hsub : ∀ g ∈ group::groups, ∀ b ∈ g.members, b ∈ first::rest := fun g hg b hb =>
    hcut ▸ List.mem_flatMap.mpr ⟨g,hg,hb⟩
  have hgroup : ∀ g ∈ group::groups, mergeBatches g.1 g.2 = .ok (g.merged shape) := by
    intro g hg
    have hfirst : g.1.key = first.key := hkey _ (hsub g hg _ List.mem_cons_self)
    exact mergeBatches_eq g (fun b hb => (hkey b (hsub g hg b hb)).trans hfirst.symm)
      fun b hb => hfits b (hsub g hg b hb)
  obtain ⟨rfl,rfl⟩ : group.1 = first ∧ group.2 ++ groups.flatMap BatchGroup.members = rest :=
    List.cons.inj hcut
  have hmerged : ∀ b ∈ (group::groups).map (BatchGroup.merged shape),
      b.key = group.1.key ∧ b.Fits shape := by
    intro b hb
    obtain ⟨g,hg,rfl⟩ := List.mem_map.mp hb
    have hfirst : g.1.key = group.1.key := hkey _ (hsub g hg g.1 List.mem_cons_self)
    exact ⟨hfirst,merged_fits shape g⟩
  refine ⟨_,_,BatchGroup.merged shape (group.1,group.2 ++ groups.flatMap BatchGroup.members),mapM_ok hgroup,
    ?_,?_,rfl,?_,?_⟩
  · rw [← merged_groups]
    exact mergeBatches_eq (group.merged shape,groups.map (BatchGroup.merged shape))
      (fun b hb => (hmerged b hb).1) fun b hb => (hmerged b hb).2
  · exact mergeBatches_eq (group.1,group.2 ++ groups.flatMap BatchGroup.members) hkey hfits
  · change (mergeRegisters (selectTable _ _)).isSome = true ↔ _
    rw [mergeRegisters_eq,Option.isSome_map,Option.isSome_map,List.getLast?_isSome]
    exact selectTable_ne_nil _ _
  · intro t ht
    change mergeRegisters _ = some t at ht
    rw [mergeRegisters_eq] at ht
    obtain ⟨names,hnames,rfl⟩ := Option.map_eq_some_iff.mp ht
    exact ⟨rfl,hnames⟩

def registerBatch (first width : Nat) : Batch where
  source := some 0
  firstSequence := some first
  addresses := []
  registers := some
    { columns := fun _ => [7]
      values := ⟨width,[List.replicate width 1],by simp⟩
      names := some {} }

theorem mergeBatches_regroup_pair :
    ∃ head tail merged,
      [(registerBatch 0 1,[{ registerBatch 1 2 with addresses := [9] }]),
        (registerBatch 2 1,[])].mapM (fun g : BatchGroup => mergeBatches g.1 g.2) = .ok (head::tail) ∧
      mergeBatches head tail = .ok merged ∧
      mergeBatches (registerBatch 0 1)
        [{ registerBatch 1 2 with addresses := [9] },registerBatch 2 1] = .ok merged ∧
      merged.firstSequence = some 0 ∧ merged.registers.isSome = true := by
  have hcolumns : ConsistentColumns
      [registerBatch 0 1,{ registerBatch 1 2 with addresses := [9] },registerBatch 2 1] := by
    intro b hb other _ t ht
    simp only [List.mem_cons,List.not_mem_nil,or_false] at hb
    rcases hb with rfl | rfl | rfl <;> cases ht
  have hkey : ∀ b ∈ [registerBatch 0 1,{ registerBatch 1 2 with addresses := [9] },
      registerBatch 2 1], b.key = (registerBatch 0 1).key := by
    intro b hb
    simp only [List.mem_cons,List.not_mem_nil,or_false] at hb
    rcases hb with rfl | rfl | rfl <;> rfl
  obtain ⟨head,tail,merged,hgroups,htop,hwhole,hfirst,hregisters,_⟩ :=
    mergeBatches_regroup _ _
    (registerBatch 0 1,[{ registerBatch 1 2 with addresses := [9] }]) [(registerBatch 2 1,[])]
    rfl hkey hcolumns
  exact ⟨head,tail,merged,hgroups,htop,hwhole,hfirst,
    hregisters.mpr ⟨_,List.mem_cons_self,rfl⟩⟩

end Cpu2Tensor.Client
