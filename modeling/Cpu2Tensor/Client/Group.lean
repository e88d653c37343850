import Cpu2Tensor.Client.Legacy

/-!
# Groups of context frames

The grouped decoder does to the validator what the decoder does frame by frame, and its columns for
a source are those of the frames of the source, one behind the other.
-/

namespace Cpu2Tensor.Client
open Library

/-- Mixed frames of blocks and address contexts only. -/
structure ContextOnly (features : UInt64) : Prop where
  mixed : Has features featureMixed
  context : Has features featureAddressContext
  memory : ¬ Has features featureMemory
  registers : ¬ Has features featureRegisters

def ContextCounts.plus (a b : ContextCounts) : ContextCounts := ⟨a.blocks+b.blocks,a.contexts+b.contexts⟩

namespace ContextColumns

def append (first second : ContextColumns) : ContextColumns where
  blocks := first.blocks ++ second.blocks
  blockSequences := first.blockSequences ++ second.blockSequences
  context := fun column => first.context column ++ second.context column
  contextSequences := first.contextSequences ++ second.contextSequences

theorem append_assoc (a b c : ContextColumns) : (a.append b).append c = a.append (b.append c) := by
  simp only [append,List.append_assoc]

theorem append_empty (columns : ContextColumns) : columns.append {} = columns := by
  simp only [append,List.append_nil]

theorem empty_append (columns : ContextColumns) : append {} columns = columns := by
  simp only [append,List.nil_append]

def join (parts : List ContextColumns) : ContextColumns := parts.foldr append {}

def counts (columns : ContextColumns) : ContextCounts :=
  ⟨columns.blocks.length,columns.contextSequences.length⟩

structure Shaped (columns : ContextColumns) : Prop where
  blocks : columns.blockSequences.length = columns.blocks.length
  contexts : ∀ column, (columns.context column).length = columns.contextSequences.length

def tables (columns : ContextColumns) : MixedColumns where
  blocks := if columns.blocks = [] then none else some (columns.blocks,columns.blockSequences)
  context :=
    if columns.contextSequences = [] then none
    else some { columns := columns.context, sequences := some columns.contextSequences }

end ContextColumns

/-- Runs that an accepted frame of a context-only stream may hold. -/
structure ContextRun (run : MixedRun) : Prop where
  valid : run.Valid
  kind : run.kind = .blocks ∨ run.kind = .addressContext
  contexts : run.kind = .addressContext → run.body.length = run.rows*contextBytes

variable {entry : Nat × MixedRun} {group : ContextGroup} {run : MixedRun}

theorem WholeRun.contextRun {features : UInt64} (hw : WholeRun features run) (hv : run.Valid)
    (hf : ContextOnly features) : ContextRun run := by
  have hdata := hv.data
  refine ⟨hv,?_,?_⟩
  · cases hk : run.kind <;> simp only [hk,Kind.isData,Bool.false_eq_true] at hdata
    case blocks => exact .inl rfl
    case addressContext => exact .inr rfl
    case registers => exact (hf.registers (hw.signals.1 hk)).elim
    case memory => exact (hf.memory (hw.signals.2 hk)).elim
  · intro hk
    rw [← hw.size,hk]
    exact rowsSize_const ..

theorem ContextRun.blocks_or (hrun : ContextRun run) (hk : run.kind ≠ .blocks) :
    run.kind = .addressContext :=
  hrun.kind.resolve_left hk

def entriesColumns (h : Header) (entries : List (Nat × MixedRun)) : ContextColumns where
  blocks := (selected .blocks entries).flatMap fun entry => decodeWords entry.2.rows entry.2.body
  blockSequences := tableSequences h .blocks entries
  context := fun column => (selected .context entries).flatMap fun entry =>
    (decodeContext entry.2.rows entry.2.body).columns column
  contextSequences := tableSequences h .context entries

theorem selected_cons_self (table : Table) (hk : entry.2.kind = table.kind)
    (entries : List (Nat × MixedRun)) :
    selected table (entry::entries) = entry::selected table entries := by
  rw [selected,List.filter_cons,if_pos (decide_eq_true hk)]
  rfl

theorem selected_cons_of_ne (table : Table) (hk : entry.2.kind ≠ table.kind)
    (entries : List (Nat × MixedRun)) :
    selected table (entry::entries) = selected table entries := by
  rw [selected,List.filter_cons,if_neg (by simpa using hk)]
  rfl

variable {bytes : Bytes} {frame : Frame} {frames : List Frame} {groups : List ContextGroup}
  {h : Header} {s t : Stream}

theorem entriesColumns_blocks (entry : Nat × MixedRun) (hk : entry.2.kind = .blocks)
    (columns : ContextColumns) (entries : List (Nat × MixedRun)) (rest : Bytes)
    (hsize : entry.2.body.length = entry.2.rows*8) :
    (columns.addBlocks (h.sequence.toNat+entry.1) entry.2.rows (entry.2.body ++ rest)).append
      (entriesColumns h entries) = columns.append (entriesColumns h (entry::entries)) := by
  have hrows : decodeWords entry.2.rows (entry.2.body ++ rest) =
      decodeWords entry.2.rows entry.2.body := by
    have hsplit := splitRows_append (framed_const 8) entry.2.rows 0 entry.2.body rest
      ((rowsSize_const ..).trans hsize.symm)
    rw [Nat.add_zero,splitRows,List.append_nil] at hsplit
    rw [decodeWords,decodeWords,hsplit]
  have hblocks := selected_cons_self .blocks hk entries
  have hne : entry.2.kind ≠ Table.context.kind := by simp [hk,Table.kind]
  have hcontext := selected_cons_of_ne .context hne entries
  simp only [ContextColumns.append,ContextColumns.addBlocks,entriesColumns,tableSequences,hblocks,
    hcontext,hrows,List.flatMap_cons,List.append_assoc,runSequences]

theorem entriesColumns_contexts (entry : Nat × MixedRun) (hk : entry.2.kind = .addressContext)
    (columns : ContextColumns) (entries : List (Nat × MixedRun)) (rest : Bytes)
    (hsize : entry.2.body.length = entry.2.rows*contextBytes) :
    (columns.addContexts (h.sequence.toNat+entry.1) entry.2.rows (entry.2.body ++ rest)).append
      (entriesColumns h entries) = columns.append (entriesColumns h (entry::entries)) := by
  have hrows : decodeContext entry.2.rows (entry.2.body ++ rest) =
      decodeContext entry.2.rows entry.2.body := by
    have hsplit := splitRows_append (framed_const contextBytes) entry.2.rows 0 entry.2.body rest
      ((rowsSize_const ..).trans hsize.symm)
    rw [Nat.add_zero,splitRows,List.append_nil] at hsplit
    rw [decodeContext,decodeContext,hsplit]
  have hne : entry.2.kind ≠ Table.blocks.kind := by simp [hk,Table.kind]
  have hblocks := selected_cons_of_ne .blocks hne entries
  have hcontext := selected_cons_self .context hk entries
  simp only [ContextColumns.append,ContextColumns.addContexts,entriesColumns,tableSequences,hblocks,
    hcontext,hrows,List.flatMap_cons,List.append_assoc,runSequences]

theorem fillRuns_encode (runs : List MixedRun) (fuel offset events : Nat)
    (columns : ContextColumns) (hlen : bytes.length = h.detail.toNat)
    (hbytes : bytes.drop offset = encodeRuns runs) (hv : ∀ run ∈ runs, ContextRun run)
    (hfuel : h.detail.toNat-offset < fuel) :
    fillRuns h bytes fuel offset events columns =
      columns.append (entriesColumns h (numbered events runs)) := by
  induction runs generalizing fuel offset events columns with
  | nil =>
    obtain ⟨fuel,rfl⟩ := Nat.exists_eq_succ_of_ne_zero (by omega : fuel ≠ 0)
    rw [fillRuns,if_neg (runs_end hlen hbytes)]
    exact (ContextColumns.append_empty columns).symm
  | cons run runs ih =>
    obtain ⟨fuel,rfl⟩ := Nat.exists_eq_succ_of_ne_zero (by omega : fuel ≠ 0)
    obtain ⟨hrun,hrest⟩ := List.forall_mem_cons.mp hv
    have hat := runAt hbytes hrun.valid
    have hfits := hat.fits
    rw [fillRuns,if_pos (by omega),hat.kind,Kind.ofCode_code,hat.rows,hat.body]
    dsimp only
    by_cases hk : run.kind = .blocks
    · have hsize := hrun.valid.blocks hk
      rw [if_pos (congrArg some hk),← hsize,ih _ _ _ _ hat.rest hrest (by omega),
        entriesColumns_blocks (events,run) hk _ _ _ hsize]
      rfl
    · have hcontext := hrun.blocks_or hk
      have hsize := hrun.contexts hcontext
      rw [if_neg (by simpa using hk),← hsize,ih _ _ _ _ hat.rest hrest (by omega),
        entriesColumns_contexts (events,run) hcontext _ _ _ hsize]
      rfl

theorem entriesColumns_counts_cons {h : Header} (entry : Nat × MixedRun) (hrun : ContextRun entry.2)
    (entries : List (Nat × MixedRun)) (counts : ContextCounts) :
    (counts.add entry.2.kind entry.2.rows).plus (entriesColumns h entries).counts =
      counts.plus (entriesColumns h (entry::entries)).counts := by
  by_cases hk : entry.2.kind = .blocks
  · have hblocks := selected_cons_self .blocks hk entries
    have hne : entry.2.kind ≠ Table.context.kind := by simp [hk,Table.kind]
    have hcontext := selected_cons_of_ne .context hne entries
    simp only [ContextCounts.add,ContextCounts.plus,hk,if_true,ContextColumns.counts,entriesColumns,
      tableSequences,hblocks,hcontext,List.flatMap_cons,List.length_append,decodeWords,
      List.length_map,splitRows_length,Nat.add_assoc]
  · have hcontext := selected_cons_self .context (hrun.blocks_or hk) entries
    have hne : entry.2.kind ≠ Table.blocks.kind := hk
    have hblocks := selected_cons_of_ne .blocks hne entries
    simp only [ContextCounts.add,ContextCounts.plus,hk,if_false,ContextColumns.counts,entriesColumns,
      tableSequences,hblocks,hcontext,List.flatMap_cons,List.length_append,runSequences,arange,
      List.length_map,List.length_range,Nat.add_assoc]

theorem countRuns_encode (runs : List MixedRun) (fuel offset events : Nat)
    (counts : ContextCounts) (hlen : bytes.length = h.detail.toNat)
    (hbytes : bytes.drop offset = encodeRuns runs) (hv : ∀ run ∈ runs, ContextRun run)
    (hrows : events+(runs.map MixedRun.rows).sum = h.count.toNat)
    (hfuel : h.detail.toNat-offset < fuel) :
    countRuns h bytes fuel offset events counts =
      .ok (counts.plus (entriesColumns h (numbered events runs)).counts) := by
  induction runs generalizing fuel offset events counts with
  | nil =>
    obtain ⟨fuel,rfl⟩ := Nat.exists_eq_succ_of_ne_zero (by omega : fuel ≠ 0)
    have hall : events = h.count.toNat := hrows
    rw [countRuns]
    dsimp only
    rw [if_neg (runs_end hlen hbytes),if_neg (not_not.mpr hall)]
    rfl
  | cons run runs ih =>
    obtain ⟨fuel,rfl⟩ := Nat.exists_eq_succ_of_ne_zero (by omega : fuel ≠ 0)
    obtain ⟨hrun,hrest⟩ := List.forall_mem_cons.mp hv
    have hat := runAt hbytes hrun.valid
    have hfits := hat.fits
    have hpositive := hrun.valid.rows
    rw [List.map_cons,List.sum_cons] at hrows
    have hsize : run.body.length = run.rows*(if run.kind = .blocks then 8 else contextBytes) := by
      split_ifs with hk
      · exact hrun.valid.blocks hk
      · exact hrun.contexts (hrun.blocks_or hk)
    have hgood : ¬((run.kind ≠ .blocks ∧ run.kind ≠ .addressContext) ∨ run.rows = 0 ∨
        run.rows > h.count.toNat-events ∨
        run.body.length ≠ run.rows*(if run.kind = .blocks then 8 else contextBytes) ∨
        run.body.length > h.detail.toNat-(offset+8)) := by
      have hkind := hrun.kind
      rintro (⟨hne,hne'⟩ | hzero | hmany | hother | hlong)
      · exact hkind.elim hne hne'
      · omega
      · omega
      · exact hother hsize
      · omega
    rw [countRuns]
    dsimp only
    rw [if_pos (by omega),if_neg (by omega),hat.kind,Kind.ofCode_code,hat.rows,hat.size]
    dsimp only
    rw [if_neg hgood,ih _ _ _ _ hat.rest hrest (by omega) (by omega),
      entriesColumns_counts_cons (events,run) hrun]
    rfl

section Tables

variable {features : UInt64} {h : Header} {runs : List MixedRun}
  (hv : ∀ run ∈ runs, ContextRun run)

include hv

theorem selected_eq_nil (table : Table) (hne : table.kind ≠ .blocks ∧ table.kind ≠ .addressContext) :
    selected table (numbered 0 runs) = [] := by
  apply List.filter_eq_nil_iff.mpr
  intro entry hentry
  have hkind := (hv _ (mem_numbered hentry)).kind
  simp only [decide_eq_true_eq]
  intro heq
  rw [heq] at hkind
  exact hkind.elim hne.1 hne.2

theorem tableSequences_eq_nil (table : Table) :
    tableSequences h table (numbered 0 runs) = [] ↔ selected table (numbered 0 runs) = [] := by
  constructor
  · intro hnil
    apply List.eq_nil_iff_forall_not_mem.mpr
    intro entry hentry
    have hrows := (hv _ (mem_numbered (List.mem_of_mem_filter hentry))).valid.rows
    have hlength := congrArg List.length (List.flatMap_eq_nil_iff.mp hnil entry hentry)
    simp only [runSequences,arange,List.length_map,List.length_range,List.length_nil] at hlength
    omega
  · intro hnil
    rw [tableSequences,hnil]
    rfl

omit hv in
theorem entriesColumns_shaped (h : Header) (entries : List (Nat × MixedRun)) :
    (entriesColumns h entries).Shaped := by
  constructor
  · simp only [entriesColumns,tableSequences,List.length_flatMap,decodeWords,runSequences,arange,
      List.length_map,splitRows_length,List.length_range]
  · intro column
    simp only [entriesColumns,tableSequences,List.length_flatMap,decodeContext,contextTable,
      runSequences,arange,List.length_map,splitRows_length,List.length_range]

omit hv in
theorem entriesColumns_items (features : UInt64) (h : Header) (entries : List (Nat × MixedRun)) :
    (tableItems features .blocks entries).map (fun item => cell item 0 8) =
        (entriesColumns h entries).blocks ∧
      ∀ column : ContextColumn, (tableItems features .context entries).map (fun item => column.read item) =
        (entriesColumns h entries).context column := by
  constructor
  · rw [tableItems_map]
    apply List.flatMap_congr
    intro entry hentry
    rw [runItems,selected_kind hentry]
    rfl
  · intro column
    rw [tableItems_map]
    apply List.flatMap_congr
    intro entry hentry
    rw [runItems,selected_kind hentry]
    rfl

theorem mixedColumns_context (hw : ∀ run ∈ runs, WholeRun features run) :
    mixedColumns (hasMemoryValues features) (hasSystemMemory features) (runTables h runs) =
      (entriesColumns h (numbered 0 runs)).tables := by
  have hvalid : ∀ run ∈ runs, run.Valid := fun run hrun => (hv run hrun).valid
  have hwords := splitRows_runTables hw h .blocks
  have hcontext := splitRows_runTables hw h .context
  simp only [Table.kind,rowBytes] at hwords hcontext
  have hsequences : ∀ table, (runTables h runs table).sequences =
      tableSequences h table (numbered 0 runs) := fun table => by rw [runTables_eq]
  have hregisters := selected_eq_nil hv .registers (by simp [Table.kind])
  have hmemory := selected_eq_nil hv .memory (by simp [Table.kind])
  unfold mixedColumns ContextColumns.tables
  have hblocks : (entriesColumns h (numbered 0 runs)).blocks = [] ↔
      selected .blocks (numbered 0 runs) = [] := by
    rw [← List.length_eq_zero_iff,← (entriesColumns_shaped h _).blocks,List.length_eq_zero_iff]
    exact tableSequences_eq_nil hv .blocks
  have hcontexts : (entriesColumns h (numbered 0 runs)).contextSequences = [] ↔
      selected .context (numbered 0 runs) = [] := tableSequences_eq_nil hv .context
  obtain ⟨hitems,hcolumns⟩ := entriesColumns_items features h (numbered 0 runs)
  simp only [present_runTables hvalid,hsequences,decodeWords,decodeContext,hwords,hcontext,
    contextTable,hitems,hcolumns,whenSelected,hregisters,hmemory,if_true,hblocks,hcontexts]
  rfl

end Tables

def contextDecoded (frame : Frame) : Decoded :=
  decodedFrame frame.header (.mixed (fillContextColumns frame {}).tables)

structure ContextFrame (frame : Frame) : Prop where
  shaped : (fillContextColumns frame {}).Shaped
  counted : countContextRows frame.header (frame.payload.getD []) =
    .ok (fillContextColumns frame {}).counts
  filled : ∀ columns, fillContextColumns frame columns =
    columns.append (fillContextColumns frame {})
  rows : frame.header.count.toNat = (fillContextColumns frame {}).counts.blocks +
    (fillContextColumns frame {}).counts.contexts

theorem entriesColumns_rows {runs : List MixedRun} (hv : ∀ run ∈ runs, ContextRun run)
    (events : Nat) : (entriesColumns h (numbered events runs)).counts.blocks +
      (entriesColumns h (numbered events runs)).counts.contexts = (runs.map MixedRun.rows).sum := by
  induction runs generalizing events with
  | nil => rfl
  | cons run runs ih =>
    obtain ⟨hrun,hrest⟩ := List.forall_mem_cons.mp hv
    have hcounts := entriesColumns_counts_cons (h := h) (events,run) hrun
      (numbered (events+run.rows) runs) {}
    have htail := ih hrest (events+run.rows)
    simp only [ContextCounts.add,ContextCounts.plus,ContextCounts.mk.injEq] at hcounts
    rw [numbered,List.map_cons,List.sum_cons]
    split_ifs at hcounts <;> dsimp only at hcounts htail ⊢ <;> omega

theorem acceptFrame_context (hf : ContextOnly s.features) (hk : frame.header.kind = .mixed)
    (hsized : SizedFrame frame) (hr : acceptFrame frame s = .ok () t) : ContextFrame frame ∧
      decodePayload t.features frame.header (frame.payload.getD []) =
        .ok (.mixed (fillContextColumns frame {}).tables) ∧ t.features = s.features := by
  obtain ⟨h,bytes⟩ := frame
  obtain ⟨payload,rfl,hlen⟩ := hsized
  dsimp only at hk hlen ⊢
  have hdetail : payloadSize h = h.detail.toNat := by rw [payloadSize,hk]
  obtain ⟨runs,hruns⟩ := acceptFrame_acceptedRuns hk hlen hr
  rw [hdetail] at hlen
  have hv : ∀ run ∈ runs, ContextRun run := fun run hrun =>
    (hruns.whole run hrun).contextRun (hruns.valid run hrun) hf
  have hfill : ∀ columns, fillContextColumns ⟨h,some payload⟩ columns =
      columns.append (entriesColumns h (numbered 0 runs)) := fun columns =>
    fillRuns_encode runs _ 0 0 columns hlen hruns.encode hv (by omega)
  have hself : fillContextColumns ⟨h,some payload⟩ {} = entriesColumns h (numbered 0 runs) :=
    (hfill {}).trans (ContextColumns.empty_append _)
  have hcounted : countContextRows h payload = .ok (entriesColumns h (numbered 0 runs)).counts := by
    have hcount := countRuns_encode runs (h.detail.toNat+1) 0 0 {} hlen hruns.encode hv
      ((Nat.zero_add _).trans hruns.rows) (by omega)
    simp only [ContextCounts.plus,Nat.zero_add] at hcount
    exact hcount
  refine ⟨⟨?_,?_,?_,?_⟩,?_,hruns.features⟩
  · rw [hself]
    exact entriesColumns_shaped h _
  · rw [hself]
    exact hcounted
  · intro columns
    rw [hself,hfill]
  · rw [hself,entriesColumns_rows hv]
    exact hruns.rows.symm
  · rw [hself,← mixedColumns_context hv hruns.whole]
    exact hruns.payload

theorem frameHeader_sized (hh : frameHeader bytes = .ok h) :
    SizedFrame ⟨h,some (bytes.drop headerBytes)⟩ := by
  refine ⟨_,rfl,?_⟩
  unfold frameHeader at hh
  split at hh
  · cases hh
  · split_ifs at hh with hlen
    obtain rfl := Except.ok.inj hh
    rw [List.length_drop,not_not.mp hlen]
    exact Nat.add_sub_cancel_left ..

theorem decode_eq (hh : frameHeader bytes = .ok h) (s : Stream) :
    decode bytes s = match acceptFrame ⟨h,some (bytes.drop headerBytes)⟩ s with
      | .error fault t => .error fault t
      | .ok _ t =>
        match decodePayload t.features h (bytes.drop headerBytes) with
        | .error fault => .error fault t
        | .ok payload => .ok (decodedFrame h payload) t := by
  unfold decode
  rw [hh]
  dsimp only
  change EStateM.bind _ _ s = _
  unfold EStateM.bind acceptFrame
  dsimp only
  cases accept h (some (bytes.drop headerBytes)) s with
  | error fault t => rfl
  | ok _ t =>
    dsimp only
    rw [get_bind]
    cases decodePayload t.features h (bytes.drop headerBytes) <;> rfl

/-- A frame with the kind of mixed frames, if its header is valid. -/
def MixedBytes (bytes : Bytes) : Prop := ∀ h, frameHeader bytes = .ok h → h.kind = .mixed

theorem groupHeaders_cons (hh : frameHeader bytes = .ok h) (hk : h.kind = .mixed)
    (frames : List Bytes) : groupHeaders (bytes::frames) =
      (⟨h,some (bytes.drop headerBytes)⟩::(groupHeaders frames).1,(groupHeaders frames).2) := by
  rw [groupHeaders,hh]
  dsimp only
  rw [if_neg (not_not.mpr hk)]

theorem acceptGroup_cons (hr : acceptFrame frame s = .ok () t) (frames : List Frame) :
    acceptGroup (frame::frames) s =
      ((acceptGroup frames t).1,frame::(acceptGroup frames t).2.1,(acceptGroup frames t).2.2) := by
  rw [acceptGroup,acceptThen,hr,outcome_ok]

theorem decodeEach_cons {decoded : Decoded} (hr : decode bytes s = .ok decoded t)
    (frames : List Bytes) : decodeEach (bytes::frames) s =
      ((decodeEach frames t).1,decoded::(decodeEach frames t).2.1,(decodeEach frames t).2.2) := by
  rw [decodeEach,hr]

theorem decodeEach_group {frames : List Bytes} (hf : ContextOnly s.features)
    (hmixed : ∀ bytes ∈ frames, MixedBytes bytes) :
    decodeEach frames s =
      ((acceptGroup (groupHeaders frames).1 s).1,
        (acceptGroup (groupHeaders frames).1 s).2.1.map contextDecoded,
        (acceptGroup (groupHeaders frames).1 s).2.2.or (groupHeaders frames).2) ∧
      ∀ frame ∈ (acceptGroup (groupHeaders frames).1 s).2.1, ContextFrame frame := by
  induction frames generalizing s with
  | nil => exact ⟨rfl,fun frame hframe => by cases hframe⟩
  | cons bytes frames ih =>
    obtain ⟨hfirst,hrest⟩ := List.forall_mem_cons.mp hmixed
    cases hh : frameHeader bytes with
    | error message =>
      have hdecode : decode bytes s = .error (.failure message) s := by
        unfold decode
        rw [hh]
        rfl
      rw [decodeEach,hdecode,groupHeaders,hh]
      exact ⟨rfl,fun frame hframe => by cases hframe⟩
    | ok h =>
      have hk := hfirst h hh
      rw [groupHeaders_cons hh hk]
      cases hr : acceptFrame ⟨h,some (bytes.drop headerBytes)⟩ s with
      | error fault t =>
        rw [decodeEach,decode_eq hh,acceptGroup,acceptThen,hr,outcome_error]
        exact ⟨rfl,fun frame hframe => by cases hframe⟩
      | ok _ t =>
        obtain ⟨hcontext,hpayload,hfeatures⟩ :=
          acceptFrame_context hf hk (frameHeader_sized hh) hr
        have hdecode : decode bytes s = .ok (contextDecoded ⟨h,some (bytes.drop headerBytes)⟩) t := by
          rw [Option.getD_some] at hpayload
          rw [decode_eq hh,hr]
          dsimp only
          rw [hpayload]
          rfl
        rw [← hfeatures] at hf
        obtain ⟨heach,hframes⟩ := ih hf hrest
        rw [decodeEach_cons hdecode,acceptGroup_cons hr,heach]
        exact ⟨rfl,List.forall_mem_cons.mpr ⟨hcontext,hframes⟩⟩

def ofSource (source : Nat) (frames : List Frame) : List Frame :=
  frames.filter fun frame => frame.header.source.toNat = source

def sourceColumns (source : Nat) (frames : List Frame) : ContextColumns :=
  .join ((ofSource source frames).map fun frame => fillContextColumns frame {})

/-- One group for each source, with its first sequence number and its rows. -/
structure Grouped (frames : List Frame) (groups : List ContextGroup) : Prop where
  nodup : (groups.map ContextGroup.source).Nodup
  sources : ∀ source, source ∈ groups.map ContextGroup.source ↔ ofSource source frames ≠ []
  first : ∀ group ∈ groups, (ofSource group.source frames).head?.map
    (fun frame => frame.header.sequence.toNat) = some group.firstSequence
  counts : ∀ group ∈ groups, group.counts = (sourceColumns group.source frames).counts

theorem addToGroup_sources (h : Header) (counts : ContextCounts) (groups : List ContextGroup) :
    (addToGroup h counts groups).map ContextGroup.source =
      if h.source.toNat ∈ groups.map ContextGroup.source then groups.map ContextGroup.source
      else groups.map ContextGroup.source ++ [h.source.toNat] := by
  induction groups with
  | nil => rfl
  | cons group groups ih =>
    rw [addToGroup]
    by_cases heq : group.source = h.source.toNat
    · simp [heq]
    · simp only [heq,if_false,List.map_cons,ih,List.mem_cons,Ne.symm heq,false_or]
      split_ifs <;> rfl

/-- A group after a frame: its rows are added to the group of its source, which is new if the
source has none. -/
theorem mem_addToGroup {counts : ContextCounts} (hnodup : (groups.map ContextGroup.source).Nodup)
    (hmem : group ∈ addToGroup h counts groups) :
    (group ∈ groups ∧ group.source ≠ h.source.toNat) ∨
    (∃ before ∈ groups, before.source = h.source.toNat ∧
      group = { before with counts := before.counts.plus counts }) ∨
    (h.source.toNat ∉ groups.map ContextGroup.source ∧
      group = ⟨h.source.toNat,h.sequence.toNat,counts⟩) := by
  induction groups with
  | nil =>
    rw [addToGroup,List.mem_singleton] at hmem
    exact .inr (.inr ⟨by simp,hmem⟩)
  | cons head groups ih =>
    obtain ⟨hhead,htail⟩ := List.nodup_cons.mp hnodup
    rw [addToGroup] at hmem
    by_cases heq : head.source = h.source.toNat
    · rw [if_pos heq] at hmem
      rcases List.mem_cons.mp hmem with rfl | hmem
      · exact .inr (.inl ⟨head,List.mem_cons_self,heq,rfl⟩)
      · refine .inl ⟨List.mem_cons_of_mem _ hmem,?_⟩
        intro hsource
        apply hhead
        rw [heq,← hsource]
        exact List.mem_map_of_mem hmem
    · rw [if_neg heq] at hmem
      rcases List.mem_cons.mp hmem with rfl | hmem
      · exact .inl ⟨List.mem_cons_self,heq⟩
      · rcases ih htail hmem with ⟨hold,hne⟩ | ⟨before,hbefore,hsource,rfl⟩ | ⟨hnew,rfl⟩
        · exact .inl ⟨List.mem_cons_of_mem _ hold,hne⟩
        · exact .inr (.inl ⟨before,List.mem_cons_of_mem _ hbefore,hsource,rfl⟩)
        · refine .inr (.inr ⟨?_,rfl⟩)
          rw [List.map_cons,List.mem_cons,not_or]
          exact ⟨Ne.symm heq,hnew⟩

theorem ofSource_snoc_self (frames : List Frame) (frame : Frame) :
    ofSource frame.header.source.toNat (frames ++ [frame]) =
      ofSource frame.header.source.toNat frames ++ [frame] := by
  simp [ofSource,List.filter_append]

theorem ofSource_snoc_of_ne {source : Nat} (hne : source ≠ frame.header.source.toNat)
    (frames : List Frame) : ofSource source (frames ++ [frame]) = ofSource source frames := by
  simp [ofSource,List.filter_append,Ne.symm hne]

theorem ContextColumns.join_snoc (parts : List ContextColumns) (part : ContextColumns) :
    join (parts ++ [part]) = (join parts).append part := by
  induction parts with
  | nil => exact (append_empty part).trans (empty_append part).symm
  | cons head parts ih =>
    change head.append (join (parts ++ [part])) = (head.append (join parts)).append part
    rw [ih,append_assoc]

theorem ContextColumns.counts_append (a b : ContextColumns) :
    (a.append b).counts = a.counts.plus b.counts := by
  simp only [counts,append,ContextCounts.plus,List.length_append]

theorem Grouped.add (hg : Grouped frames groups) (frame : Frame) : Grouped (frames ++ [frame])
      (addToGroup frame.header (fillContextColumns frame {}).counts groups) := by
  have hself := ofSource_snoc_self frames frame
  have hcolumns : sourceColumns frame.header.source.toNat (frames ++ [frame]) =
      (sourceColumns frame.header.source.toNat frames).append (fillContextColumns frame {}) := by
    rw [sourceColumns,hself,List.map_append,List.map_singleton,ContextColumns.join_snoc]
    rfl
  refine ⟨?_,?_,?_,?_⟩
  · rw [addToGroup_sources]
    split_ifs with hold
    · exact hg.nodup
    · exact List.nodup_append.mpr ⟨hg.nodup,List.nodup_singleton _,by
        intro a ha b hb hab
        rw [List.mem_singleton] at hb
        exact hold (hb ▸ hab ▸ ha)⟩
  · intro source
    have hsource := hg.sources source
    rw [addToGroup_sources]
    by_cases heq : source = frame.header.source.toNat
    · subst heq
      rw [hself]
      split_ifs with hold <;> simp [hold]
    · rw [ofSource_snoc_of_ne heq,← hsource]
      split_ifs <;> simp [heq]
  · intro group hgroup
    rcases mem_addToGroup hg.nodup hgroup with ⟨hold,hne⟩ | ⟨before,hbefore,hsource,rfl⟩ | ⟨hnew,rfl⟩
    · rw [ofSource_snoc_of_ne hne]
      exact hg.first group hold
    · have hfirst := hg.first before hbefore
      dsimp only
      rw [hsource,hself,List.head?_append]
      rw [hsource] at hfirst
      cases hhead : (ofSource frame.header.source.toNat frames).head? with
      | none =>
        rw [hhead] at hfirst
        cases hfirst
      | some other =>
        rw [hhead] at hfirst
        exact hfirst
    · have hnone : ofSource frame.header.source.toNat frames = [] :=
        not_not.mp fun hne => hnew ((hg.sources _).mpr hne)
      dsimp only
      rw [hself,hnone]
      rfl
  · intro group hgroup
    rcases mem_addToGroup hg.nodup hgroup with ⟨hold,hne⟩ | ⟨before,hbefore,hsource,rfl⟩ | ⟨hnew,rfl⟩
    · rw [sourceColumns,ofSource_snoc_of_ne hne]
      exact hg.counts group hold
    · dsimp only
      rw [hg.counts before hbefore,hsource,hcolumns,ContextColumns.counts_append]
    · have hnone : ofSource frame.header.source.toNat frames = [] :=
        not_not.mp fun hne => hnew ((hg.sources _).mpr hne)
      dsimp only
      rw [hcolumns,sourceColumns,hnone]
      exact congrArg ContextColumns.counts (ContextColumns.empty_append _).symm

theorem groupFrames_grouped {past : List Frame} (hg : Grouped past groups)
    (hframes : ∀ frame ∈ frames, ContextFrame frame) :
    ∃ after, groupFrames frames groups = (frames,after,none) ∧ Grouped (past ++ frames) after := by
  induction frames generalizing past groups with
  | nil => exact ⟨groups,rfl,by rwa [List.append_nil]⟩
  | cons frame frames ih =>
    obtain ⟨hfirst,hrest⟩ := List.forall_mem_cons.mp hframes
    obtain ⟨after,hgroups,hafter⟩ := ih (hg.add frame) hrest
    refine ⟨after,?_,?_⟩
    · rw [groupFrames,hfirst.counted]
      dsimp only
      rw [hgroups]
    · rwa [List.append_assoc] at hafter

theorem foldl_fill (frames : List Frame) (hframes : ∀ frame ∈ frames, ContextFrame frame)
    (columns : ContextColumns) :
    frames.foldl (fun columns frame => fillContextColumns frame columns) columns =
      columns.append (.join (frames.map fun frame => fillContextColumns frame {})) := by
  induction frames generalizing columns with
  | nil => exact columns.append_empty.symm
  | cons frame frames ih =>
    obtain ⟨hfirst,hrest⟩ := List.forall_mem_cons.mp hframes
    rw [List.foldl_cons,ih hrest,hfirst.filled,ContextColumns.append_assoc]
    rfl

theorem groupColumns_eq (hframes : ∀ frame ∈ frames, ContextFrame frame)
    (hcounts : group.counts = (sourceColumns group.source frames).counts) :
    groupColumns frames group = (sourceColumns group.source frames).tables := by
  have hfill := foldl_fill (ofSource group.source frames)
    (fun frame hframe => hframes frame (List.mem_of_mem_filter hframe)) {}
  rw [ContextColumns.empty_append] at hfill
  unfold groupColumns ContextColumns.tables
  dsimp only
  change { blocks := _, context := _ : MixedColumns } = _
  rw [show (frames.filter fun frame => frame.header.source.toNat = group.source) =
    ofSource group.source frames from rfl,hfill,hcounts]
  simp only [ContextColumns.counts,List.length_eq_zero_iff]
  rfl

def Decoded.columns (d : Decoded) : ContextColumns :=
  match d.payload with
  | .mixed columns =>
    { blocks := (columns.blocks.map Prod.fst).getD []
      blockSequences := (columns.blocks.map Prod.snd).getD []
      context := fun column => (columns.context.map fun table => table.columns column).getD []
      contextSequences := (columns.context.bind AddressContext.sequences).getD [] }
  | _ => {}

theorem columns_of_tables {d : Decoded} {columns : ContextColumns} (hs : columns.Shaped)
    (hd : d.payload = .mixed columns.tables) : d.columns = columns := by
  have hblocks : columns.blocks = [] → columns.blockSequences = [] := by
    intro hnil
    apply List.length_eq_zero_iff.mp
    rw [hs.blocks,hnil,List.length_nil]
  have hcontexts : columns.contextSequences = [] → columns.context = fun _ => [] := by
    intro hnil
    funext column
    apply List.length_eq_zero_iff.mp
    rw [hs.contexts,hnil,List.length_nil]
  obtain ⟨blocks,blockSequences,context,contextSequences⟩ := columns
  dsimp only at hblocks hcontexts
  rw [Decoded.columns,hd]
  by_cases hb : blocks = [] <;> by_cases hc : contextSequences = [] <;>
    simp [ContextColumns.tables,hb,hc,hblocks,hcontexts]

/-- What a group returns for frames: for each source, the columns of its frames one behind the
other, with the first sequence number and the number of rows. -/
structure GroupsOf (each outputs : List Decoded) : Prop where
  nodup : (outputs.map Decoded.source).Nodup
  sources : ∀ source, source ∈ outputs.map Decoded.source ↔ source ∈ each.map Decoded.source
  kind : ∀ output ∈ outputs, output.kind = .mixed
  columns : ∀ output ∈ outputs, output.payload = .mixed (ContextColumns.tables (.join
    ((each.filter fun decoded => decoded.source = output.source).map Decoded.columns)))
  first : ∀ output ∈ outputs, (each.filter fun decoded => decoded.source = output.source).head?.map
    Decoded.sequence = some output.sequence
  count : ∀ output ∈ outputs, output.count =
    ((each.filter fun decoded => decoded.source = output.source).map Decoded.count).sum

theorem join_counts (parts : List ContextColumns) : (ContextColumns.join parts).counts.blocks +
    (ContextColumns.join parts).counts.contexts =
      (parts.map fun part => part.counts.blocks+part.counts.contexts).sum := by
  induction parts with
  | nil => rfl
  | cons part parts ih =>
    change (part.append (.join parts)).counts.blocks + (part.append (.join parts)).counts.contexts = _
    rw [ContextColumns.counts_append,List.map_cons,List.sum_cons,← ih]
    simp only [ContextCounts.plus]
    omega

theorem groupsOf_grouped (hframes : ∀ frame ∈ frames, ContextFrame frame)
    (hg : Grouped frames groups) :
    GroupsOf (frames.map contextDecoded) (groups.map (groupDecoded frames)) := by
  have hsource (source : Nat) :
      (frames.map contextDecoded).filter (fun decoded => decoded.source = source) =
        (ofSource source frames).map contextDecoded := List.filter_map
  have hcolumns (source : Nat) : ((ofSource source frames).map contextDecoded).map Decoded.columns =
      (ofSource source frames).map fun frame => fillContextColumns frame {} := by
    rw [List.map_map]
    apply List.map_congr_left
    intro frame hframe
    exact columns_of_tables (hframes frame (List.mem_of_mem_filter hframe)).shaped rfl
  have hgroups : (groups.map (groupDecoded frames)).map Decoded.source =
      groups.map ContextGroup.source := by
    rw [List.map_map]
    rfl
  refine ⟨?_,?_,?_,?_,?_,?_⟩
  · rw [hgroups]
    exact hg.nodup
  · intro source
    rw [hgroups,hg.sources,ofSource,ne_eq,List.filter_eq_nil_iff,List.map_map,List.mem_map]
    simp [contextDecoded,decodedFrame]
  · intro output houtput
    obtain ⟨group,_,rfl⟩ := List.mem_map.mp houtput
    rfl
  · intro output houtput
    obtain ⟨group,hgroup,rfl⟩ := List.mem_map.mp houtput
    rw [hsource,hcolumns]
    exact congrArg Payload.mixed (groupColumns_eq hframes (hg.counts group hgroup))
  · intro output houtput
    obtain ⟨group,hgroup,rfl⟩ := List.mem_map.mp houtput
    rw [hsource,List.head?_map,Option.map_map]
    exact hg.first group hgroup
  · intro output houtput
    obtain ⟨group,hgroup,rfl⟩ := List.mem_map.mp houtput
    rw [hsource,List.map_map]
    change group.counts.blocks+group.counts.contexts = _
    rw [hg.counts group hgroup,sourceColumns,join_counts,List.map_map]
    congr 1
    apply List.map_congr_left
    intro frame hframe
    exact (hframes frame (List.mem_of_mem_filter hframe)).rows.symm

/-- The grouped decoder on any state of a context-only stream. -/
theorem decodeContextFrames_grouped {frames : List Bytes} (hf : ContextOnly s.features)
    (hlen : 1 ≤ frames.length ∧ frames.length ≤ maxContextGroupFrames)
    (hmixed : ∀ bytes ∈ frames, MixedBytes bytes) :
    ∃ outputs, decodeContextFrames frames s =
        ((decodeEach frames s).1,.ok ⟨outputs,(decodeEach frames s).2.2⟩) ∧
      GroupsOf (decodeEach frames s).2.1 outputs := by
  obtain ⟨heach,hframes⟩ := decodeEach_group hf hmixed
  have hempty : Grouped [] [] := ⟨.nil,by simp [ofSource],by simp,by simp⟩
  obtain ⟨groups,hgroups,hg⟩ := groupFrames_grouped hempty hframes
  rw [List.nil_append] at hg
  refine ⟨groups.map (groupDecoded (acceptGroup (groupHeaders frames).1 s).2.1),?_,?_⟩
  · unfold decodeContextFrames
    rw [if_neg (by omega)]
    dsimp only
    rw [hgroups,heach,Option.none_or]
  · rw [heach]
    exact groupsOf_grouped hframes hg

/-- In every state that accepted frames with a context-only Hello lead to, the grouped decoder
agrees with the decoder of single frames. -/
theorem contextGroup_agrees (past : List Frame) (hello : Frame) (s : Stream) (frames : List Bytes)
    (hr : acceptAll past {} = .ok () s) (hhello : hello ∈ past) (hk : hello.header.kind = .hello)
    (hf : ContextOnly hello.header.detail)
    (hlen : 1 ≤ frames.length ∧ frames.length ≤ maxContextGroupFrames)
    (hmixed : ∀ bytes ∈ frames, MixedBytes bytes) :
    (∃ outputs, decodeContextFrames frames s =
        ((decodeEach frames s).1,.ok ⟨outputs,(decodeEach frames s).2.2⟩) ∧
      GroupsOf (decodeEach frames s).2.1 outputs) ∧
    ∀ frame t, frame.header.kind = .mixed → SizedFrame frame → acceptFrame frame s = .ok () t →
      ∃ counts, countContextRows frame.header (frame.payload.getD []) = .ok counts := by
  obtain ⟨rest,rfl,_,hrest,_⟩ := acceptAll_hello hr hhello hk
  rw [helloed_eq hk] at hrest
  obtain ⟨_,hfeatures⟩ := acceptAll_features rfl hrest
  dsimp only at hfeatures
  rw [← hfeatures] at hf
  refine ⟨decodeContextFrames_grouped hf hlen hmixed,?_⟩
  intro frame t hkind hsized haccepted
  exact ⟨_,(acceptFrame_context hf hkind hsized haccepted).1.counted⟩

/-- A context and a block of a source in one mixed frame. -/
def contextPair (source : UInt32) : Frame :=
  ⟨{ kind := .mixed, source, count := 2, detail := 88 },
    some (store Kind.addressContext.code 2 ++ store 1 2 ++ store 64 4 ++ store 0x1000 8 ++
      store 1 8 ++ store 0x2000 8 ++ store 0 8 ++ store 0 8 ++ store 0 8 ++ store 64 8 ++
      store 63 8 ++ (store Kind.blocks.code 2 ++ store 1 2 ++ store 8 4 ++ store 0x1000 8))⟩

def contextHello : Frame := ⟨{ kind := .hello, detail := 0x51002 },none⟩

theorem contextGroup_agrees_pairs : Accepts [contextHello] ∧
    Accepts [contextHello,contextPair 0,contextPair 1] ∧
    ∃ s outputs, acceptAll [contextHello] {} = .ok () s ∧
      GroupsOf (decodeEach [encodeFrame (contextPair 0),encodeFrame (contextPair 1),[0]] s).2.1
        outputs := by
  have hr : Accepts [contextHello] := by decide +kernel
  refine ⟨hr,by decide +kernel,?_⟩
  obtain ⟨s,hr⟩ := hr
  have hpair (source : UInt32) (hf : headerFault (contextPair source).header = none) :
      MixedBytes (encodeFrame (contextPair source)) := by
    intro h hh
    rw [frameHeader_encodeFrame ⟨_,rfl,rfl⟩ hf] at hh
    obtain rfl := Except.ok.inj hh
    rfl
  have hshort : MixedBytes [0] := fun h hh => nomatch hh
  have hmixed : ∀ bytes ∈ [encodeFrame (contextPair 0),encodeFrame (contextPair 1),[0]],
      MixedBytes bytes := by
    intro bytes hbytes
    simp only [List.mem_cons,List.not_mem_nil,or_false] at hbytes
    rcases hbytes with rfl | rfl | rfl
    · exact hpair 0 (by decide)
    · exact hpair 1 (by decide)
    · exact hshort
  obtain ⟨⟨outputs,_,houtputs⟩,_⟩ := contextGroup_agrees [contextHello] contextHello s _ hr
    List.mem_cons_self rfl ⟨by decide,by decide,by decide,by decide⟩ (by decide) hmixed
  exact ⟨s,outputs,hr,houtputs⟩

end Cpu2Tensor.Client
