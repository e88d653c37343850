import Cpu2Tensor.Library.History
import Cpu2Tensor.Stream.Sequence

/-!
# Signals of a source

The rows of each source in the order in which they are accepted, mixed frames cut into their runs.
Every check on a row is read as a statement about the rows before it.
-/

namespace Cpu2Tensor
open Library

/-- A memory row; the last four fields are those of system memory capture. -/
structure MemoryAccess where
  sequence : Nat
  virtualAddress : Nat
  width : Nat
  physical : Nat
  mapped : Nat
  mapping : Nat
  context : Nat
  deriving DecidableEq, Repr

inductive SignalRow
  | schema (id width : Nat) (name : Bytes)
  | context (sequence : Nat)
  | block (sequence : Nat)
  | sample (sequence id width : Nat) (baseline : Bool)
  | memory (access : MemoryAccess)
  | inputRequest
  | sourceEnd
  deriving DecidableEq, Repr

def SignalRow.isSchema : SignalRow → Bool
  | .schema .. => true
  | _ => false

def loadSchemaRow (item : Bytes) : SignalRow :=
  .schema (load item 4) (load (item.drop 4) 4) (cString (nameField (item.drop 8)))

def loadSchemaRows (bytes : Bytes) : Nat → Nat → List SignalRow
  | 0, _ => []
  | rows+1, row =>
    loadSchemaRow (bytes.drop (row*registerSchemaBytes)) :: loadSchemaRows bytes rows (row+1)

def loadSamples (bytes : Bytes) : Nat → Nat → Nat → List SignalRow
  | _, 0, _ => []
  | sequence, rows+1, offset =>
    let width := load (bytes.drop (offset+12)) 2
    .sample sequence (load (bytes.drop (offset+8)) 4) width
        (decide (load (bytes.drop (offset+14)) 2 &&& 256 ≠ 0)) ::
      loadSamples bytes (sequence+1) rows (offset+16+width)

def loadMemoryAccess (sequence : Nat) (item : Bytes) : MemoryAccess where
  sequence := sequence
  virtualAddress := load (item.drop 8) 8
  width := load (item.drop 16) 4
  physical := load (item.drop 24) 8
  mapped := load (item.drop 32) 4
  mapping := load (item.drop 36) 4
  context := load (item.drop 40) 8

def Frame.signals (features : UInt64) (frame : Frame) : List SignalRow :=
  let bytes := frame.payload.getD []
  let count := frame.header.count.toNat
  let sequence := frame.header.sequence.toNat
  match frame.header.kind with
  | .registerSchema => loadSchemaRows bytes count 0
  | .addressContext => [.context sequence]
  | .blocks => (List.range count).map fun row => .block (sequence+row)
  | .registers => loadSamples bytes sequence count 0
  | .memory => (List.range count).map fun row =>
    .memory (loadMemoryAccess (sequence+row) (bytes.drop (row*memoryStride features)))
  | .inputRequest => [.inputRequest]
  | .sourceEnd => [.sourceEnd]
  | _ => []

def runSignals (features : UInt64) (source : Nat) (runs : List Frame) : List SignalRow :=
  runs.flatMap fun run => if run.header.source.toNat = source then run.signals features else []

def signalRows (features : UInt64) (source : Nat) (frames : List Frame) : List SignalRow :=
  runSignals features source (frames.flatMap Frame.runs)

def SignalRow.contextSequence? : SignalRow → Option Nat
  | .context sequence => some sequence
  | _ => none

def lastContext (rows : List SignalRow) : Option Nat :=
  (rows.filterMap SignalRow.contextSequence?).getLast?

def Declared (id : Nat) (rows : List SignalRow) : Prop := ∃ width name, .schema id width name ∈ rows

def Sampled (id : Nat) (rows : List SignalRow) : Prop :=
  ∃ sequence width baseline, .sample sequence id width baseline ∈ rows

/-- Every declared register has had its baseline row. -/
def Described (rows : List SignalRow) : Prop :=
  ∀ id, Declared id rows → ∃ sequence width, .sample sequence id width true ∈ rows

def MemoryAccess.Mapped (access : MemoryAccess) : Prop :=
  access.mapping &&& 1 ≠ 0 → 0 < access.mapped ∧ access.mapped ≤ access.width ∧
    access.virtualAddress % 4096 + access.mapped ≤ 4096 ∧ access.physical + access.mapped ≤ 2^64

/-- What the checks on a row say about the rows of its source before it. -/
def SignalRow.Follows (features : UInt64) (before : List SignalRow) : SignalRow → Prop
  | .schema id _ name =>
    (∀ old ∈ before, old.isSchema = true) ∧
      ∀ id' width' name', .schema id' width' name' ∈ before → id' ≠ id ∧ name' ≠ name
  | .context _ => True
  | .block _ =>
    (Has features featureAddressContext → lastContext before ≠ none) ∧
      (Has features featureRegisters → ¬Has features featureContextFilter → Described before)
  | .sample _ id width baseline =>
    (Has features featureAddressContext → lastContext before ≠ none) ∧
      (∃ name, .schema id width name ∈ before) ∧ (baseline = true ↔ ¬Sampled id before)
  | .memory access =>
    (Has features featureSystemMemory → lastContext before = some access.context ∧
      access.context < access.sequence ∧ access.Mapped) ∧
      (Has features featureRegisters → ¬Has features featureContextFilter → Described before)
  | .inputRequest =>
    Has features featureRegisters → ¬Has features featureContextFilter → Described before
  | .sourceEnd =>
    Has features featureRegisters → ¬Has features featureContextFilter →
      (∃ old ∈ before, old.isSchema = false) → Described before

section Rows

variable {rows more : List SignalRow} {row : SignalRow}

theorem lastContext_append (hmore : ∀ row ∈ more, row.contextSequence? = none) :
    lastContext (rows ++ more) = lastContext rows := by
  have hnone : more.filterMap SignalRow.contextSequence? = [] := by
    simpa [List.filterMap_eq_nil_iff] using hmore
  rw [lastContext,List.filterMap_append,hnone,List.append_nil,lastContext]

theorem lastContext_context (rows : List SignalRow) (sequence : Nat) :
    lastContext (rows ++ [.context sequence]) = some sequence := by
  simp [lastContext,SignalRow.contextSequence?]

theorem sampled_append {id : Nat} : Sampled id (rows ++ more) ↔ Sampled id rows ∨ Sampled id more := by
  constructor
  · rintro ⟨sequence,width,baseline,hmem⟩
    exact (List.mem_append.mp hmem).imp (fun h => ⟨sequence,width,baseline,h⟩)
      fun h => ⟨sequence,width,baseline,h⟩
  · rintro (⟨sequence,width,baseline,hmem⟩ | ⟨sequence,width,baseline,hmem⟩)
    · exact ⟨sequence,width,baseline,List.mem_append_left _ hmem⟩
    · exact ⟨sequence,width,baseline,List.mem_append_right _ hmem⟩

theorem Described.append (h : Described rows) (hmore : ∀ row ∈ more, row.isSchema = false) :
    Described (rows ++ more) := by
  rintro id ⟨width,name,hmem⟩
  rcases List.mem_append.mp hmem with hmem | hmem
  · obtain ⟨sequence,width,hsample⟩ := h id ⟨width,name,hmem⟩
    exact ⟨sequence,width,List.mem_append_left _ hsample⟩
  · have := hmore _ hmem
    cases this

end Rows

structure Registers.Reads (state : Registers) (rows : List SignalRow) : Prop where
  declared : ∀ id width name, .schema id width name ∈ rows →
    id < maxRegisters ∧ state.widths id = width ∧ width ≠ 0 ∧ cString (state.names id) = name
  width : ∀ id, state.widths id ≠ 0 → ∃ name, .schema id (state.widths id) name ∈ rows
  sampled : ∀ id, state.sampled id = true ↔ Sampled id rows
  baseline : ∀ id, Sampled id rows → ∃ sequence width, .sample sequence id width true ∈ rows

theorem registers_fresh : ({} : Registers).Reads [] := by
  refine ⟨by simp,by simp,?_,?_⟩
  · simp [Sampled]
  · simp [Sampled]

variable {bytes : Bytes} {features : UInt64} {h : Header} {lane lane' : Lane}
  {rows : List SignalRow} {state state' : Registers}

theorem Registers.Reads.append {more : List SignalRow} (h : state.Reads rows)
    (hschema : ∀ row ∈ more, row.isSchema = false) (hsample : ∀ id, ¬Sampled id more) :
    state.Reads (rows ++ more) := by
  have hsampled (id : Nat) : Sampled id (rows ++ more) ↔ Sampled id rows := by
    rw [sampled_append,or_iff_left (hsample id)]
  refine ⟨?_,?_,?_,?_⟩
  · intro id width name hmem
    rcases List.mem_append.mp hmem with hmem | hmem
    · exact h.declared id width name hmem
    · have := hschema _ hmem
      cases this
  · intro id hid
    obtain ⟨name,hmem⟩ := h.width id hid
    exact ⟨name,List.mem_append_left _ hmem⟩
  · intro id
    rw [hsampled,h.sampled]
  · intro id hid
    obtain ⟨sequence,width,hmem⟩ := h.baseline id ((hsampled id).mp hid)
    exact ⟨sequence,width,List.mem_append_left _ hmem⟩

/-- A complete table is a described list of rows, and the other way round. -/
theorem Registers.Reads.complete_iff (h : state.Reads rows) : state.complete ↔ Described rows := by
  constructor
  · rintro hc id ⟨width,name,hmem⟩
    obtain ⟨hlt,rfl,hne,_⟩ := h.declared id width name hmem
    exact h.baseline id ((h.sampled id).mp (hc id hlt hne))
  · intro hd id _ hne
    obtain ⟨name,hmem⟩ := h.width id hne
    obtain ⟨sequence,width,hsample⟩ := hd id ⟨_,name,hmem⟩
    exact (h.sampled id).mpr ⟨sequence,width,true,hsample⟩

private theorem schemaRow_reads {item : Bytes} (h : state.Reads rows)
    (hschema : ∀ row ∈ rows, row.isSchema = true)
    (hhistory : History (SignalRow.Follows features) rows)
    (hr : schemaRow item state = .ok () state') :
    state'.Reads (rows ++ [loadSchemaRow item]) ∧
      History (SignalRow.Follows features) (rows ++ [loadSchemaRow item]) := by
  simp only [schemaRow,bind_eq_ok,exists_unit,get_eq_ok,refuse_eq_ok,set_eq_ok] at hr
  obtain ⟨_,_,⟨rfl,rfl⟩,_,⟨hid,rfl⟩,_,⟨_,rfl⟩,_,⟨_,rfl⟩,_,⟨_,rfl⟩,_,⟨hname,rfl⟩,rfl⟩ := hr
  rw [loadSchemaRow]
  generalize load item 4 = id at *
  generalize load (item.drop 4) 4 = width at *
  generalize nameField (item.drop 8) = name at *
  push Not at hid hname
  obtain ⟨hlt,hwidth,_,hfree⟩ := hid
  have hnew : ∀ id' width' name', SignalRow.schema id' width' name' ∈ rows →
      id' ≠ id ∧ name' ≠ cString name := by
    intro id' width' name' hmem
    obtain ⟨hlt',hw,hne,hn⟩ := h.declared id' width' name' hmem
    refine ⟨?_,?_⟩
    · rintro rfl
      exact hne (hw ▸ hfree)
    · rintro rfl
      exact hname id' hlt' (hw ▸ hne) hn
  have hsampled (id' : Nat) : Sampled id' (rows ++ [.schema id width (cString name)]) ↔
      Sampled id' rows := by simp [Sampled]
  refine ⟨⟨?_,?_,?_,?_⟩,history_snoc.mpr ⟨hhistory,hschema,hnew⟩⟩
  · intro id' width' name' hmem
    rcases List.mem_append.mp hmem with hmem | hmem
    · have hne := (hnew id' width' name' hmem).1
      simpa [Function.update,hne] using h.declared id' width' name' hmem
    · cases List.mem_singleton.mp hmem
      exact ⟨hlt,by simp,hwidth,by simp⟩
  · intro id' hne
    by_cases heq : id' = id
    · subst heq
      exact ⟨cString name,by simp⟩
    · simp only [Function.update_of_ne heq] at hne ⊢
      obtain ⟨name',hmem⟩ := h.width id' hne
      exact ⟨name',List.mem_append_left _ hmem⟩
  · intro id'
    rw [hsampled]
    exact h.sampled id'
  · intro id' hid'
    obtain ⟨sequence,width',hmem⟩ := h.baseline id' ((hsampled id').mp hid')
    exact ⟨sequence,width',List.mem_append_left _ hmem⟩

variable {count detail offset offset' : Nat} {past : List Frame} {s t : Stream}

private theorem schemaRows_reads {first : Nat} (h : state.Reads rows)
    (hschema : ∀ row ∈ rows, row.isSchema = true)
    (hhistory : History (SignalRow.Follows features) rows)
    (hr : schemaRows bytes count first state = .ok () state') :
    state'.Reads (rows ++ loadSchemaRows bytes count first) ∧
      History (SignalRow.Follows features) (rows ++ loadSchemaRows bytes count first) := by
  induction count generalizing first state rows with
  | zero =>
    obtain ⟨_,rfl⟩ := pure_eq_ok.mp hr
    simpa [loadSchemaRows] using And.intro h hhistory
  | succ count ih =>
    simp only [schemaRows,bind_eq_ok,exists_unit] at hr
    obtain ⟨middle,hrow,hrest⟩ := hr
    obtain ⟨hreads,hhistory⟩ := schemaRow_reads h hschema hhistory hrow
    have hall : ∀ row ∈ rows ++ [loadSchemaRow (bytes.drop (first*registerSchemaBytes))],
        row.isSchema = true := by
      intro row hrow
      rcases List.mem_append.mp hrow with hrow | hrow
      · exact hschema row hrow
      · rw [List.mem_singleton.mp hrow]
        rfl
    simpa [loadSchemaRows] using ih hreads hall hhistory hrest

private theorem registerRow_reads (sequence : Nat) (h : state.Reads rows)
    (hcontext : Has features featureAddressContext → lastContext rows ≠ none)
    (hhistory : History (SignalRow.Follows features) rows)
    (hr : registerRow detail offset bytes state = .ok offset' state') :
    offset' = offset+16+load (bytes.drop (offset+12)) 2 ∧
      state'.Reads (rows ++ loadSamples bytes sequence 1 offset) ∧
      History (SignalRow.Follows features) (rows ++ loadSamples bytes sequence 1 offset) := by
  simp only [registerRow,bind_eq_ok,exists_unit,get_eq_ok,refuse_eq_ok,set_eq_ok,pure_eq_ok] at hr
  obtain ⟨_,⟨_,rfl⟩,_,_,⟨rfl,rfl⟩,_,⟨hid,rfl⟩,_,⟨_,rfl⟩,_,⟨hbase,rfl⟩,_,rfl,rfl,rfl⟩ := hr
  refine ⟨rfl,?_⟩
  simp only [loadSamples]
  generalize load (bytes.drop (offset+8)) 4 = id at *
  generalize load (bytes.drop (offset+12)) 2 = width at *
  generalize hb : decide (load (bytes.drop (offset+14)) 2 &&& 256 ≠ 0) = baseline at *
  push Not at hid
  obtain ⟨_,hwidth,hdeclared,_⟩ := hid
  have hfirst : baseline = true ↔ ¬Sampled id rows := by
    rw [← h.sampled id]
    cases baseline <;> cases hs : state.sampled id <;> simp_all
  obtain ⟨name,hmem⟩ := h.width id (hdeclared ▸ hwidth)
  rw [← hdeclared] at hmem
  have hsampled (id' : Nat) : Sampled id' (rows ++ [.sample sequence id width baseline]) ↔
      Sampled id' rows ∨ id' = id := by
    rw [sampled_append]
    simp [Sampled]
  refine ⟨⟨?_,?_,?_,?_⟩,history_snoc.mpr ⟨hhistory,hcontext,⟨name,hmem⟩,hfirst⟩⟩
  · intro id' width' name' hmem'
    exact h.declared id' width' name' (by simpa using hmem')
  · intro id' hne
    obtain ⟨name',hmem'⟩ := h.width id' hne
    exact ⟨name',List.mem_append_left _ hmem'⟩
  · intro id'
    rw [hsampled,← h.sampled]
    by_cases heq : id' = id <;> simp [Function.update,heq]
  · intro id' hid'
    by_cases hold : Sampled id' rows
    · obtain ⟨sequence',width',hmem'⟩ := h.baseline id' hold
      exact ⟨sequence',width',List.mem_append_left _ hmem'⟩
    · obtain rfl := ((hsampled id').mp hid').resolve_left hold
      rw [hfirst.mpr hold]
      exact ⟨sequence,width,by simp⟩

private theorem loadSamples_no_context (bytes : Bytes) (sequence count offset : Nat) :
    ∀ row ∈ loadSamples bytes sequence count offset,
      row.contextSequence? = none ∧ row.isSchema = false := by
  induction count generalizing sequence offset with
  | zero => simp [loadSamples]
  | succ count ih =>
    rw [loadSamples,List.forall_mem_cons]
    exact ⟨⟨rfl,rfl⟩,ih _ _⟩

private theorem registerRows_reads (sequence : Nat) (h : state.Reads rows)
    (hcontext : Has features featureAddressContext → lastContext rows ≠ none)
    (hhistory : History (SignalRow.Follows features) rows)
    (hr : registerRows detail bytes count offset state = .ok offset' state') :
    state'.Reads (rows ++ loadSamples bytes sequence count offset) ∧
      History (SignalRow.Follows features) (rows ++ loadSamples bytes sequence count offset) := by
  induction count generalizing offset sequence state rows with
  | zero =>
    obtain ⟨_,rfl⟩ := pure_eq_ok.mp hr
    simpa [loadSamples] using And.intro h hhistory
  | succ count ih =>
    simp only [registerRows,bind_eq_ok] at hr
    obtain ⟨next,middle,hrow,hrest⟩ := hr
    obtain ⟨rfl,hreads,hhistory⟩ := registerRow_reads sequence h hcontext hhistory hrow
    have hkept : lastContext (rows ++ loadSamples bytes sequence 1 offset) = lastContext rows :=
      lastContext_append fun row hrow => (loadSamples_no_context bytes sequence 1 offset row hrow).1
    have hnext := ih (sequence+1) hreads (by rw [hkept]; exact hcontext) hhistory hrest
    simpa [loadSamples] using hnext

/-- What the baseline check of a frame leaves when it has to be made. -/
def Lane.Based (features : UInt64) (lane lane' : Lane) : Prop :=
  lane' = lane ∧ (Has features featureRegisters → ¬Has features featureContextFilter →
    lane.baselineComplete = true) ∨
  ∃ state, lane.registers = some state ∧ state.complete ∧
    lane' = { lane with baselineComplete := true }

private theorem baseline_based (hk : h.kind = .blocks ∨ h.kind = .memory ∨ h.kind = .inputRequest ∨
      (h.kind = .sourceEnd ∧ lane.data = true))
    (hr : Lane.baseline features h lane = .ok () lane') : lane.Based features lane' := by
  simp only [Lane.baseline,bind_eq_ok,get_eq_ok] at hr
  obtain ⟨_,_,⟨rfl,rfl⟩,hr⟩ := hr
  split at hr
  · cases hregisters : lane.registers with
    | none => simp [hregisters] at hr
    | some state =>
      simp only [hregisters,bind_eq_ok,exists_unit,refuse_eq_ok,set_eq_ok,not_not] at hr
      obtain ⟨_,⟨hcomplete,rfl⟩,rfl⟩ := hr
      exact .inr ⟨state,hregisters,hcomplete,by rw [hregisters]⟩
  · rename_i hneeds
    obtain ⟨_,rfl⟩ := pure_eq_ok.mp hr
    refine .inl ⟨rfl,fun hf hfilter => ?_⟩
    by_contra hc
    exact hneeds ⟨hf,⟨hfilter,hk⟩,by simpa using hc⟩

private theorem baseline_skipped
    (hk : ¬(h.kind = .blocks ∨ h.kind = .memory ∨ h.kind = .inputRequest ∨
      (h.kind = .sourceEnd ∧ lane.data = true)))
    (hr : Lane.baseline features h lane = .ok () lane') : lane' = lane := by
  simp only [Lane.baseline,bind_eq_ok,get_eq_ok] at hr
  obtain ⟨_,_,⟨rfl,rfl⟩,hr⟩ := hr
  rw [if_neg fun hneeds => hk hneeds.2.1.2] at hr
  exact (pure_eq_ok.mp hr).2.symm

/-- What the checks of an event of each kind establish and leave. -/
structure Lane.EventChecked (features : UInt64) (h : Header) (bytes : Bytes) (lane lane' : Lane) :
    Prop where
  sequence : h.sequence.toNat = lane.next
  context : h.kind = .addressContext →
    lane' = { lane with hasContext := true, contextSequence := h.sequence.toNat }
  block : h.kind = .blocks →
    (Has features featureAddressContext → lane.hasContext = true) ∧ lane.Based features lane'
  samples : h.kind = .registers →
    (Has features featureAddressContext → lane.hasContext = true) ∧
      ∃ state state', lane.registers = some state ∧
        registerRows h.detail.toNat bytes h.count.toNat 0 state = .ok h.detail.toNat state' ∧
        lane' = { lane with registers := some state' }
  memory : h.kind = .memory → lane.Based features lane' ∧ ∀ row < h.count.toNat,
    memoryRowFault features lane (bytes.drop (row*memoryStride features)) = none
  input : h.kind = .inputRequest → lane.Based features lane'
  ending : h.kind = .sourceEnd →
    (lane.data = true → lane.Based features lane') ∧ (lane.data = false → lane' = lane)

private theorem checkEvent_checked (hr : Lane.checkEvent features h bytes lane = .ok () lane') :
    lane.EventChecked features h bytes lane' := by
  simp only [Lane.checkEvent,bind_eq_ok,exists_unit,get_eq_ok,refuse_eq_ok,whenever_eq_ok] at hr
  obtain ⟨_,_,⟨rfl,rfl⟩,_,⟨hseq,rfl⟩,_,⟨_,rfl⟩,l₁,⟨hctx,hctx'⟩,_,_,⟨rfl,rfl⟩,_,⟨hneeds,rfl⟩,
    l₂,hbase,l₃,⟨hreg,hreg'⟩,hmem,hmem'⟩ := hr
  refine ⟨not_not.mp hseq,?_,?_,?_,?_,?_,?_⟩
  · intro hk
    obtain rfl := hreg' (by simp [hk])
    obtain rfl := hmem' (by simp [hk])
    obtain rfl := baseline_skipped (by simp [hk]) hbase
    have hcontext := hctx hk
    simp only [Lane.addressContext,bind_eq_ok,exists_unit,refuse_eq_ok,modify_eq_ok] at hcontext
    obtain ⟨_,⟨_,rfl⟩,_,⟨_,rfl⟩,rfl⟩ := hcontext
    rfl
  all_goals
    intro hk
    obtain rfl := hctx' (by simp [hk])
  · obtain rfl := hreg' (by simp [hk])
    obtain rfl := hmem' (by simp [hk])
    refine ⟨fun hf => ?_,baseline_based (by simp [hk]) hbase⟩
    by_contra hc
    exact hneeds ⟨hf,hk,by simpa using hc⟩
  · obtain rfl := hmem' (by simp [hk])
    obtain rfl := baseline_skipped (by simp [hk]) hbase
    obtain ⟨_,⟨hneeds,rfl⟩,hsamples⟩ := hreg hk
    refine ⟨fun hf => ?_,?_⟩
    · by_contra hc
      exact hneeds ⟨hf,by simpa using hc⟩
    · simp only [Lane.registerSamples,bind_eq_ok,get_eq_ok] at hsamples
      obtain ⟨_,_,⟨rfl,rfl⟩,hsamples⟩ := hsamples
      cases hregisters : l₂.registers with
      | none => simp [hregisters] at hsamples
      | some state =>
        simp only [hregisters,bind_eq_ok,exists_unit,refuse_eq_ok,onRegisters_eq_ok,
          not_not] at hsamples
        obtain ⟨_,⟨_,rfl⟩,offset,_,⟨state',hrows,rfl⟩,rfl,rfl⟩ := hsamples
        exact ⟨state,state',rfl,hrows,rfl⟩
  · obtain rfl := hreg' (by simp [hk])
    obtain ⟨_,_,hrows,rfl⟩ := memoryRows_eq_ok.mp (hmem hk)
    have hbased := baseline_based (by simp [hk]) hbase
    refine ⟨hbased,fun row hrow => ?_⟩
    rcases hbased with ⟨heq,_⟩ | ⟨_,_,_,heq⟩
    · rw [← heq]
      exact hrows row hrow
    · have hfault := hrows row hrow
      rw [heq] at hfault
      exact hfault
  · obtain rfl := hreg' (by simp [hk])
    obtain rfl := hmem' (by simp [hk])
    exact baseline_based (by simp [hk]) hbase
  · obtain rfl := hreg' (by simp [hk])
    obtain rfl := hmem' (by simp [hk])
    exact ⟨fun hd => baseline_based (by simp [hk,hd]) hbase,
      fun hd => baseline_skipped (by simp [hk,hd]) hbase⟩

/-- What a lane knows about the accepted rows of its source. -/
structure SignalLedger (features : UInt64) (rows : List SignalRow) (lane : Lane) : Prop where
  data : lane.data = true ↔ ∃ row ∈ rows, row.isSchema = false
  table : (lane.registers.getD {}).Reads rows
  complete : lane.baselineComplete = true → lane.data = true ∧ Described rows
  context : lastContext rows = if lane.hasContext then some lane.contextSequence else none
  before : lane.hasContext = true → lane.contextSequence < lane.next
  history : History (SignalRow.Follows features) rows

theorem signalLedger_fresh (features : UInt64) : SignalLedger features [] {} := by
  refine ⟨by simp,registers_fresh,by simp,rfl,by simp,history_nil⟩

section Ledger

variable {features : UInt64} {rows : List SignalRow} {lane lane' : Lane} {h : Header}

theorem SignalLedger.lastContext_ne_none (hl : SignalLedger features rows lane)
    (hcontext : lane.hasContext = true) : lastContext rows ≠ none := by
  rw [hl.context,hcontext]
  simp

/-- A lane whose baseline was found complete has only described rows. -/
theorem SignalLedger.described (hl : SignalLedger features rows lane)
    (hbased : lane.Based features lane') (hf : Has features featureRegisters)
    (hfilter : ¬Has features featureContextFilter) : Described rows := by
  rcases hbased with ⟨_,hcomplete⟩ | ⟨state,hregisters,hcomplete,_⟩
  · exact (hl.complete (hcomplete hf hfilter)).2
  · have htable := hl.table
    rw [hregisters] at htable
    exact htable.complete_iff.mp hcomplete

private theorem SignalLedger.event {more : List SignalRow} (hl : SignalLedger features rows lane)
    (hlane : lane' = lane ∨ lane.Based features lane') (hne : more ≠ [])
    (hplain : ∀ row ∈ more, row.isSchema = false ∧ row.contextSequence? = none ∧
      ∀ sequence id width baseline, row ≠ .sample sequence id width baseline)
    (hfollows : History (SignalRow.Follows features) (rows ++ more)) :
    SignalLedger features (rows ++ more) (lane'.commit h) := by
  have hschema := fun row hrow => (hplain row hrow).1
  have hsame : lane'.registers = lane.registers ∧ lane'.hasContext = lane.hasContext ∧
      lane'.contextSequence = lane.contextSequence ∧ lane'.next = lane.next := by
    rcases hlane with rfl | ⟨rfl,_⟩ | ⟨_,_,_,rfl⟩ <;> exact ⟨rfl,rfl,rfl,rfl⟩
  obtain ⟨hregisters,hhas,hsequence,hnext⟩ := hsame
  refine ⟨?_,?_,?_,?_,?_,hfollows⟩
  · obtain ⟨row,hrow⟩ := List.exists_mem_of_ne_nil more hne
    exact ⟨fun _ => ⟨row,List.mem_append_right _ hrow,hschema row hrow⟩,fun _ => rfl⟩
  · change (lane'.registers.getD {}).Reads _
    rw [hregisters]
    refine hl.table.append hschema ?_
    rintro id ⟨sequence,width,baseline,hmem⟩
    exact (hplain _ hmem).2.2 _ _ _ _ rfl
  · intro hcomplete
    refine ⟨rfl,Described.append ?_ hschema⟩
    rcases hlane with rfl | hbased
    · exact (hl.complete hcomplete).2
    rcases hbased with ⟨rfl,_⟩ | ⟨state,hstate,hc,_⟩
    · exact (hl.complete hcomplete).2
    · have htable := hl.table
      rw [hstate] at htable
      exact htable.complete_iff.mp hc
  · rw [lastContext_append fun row hrow => (hplain row hrow).2.1,hl.context]
    change _ = if lane'.hasContext = true then some lane'.contextSequence else none
    rw [hhas,hsequence]
  · intro hc
    change lane'.contextSequence < lane'.next + h.count.toNat
    have := hl.before (hhas ▸ hc)
    omega

private theorem memoryRow_mapped {item : Bytes} (sequence : Nat) (hs : Has features featureSystemMemory)
    (hr : memoryRowFault features lane item = none) :
    lane.hasContext = true ∧ (loadMemoryAccess sequence item).context = lane.contextSequence ∧
      (loadMemoryAccess sequence item).Mapped := by
  simp only [memoryRowFault,check_eq_none] at hr
  obtain ⟨_,hcontext,hmapping,_⟩ := hr
  simp only [hs,true_and,not_or,Bool.not_eq_false,not_not] at hcontext hmapping
  refine ⟨hcontext.1,hcontext.2,?_⟩
  intro hodd
  have hand : load (item.drop 8) 8 &&& 4095 = load (item.drop 8) 8 % 4096 :=
    Nat.and_two_pow_sub_one_eq_mod _ 12
  have hphysical := load_lt (item.drop 24) 8
  simp only [mappingFault,hand] at hmapping
  simp only [loadMemoryAccess] at hodd ⊢
  simp only [uint64Max] at hmapping
  omega

private theorem SignalLedger.range (hl : SignalLedger features rows lane)
    (hbased : lane.Based features lane') (hcount : h.count.toNat ≠ 0) (f : Nat → SignalRow)
    (hplain : ∀ i, (f i).isSchema = false ∧ (f i).contextSequence? = none ∧
      ∀ sequence id width baseline, f i ≠ .sample sequence id width baseline)
    (hfollows : ∀ i < h.count.toNat, ∀ before,
      (∀ old ∈ before, old.isSchema = false ∧ old.contextSequence? = none) →
        (f i).Follows features (rows ++ before)) :
    SignalLedger features (rows ++ (List.range h.count.toNat).map f) (lane'.commit h) := by
  have hall : ∀ row ∈ (List.range h.count.toNat).map f, ∃ i < h.count.toNat, f i = row := by
    intro row hrow
    obtain ⟨i,hi,heq⟩ := List.mem_map.mp hrow
    exact ⟨i,List.mem_range.mp hi,heq⟩
  refine hl.event (.inr hbased) (by simpa using hcount) ?_ (hl.history.append ?_)
  · intro row hrow
    obtain ⟨i,_,rfl⟩ := hall row hrow
    exact hplain i
  · intro before row after heq
    rw [heq] at hall
    obtain ⟨i,hi,rfl⟩ := hall row (List.mem_append_right _ List.mem_cons_self)
    refine hfollows i hi before fun old hold => ?_
    obtain ⟨j,_,rfl⟩ := hall old (List.mem_append_left _ hold)
    exact ⟨(hplain j).1,(hplain j).2.1⟩

variable {bytes : Bytes}

private theorem SignalLedger.memory (hl : SignalLedger features rows lane)
    (hcount : h.count.toNat ≠ 0) (hk : h.kind = .memory)
    (hc : lane.EventChecked features h bytes lane') :
    SignalLedger features (rows ++ (List.range h.count.toNat).map fun row =>
      .memory (loadMemoryAccess (h.sequence.toNat+row) (bytes.drop (row*memoryStride features))))
      (lane'.commit h) := by
  obtain ⟨hbased,hrows⟩ := hc.memory hk
  refine hl.range hbased hcount _ (fun i => ⟨rfl,rfl,by simp⟩) fun i hi before hbefore => ?_
  refine ⟨fun hs => ?_,fun hf hfilter =>
    (hl.described hbased hf hfilter).append fun old hold => (hbefore old hold).1⟩
  obtain ⟨hhas,hcontext,hmapped⟩ := memoryRow_mapped (h.sequence.toNat+i) hs (hrows i hi)
  have hnext := hl.before hhas
  have hsequence := hc.sequence
  rw [lastContext_append fun old hold => (hbefore old hold).2,hl.context,hcontext,hhas]
  refine ⟨rfl,?_,hmapped⟩
  change lane.contextSequence < h.sequence.toNat+i
  omega

private theorem SignalLedger.blocks (hl : SignalLedger features rows lane)
    (hcount : h.count.toNat ≠ 0) (hk : h.kind = .blocks)
    (hc : lane.EventChecked features h bytes lane') :
    SignalLedger features (rows ++ (List.range h.count.toNat).map fun row =>
      .block (h.sequence.toNat+row)) (lane'.commit h) := by
  obtain ⟨hcontext,hbased⟩ := hc.block hk
  refine hl.range hbased hcount _ (fun i => ⟨rfl,rfl,by simp⟩) fun i hi before hbefore => ?_
  refine ⟨fun hf => ?_,fun hf hfilter =>
    (hl.described hbased hf hfilter).append fun old hold => (hbefore old hold).1⟩
  rw [lastContext_append fun old hold => (hbefore old hold).2]
  exact hl.lastContext_ne_none (hcontext hf)

private theorem SignalLedger.samples (hl : SignalLedger features rows lane)
    (hcount : h.count.toNat ≠ 0) (hk : h.kind = .registers)
    (hc : lane.EventChecked features h bytes lane') :
    SignalLedger features (rows ++ loadSamples bytes h.sequence.toNat h.count.toNat 0)
      (lane'.commit h) := by
  obtain ⟨hcontext,state,state',hregisters,hrows,rfl⟩ := hc.samples hk
  have htable := hl.table
  rw [hregisters] at htable
  obtain ⟨hreads,hhistory⟩ := registerRows_reads h.sequence.toNat htable
    (fun hf => hl.lastContext_ne_none (hcontext hf)) hl.history hrows
  have hplain := loadSamples_no_context bytes h.sequence.toNat h.count.toNat 0
  refine ⟨?_,hreads,?_,?_,?_,hhistory⟩
  · refine ⟨fun _ => ?_,fun _ => rfl⟩
    obtain ⟨count,hsucc⟩ := Nat.exists_eq_succ_of_ne_zero hcount
    rw [hsucc,loadSamples]
    exact ⟨_,List.mem_append_right _ List.mem_cons_self,rfl⟩
  · intro hcomplete
    exact ⟨rfl,(hl.complete hcomplete).2.append fun row hrow => (hplain row hrow).2⟩
  · rw [lastContext_append fun row hrow => (hplain row hrow).1,hl.context]
    rfl
  · intro hhas
    have := hl.before hhas
    change lane.contextSequence < lane.next + h.count.toNat
    omega

private theorem SignalLedger.addressContext (hl : SignalLedger features rows lane)
    (hcount : h.count.toNat = 1) (hk : h.kind = .addressContext)
    (hc : lane.EventChecked features h bytes lane') :
    SignalLedger features (rows ++ [.context h.sequence.toNat]) (lane'.commit h) := by
  have hsequence := hc.sequence
  obtain rfl := hc.context hk
  refine ⟨?_,?_,?_,?_,?_,history_snoc.mpr ⟨hl.history,trivial⟩⟩
  · exact ⟨fun _ => ⟨_,List.mem_append_right _ List.mem_cons_self,rfl⟩,fun _ => rfl⟩
  · exact hl.table.append (by simp [SignalRow.isSchema]) (by simp [Sampled])
  · intro hcomplete
    exact ⟨rfl,(hl.complete hcomplete).2.append (by simp [SignalRow.isSchema])⟩
  · rw [lastContext_context]
    rfl
  · intro _
    change h.sequence.toNat < lane.next + h.count.toNat
    omega

private theorem SignalLedger.schema (hl : SignalLedger features rows lane)
    (hr : Lane.schema features h bytes lane = .ok () lane') :
    SignalLedger features (rows ++ loadSchemaRows bytes h.count.toNat 0)
      { lane' with seen := true } := by
  simp only [Lane.schema,bind_eq_ok,exists_unit,get_eq_ok,refuse_eq_ok,onRegisters_eq_ok] at hr
  obtain ⟨_,_,⟨rfl,rfl⟩,_,⟨hopen,rfl⟩,state,hrows,rfl⟩ := hr
  push Not at hopen
  obtain ⟨_,hdata⟩ := hopen
  have hall : ∀ row ∈ rows, row.isSchema = true := by
    intro row hrow
    by_contra hs
    exact hdata (hl.data.mpr ⟨row,hrow,by simpa using hs⟩)
  obtain ⟨hreads,hhistory⟩ := schemaRows_reads hl.table hall hl.history hrows
  have hnew : ∀ row ∈ loadSchemaRows bytes h.count.toNat 0,
      row.isSchema = true ∧ row.contextSequence? = none := by
    generalize 0 = first
    induction h.count.toNat generalizing first with
    | zero => simp [loadSchemaRows]
    | succ count ih =>
      rw [loadSchemaRows,List.forall_mem_cons]
      exact ⟨⟨rfl,rfl⟩,ih _⟩
  refine ⟨?_,hreads,?_,?_,hl.before,hhistory⟩
  · constructor
    · intro hd
      exact absurd hd hdata
    · rintro ⟨row,hrow,hs⟩
      rcases List.mem_append.mp hrow with hrow | hrow
      · rw [hall row hrow] at hs
        cases hs
      · rw [(hnew row hrow).1] at hs
        cases hs
  · intro hcomplete
    exact absurd (hl.complete hcomplete).1 hdata
  · rw [lastContext_append fun row hrow => (hnew row hrow).2,hl.context]

/-- The step lemma: a frame of a source adds its rows to the ledger. -/
theorem SignalLedger.step (hl : SignalLedger features rows lane) {bytes : Option Bytes}
    (hf : headerFault h = none) (hk : h.kind.isSource = true)
    (hr : Lane.checkFrame features h bytes lane = .ok () lane') :
    SignalLedger features (rows ++ Frame.signals features ⟨h,bytes⟩)
      (if h.kind = .registerSchema then lane' else lane'.commit h) := by
  simp only [headerFault,check_eq_none] at hf
  obtain ⟨_,_,hf⟩ := hf
  obtain ⟨_,⟨hschema,lane₁,hrows,rfl⟩ | ⟨hschema,hevent⟩⟩ := checkFrame_eq_ok.mp hr
  · rw [if_pos hschema]
    simp only [Frame.signals,hschema]
    exact hl.schema hrows
  · rw [if_neg hschema]
    have hc := checkEvent_checked hevent
    cases hkind : h.kind <;> simp only [hkind,Kind.isSource,Bool.false_eq_true,ne_eq,not_true] at hk hschema
    all_goals simp only [Frame.signals,hkind]
    all_goals simp only [fieldFault,hkind,check_eq_none] at hf
    case blocks => exact hl.blocks (by tauto) hkind hc
    case registers => exact hl.samples (by tauto) hkind hc
    case memory => exact hl.memory (by tauto) hkind hc
    case addressContext => exact hl.addressContext (by tauto) hkind hc
    case inputRequest =>
      have hbased := hc.input hkind
      refine hl.event (.inr hbased) (by simp) (by simp [SignalRow.isSchema,SignalRow.contextSequence?]) ?_
      exact history_snoc.mpr ⟨hl.history,hl.described hbased⟩
    case sourceEnd =>
      obtain ⟨hdata,hnone⟩ := hc.ending hkind
      refine hl.event ?_ (by simp) (by simp [SignalRow.isSchema,SignalRow.contextSequence?]) ?_
      · cases hd : lane.data with
        | true => exact .inr (hdata hd)
        | false => exact .inl (hnone hd)
      · refine history_snoc.mpr ⟨hl.history,fun hf hfilter hold => ?_⟩
        exact hl.described (hdata (hl.data.mpr hold)) hf hfilter

end Ledger

/-- The ledgers of all sources of an opened stream without observation reduction. -/
structure SignalsOf (features : UInt64) (past : List Frame) (s : Stream) : Prop where
  started : s.started = true
  features_eq : s.features = features
  lanes : ∀ source, SignalLedger features (runSignals features source past) (s.lanes source)

private theorem runSignals_snoc (features : UInt64) (source : Nat) (past : List Frame)
    (frame : Frame) :
    runSignals features source (past ++ [frame]) = runSignals features source past ++
      if frame.header.source.toNat = source then frame.signals features else [] := by
  simp [runSignals]

private theorem SignalsOf.step {frame : Frame} (hl : SignalsOf features past s)
    (hreduced : ¬Has features featureObservationReduction) (hm : frame.header.kind ≠ .mixed)
    (hr : acceptFrame frame s = .ok () t) : SignalsOf features (past ++ [frame]) t := by
  obtain ⟨hstarted,hfeatures,_⟩ := acceptFrame_features hl.started hr
  have heffect := acceptFrame_effect hm (by rw [hl.features_eq]; exact hreduced) hr
  refine ⟨hstarted,hfeatures.trans hl.features_eq,fun source => ?_⟩
  rw [runSignals_snoc]
  by_cases hb : frame.belongsTo source
  · obtain ⟨hk,rfl⟩ := hb
    obtain ⟨hf,_,lane,hcheck,rfl⟩ := acceptFrame_source hk hr
    rw [hl.features_eq] at hcheck
    rw [if_pos rfl]
    have hstep := (hl.lanes frame.header.source.toNat).step hf hk hcheck
    simpa [Stream.counted] using hstep
  · have hnone : (if frame.header.source.toNat = source then frame.signals features else []) =
        [] := by
      split
      · rename_i hsource
        have hk : frame.header.kind.isSource = false := by
          by_contra hk
          exact hb ⟨by simpa using hk,hsource⟩
        cases hkind : frame.header.kind <;> simp only [hkind,Kind.isSource,reduceCtorEq] at hk <;>
          simp only [Frame.signals,hkind]
      · rfl
    rw [hnone,List.append_nil,heffect.other source hb]
    exact hl.lanes source

private theorem SignalsOf.run {runs : List Frame} (hl : SignalsOf features past s)
    (hreduced : ¬Has features featureObservationReduction)
    (hmixed : ∀ run ∈ runs, run.header.kind ≠ .mixed) (hr : acceptAll runs s = .ok () t) :
    SignalsOf features (past ++ runs) t :=
  acceptAll_ledger (fun run hrun _ _ _ hl hr => hl.step hreduced (hmixed run hrun) hr) hl hr

/-- The run lemma: the rows of every source of an accepted trace, each checked against those
before it. -/
theorem signals_follow {frames : List Frame} {hello : Frame} (hmem : hello ∈ frames)
    (hk : hello.header.kind = .hello)
    (hreduced : ¬Has hello.header.detail featureObservationReduction) (hr : Accepts frames)
    (source : Nat) : History (SignalRow.Follows hello.header.detail)
      (signalRows hello.header.detail source frames) := by
  obtain ⟨t,hr⟩ := hr
  obtain ⟨rest,rfl,_,hrest,_⟩ := acceptAll_hello hr hmem hk
  have hopened : SignalsOf hello.header.detail [hello] (.helloed hello.header) := by
    rw [helloed_eq hk]
    refine ⟨rfl,rfl,fun source => ?_⟩
    have hnone : runSignals hello.header.detail source [hello] = [] := by
      simp [runSignals,Frame.signals,hk]
    rw [hnone]
    exact signalLedger_fresh _
  obtain ⟨hruns,hkinds⟩ := acceptAll_runs hrest
  have hself : hello.runs = [hello] := by simp [Frame.runs,hk]
  have hfinal := hopened.run hreduced (fun run hrun => (hkinds run hrun).1) hruns
  rw [signalRows,List.flatMap_cons,hself]
  exact (hfinal.lanes source).history

/-- The rows that wait for the baseline of their source, given the rows before. -/
def SignalRow.NeedsBaseline (before : List SignalRow) : SignalRow → Prop
  | .block _ | .memory _ | .inputRequest => True
  | .sourceEnd => ∃ old ∈ before, old.isSchema = false
  | _ => False

/-- The registers of every source of an accepted trace with register capture. -/
theorem registers_described (frames : List Frame) (hello : Frame) (hmem : hello ∈ frames)
    (hk : hello.header.kind = .hello) (hregisters : Has hello.header.detail featureRegisters)
    (hr : Accepts frames) (source : Nat) :
    let rows := signalRows hello.header.detail source frames
    (rows.Pairwise fun row later => ∀ id width name id' width' name',
      row = .schema id width name → later = .schema id' width' name' → id ≠ id' ∧ name ≠ name') ∧
    (rows.Pairwise fun row later => row.isSchema = false → later.isSchema = false) ∧
    (∀ before sequence id width baseline after,
      rows = before ++ .sample sequence id width baseline::after →
      (∃ name, .schema id width name ∈ before) ∧ (baseline = true ↔ ¬Sampled id before)) ∧
    (¬Has hello.header.detail featureContextFilter → ∀ before row after,
      rows = before ++ row::after → row.NeedsBaseline before →
      ∀ id, Declared id rows → ∃ sequence width, .sample sequence id width true ∈ before) := by
  intro rows
  have hreduced : ¬Has hello.header.detail featureObservationReduction := by
    intro hreduced
    obtain ⟨t,hr⟩ := hr
    obtain ⟨_,_,hf,_⟩ := acceptAll_hello hr hmem hk
    exact (reduced_of_helloFault (helloFault_of_headerFault hk hf) hreduced).2.2.2.1 hregisters
  have hfollows := signals_follow hmem hk hreduced hr source
  have horder : rows.Pairwise fun row later => row.isSchema = false → later.isSchema = false := by
    refine History.pairwise (hfollows.imp fun before row hrow old hold hevent => ?_)
    cases row with
    | schema id width name =>
      rw [hrow.1 old hold] at hevent
      cases hevent
    | _ => rfl
  refine ⟨?_,horder,?_,?_⟩
  · refine History.pairwise (hfollows.imp fun before row hrow old hold => ?_)
    rintro id width name id' width' name' rfl rfl
    exact hrow.2 id width name hold
  · intro before sequence id width baseline after heq
    exact (hfollows before _ after heq).2
  · intro hfilter before row after heq hneeds id hdeclared
    have hrow := hfollows before row after heq
    have hdescribed : row.isSchema = false ∧ Described before := by
      cases row with
      | block sequence => exact ⟨rfl,hrow.2 hregisters hfilter⟩
      | memory access => exact ⟨rfl,hrow.2 hregisters hfilter⟩
      | inputRequest => exact ⟨rfl,hrow hregisters hfilter⟩
      | sourceEnd => exact ⟨rfl,hrow hregisters hfilter hneeds⟩
      | schema => exact hneeds.elim
      | context => exact hneeds.elim
      | sample => exact hneeds.elim
    -- nothing is declared once the row itself has been accepted
    refine hdescribed.2 id ?_
    obtain ⟨width,name,hschema⟩ := hdeclared
    rw [heq] at hschema horder
    rcases List.mem_append.mp hschema with hschema | hschema
    · exact ⟨width,name,hschema⟩
    · obtain ⟨_,hafter,_⟩ := List.pairwise_append.mp horder
      rcases List.mem_cons.mp hschema with rfl | hschema
      · cases hdescribed.1
      · have := (List.pairwise_cons.mp hafter).1 _ hschema hdescribed.1
        cases this

/-- One register with its schema, its baseline row and a block behind it in a mixed frame. -/
def registerTrace : List Frame :=
  [⟨{ kind := .hello, detail := 0x40201 },none⟩,
    ⟨{ kind := .registerSchema, count := 1, detail := 72 },
      some (store 3 4 ++ store 2 4 ++ [114,51] ++ List.replicate 62 0)⟩,
    ⟨{ kind := .mixed, count := 2, detail := 42 },
      some (store Kind.registers.code 2 ++ store 1 2 ++ store 18 4 ++ (store 0x1000 8 ++ store 3 4 ++
          store 2 2 ++ store 257 2 ++ store 7 2) ++
        (store Kind.blocks.code 2 ++ store 1 2 ++ store 8 4 ++ store 0x1000 8))⟩,
    ⟨{ kind := .sourceEnd, sequence := 2 },none⟩,⟨{ kind := .complete },none⟩]

theorem registers_described_one :
    Accepts registerTrace ∧
      signalRows 0x40201 0 registerTrace =
        [.schema 3 2 [114,51],.sample 0 3 2 true,.block 1,.sourceEnd] ∧
      ∃ sequence width, .sample sequence 3 width true ∈
        [SignalRow.schema 3 2 [114,51],.sample 0 3 2 true] := by
  have hr : Accepts registerTrace := by decide +kernel
  have hrows : signalRows 0x40201 0 registerTrace =
      [.schema 3 2 [114,51],.sample 0 3 2 true,.block 1,.sourceEnd] := by decide +kernel
  have hmain := registers_described registerTrace ⟨{ kind := .hello, detail := 0x40201 },none⟩
    (by simp [registerTrace]) rfl (by decide) hr 0
  refine ⟨hr,hrows,hmain.2.2.2 (by decide) [.schema 3 2 [114,51],.sample 0 3 2 true] (.block 1)
    [.sourceEnd] hrows trivial 3 ?_⟩
  rw [hrows]
  exact ⟨2,[114,51],List.mem_cons_self⟩

private theorem systemMemory_of_helloFault {version : UInt16}
    (hf : helloFault version features = none) (hs : Has features featureSystemMemory) :
    Has features featureAddressContext ∧ Has features featureMemory := by
  simp only [helloFault,check_eq_none] at hf
  obtain ⟨_,_,_,hsystem,_⟩ := hf
  simpa [hs] using hsystem

/-- The memory rows of every source of an accepted trace with system memory context. -/
theorem memory_in_context (frames : List Frame) (hello : Frame) (hmem : hello ∈ frames)
    (hk : hello.header.kind = .hello) (hsystem : Has hello.header.detail featureSystemMemory)
    (hr : Accepts frames) (source : Nat) :
    let rows := signalRows hello.header.detail source frames
    (∀ before access after, rows = before ++ .memory access::after →
      lastContext before = some access.context ∧ access.context < access.sequence ∧
        access.Mapped) ∧
    ∀ before row after, rows = before ++ row::after →
      (∃ sequence, row = .block sequence) ∨
        (∃ sequence id width baseline, row = .sample sequence id width baseline) →
      lastContext before ≠ none := by
  intro rows
  obtain ⟨hcontext,hreduced⟩ : Has hello.header.detail featureAddressContext ∧
      ¬Has hello.header.detail featureObservationReduction := by
    obtain ⟨t,hr⟩ := hr
    obtain ⟨_,_,hf,_⟩ := acceptAll_hello hr hmem hk
    have hfault := helloFault_of_headerFault hk hf
    obtain ⟨hcontext,hmemory⟩ := systemMemory_of_helloFault hfault hsystem
    exact ⟨hcontext,fun hreduced => (reduced_of_helloFault hfault hreduced).2.2.1 hmemory⟩
  have hfollows := signals_follow hmem hk hreduced hr source
  refine ⟨fun before access after heq => (hfollows before _ after heq).1 hsystem,?_⟩
  intro before row after heq hkind
  have hrow := hfollows before row after heq
  rcases hkind with ⟨sequence,rfl⟩ | ⟨sequence,id,width,baseline,rfl⟩
  · exact hrow.1 hcontext
  · exact hrow.1 hcontext

/-- An address context and a mapped access behind it in one mixed frame. -/
def contextTrace : List Frame :=
  [⟨{ kind := .hello, detail := 0x59102 },none⟩,
    ⟨{ kind := .mixed, count := 2, detail := 128 },
      some (store Kind.addressContext.code 2 ++ store 1 2 ++ store 64 4 ++ (List.replicate 48 0 ++
          store 64 8 ++ store 63 8) ++
        (store Kind.memory.code 2 ++ store 1 2 ++ store 48 4 ++ (store 0x1000 8 ++ store 0x8ff8 8 ++
          store 8 4 ++ store 0 4 ++ store 0x5ff8 8 ++ store 8 4 ++ store 1 4 ++ store 0 8)))⟩,
    ⟨{ kind := .sourceEnd, sequence := 2 },none⟩,⟨{ kind := .complete },none⟩]

theorem memory_in_context_one :
    Accepts contextTrace ∧
      signalRows 0x59102 0 contextTrace = [.context 0,
        .memory ⟨1,0x8ff8,8,0x5ff8,8,1,0⟩,.sourceEnd] ∧
      lastContext [.context 0] = some 0 ∧ (⟨1,0x8ff8,8,0x5ff8,8,1,0⟩ : MemoryAccess).Mapped := by
  have hr : Accepts contextTrace := by decide +kernel
  have hrows : signalRows 0x59102 0 contextTrace = [.context 0,
      .memory ⟨1,0x8ff8,8,0x5ff8,8,1,0⟩,.sourceEnd] := by decide +kernel
  obtain ⟨hcontext,_,hmapped⟩ := (memory_in_context contextTrace
    ⟨{ kind := .hello, detail := 0x59102 },none⟩ (by simp [contextTrace]) rfl (by decide) hr 0).1
    [.context 0] ⟨1,0x8ff8,8,0x5ff8,8,1,0⟩ [.sourceEnd] hrows
  exact ⟨hr,hrows,hcontext,hmapped⟩

end Cpu2Tensor
