import Cpu2Tensor.Library.History
import Cpu2Tensor.Plugin.Callbacks

/-!
# Delta rows

Register and context rows carry a value only when it differs from the last one.  A reader that
replays them has, at every checkpoint, the values the plugin has read there.
-/

namespace Cpu2Tensor.Plugin
open Library

abbrev Row := Kind × Bytes

def appended : Sigma Answer → List Row
  | ⟨.append kind row,.ok _⟩ => [(kind,row)]
  | _ => []

def rowsOf (trail : Trail) : List Row := trail.flatMap appended

def rowId (row : Bytes) : Nat := load (row.drop 8) 4

def rowValue (row : Bytes) : Bytes := (row.drop 16).take (load (row.drop 12) 2)

def rowBaseline (row : Bytes) : Prop := load (row.drop 14) 2 ≥ initialRegister

def replayRegister (values : Nat → Option Bytes) : Row → Nat → Option Bytes
  | (.registers,row) => Function.update values (rowId row) (some (rowValue row))
  | _ => values

def registerReplay (rows : List Row) : Nat → Option Bytes := rows.foldl replayRegister fun _ => none

def rowContext (row : Bytes) : List UInt64 :=
  (List.range 6).map fun field => UInt64.ofNat (load (row.drop (8+8*field)) 8)

def replayContext (current : Option (List UInt64)) : Row → Option (List UInt64)
  | (.addressContext,row) => some (rowContext row)
  | _ => current

def contextReplay (rows : List Row) : Option (List UInt64) := rows.foldl replayContext none

/-- A delta row is new: the first of its value, which only a baseline is, or a change. -/
def NewRow (before : List Row) : Row → Prop
  | (.registers,row) =>
    registerReplay before (rowId row) ≠ some (rowValue row) ∧
      (rowBaseline row ↔ registerReplay before (rowId row) = none)
  | (.addressContext,row) => contextReplay before ≠ some (rowContext row)
  | _ => True

theorem registerReplay_snoc (rows : List Row) (row : Row) :
    registerReplay (rows ++ [row]) = replayRegister (registerReplay rows) row := by
  rw [registerReplay,List.foldl_append]
  rfl

theorem contextReplay_snoc (rows : List Row) (row : Row) :
    contextReplay (rows ++ [row]) = replayContext (contextReplay rows) row := by
  rw [contextReplay,List.foldl_append]
  rfl

variable {id : Nat} {values : List UInt64}

theorem registerReplay_append {rows : List Row} (more : List Row)
    (h : registerReplay rows id ≠ none) : registerReplay (rows ++ more) id ≠ none := by
  induction more using List.reverseRecOn with
  | nil =>
    rw [List.append_nil]
    exact h
  | append_singleton more row ih =>
    rw [← List.append_assoc,registerReplay_snoc]
    obtain ⟨kind,bytes⟩ := row
    cases kind <;> try exact ih
    change Function.update (registerReplay (rows ++ more)) _ _ id ≠ none
    by_cases hid : id = rowId bytes
    · rw [hid,Function.update_self]
      exact Option.some_ne_none _
    · rw [Function.update_of_ne hid]
      exact ih

theorem registerRow_fields (pc : UInt64) (reg : Register) (checkpoint : Checkpoint)
    {value : Bytes} (hid : id < 2^32) (hvalue : value.length = reg.width) :
    rowId (registerRow pc id reg checkpoint value) = id ∧
      rowValue (registerRow pc id reg checkpoint value) = value ∧
      (rowBaseline (registerRow pc id reg checkpoint value) ↔ reg.sampled = false) := by
  have hwidth := reg.bounded
  unfold maxRegisterBytes at hwidth
  have hcode : checkpoint.code ≤ 3 := by cases checkpoint <;> decide
  have hflags : (checkpoint.code + if reg.sampled then 0 else initialRegister) < 256^2 := by
    unfold initialRegister
    split <;> omega
  have h8 : (registerRow pc id reg checkpoint value).drop 8 = store id 4 ++ (store reg.width 2 ++
      (store (checkpoint.code + if reg.sampled then 0 else initialRegister) 2 ++ value)) := by
    simp only [registerRow,List.append_assoc]
    exact drop_append_eq _ _ (store_length _ _).symm
  have h12 : (registerRow pc id reg checkpoint value).drop 12 = store reg.width 2 ++
      (store (checkpoint.code + if reg.sampled then 0 else initialRegister) 2 ++ value) := by
    rw [show 12 = 8+4 from rfl,← List.drop_drop,h8]
    exact drop_append_eq _ _ (store_length _ _).symm
  have h14 : (registerRow pc id reg checkpoint value).drop 14 =
      store (checkpoint.code + if reg.sampled then 0 else initialRegister) 2 ++ value := by
    rw [show 14 = 12+2 from rfl,← List.drop_drop,h12]
    exact drop_append_eq _ _ (store_length _ _).symm
  have h16 : (registerRow pc id reg checkpoint value).drop 16 = value := by
    rw [show 16 = 14+2 from rfl,← List.drop_drop,h14]
    exact drop_append_eq _ _ (store_length _ _).symm
  refine ⟨?_,?_,?_⟩
  · rw [rowId,h8]
    exact load_store_of_lt hid _
  · rw [rowValue,h12,h16,load_store_of_lt (by omega),← hvalue,List.take_length]
  · rw [rowBaseline,h14,load_store_of_lt hflags]
    unfold initialRegister
    cases reg.sampled
    · simp
    · simp only [if_true,Nat.add_zero,Bool.true_eq_false,iff_false]
      omega

theorem load_words (rest : Bytes) {field : Nat} {value : UInt64} (h : values[field]? = some value) :
    load ((words values ++ rest).drop (8*field)) 8 = value.toNat := by
  induction values generalizing field with
  | nil => simp at h
  | cons first values ih =>
    have hsplit : words (first::values) ++ rest = store first.toNat 8 ++ (words values ++ rest) := by
      rw [words,List.flatMap_cons,List.append_assoc]
      rfl
    rw [hsplit]
    cases field with
    | zero =>
      obtain rfl := Option.some.inj h
      exact load_store_of_lt first.toNat_lt _
    | succ field =>
      rw [show 8*(field+1) = 8+8*field by omega,← List.drop_drop,
        drop_append_eq _ _ (store_length _ _).symm]
      exact ih h

theorem rowContext_row (pc : UInt64) (hvalues : values.length = 6) (mask : Nat) :
    rowContext (store pc.toNat 8 ++ words values ++ store mask 8) = values := by
  apply List.ext_getElem?
  intro field
  by_cases hfield : field < 6
  · have hvalue := List.getElem?_eq_getElem (hvalues ▸ hfield : field < values.length)
    rw [rowContext,List.getElem?_map,List.getElem?_range hfield,Option.map_some,List.append_assoc,
      ← List.drop_drop,drop_append_eq _ _ (store_length _ _).symm,load_words _ hvalue,
      UInt64.ofNat_toNat,hvalue]
  · rw [List.getElem?_eq_none (by simp [rowContext]; omega),List.getElem?_eq_none (by omega)]

theorem rowsOf_append (trail more : Trail) :
    rowsOf (trail ++ more) = rowsOf trail ++ rowsOf more := List.flatMap_append

/-- Whatever its calls answer, the callback fails or ends with `post`, which sees the calls. -/
def Emits {α : Type} (x : Callback α) (post : α → Source → Trail → Prop) (source : Source)
    (trail : Trail) : Prop :=
  Routine.wp (Program.logProtocol fun _ => True) x post (fun _ _ => True) source trail

/-- Calls that append no row. -/
def Silent (trail trail' : Trail) : Prop := ∃ calls, trail' = trail ++ calls ∧ rowsOf calls = []

theorem silent_refl (trail : Trail) : Silent trail trail := ⟨[],(List.append_nil trail).symm,rfl⟩

theorem Silent.rows {trail trail' : Trail} (h : Silent trail trail') :
    rowsOf trail' = rowsOf trail := by
  obtain ⟨calls,rfl,hcalls⟩ := h
  rw [rowsOf_append,hcalls,List.append_nil]

theorem silent_call {call : Call} {answer : Answer call} (trail : Trail)
    (hcall : appended ⟨call,answer⟩ = []) : Silent trail (trail ++ [⟨call,answer⟩]) := by
  refine ⟨_,rfl,?_⟩
  rw [rowsOf,List.flatMap_singleton,hcall]

section Rules

variable {α β : Type} {x : Callback α} {post : α → Source → Trail → Prop} {source : Source}
  {trail : Trail} {next : β → Source → Trail → Prop} {f : Source → Source}
  {k : Unit → Callback β} {kind : Kind} {row : Bytes}

theorem Emits.bind {f : α → Callback β} (h : Emits x post source trail)
    (hf : ∀ a source' trail', post a source' trail' → Emits (f a) next source' trail') :
    Emits (x >>= f) next source trail :=
  (Routine.wp_bind x f next).mpr (Routine.wp_mono h hf fun _ _ _ => trivial)

theorem Emits.imp {post' : α → Source → Trail → Prop} (h : Emits x post source trail)
    (himp : ∀ a source' trail', post a source' trail' → post' a source' trail') :
    Emits x post' source trail :=
  Routine.wp_mono h himp fun _ _ _ => trivial

theorem Emits.extends (h : Emits x post source trail) :
    Emits x (fun a source' trail' => trail <+: trail' ∧ post a source' trail') source trail := by
  apply Program.wp_mono (Program.wp_log_extends h)
  rintro (failure | ⟨a,source'⟩) trail' ⟨hextends,hpost⟩
  · trivial
  · exact ⟨hextends,hpost⟩

theorem emits_pure {a : α} (h : post a source trail) : Emits (pure a) post source trail := h

theorem emits_get_bind {f : Source → Callback β} (h : Emits (f source) next source trail) :
    Emits (get >>= f) next source trail :=
  (Routine.wp_bind _ f next).mpr h

theorem emits_modify {post : Unit → Source → Trail → Prop} (h : post () (f source) trail) :
    Emits (modify f) post source trail := h

theorem emits_fail (reason : FailureReason) (message : String) :
    Emits (fail reason message : Callback α) post source trail := trivial

theorem emits_ask (call : Call) {post : Answer call → Source → Trail → Prop}
    (h : ∀ answer, post answer source (trail ++ [⟨call,answer⟩])) :
    Emits (ask call) post source trail := by
  refine ⟨trivial,?_⟩
  rintro answer _ ⟨rfl,_⟩
  exact h answer

theorem emits_append {post : Unit → Source → Trail → Prop}
    (h : ∀ trail', rowsOf trail' = rowsOf trail ++ [(kind,row)] → post () source trail') :
    Emits (append kind row) post source trail := by
  refine ⟨trivial,?_⟩
  rintro answer _ ⟨rfl,_⟩
  cases answer with
  | error failure => trivial
  | ok _ => exact h _ (rowsOf_append _ _)

theorem emits_modify_bind (h : Emits (k ()) next (f source) trail) :
    Emits (modify f >>= k) next source trail :=
  (Routine.wp_bind _ k next).mpr h

theorem emits_append_bind
    (h : ∀ trail', rowsOf trail' = rowsOf trail ++ [(kind,row)] →
      Emits (k ()) next source trail') : Emits (append kind row >>= k) next source trail :=
  (Routine.wp_bind _ k next).mpr (emits_append h)

theorem emits_ask_bind (call : Call) {k : Answer call → Callback β}
    (h : ∀ answer, Emits (k answer) next source (trail ++ [⟨call,answer⟩])) :
    Emits (ask call >>= k) next source trail :=
  (Routine.wp_bind _ k next).mpr (emits_ask call h)

theorem emits_ite {p : Prop} [Decidable p] {y : Callback α} (hx : p → Emits x post source trail)
    (hy : ¬p → Emits y post source trail) : Emits (if p then x else y) post source trail :=
  Routine.wp_ite hx hy

end Rules

/-- The last values that the source keeps are those that a reader has after the rows. -/
structure Tracks (o : Options) (source : Source) (rows : List Row) : Prop where
  registers : ∀ id reg, source.registers[id]? = some reg →
    registerReplay rows id = if reg.sampled then some reg.previous else none
  context : o.reduceObservations = false →
    contextReplay rows = if source.contextSampled then some source.context else none
  rows : History NewRow rows
  few : source.registers.length ≤ maxRegisters

section Invariant

variable {o : Options} {source source' : Source} {rows : List Row}

theorem Tracks.congr (h : Tracks o source rows) (hregisters : source'.registers = source.registers)
    (hcontext : source'.context = source.context)
    (hsampled : source'.contextSampled = source.contextSampled) : Tracks o source' rows where
  registers := by
    rw [hregisters]
    exact h.registers
  context := by
    rw [hcontext,hsampled]
    exact h.context
  rows := h.rows
  few := by
    rw [hregisters]
    exact h.few

theorem Tracks.other (h : Tracks o source rows) (kind : Kind) (hr : kind ≠ .registers)
    (hc : kind ≠ .addressContext) (row : Bytes) : Tracks o source (rows ++ [(kind,row)]) where
  registers := by
    rw [registerReplay_snoc]
    cases kind <;> first | exact absurd rfl hr | exact h.registers
  context := by
    rw [contextReplay_snoc]
    cases kind <;> first | exact absurd rfl hc | exact h.context
  rows := by
    refine history_snoc.mpr ⟨h.rows,?_⟩
    cases kind <;> first | exact absurd rfl hr | exact absurd rfl hc | exact trivial
  few := h.few

end Invariant

/-- What setup has settled about a register. -/
def Register.identity (reg : Register) : Nat × Bytes × Nat × Option Nat :=
  (reg.handle,reg.name,reg.width,reg.rawField)

def Source.identities (source : Source) : List (Nat × Bytes × Nat × Option Nat) :=
  source.registers.map Register.identity

def Source.reads (source : Source) (cpu : Cpu) (reg : Register) : Option Bytes :=
  match reg.rawField with
  | some field => some (store (source.rawState field).toNat 8)
  | none => cpu.register reg.handle

/-- A reader has the values that the source reads now. -/
def Replays (cpu : Cpu) (source : Source) (rows : List Row) : Prop :=
  ∀ id reg, source.registers[id]? = some reg →
    ∃ value, source.reads cpu reg = some value ∧ registerReplay rows id = some value

section Sampling

variable {o : Options} {source start : Source} {rows first : List Row} {trail : Trail} {cpu : Cpu}
  {k : Nat}

theorem readHandle_emits (handle : Nat) (name : Bytes) (expected : Nat) :
    Emits (readHandle cpu handle none name expected) (fun value source' trail' =>
      source' = source ∧ trail' = trail ∧ cpu.register handle = some value ∧
        (expected ≠ 0 → value.length = expected)) source trail := by
  unfold readHandle
  cases hread : cpu.register handle with
  | none => exact emits_fail _ _
  | some value =>
    apply emits_ite
    · exact fun _ => emits_fail _ _
    · intro hok
      refine emits_pure ⟨rfl,rfl,rfl,fun hexpected => ?_⟩
      by_contra hne
      exact hok (.inr (.inr ⟨hexpected,hne⟩))

theorem readRegister_emits (reg : Register) :
    Emits (readRegister cpu reg) (fun value source' trail' => source' = source ∧ trail' = trail ∧
      source.reads cpu reg = some value ∧ value.length = reg.width) source trail := by
  cases hraw : reg.rawField with
  | some field =>
    unfold readRegister readHandle
    rw [hraw]
    refine emits_get_bind (emits_pure ⟨rfl,rfl,?_,?_⟩)
    · rw [Source.reads,hraw]
    · rw [store_length]
      exact (reg.raw (by simp [hraw])).symm
  | none =>
    unfold readRegister
    rw [hraw]
    apply (readHandle_emits reg.handle reg.name reg.width).imp
    intro value source' trail' ⟨hs,ht,hread,hlen⟩
    refine ⟨hs,ht,?_,hlen reg.positive.ne'⟩
    rw [Source.reads,hraw]
    exact hread

structure SampledTo (o : Options) (cpu : Cpu) (start : Source) (first : List Row) (k : Nat)
    (source : Source) (rows : List Row) : Prop where
  tracks : Tracks o source rows
  same : source = { start with registers := source.registers }
  identities : source.identities = start.identities
  replays : ∀ id < k, ∀ reg, source.registers[id]? = some reg →
    ∃ value, source.reads cpu reg = some value ∧ registerReplay rows id = some value
  context : contextReplay rows = contextReplay first

theorem SampledTo.changed {reg : Register} {value : Bytes}
    (h : SampledTo o cpu start first k source rows) (hreg : source.registers[k]? = some reg)
    (hread : source.reads cpu reg = some value) (hlen : value.length = reg.width)
    (hnew : ¬(reg.sampled = true ∧ reg.previous = value)) (pc : UInt64) (checkpoint : Checkpoint) :
    SampledTo o cpu start first (k+1)
      { source with registers := source.registers.set k { reg with previous := value, sampled := true } }
      (rows ++ [(.registers,registerRow pc k reg checkpoint value)]) := by
  have hk : k < source.registers.length := (List.getElem?_eq_some_iff.mp hreg).1
  have hfew := h.tracks.few
  unfold maxRegisters at hfew
  obtain ⟨hid,hvalue,hbaseline⟩ := registerRow_fields pc reg checkpoint (by omega : k < 2^32) hlen
  have hold := h.tracks.registers k reg hreg
  have hself : registerReplay (rows ++ [(.registers,registerRow pc k reg checkpoint value)]) k =
      some value := by
    rw [registerReplay_snoc]
    change Function.update (registerReplay rows) _ _ k = _
    rw [hid,Function.update_self,hvalue]
  have hother : ∀ id, id ≠ k →
      registerReplay (rows ++ [(.registers,registerRow pc k reg checkpoint value)]) id =
        registerReplay rows id := by
    intro id hne
    rw [registerReplay_snoc]
    change Function.update (registerReplay rows) _ _ id = _
    rw [hid,Function.update_of_ne hne]
  have hcontext : contextReplay (rows ++ [(.registers,registerRow pc k reg checkpoint value)]) =
      contextReplay rows := by rw [contextReplay_snoc]; rfl
  refine ⟨⟨?_,?_,?_,?_⟩,?_,?_,?_,?_⟩
  · intro id other hsome
    by_cases hne : id = k
    · subst hne
      rw [List.getElem?_set_self hk] at hsome
      obtain rfl := Option.some.inj hsome
      exact hself
    · rw [List.getElem?_set_ne (Ne.symm hne)] at hsome
      rw [hother id hne]
      exact h.tracks.registers id other hsome
  · rw [hcontext]
    exact h.tracks.context
  · refine history_snoc.mpr ⟨h.tracks.rows,?_⟩
    change registerReplay rows (rowId _) ≠ some (rowValue _) ∧
      (rowBaseline _ ↔ registerReplay rows (rowId _) = none)
    rw [hid,hvalue,hbaseline,hold]
    cases hsampled : reg.sampled with
    | false => simp
    | true => simpa [hsampled] using hnew
  · rw [List.length_set]
    exact h.tracks.few
  · have hsame := h.same
    rw [hsame]
  · have hkept : source.identities[k]? = some reg.identity := by
      rw [Source.identities,List.getElem?_map,hreg]
      rfl
    obtain ⟨hk,hsame⟩ := List.getElem?_eq_some_iff.mp hkept
    rw [Source.identities,List.map_set,← h.identities]
    change source.identities.set k reg.identity = _
    rw [← hsame,List.set_getElem_self]
  · intro id hlt other hsome
    by_cases hne : id = k
    · subst hne
      rw [List.getElem?_set_self hk] at hsome
      obtain rfl := Option.some.inj hsome
      exact ⟨value,hread,hself⟩
    · rw [List.getElem?_set_ne (Ne.symm hne)] at hsome
      rw [hother id hne]
      exact h.replays id (by omega) other hsome
  · rw [hcontext]
    exact h.context

theorem sampleRegister_emits (pc : UInt64) (checkpoint : Checkpoint)
    (h : SampledTo o cpu start first k source (rowsOf trail)) :
    Emits (sampleRegister cpu pc checkpoint k) (fun _ source' trail' =>
      SampledTo o cpu start first (k+1) source' (rowsOf trail')) source trail := by
  apply emits_get_bind
  cases hreg : source.registers[k]? with
  | none =>
    refine emits_pure { h with replays := fun id hlt reg hsome => ?_ }
    have hne : id ≠ k := by
      rintro rfl
      rw [hreg] at hsome
      cases hsome
    exact h.replays id (by omega) reg hsome
  | some reg =>
    apply (readRegister_emits reg).bind
    rintro value _ _ ⟨rfl,rfl,hread,hlen⟩
    apply emits_ite
    · intro hsame
      refine emits_pure { h with replays := fun id hlt other hsome => ?_ }
      by_cases hne : id = k
      · subst hne
        obtain rfl := Option.some.inj (hreg.symm.trans hsome)
        refine ⟨value,hread,?_⟩
        rw [h.tracks.registers id reg hreg,hsame.1,if_pos rfl,hsame.2]
      · exact h.replays id (by omega) other hsome
    · intro hnew
      refine emits_append_bind fun trail' hrows => emits_modify ?_
      rw [hrows]
      exact h.changed hreg hread hlen hnew pc checkpoint

theorem sampleRegisters_emits (pc : UInt64) (checkpoint : Checkpoint)
    (h : Tracks o source (rowsOf trail)) :
    Emits (sampleRegisters cpu pc checkpoint) (fun _ source' trail' =>
      SampledTo o cpu source (rowsOf trail) source.registers.length source' (rowsOf trail'))
      source trail := by
  apply emits_get_bind
  apply Routine.wp_forM_range (I := fun k source' trail' =>
    SampledTo o cpu source (rowsOf trail) k source' (rowsOf trail'))
  · intro k _ source' trail' hk
    exact sampleRegister_emits pc checkpoint hk
  · exact ⟨h,rfl,rfl,fun id hlt => absurd hlt (Nat.not_lt_zero id),rfl⟩

theorem Source.length_of_identities {source' : Source} (h : source'.identities = source.identities) :
    source'.registers.length = source.registers.length := by
  simpa only [Source.identities,List.length_map] using congrArg List.length h

theorem SampledTo.all (h : SampledTo o cpu start first start.registers.length source rows) :
    Replays cpu source rows := by
  intro id reg hreg
  have hlt := (List.getElem?_eq_some_iff.mp hreg).1
  exact h.replays id (Source.length_of_identities h.identities ▸ hlt) reg hreg

end Sampling

/-- The words of the source are those the vCPU has now: the words of the state hook, or its four
control registers. -/
def Cpu.Shows (o : Options) (cpu : Cpu) (full : Bool) (source : Source) : Prop :=
  o.captureContext = true →
    if o.stateHook then
      ∃ words, cpu.state = some words ∧
        ∀ field < if full then 28 else 8, source.rawState field = words field
    else
      ∀ control field, (control,field) ∈ [(0,0),(1,2),(2,3),(3,5)] →
        ∃ value, cpu.register ((source.controls control).getD 0) = some value ∧
          value.length = 8 ∧ source.rawState field = UInt64.ofNat (load value 8)

section Context

variable {o : Options} {source source' : Source} {rows rows' : List Row} {trail : Trail} {cpu : Cpu}
  {full : Bool}

theorem readControl_emits (control field : Nat) :
    Emits (readControl cpu control field) (fun _ source' trail' => trail' = trail ∧
      ∃ value, cpu.register ((source.controls control).getD 0) = some value ∧ value.length = 8 ∧
        source' = { source with
          rawState := Function.update source.rawState field (UInt64.ofNat (load value 8)) })
      source trail := by
  apply emits_get_bind
  apply (readHandle_emits _ _ _).bind
  rintro value _ _ ⟨rfl,rfl,hread,hlen⟩
  exact emits_modify ⟨rfl,value,hread,hlen (by decide),rfl⟩

theorem readContext_emits (full : Bool) :
    Emits (readContext o cpu full) (fun _ source' trail' => trail' = trail ∧
      source' = { source with rawState := source'.rawState } ∧ cpu.Shows o full source')
      source trail := by
  apply emits_ite
  · intro hcapture
    apply emits_ite
    · intro hhook
      cases hstate : cpu.state with
      | none => exact emits_fail _ _
      | some words =>
        refine emits_modify ⟨rfl,rfl,fun _ => ?_⟩
        rw [if_pos hhook]
        refine ⟨words,hstate,fun field hfield => ?_⟩
        exact if_pos hfield
    · intro hhook
      apply (readControl_emits 0 0).bind
      rintro _ _ _ ⟨rfl,first,hfirst,hlen₁,rfl⟩
      apply (readControl_emits 1 2).bind
      rintro _ _ _ ⟨rfl,second,hsecond,hlen₂,rfl⟩
      apply (readControl_emits 2 3).bind
      rintro _ _ _ ⟨rfl,third,hthird,hlen₃,rfl⟩
      apply (readControl_emits 3 5).imp
      rintro _ _ _ ⟨rfl,fourth,hfourth,hlen₄,rfl⟩
      refine ⟨rfl,rfl,fun _ => ?_⟩
      rw [if_neg hhook]
      intro control field hmem
      simp only [List.mem_cons,Prod.mk.injEq,List.not_mem_nil,or_false] at hmem
      obtain ⟨rfl,rfl⟩ | ⟨rfl,rfl⟩ | ⟨rfl,rfl⟩ | ⟨rfl,rfl⟩ := hmem
      · exact ⟨first,hfirst,hlen₁,by simp [Function.update]⟩
      · exact ⟨second,hsecond,hlen₂,by simp [Function.update]⟩
      · exact ⟨third,hthird,hlen₃,by simp [Function.update]⟩
      · exact ⟨fourth,hfourth,hlen₄,by simp [Function.update]⟩
  · intro hcapture
    exact emits_pure ⟨rfl,rfl,fun h => absurd h hcapture⟩

/-- The context a reader has is the one the source reads now. -/
def Located (o : Options) (source : Source) (rows : List Row) : Prop :=
  o.captureContext = true → o.reduceObservations = false → contextReplay rows = some source.fields

theorem emitReduced_emits (pc : UInt64) (h : Tracks o source (rowsOf trail)) :
    Emits (emitReduced o pc) (fun _ source' trail' => Tracks o source' (rowsOf trail') ∧
      source'.rawState = source.rawState ∧ source'.registers = source.registers ∧
      source'.controls = source.controls) source trail := by
  apply emits_get_bind
  apply emits_ite
  · exact fun _ => emits_fail _ _
  · intro _
    apply emits_modify_bind
    apply emits_ite
    · intro _
      refine emits_append_bind fun trail' hrows => emits_modify ⟨?_,rfl,rfl,rfl⟩
      rw [hrows]
      exact (h.other .reducedContext (by decide) (by decide) _).congr rfl rfl rfl
    · intro _
      apply emits_ite
      · exact fun _ => emits_fail _ _
      · exact fun _ => emits_modify ⟨h.congr rfl rfl rfl,rfl,rfl,rfl⟩

theorem Tracks.located (h : Tracks o source rows)
    (hnew : source.contextSampled = false ∨ source.context ≠ source.fields)
    (hreduce : o.reduceObservations = false) (pc : UInt64) (mask : Nat) :
    let row := store pc.toNat 8 ++ words source.fields ++ store mask 8
    Tracks o { source with context := source.fields, contextSampled := true }
        (rows ++ [(.addressContext,row)]) ∧
      contextReplay (rows ++ [(.addressContext,row)]) = some source.fields := by
  intro row
  have hrow : rowContext row = source.fields :=
    rowContext_row pc (by simp [Source.fields,contextFields]) mask
  have hreplay : contextReplay (rows ++ [(.addressContext,row)]) = some source.fields := by
    rw [contextReplay_snoc,← hrow]
    rfl
  refine ⟨⟨?_,fun _ => hreplay,history_snoc.mpr ⟨h.rows,?_⟩,h.few⟩,hreplay⟩
  · rw [registerReplay_snoc]
    exact h.registers
  · change contextReplay rows ≠ some (rowContext row)
    rw [hrow,h.context hreduce]
    cases hsampled : source.contextSampled with
    | false => simp
    | true => simpa [hsampled] using hnew

theorem emitContext_emits (pc : UInt64) (h : Tracks o source (rowsOf trail)) :
    Emits (emitContext o pc) (fun _ source' trail' => Tracks o source' (rowsOf trail') ∧
      Located o source' (rowsOf trail') ∧ source'.rawState = source.rawState ∧
      source'.registers = source.registers ∧ source'.controls = source.controls) source trail := by
  apply emits_get_bind
  apply emits_ite
  · rintro ⟨_,hnew⟩
    cases hreduce : o.reduceObservations with
    | true =>
      apply (emitReduced_emits pc h).bind
      rintro _ reduced trail' ⟨htracks,hraw,hregisters,hcontrols⟩
      refine emits_modify ⟨⟨htracks.registers,?_,htracks.rows,htracks.few⟩,?_,hraw,hregisters,hcontrols⟩
      · intro hfalse
        rw [hreduce] at hfalse
        cases hfalse
      · intro _ hfalse
        rw [hreduce] at hfalse
        cases hfalse
    | false =>
      obtain ⟨htracks,hreplay⟩ := h.located hnew hreduce pc (contextMask o)
      refine emits_append_bind fun trail' hrows => emits_ask_bind .next fun next => ?_
      apply emits_modify_bind
      apply emits_modify
      rw [(silent_call trail' rfl).rows,hrows]
      exact ⟨htracks.congr rfl rfl rfl,fun _ _ => hreplay,rfl,rfl,rfl⟩
  · intro hold
    refine emits_pure ⟨h,?_,rfl,rfl,rfl⟩
    intro hcapture hreduce
    have hsame : source.contextSampled = true ∧ source.context = source.fields := by
      constructor
      · by_contra hn
        exact hold ⟨hcapture,.inl (by simpa using hn)⟩
      · by_contra hn
        exact hold ⟨hcapture,.inr hn⟩
    rw [h.context hreduce,hsame.1,if_pos rfl,hsame.2]

theorem Cpu.Shows.congr (h : cpu.Shows o full source)
    (hraw : source'.rawState = source.rawState) (hcontrols : source'.controls = source.controls) :
    cpu.Shows o full source' := by
  unfold Cpu.Shows
  rw [hraw,hcontrols]
  exact h

theorem Located.congr (h : Located o source rows)
    (hraw : source'.rawState = source.rawState) (hrows : contextReplay rows' = contextReplay rows) :
    Located o source' rows' := by
  intro hcapture hreduce
  rw [hrows,h hcapture hreduce,Source.fields,Source.fields,hraw]

end Context

section Observed

variable {o : Options} {source : Source} {rows : List Row} {trail : Trail} {cpu : Cpu}
  {full : Bool}

theorem observeBlock_emits (pc : UInt64) (admission : BlockAdmission) :
    Emits (observeBlock o pc admission) (fun _ source' trail' => Silent trail trail' ∧
      source' = { source with reducedBlocks := source'.reducedBlocks }) source trail := by
  have hobserve : ∀ counted : Source, counted = { source with reducedBlocks := counted.reducedBlocks } →
      Emits (ask (.observeBlock pc admission) >>= expect) (fun _ source' trail' =>
        Silent trail trail' ∧ source' = { source with reducedBlocks := source'.reducedBlocks })
        counted trail := by
    intro counted hcounted
    refine emits_ask_bind _ fun result => ?_
    cases result with
    | error message => exact emits_fail _ _
    | ok _ => exact emits_pure ⟨silent_call trail rfl,hcounted⟩
  apply emits_ite
  · intro _
    apply emits_ite
    · intro _
      apply emits_get_bind
      apply emits_ite
      · exact fun _ => emits_fail _ _
      · exact fun _ => hobserve _ rfl
    · exact fun _ => hobserve _ rfl
  · exact fun _ => emits_pure ⟨silent_refl trail,rfl⟩

/-- A block passes unless it is at the rich gate and the compare-exchange of the latch has found
another vCPU there. -/
def Passes (latchContext : Bool) (calls : Trail) (passed : Bool) : Prop :=
  if latchContext then
    ∃ found : ContextLatch, (⟨.swapLatch .waiting .writing,found⟩ : Sigma Answer) ∈ calls ∧
      (passed = true ↔ found = .waiting)
  else passed = true

theorem Passes.mono {latchContext passed : Bool} {calls calls' : Trail}
    (h : Passes latchContext calls passed) (hsub : calls ⊆ calls') :
    Passes latchContext calls' passed := by
  cases latchContext with
  | false => exact h
  | true =>
    obtain ⟨found,hfound,hpassed⟩ := h
    exact ⟨found,hsub hfound,hpassed⟩

theorem passGate_emits (pc : UInt64) (latchContext : Bool) :
    Emits (passGate pc latchContext) (fun passed source' trail' => source' = source ∧
      ∃ calls, trail' = trail ++ calls ∧ rowsOf calls = [] ∧ Passes latchContext calls passed)
      source trail := by
  cases latchContext with
  | false => exact emits_pure ⟨rfl,[],(List.append_nil trail).symm,rfl,rfl⟩
  | true =>
    refine emits_get_bind (emits_ask_bind _ fun found => emits_ite (fun hfound => ?_) fun hfound => ?_)
    · refine emits_pure ⟨rfl,_,rfl,rfl,found,List.mem_cons_self,?_⟩
      exact ⟨fun h => (by cases h),fun h => absurd h hfound⟩
    · refine emits_ask_bind _ fun _ => emits_ask_bind _ fun _ => emits_pure ⟨rfl,_,
        (List.append_assoc _ _ _).trans (List.append_assoc _ _ _),rfl,found,List.mem_cons_self,?_⟩
      exact ⟨fun _ => not_not.mp hfound,fun _ => rfl⟩

/-- The relation to the latched context that the calls of a callback have found. -/
def Relates (cr3 : UInt64) (calls : Trail) (relation : ContextRelation) : Prop :=
  ∃ found : ContextLatch, (⟨.loadLatch,found⟩ : Sigma Answer) ∈ calls ∧
    if found = .known then
      ∃ root : UInt64, (⟨.loadPagingRoot,root⟩ : Sigma Answer) ∈ calls ∧
        relation = if pagingRoot cr3 = root then .matching else .foreign
    else relation = .unknown

/-- The rich filter keeps the registers of a block by its policy or by the relation found. -/
def Filtered (o : Options) (cr3 : UInt64) (calls : Trail) (rich : Bool) : Prop :=
  if o.filters then
    ∃ relation, Relates cr3 calls relation ∧ (rich = true ↔ relation = .matching ∨ o.policy = .keep)
  else rich = true

theorem Relates.mono {cr3 : UInt64} {calls calls' : Trail} {relation : ContextRelation}
    (h : Relates cr3 calls relation) (hsub : calls ⊆ calls') : Relates cr3 calls' relation := by
  obtain ⟨found,hfound,hrelation⟩ := h
  refine ⟨found,hsub hfound,?_⟩
  by_cases hknown : found = .known
  · rw [if_pos hknown] at hrelation ⊢
    obtain ⟨root,hroot,heq⟩ := hrelation
    exact ⟨root,hsub hroot,heq⟩
  · rw [if_neg hknown] at hrelation ⊢
    exact hrelation

theorem Filtered.mono {cr3 : UInt64} {calls calls' : Trail} {rich : Bool}
    (h : Filtered o cr3 calls rich) (hsub : calls ⊆ calls') : Filtered o cr3 calls' rich := by
  by_cases hfilters : o.filters = true
  · rw [Filtered,if_pos hfilters] at h ⊢
    obtain ⟨relation,hrelation,hrich⟩ := h
    exact ⟨relation,hrelation.mono hsub,hrich⟩
  · rw [Filtered,if_neg hfilters] at h ⊢
    exact h

theorem relation_emits (cr3 : UInt64) :
    Emits (relation cr3) (fun relation source' trail' => source' = source ∧
      ∃ calls, trail' = trail ++ calls ∧ rowsOf calls = [] ∧ Relates cr3 calls relation)
      source trail := by
  refine emits_ask_bind _ fun found => ?_
  cases found with
  | known =>
    refine emits_ask_bind _ fun root => emits_pure ⟨rfl,_,List.append_assoc _ _ _,rfl,?_⟩
    exact ⟨.known,List.mem_cons_self,root,List.mem_cons_of_mem _ List.mem_cons_self,rfl⟩
  | _ => exact emits_pure ⟨rfl,_,rfl,rfl,_,List.mem_cons_self,rfl⟩

theorem admits_iff (relation : ContextRelation) :
    admits o relation = true ↔ relation = .matching ∨ o.policy = .keep := by
  simp [admits]

theorem refreshRelation_emits :
    Emits (refreshRelation o) (fun _ source' trail' =>
      source' = { source with
        filterRelation := source'.filterRelation
        richRecording := source'.richRecording } ∧
      ∃ calls, trail' = trail ++ calls ∧ rowsOf calls = [] ∧
        Filtered o (source.rawState 2) calls source'.richRecording) source trail := by
  apply emits_ite
  · intro hfilters
    apply emits_get_bind
    apply (relation_emits _).bind
    rintro relation source _ ⟨rfl,calls,rfl,hrows,hrelation⟩
    have hfiltered : Filtered o (source.rawState 2) calls (admits o relation) := by
      rw [Filtered,if_pos hfilters]
      exact ⟨relation,hrelation,admits_iff relation⟩
    apply emits_modify_bind
    apply emits_ite
    · intro _
      refine emits_ask _ fun _ => ⟨rfl,_,List.append_assoc _ _ _,?_,hfiltered.mono ?_⟩
      · rw [rowsOf_append,hrows]
        rfl
      · exact List.subset_append_left _ _
    · exact fun _ => emits_pure ⟨rfl,calls,rfl,hrows,hfiltered⟩
  · intro hfilters
    refine emits_modify ⟨rfl,[],(List.append_nil trail).symm,rfl,?_⟩
    rw [Filtered,if_neg hfilters]

theorem recordPc_emits (pc : UInt64) (h : Tracks o source (rowsOf trail)) :
    Emits (recordPc o pc) (fun _ source' trail' => source' = source ∧
      Tracks o source (rowsOf trail') ∧
      registerReplay (rowsOf trail') = registerReplay (rowsOf trail) ∧
      contextReplay (rowsOf trail') = contextReplay (rowsOf trail)) source trail := by
  apply emits_ite
  · intro _
    refine emits_append_bind fun trail' hrows => ?_
    have hafter : ∀ last, Silent trail' last → source = source ∧ Tracks o source (rowsOf last) ∧
        registerReplay (rowsOf last) = registerReplay (rowsOf trail) ∧
        contextReplay (rowsOf last) = contextReplay (rowsOf trail) := by
      intro last hlast
      rw [hlast.rows,hrows,registerReplay_snoc,contextReplay_snoc]
      exact ⟨rfl,h.other .blocks (by decide) (by decide) _,rfl,rfl⟩
    refine emits_ask_bind _ fun count => emits_ite (fun _ => ?_) fun _ => ?_
    · exact emits_ask _ fun _ => hafter _ ⟨_,List.append_assoc _ _ _,rfl⟩
    · exact emits_pure (hafter _ (silent_call trail' rfl))
  · exact fun _ => emits_pure ⟨rfl,h,rfl,rfl⟩

/-- What a reader has after a block, an access or the end of a vCPU. -/
structure Current (o : Options) (cpu : Cpu) (full : Bool) (source : Source) (rows : List Row) :
    Prop where
  tracks : Tracks o source rows
  located : Located o source rows
  shows : cpu.Shows o full source

theorem Current.congr {source' : Source} (h : Current o cpu full source rows)
    (hraw : source'.rawState = source.rawState) (hcontrols : source'.controls = source.controls)
    (hregisters : source'.registers = source.registers)
    (hcontext : source'.context = source.context)
    (hsampled : source'.contextSampled = source.contextSampled) : Current o cpu full source' rows :=
  ⟨h.tracks.congr hregisters hcontext hsampled,h.located.congr hraw rfl,h.shows.congr hraw hcontrols⟩

theorem SampledTo.current {start : Source} {first : List Row} {k : Nat}
    (h : SampledTo o cpu start first k source rows) (hstart : Current o cpu full start first) :
    Current o cpu full source rows := by
  have hsame := h.same
  refine ⟨h.tracks,hstart.located.congr ?_ h.context,hstart.shows.congr ?_ ?_⟩ <;> rw [hsame]

theorem emitContext_current (pc : UInt64) (h : Tracks o source (rowsOf trail))
    (hshows : cpu.Shows o full source) :
    Emits (emitContext o pc) (fun _ source' trail' => Current o cpu full source' (rowsOf trail') ∧
      source'.registers = source.registers ∧ source'.rawState = source.rawState) source trail := by
  apply (emitContext_emits pc h).imp
  rintro _ source' trail' ⟨htracks,hlocated,hraw,hregisters,hcontrols⟩
  exact ⟨⟨htracks,hlocated,hshows.congr hraw hcontrols⟩,hregisters,hraw⟩

theorem sampled_emits (pc : UInt64) (checkpoint : Checkpoint)
    (h : Current o cpu full source (rowsOf trail)) :
    Emits (sampleRegisters cpu pc checkpoint) (fun _ source' trail' =>
      Current o cpu full source' (rowsOf trail') ∧ Replays cpu source' (rowsOf trail') ∧
      source' = { source with registers := source'.registers } ∧
      source'.identities = source.identities) source trail := by
  apply (sampleRegisters_emits pc checkpoint h.tracks).imp
  rintro _ source' trail' hsampled
  exact ⟨hsampled.current h,hsampled.all,hsampled.same,hsampled.identities⟩

theorem recordRows_emits (pc : UInt64) (h : Tracks o source (rowsOf trail))
    (hshows : cpu.Shows o full source) :
    Emits (recordRows o cpu pc) (fun _ source' trail' =>
      Current o cpu full source' (rowsOf trail') ∧ source'.identities = source.identities ∧
      ∃ calls, trail' = trail ++ calls ∧
        Filtered o (source'.rawState 2) calls source'.richRecording ∧
        (source'.richRecording = true → Replays cpu source' (rowsOf trail'))) source trail := by
  apply (emitContext_current pc h hshows).extends.bind
  rintro _ located _ ⟨⟨first,rfl⟩,hcurrent,hregisters,hraw⟩
  apply refreshRelation_emits.bind
  rintro _ related _ ⟨hrelated,calls,rfl,hrows,hfiltered⟩
  have hcurrent : Current o cpu full related (rowsOf (trail ++ first ++ calls)) := by
    rw [rowsOf_append _ calls,hrows,List.append_nil]
    apply hcurrent.congr <;> rw [hrelated]
  have hregisters : related.registers = source.registers := by
    rw [hrelated]
    exact hregisters
  have hfiltered : Filtered o (related.rawState 2) calls related.richRecording := by
    rw [hrelated] at hfiltered ⊢
    exact hfiltered
  have hall : ∀ more : Trail, calls ⊆ first ++ calls ++ more := fun more =>
    List.Subset.trans (List.subset_append_right _ _) (List.subset_append_left _ _)
  apply emits_get_bind
  apply emits_ite
  · intro hrich
    apply (sampled_emits pc .block hcurrent).extends.bind
    rintro _ sampled _ ⟨⟨more,rfl⟩,hnow,hreplays,hsame,hidentities⟩
    apply (recordPc_emits pc hnow.tracks).extends.imp
    rintro _ _ _ ⟨⟨last,rfl⟩,rfl,htracks,hvalues,hcontext⟩
    refine ⟨⟨htracks,hnow.located.congr rfl hcontext,hnow.shows⟩,?_,
      first ++ calls ++ (more ++ last),by simp only [List.append_assoc],?_,fun _ => ?_⟩
    · rw [hidentities,Source.identities,hregisters,Source.identities]
    · rw [hsame]
      exact hfiltered.mono (hall _)
    · intro id reg hreg
      rw [hvalues]
      exact hreplays id reg hreg
  · intro hpoor
    apply (recordPc_emits pc hcurrent.tracks).extends.imp
    rintro _ _ _ ⟨⟨last,rfl⟩,rfl,htracks,hvalues,hcontext⟩
    refine ⟨⟨htracks,hcurrent.located.congr rfl hcontext,hcurrent.shows⟩,?_,
      first ++ calls ++ last,by simp only [List.append_assoc],hfiltered.mono (hall last),
      fun h => absurd h hpoor⟩
    rw [Source.identities,hregisters,Source.identities]

theorem recordBlock_emits (pc : UInt64) (admission : BlockAdmission) (latchContext : Bool)
    (h : Tracks o source (rowsOf trail)) :
    Emits (recordBlock o cpu pc admission latchContext) (fun recorded source' trail' =>
      Tracks o source' (rowsOf trail') ∧ source'.identities = source.identities ∧
      ∃ calls, trail' = trail ++ calls ∧ Passes latchContext calls recorded ∧
        (recorded = true → Current o cpu (source'.registers.length ≠ 0) source' (rowsOf trail') ∧
          Filtered o (source'.rawState 2) calls source'.richRecording ∧
          (source'.richRecording = true → Replays cpu source' (rowsOf trail')))) source trail := by
  apply (observeBlock_emits pc admission).bind
  rintro _ observed _ ⟨⟨before,rfl,hbefore⟩,hobserved⟩
  apply emits_get_bind
  apply (readContext_emits _).bind
  rintro _ shown trail₁ ⟨rfl,hshown,hshows⟩
  apply (passGate_emits pc latchContext).bind
  rintro passed shown _ ⟨rfl,gate,rfl,hgate,hpasses⟩
  have htracks : Tracks o shown (rowsOf (trail ++ before ++ gate)) := by
    rw [rowsOf_append,rowsOf_append,hbefore,hgate,List.append_nil,List.append_nil]
    apply h.congr <;> rw [hshown] <;> dsimp only <;> rw [hobserved]
  have hidentities : shown.identities = source.identities := by
    rw [Source.identities,hshown]
    dsimp only
    rw [hobserved]
    rfl
  have hlength : shown.registers.length = observed.registers.length := by rw [hshown]
  apply emits_ite
  · intro hpassed
    apply (recordRows_emits pc htracks hshows).bind
    rintro _ source' _ ⟨hcurrent,hkept,calls,rfl,hfiltered,hreplays⟩
    subst hpassed
    have hgated : gate ⊆ before ++ gate ++ calls :=
      List.Subset.trans (List.subset_append_right _ _) (List.subset_append_left _ _)
    rw [← hlength,← Source.length_of_identities hkept] at hcurrent
    refine emits_pure ⟨hcurrent.tracks,hkept.trans hidentities,before ++ gate ++ calls,
      by simp only [List.append_assoc],hpasses.mono hgated,fun _ => ⟨hcurrent,?_,hreplays⟩⟩
    exact hfiltered.mono (List.subset_append_right _ _)
  · intro hpassed
    rw [Bool.not_eq_true] at hpassed
    subst hpassed
    apply emits_modify_bind
    exact emits_pure ⟨htracks.congr rfl rfl rfl,hidentities,before ++ gate,
      List.append_assoc _ _ _,hpasses.mono (List.subset_append_right _ _),fun h => (by cases h)⟩

theorem recordAccess_emits (info : MemoryInfo) (address pc : UInt64)
    (h : Tracks o source (rowsOf trail)) :
    Emits (recordAccess o cpu info address pc) (fun _ source' trail' =>
      Tracks o source' (rowsOf trail') ∧ source'.registers = source.registers ∧
      (o.filters = false → Current o cpu false source' (rowsOf trail'))) source trail := by
  have hrow : ∀ located trail', Tracks o located (rowsOf trail') →
      located.registers = source.registers →
      (o.filters = false → Current o cpu false located (rowsOf trail')) →
      Emits (do
        append .memory (memoryRow o info address pc (← get).contextSequence)
        if o.captureValues = true ∧ info.valueShift ≠ info.shift then
          fail .capture "cpu2tensor: QEMU memory value width does not match the access\n")
        (fun _ source' trail' => Tracks o source' (rowsOf trail') ∧
          source'.registers = source.registers ∧
          (o.filters = false → Current o cpu false source' (rowsOf trail'))) located trail' := by
    intro located trail' htracks hregisters hcurrent
    apply emits_get_bind
    refine emits_append_bind fun last hrows => emits_ite (fun _ => emits_fail _ _) fun _ => ?_
    have hmemory := htracks.other .memory (by decide) (by decide)
      (memoryRow o info address pc located.contextSequence)
    apply emits_pure
    rw [hrows]
    refine ⟨hmemory,hregisters,fun hfilters => ⟨hmemory,?_,(hcurrent hfilters).shows⟩⟩
    apply (hcurrent hfilters).located.congr rfl
    rw [contextReplay_snoc]
    rfl
  apply emits_ite
  · exact fun _ => emits_fail _ _
  · intro _
    apply emits_ite
    · intro _
      apply (readContext_emits false).bind
      rintro _ shown trail ⟨rfl,hshown,hshows⟩
      have htracks : Tracks o shown (rowsOf trail) := by
        apply h.congr <;> rw [hshown]
      apply (emitContext_current pc htracks hshows).bind
      rintro _ located trail' ⟨hcurrent,hregisters,_⟩
      refine hrow located trail' hcurrent.tracks ?_ fun _ => hcurrent
      rw [hregisters,hshown]
    · intro hfilters
      exact hrow source trail h rfl fun hnone => absurd hnone hfilters

theorem currentPc_emits : Emits (currentPc cpu)
    (fun _ source' trail' => trail' = trail ∧ source' = source) source trail := by
  apply emits_get_bind
  cases (source.pcRegister.bind fun id => source.registers[id]?) with
  | none => exact emits_pure ⟨rfl,rfl⟩
  | some reg =>
    apply (readRegister_emits reg).bind
    rintro value _ _ ⟨rfl,rfl,_⟩
    exact emits_pure ⟨rfl,rfl⟩

theorem exitContext_emits (h : Tracks o source (rowsOf trail)) :
    Emits (exitContext o cpu) (fun _ source' trail' =>
      Current o cpu true source' (rowsOf trail') ∧ source'.registers = source.registers)
      source trail := by
  apply (readContext_emits true).bind
  rintro _ shown trail ⟨rfl,hshown,hshows⟩
  have htracks : Tracks o shown (rowsOf trail) := by
    apply h.congr <;> rw [hshown]
  apply currentPc_emits.bind
  rintro offset _ _ ⟨rfl,rfl⟩
  apply emits_get_bind
  apply (emitContext_current _ htracks hshows).bind
  rintro _ located trail' ⟨hcurrent,hregisters,_⟩
  refine emits_pure ⟨hcurrent,?_⟩
  rw [hregisters,hshown]

theorem exitRows_emits (h : Tracks o source (rowsOf trail)) :
    Emits (exitRows o cpu) (fun _ source' trail' =>
      Current o cpu true source' (rowsOf trail') ∧ source'.identities = source.identities ∧
      ∃ calls rich, trail' = trail ++ calls ∧ Filtered o (source'.rawState 2) calls rich ∧
        (rich = true → Replays cpu source' (rowsOf trail'))) source trail := by
  apply (exitContext_emits h).extends.bind
  rintro pc located _ ⟨⟨first,rfl⟩,hcurrent,hregisters⟩
  have hidentities : located.identities = source.identities := by
    rw [Source.identities,hregisters,Source.identities]
  apply emits_ite
  · intro hfilters
    apply emits_get_bind
    apply (relation_emits _).bind
    rintro relation located _ ⟨rfl,calls,rfl,hrows,hrelation⟩
    have hfiltered : Filtered o (located.rawState 2) (first ++ calls) (admits o relation) := by
      apply Filtered.mono _ (List.subset_append_right _ _)
      rw [Filtered,if_pos hfilters]
      exact ⟨relation,hrelation,admits_iff relation⟩
    have hcurrent : Current o cpu true located (rowsOf (trail ++ first ++ calls)) := by
      rw [rowsOf_append _ calls,hrows,List.append_nil]
      exact hcurrent
    apply emits_ite
    · intro hrich
      apply (sampled_emits pc .exit hcurrent).extends.imp
      rintro _ sampled _ ⟨⟨more,rfl⟩,hnow,hreplays,hsame,hkept⟩
      refine ⟨hnow,hkept.trans hidentities,first ++ calls ++ more,admits o relation,
        by simp only [List.append_assoc],?_,fun _ => hreplays⟩
      rw [hsame]
      exact hfiltered.mono (List.subset_append_left _ _)
    · intro hpoor
      exact emits_pure ⟨hcurrent,hidentities,first ++ calls,admits o relation,
        List.append_assoc _ _ _,hfiltered,fun h => absurd h hpoor⟩
  · intro hfilters
    apply (sampled_emits pc .exit hcurrent).extends.imp
    rintro _ sampled _ ⟨⟨more,rfl⟩,hnow,hreplays,hsame,hkept⟩
    refine ⟨hnow,hkept.trans hidentities,first ++ more,true,List.append_assoc _ _ _,?_,
      fun _ => hreplays⟩
    rw [Filtered,if_neg hfilters]

theorem syscallRows_emits (h : Tracks o source (rowsOf trail)) :
    Emits (syscallRows cpu) (fun _ source' trail' => Tracks o source' (rowsOf trail') ∧
      source'.identities = source.identities ∧ Replays cpu source' (rowsOf trail'))
      source trail := by
  apply currentPc_emits.bind
  rintro pc _ _ ⟨rfl,rfl⟩
  apply (sampleRegisters_emits pc .syscall h).imp
  rintro _ sampled trail' hsampled
  exact ⟨hsampled.tracks,hsampled.identities,hsampled.all⟩

end Observed

end Cpu2Tensor.Plugin
