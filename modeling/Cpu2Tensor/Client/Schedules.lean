import Cpu2Tensor.Client.Arrivals
import Cpu2Tensor.Client.Sessions

/-!
# Reading under different schedules

Every schedule is compared with one reading that decodes the frames of the byte stream one by one.
A group says what its frames say one behind the other, and the error that ends it comes behind them.
-/

namespace Cpu2Tensor.Client
open Library

def ContextColumns.contents (columns : ContextColumns) : Contents :=
  { (0 : Contents) with
    blocks := columns.blocks
    blockSequences := columns.blockSequences
    context := columns.context
    contextSequences := columns.contextSequences }

theorem ContextColumns.contents_join (parts : List ContextColumns) :
    (join parts).contents = (parts.map contents).sum := by
  induction parts with
  | nil => rfl
  | cons part parts ih =>
    rw [List.map_cons,List.sum_cons,← ih]
    rfl

theorem ContextColumns.Shaped.append {a b : ContextColumns} (ha : a.Shaped) (hb : b.Shaped) :
    (a.append b).Shaped := by
  constructor
  · rw [ContextColumns.append,List.length_append,List.length_append,ha.blocks,hb.blocks]
  · intro column
    rw [ContextColumns.append,List.length_append,List.length_append,ha.contexts,hb.contexts]

theorem ContextColumns.shaped_join {parts : List ContextColumns} (h : ∀ part ∈ parts, part.Shaped) :
    (join parts).Shaped := by
  induction parts with
  | nil => exact ⟨rfl,fun _ => rfl⟩
  | cons part parts ih =>
    obtain ⟨hpart,hparts⟩ := List.forall_mem_cons.mp h
    exact hpart.append (ih hparts)

/-- A decoded frame, or a decoded group of them, with nothing but blocks and contexts. -/
structure ContextRows (d : Decoded) : Prop where
  kind : d.kind = .mixed
  shaped : d.columns.Shaped
  payload : d.payload = .mixed d.columns.tables
  rows : 0 < d.columns.counts.blocks+d.columns.counts.contexts

def contextBatch (d : Decoded) : Batch := mixedBatch d.source d.sequence d.columns.tables none

namespace ContextRows

variable {d : Decoded} (h : ContextRows d)
include h

theorem batchOf_eq (names : Option Names) (reduced : Bool) :
    batchOf d names reduced = .ok (contextBatch d) := by
  unfold batchOf
  rw [h.kind,h.payload]
  rfl

theorem contents_eq : (contextBatch d).contents = d.columns.contents := by
  have hblocks : d.columns.blocks = [] → d.columns.blockSequences = [] := by
    intro hnil
    apply List.length_eq_zero_iff.mp
    rw [h.shaped.blocks,hnil,List.length_nil]
  have hcontexts : d.columns.contextSequences = [] → d.columns.context = fun _ => [] := by
    intro hnil
    funext column
    apply List.length_eq_zero_iff.mp
    rw [h.shaped.contexts,hnil,List.length_nil]
  unfold contextBatch
  generalize d.columns = columns at hblocks hcontexts
  obtain ⟨blocks,blockSequences,context,contextSequences⟩ := columns
  dsimp only at hblocks hcontexts
  by_cases hb : blocks = [] <;> by_cases hc : contextSequences = []
  all_goals
    simp [ContextColumns.tables,ContextColumns.contents,mixedBatch,Batch.contents,
      Batch.sequencesOfBlocks,rowSequences,sourceBatch,arange,hb,hc,hblocks,hcontexts]
    exact ⟨rfl,rfl,rfl,rfl,rfl,rfl,rfl,rfl,rfl⟩

theorem cpu (shape : MemoryShape) : (contextBatch d).Cpu shape := by
  have hrows := h.rows
  have hblocks := h.shaped.blocks
  have hcontexts := h.shaped.contexts .pc
  unfold contextBatch
  generalize d.columns = columns at hrows hblocks hcontexts
  obtain ⟨blocks,blockSequences,context,contextSequences⟩ := columns
  dsimp only [ContextColumns.counts] at hrows hblocks hcontexts
  have hmemory (table : MemoryAccesses) : none ≠ some table := (Option.some_ne_none table).symm
  refine ⟨Option.some_ne_none _,Option.some_ne_none _,?_,?_,
    fun table htable => absurd htable (hmemory table),
    fun table htable => absurd htable (hmemory table),rfl,rfl⟩
  · by_cases hb : blocks = []
    · have hc : contextSequences ≠ [] := by
        rintro rfl
        rw [hb] at hrows
        exact absurd hrows (by decide)
      have hpc : context .pc ≠ [] := by
        intro hnil
        rw [hnil,List.length_nil] at hcontexts
        exact hc (List.length_eq_zero_iff.mp hcontexts.symm)
      simp [Batch.hasRows,mixedBatch,ContextColumns.tables,AddressContext.rows,hc,hpc]
    · simp [Batch.hasRows,mixedBatch,ContextColumns.tables,hb]
  · intro column hcolumn
    by_cases hb : blocks = []
    · simp [mixedBatch,ContextColumns.tables,hb] at hcolumn
    · simp only [mixedBatch,ContextColumns.tables,if_neg hb,Option.map_some,Option.some.injEq] at hcolumn
      simp only [mixedBatch,ContextColumns.tables,if_neg hb,Option.map_some,Option.getD_some]
      rw [← hcolumn,hblocks]

end ContextRows

structure Took (shape : MemoryShape) (decoded : List Decoded) (s t : Session) : Prop where
  facts : t.facts =
    ({ s with dataReceived := s.dataReceived || decide (decoded ≠ []) } : Session).facts
  said : ∀ key, t.said key = s.said key + contents (Collator.ofKey key (decoded.map contextBatch))
  reports : t.reports = s.reports
  holding : Session.Holding shape t.collator

variable {decoded each outputs : List Decoded} {frames : List Bytes} {s t : Session}
  {shape : MemoryShape}

theorem Took.nil (hs : Session.Holding shape s.collator) : Took shape [] s s := by
  refine ⟨?_,fun key => (add_zero _).symm,rfl,hs⟩
  rw [Bool.or_eq_left_iff_imp.mpr (fun h => absurd rfl (of_decide_eq_true h))]

theorem Took.stream (h : Took shape decoded s t) (stream : Stream) :
    Took shape decoded { s with stream } { t with stream } :=
  ⟨congrArg (fun r : Session => { r with stream }) h.facts,h.said,h.reports,h.holding⟩

theorem handle_context {shape : MemoryShape} {s : Session}
    (hs : Session.Holding shape s.collator) {d : Decoded} (hd : ContextRows d) (trailing : Arrival)
    (rest : Bytes) : ∃ t, handle d trailing rest s = .ok () t ∧ Took shape [d] s t := by
  have hk : Kind.isDelivered d.kind = true := by rw [hd.kind]; rfl
  have hreduced : Kind.isReduced d.kind = false := by rw [hd.kind]; rfl
  have hadded : ∀ b ∈ (Collator.Call.add (contextBatch d)).added,
      Collator.WellFormed (fun _ => shape) b ∧ b.isReport = false := by
    intro b hb
    rw [List.mem_singleton.mp hb]
    exact ⟨.inl (hd.cpu shape),rfl⟩
  obtain ⟨t,hcollate,ht⟩ := @collate_ok shape _ { s with dataReceived := true } hs hadded
  refine ⟨t,?_,?_,ht.said,ht.reports,ht.holding⟩
  · rw [handle_delivered hk,deliver_rows (hd.batchOf_eq _ _) hreduced,hcollate]
  · rw [ht.facts,Bool.or_eq_true_iff.mpr (.inr (decide_eq_true (List.cons_ne_nil _ _)))]

theorem Took.trans {first rest : List Decoded} {u : Session} (h : Took shape first s t)
    (hrest : Took shape rest t u) : Took shape (first ++ rest) s u := by
  refine ⟨?_,?_,hrest.reports.trans h.reports,hrest.holding⟩
  · have hreceived : t.dataReceived = (s.dataReceived || decide (first ≠ [])) := by
      have hfield := congrArg Session.dataReceived h.facts
      exact hfield
    have hfacts := congrArg (fun r : Session =>
      { r with dataReceived := t.dataReceived || decide (rest ≠ []) }) h.facts
    have hflag : (s.dataReceived || decide (first ≠ []) || decide (rest ≠ [])) =
        (s.dataReceived || decide (first ++ rest ≠ [])) := by
      cases first <;> simp
    refine hrest.facts.trans (hfacts.trans ?_)
    dsimp only [Session.facts]
    rw [hreceived,hflag]
  · intro key
    rw [hrest.said,h.said,List.map_append,Collator.ofKey_append,contents_append,add_assoc]

theorem handleAll_context {shape : MemoryShape} {s : Session}
    (hs : Session.Holding shape s.collator) {decoded : List Decoded}
    (hd : ∀ d ∈ decoded, ContextRows d) (trailing : Arrival) (rest : Bytes) :
    ∃ t, handleAll trailing rest decoded s = .ok () t ∧ Took shape decoded s t := by
  induction decoded generalizing s with
  | nil => exact ⟨s,rfl,.nil hs⟩
  | cons d decoded ih =>
    obtain ⟨hfirst,hrest⟩ := List.forall_mem_cons.mp hd
    obtain ⟨t,hhandle,ht⟩ := handle_context hs hfirst trailing rest
    obtain ⟨u,hall,hu⟩ := ih ht.holding hrest
    refine ⟨u,?_,ht.trans hu⟩
    rw [handleAll,bind_of_ok hhandle,hall]

variable {d : Decoded} {frame : Bytes} {observed : List Bytes} {p : Session} {stop : Stop}

theorem decode_contextRows {bytes : Bytes} {s t : Stream} (hf : ContextOnly s.features)
    (hmixed : MixedBytes bytes) (hd : decode bytes s = .ok d t) :
    ContextRows d ∧ t.features = s.features := by
  obtain ⟨h,payload,hh,hr,hpayload,rfl⟩ := decode_eq_ok hd
  have hk := hmixed h hh
  obtain ⟨hcontext,hdecoded,hfeatures⟩ := acceptFrame_context hf hk (frameHeader_sized hh) hr
  obtain rfl := Except.ok.inj (hpayload.symm.trans hdecoded)
  have hcolumns : (decodedFrame h (.mixed (fillContextColumns
      ⟨h,some (bytes.drop headerBytes)⟩ {}).tables)).columns = fillContextColumns _ {} :=
    columns_of_tables hcontext.shaped rfl
  refine ⟨⟨hk,?_,?_,?_⟩,hfeatures⟩
  · rw [hcolumns]
    exact hcontext.shaped
  · rw [hcolumns]
    rfl
  · rw [hcolumns,← hcontext.rows]
    exact (mixed_of_headerFault (acceptFrame_header hr) hk).2.2

theorem GroupsOf.columns_eq (h : GroupsOf each outputs) (heach : ∀ d ∈ each, ContextRows d)
    {output : Decoded} (houtput : output ∈ outputs) :
    output.columns = .join ((each.filter fun d => d.source = output.source).map Decoded.columns) ∧
      output.columns.Shaped := by
  have hparts : ∀ part ∈ (each.filter fun d => d.source = output.source).map Decoded.columns,
      part.Shaped := by
    intro part hpart
    obtain ⟨d,hd,rfl⟩ := List.mem_map.mp hpart
    exact (heach d (List.mem_of_mem_filter hd)).shaped
  have hshaped := ContextColumns.shaped_join hparts
  have hcolumns := columns_of_tables hshaped (h.columns output houtput)
  exact ⟨hcolumns,hcolumns.symm ▸ hshaped⟩

theorem GroupsOf.contextRows (h : GroupsOf each outputs) (heach : ∀ d ∈ each, ContextRows d) :
    ∀ output ∈ outputs, ContextRows output := by
  intro output houtput
  obtain ⟨hcolumns,hshaped⟩ := h.columns_eq heach houtput
  refine ⟨h.kind output houtput,hshaped,?_,?_⟩
  · rw [hcolumns]
    exact h.columns output houtput
  · obtain ⟨d,hd,hsource⟩ := List.mem_map.mp
      ((h.sources output.source).mp (List.mem_map_of_mem houtput))
    have hmem : d ∈ each.filter fun d => d.source = output.source :=
      List.mem_filter.mpr ⟨hd,decide_eq_true hsource⟩
    rw [hcolumns,join_counts]
    refine (heach d hd).rows.trans_le (List.single_le_sum (fun _ _ => Nat.zero_le _) _ ?_)
    exact List.mem_map.mpr ⟨_,List.mem_map_of_mem hmem,rfl⟩

theorem contextBatch_key (d : Decoded) : (contextBatch d).key = (0,some d.source) := rfl

theorem contents_context (hd : ∀ d ∈ decoded, ContextRows d) (source : Nat) :
    contents (Collator.ofKey (0,some source) (decoded.map contextBatch)) =
      (ContextColumns.join ((decoded.filter fun d => d.source = source).map
        Decoded.columns)).contents := by
  have hfilter : Collator.ofKey (0,some source) (decoded.map contextBatch) =
      (decoded.filter fun d => d.source = source).map contextBatch := by
    rw [Collator.ofKey,List.filter_map]
    congr 1
    apply List.filter_congr
    intro d _
    simp [contextBatch_key]
  rw [hfilter,ContextColumns.contents_join,contents,List.map_map,List.map_map]
  congr 1
  apply List.map_congr_left
  intro d hmem
  exact (hd d (List.mem_of_mem_filter hmem)).contents_eq

theorem filter_map_eq {α β : Type} [DecidableEq β] {f : α → β} {items : List α}
    (hn : (items.map f).Nodup) {item : α} (hitem : item ∈ items) :
    (items.filter fun other => f other = f item) = [item] := by
  induction items with
  | nil => cases hitem
  | cons head items ih =>
    rw [List.map_cons,List.nodup_cons] at hn
    rcases List.mem_cons.mp hitem with rfl | hmem
    · have hrest : (items.filter fun other => f other = f item) = [] := by
        rw [List.filter_eq_nil_iff]
        intro other hother heq
        exact hn.1 (List.mem_map.mpr ⟨other,hother,of_decide_eq_true heq⟩)
      rw [List.filter_cons,if_pos (decide_eq_true rfl),hrest]
    · rw [List.filter_cons_of_neg,ih hn.2 hmem]
      intro heq
      exact hn.1 (List.mem_map.mpr ⟨item,hmem,(of_decide_eq_true heq).symm⟩)

theorem GroupsOf.contents_eq (h : GroupsOf each outputs) (heach : ∀ d ∈ each, ContextRows d)
    (key : Key) :
    contents (Collator.ofKey key (outputs.map contextBatch)) =
      contents (Collator.ofKey key (each.map contextBatch)) := by
  obtain ⟨worker,source⟩ := key
  by_cases hkey : ∃ number, (worker,source) = ((0,some number) : Key)
  · obtain ⟨number,hkey⟩ := hkey
    rw [hkey,contents_context heach,contents_context (h.contextRows heach)]
    congr 1
    by_cases hmem : number ∈ outputs.map Decoded.source
    · obtain ⟨output,houtput,rfl⟩ := List.mem_map.mp hmem
      rw [filter_map_eq h.nodup houtput,List.map_singleton,(h.columns_eq heach houtput).1]
      exact ContextColumns.append_empty _
    · have hnone {decoded : List Decoded} (hnot : number ∉ decoded.map Decoded.source) :
          (decoded.filter fun d => d.source = number) = [] := by
        rw [List.filter_eq_nil_iff]
        intro d hd heq
        exact hnot (List.mem_map.mpr ⟨d,hd,of_decide_eq_true heq⟩)
      rw [hnone hmem,hnone fun hin => hmem ((h.sources number).mpr hin)]
  · have hnone (decoded : List Decoded) :
        Collator.ofKey (worker,source) (decoded.map contextBatch) = [] := by
      rw [Collator.ofKey,List.filter_eq_nil_iff]
      intro b hb
      obtain ⟨d,_,rfl⟩ := List.mem_map.mp hb
      rw [decide_eq_true_eq,contextBatch_key]
      exact fun heq => hkey ⟨d.source,heq.symm⟩
    rw [hnone,hnone]

theorem Took.agrees {q : Session} (h : Agrees s p) (hgroup : GroupsOf each outputs)
    (heach : ∀ d ∈ each, ContextRows d) (ht : Took shape outputs s t) (hq : Took shape each p q) :
    Agrees t q := by
  have hnil : (outputs ≠ []) = (each ≠ []) := by
    have hsources : outputs.map Decoded.source = [] ↔ each.map Decoded.source = [] := by
      rw [List.eq_nil_iff_forall_not_mem,List.eq_nil_iff_forall_not_mem]
      exact forall_congr' fun source => not_congr (hgroup.sources source)
    rw [List.map_eq_nil_iff,List.map_eq_nil_iff] at hsources
    exact propext (not_congr hsources)
  refine ⟨?_,?_,?_⟩
  · have hflag : decide (outputs ≠ []) = decide (each ≠ []) := decide_eq_decide.mpr (iff_of_eq hnil)
    have hfacts := congrArg (fun r : Session =>
      { r with dataReceived := r.dataReceived || decide (each ≠ []) }) h.facts
    rw [ht.facts,hq.facts,hflag]
    exact hfacts
  · funext key
    rw [ht.said,hq.said,h.said,hgroup.contents_eq heach]
  · rw [ht.reports,hq.reports,h.reports]

/-- What a reading leaves: the session, what stopped it and the frames it took. -/
structure Reading where
  session : Session
  stop : Stop
  frames : List Bytes

def Reading.after (r : Reading) (frames : List Bytes) : Reading := { r with frames := frames ++ r.frames }

def handleThen (frame : Bytes) (d : Decoded) (rest : Bytes) (next : Session → Reading)
    (s : Session) : Reading :=
  match handle d (.bytes 0) rest s with
  | .error stop s => ⟨s,stop,[frame]⟩
  | .ok _ s => (next s).after [frame]

/-- The frames of a byte stream, decoded and handled one by one. -/
def plainRead : List (Bytes × Bytes) → Stop → Session → Reading
  | [], stop, s => ⟨s,stop,[]⟩
  | (frame,rest)::entries, stop, s =>
    outcome (decode frame s.stream) (fun fault stream => ⟨{ s with stream },faultStop fault,[frame]⟩)
      fun d stream => handleThen frame d rest (plainRead entries stop) { s with stream }

theorem handleThen_ok {rest : Bytes} (h : handle d (.bytes 0) rest s = .ok () t)
    (next : Session → Reading) : handleThen frame d rest next s = (next t).after [frame] := by
  rw [handleThen,h]

theorem Reading.after_after (r : Reading) (frames more : List Bytes) :
    (r.after more).after frames = r.after (frames ++ more) := by
  rw [Reading.after,Reading.after,Reading.after,List.append_assoc]

theorem plainRead_group {taken later : List (Bytes × Bytes)} {stop : Stop} {p : Session}
    {shape : MemoryShape} (hp : Session.Holding shape p.collator)
    (hf : ContextOnly p.stream.features) (hmixed : ∀ entry ∈ taken, MixedBytes entry.1) :
    ∃ q, Took shape (decodeEach (taken.map Prod.fst) p.stream).2.1
        { p with stream := (decodeEach (taken.map Prod.fst) p.stream).1 } q ∧
      (∀ d ∈ (decodeEach (taken.map Prod.fst) p.stream).2.1, ContextRows d) ∧
      match (decodeEach (taken.map Prod.fst) p.stream).2.2 with
      | some fault => ∃ frames, plainRead (taken ++ later) stop p = ⟨q,faultStop fault,frames⟩
      | none => plainRead (taken ++ later) stop p =
          (plainRead later stop q).after (taken.map Prod.fst) := by
  induction taken generalizing p with
  | nil => exact ⟨p,.nil hp,fun d hd => absurd hd List.not_mem_nil,rfl⟩
  | cons entry taken ih =>
    obtain ⟨frame,rest⟩ := entry
    obtain ⟨hfirst,hrest⟩ := List.forall_mem_cons.mp hmixed
    rw [List.map_cons,List.cons_append,plainRead]
    cases hd : decode frame p.stream with
    | error fault t =>
      rw [decodeEach,hd,outcome_error]
      exact ⟨{ p with stream := t },.nil hp,fun d hd => absurd hd List.not_mem_nil,[frame],rfl⟩
    | ok d t =>
      obtain ⟨hrows,hfeatures⟩ := decode_contextRows hf hfirst hd
      obtain ⟨r,hhandle,htook⟩ := @handle_context shape { p with stream := t } hp d hrows (.bytes 0) rest
      have hstream : r.stream = t := by
        have hfield := congrArg Session.stream htook.facts
        exact hfield
      obtain ⟨q,hq,heach,hread⟩ := ih htook.holding (by rw [hstream,hfeatures]; exact hf) hrest
      rw [hstream] at hq heach hread
      rw [outcome_ok,decodeEach_cons hd,handleThen_ok hhandle]
      dsimp only
      refine ⟨q,?_,List.forall_mem_cons.mpr ⟨hrows,heach⟩,?_⟩
      · exact (htook.stream _).trans hq
      · cases hfault : (decodeEach (taken.map Prod.fst) t).2.2 with
        | some fault =>
          rw [hfault] at hread
          obtain ⟨frames,hread⟩ := hread
          exact ⟨[frame] ++ frames,by rw [hread]; rfl⟩
        | none =>
          rw [hfault] at hread
          dsimp only at hread ⊢
          rw [hread,Reading.after_after]
          rfl

/-- The loop stops where the plain reading stops, with a session that agrees; after the end of the
trace the observer has seen what was read. -/
structure Follows (ended : Ended) (r : Reading) (observed : List Bytes) : Prop where
  stop : ended.stop = r.stop
  stopped : Stopped r.stop ended.session r.session
  observed : r.stop.completed = true → ended.connection.observed = observed ++ r.frames

theorem isArrival_completed (h : stop.isArrival) : stop.completed = false := by
  cases stop with
  | cleanEnd truncated => rfl
  | raised error =>
    cases error with
    | trace cls message outcome => exact h.elim
    | other error => rfl
  | transport fault => exact h.elim
  | returned outcome => exact h.elim
  | hangs => exact h.elim

theorem faultStop_completed (fault : Fault) : (faultStop fault).completed = false := by
  cases fault <;> rfl

theorem follows_unfinished {c : Connection} (h : Agrees s p) (hstop : stop.completed = false) :
    Follows ⟨c,s,stop⟩ ⟨p,stop,frames⟩ observed := by
  refine ⟨rfl,⟨h,fun htrue => ?_⟩,fun htrue => ?_⟩ <;>
  · dsimp only at htrue
    rw [hstop] at htrue
    cases htrue

theorem mixedBytes_of_kindField (h : kindField frame = Kind.mixed.code) : MixedBytes frame := by
  intro header hheader
  unfold frameHeader at hheader
  split at hheader
  · cases hheader
  · next other hdecode =>
    split_ifs at hheader
    obtain rfl := Except.ok.inj hheader
    obtain ⟨hlen,hkind,_⟩ := decodeHeader_eq_ok hdecode
    split_ifs at hlen hkind with hsize
    · have hload : load ((frame.take headerBytes).drop 6) 2 = kindField frame :=
        load_drop_take frame (by decide)
      rw [hload,h] at hkind
      have hcode := Kind.ofCode_code other.kind
      rw [← hkind,Kind.ofCode_code] at hcode
      exact (Option.some.inj hcode).symm
    · cases hlen

def Upcoming (pending : Option Bytes) (c : Connection) (entries : List (Bytes × Bytes)) (stop : Stop) :
    Prop :=
  match pending with
  | none => Arrives c.rest entries stop
  | some frame => ∃ later, entries = (frame,c.rest)::later ∧ Arrives c.rest later stop

theorem Follows.after {ended : Ended} {r : Reading} (h : Follows ended r (observed ++ frames)) :
    Follows ended (r.after frames) observed := by
  refine ⟨h.stop,h.stopped,fun hcompleted => ?_⟩
  rw [h.observed hcompleted,List.append_assoc]
  rfl

theorem handlePass_single (c : Connection) (trailing : Arrival) (d : Decoded) (s : Session)
    (next : Session → Ended) : handlePass c trailing [d] s next =
      match handle d trailing c.rest s with
      | .error stop s => ⟨c,s,stop⟩
      | .ok _ s => next s := by
  unfold handlePass
  rw [handleAll]
  cases hhandle : handle d trailing c.rest s with
  | error stop t => rw [bind_of_error hhandle]
  | ok _ t =>
    rw [bind_of_ok hhandle]
    rfl

theorem Took.valid (h : Took shape decoded s t) (hs : s.Valid)
    (hstarted : s.stream.started = true) (hshape : streamShape s.stream.features = shape) :
    t.Valid := by
  apply (hs.received _).of_facts h.facts
  intro other hother
  rw [hother hstarted]
  exact hshape ▸ h.holding

theorem Session.Valid.decodeEach (hs : s.Valid) (hstarted : s.stream.started = true)
    (hmixed : ∀ frame ∈ frames, MixedBytes frame)
    (hfault : (decodeEach frames s.stream).2.2 = none) :
    ({ s with stream := (Client.decodeEach frames s.stream).1 } : Session).Valid ∧
      (Client.decodeEach frames s.stream).1.started = true ∧
      (Client.decodeEach frames s.stream).1.features = s.stream.features := by
  induction frames generalizing s with
  | nil => exact ⟨hs,hstarted,rfl⟩
  | cons frame frames ih =>
    obtain ⟨hfirst,hrest⟩ := List.forall_mem_cons.mp hmixed
    cases hd : decode frame s.stream with
    | error fault t =>
      rw [Client.decodeEach,hd] at hfault
      cases hfault
    | ok d t =>
      rw [decodeEach_cons hd] at hfault ⊢
      obtain ⟨header,payload,hheader,hr,_,_⟩ := decode_eq_ok hd
      have hschema : header.kind ≠ .registerSchema := by
        rw [hfirst header hheader]
        decide
      obtain ⟨ht,hfeatures,_⟩ := acceptFrame_features hstarted hr
      have hvalid := hs.accept hr hstarted (hs.named_of_accept hr hschema)
      obtain ⟨hafter,hopen,hkept⟩ := @ih { s with stream := t } hvalid ht hrest hfault
      exact ⟨hafter,hopen,hkept.trans hfeatures⟩

section Pass

variable {schedule : Schedule} (hclean : schedule.Clean) {frame : Bytes} {c : Connection}
  {later : List (Bytes × Bytes)} {stop : Stop} {observed : List Bytes}
  {next : Option Bytes → Connection → Session → Ended} {s p : Session}
  (h : Agrees s p) (hs : s.Valid) (hp : p.Valid) (hobserved : c.observed = observed ++ [frame])
include hclean h hs hp hobserved

theorem framePass_follows
    (hnext : ∀ t q : Session, Agrees t q → t.Valid → q.Valid →
      Follows (next none c t) (plainRead later stop q) (observed ++ [frame])) :
    Follows (framePass schedule frame c s next) (plainRead ((frame,c.rest)::later) stop p) observed := by
  unfold framePass
  rw [plainRead,← stream_of_facts h.facts]
  cases hd : decode frame s.stream with
  | error fault t =>
    rw [outcome_error,outcome_error]
    exact follows_unfinished (h.map (fun s => { s with stream := t }) (fun _ => rfl) (fun _ => rfl)
      (fun _ => rfl)) (faultStop_completed fault)
  | ok d t =>
    obtain ⟨limit,hlimit⟩ := hclean.recv c.time
    have hmatch := handle_matches h hs hp hd limit 0 c.rest
    rw [outcome_ok,outcome_ok,handlePass_single,handleThen,hlimit]
    revert hmatch
    cases handle d (.bytes limit) c.rest { s with stream := t } with
    | error e r =>
      cases handle d (.bytes 0) c.rest { p with stream := t } with
      | error e' q =>
        rintro ⟨rfl,hstopped,_⟩
        exact ⟨rfl,hstopped,fun _ => hobserved⟩
      | ok _ q => exact False.elim
    | ok _ r =>
      cases handle d (.bytes 0) c.rest { p with stream := t } with
      | error e' q => exact False.elim
      | ok _ q =>
        rintro ⟨hagrees,hr,hq,_⟩
        exact (hnext r q hagrees hr hq).after

theorem groupPass_follows (harrives : Arrives c.rest later stop) (hgrouping : s.contextGrouping = true)
    (hkind : kindField frame = Kind.mixed.code)
    (hnext : ∀ (pending : Option Bytes) (c : Connection) (t q : Session) (observed : List Bytes)
      (entries : List (Bytes × Bytes)), Upcoming pending c entries stop →
      entries.length ≤ later.length → c.observed = observed ++ pending.toList →
      Agrees t q → t.Valid → q.Valid →
      Follows (next pending c t) (plainRead entries stop q) observed) :
    Follows (groupPass schedule frame c s next) (plainRead ((frame,c.rest)::later) stop p) observed := by
  obtain ⟨hstarted,hf⟩ := hs.grouping hgrouping
  have hahead := readAhead_clean hclean (maxContextGroupFrames-1) harrives
  unfold groupPass
  generalize readAhead schedule (maxContextGroupFrames-1) c = ahead at hahead
  obtain ⟨taken,rest,rfl,htaken,hrest,hlast,_,hdeferred⟩ := hahead.split
  obtain ⟨group,tail,rfl,hgroup,htail⟩ := List.map_eq_append_iff.mp htaken
  have hframes : ((frame,c.rest)::group).map Prod.fst = frame::ahead.frames := by
    rw [List.map_cons,hgroup]
  have hmixed : ∀ other ∈ frame::ahead.frames, MixedBytes other := by
    intro other hother
    apply mixedBytes_of_kindField
    rcases List.mem_cons.mp hother with rfl | hother
    · exact hkind
    · exact hahead.mixed other hother
  have hentries : ∀ entry ∈ (frame,c.rest)::group, MixedBytes entry.1 := by
    intro entry hentry
    apply hmixed
    rw [← hframes]
    exact List.mem_map_of_mem hentry
  have hlen : 1 ≤ (frame::ahead.frames).length ∧
      (frame::ahead.frames).length ≤ maxContextGroupFrames := by
    have hlimit := hahead.limit
    rw [List.length_cons]
    unfold maxContextGroupFrames at hlimit ⊢
    omega
  have hstream := stream_of_facts h.facts
  obtain ⟨outputs,hdecode,houtputs⟩ := decodeContextFrames_grouped hf hlen hmixed
  obtain ⟨q,hq,heach,hread⟩ := @plainRead_group _ (tail ++ rest) stop p
    (streamShape s.stream.features) (hp.holding _ fun _ => by rw [hstream]) (hstream ▸ hf) hentries
  rw [← hstream,hframes] at hq heach hread
  obtain ⟨t,hhandle,ht⟩ := @handleAll_context (streamShape s.stream.features)
    { s with stream := (decodeEach (frame::ahead.frames) s.stream).1 } (hs.holding _ fun _ => rfl)
    outputs (houtputs.contextRows heach) (schedule.recv ahead.connection.time) ahead.connection.rest
  have hagrees : Agrees t q := ht.agrees (h.map
    (fun s => { s with stream := (decodeEach (frame::ahead.frames) s.stream).1 })
    (fun _ => rfl) (fun _ => rfl) (fun _ => rfl)) houtputs heach (hstream ▸ hq)
  dsimp only
  rw [hdecode]
  dsimp only
  unfold handlePass
  rw [hhandle]
  dsimp only
  rw [List.append_assoc,← List.cons_append]
  cases hfault : (decodeEach (frame::ahead.frames) s.stream).2.2 with
  | some fault =>
    rw [hfault] at hread
    obtain ⟨frames,hread⟩ := hread
    rw [hread]
    exact follows_unfinished hagrees (faultStop_completed fault)
  | none =>
    rw [hfault] at hread
    dsimp only at hread ⊢
    rw [hread]
    apply Follows.after
    obtain ⟨hvalid,hopen,hfeatures⟩ := hs.decodeEach hstarted hmixed hfault
    have htvalid := ht.valid hvalid hopen (congrArg streamShape hfeatures)
    have hqvalid : q.Valid := by
      have hlast : t.stream = (decodeEach (frame::ahead.frames) s.stream).1 :=
        stream_of_facts ht.facts
      apply htvalid.of_facts hagrees.facts.symm
      intro shape hshape
      rw [hlast,hfeatures] at hshape
      rw [hshape hopen]
      exact hq.holding
    cases hstop : ahead.deferred with
    | some stopped =>
      obtain ⟨rfl,rfl⟩ := hdeferred stopped hstop
      have hnone := hahead.deferred (by rw [hstop]; nofun)
      rw [hnone] at htail
      rw [List.map_eq_nil_iff.mp htail]
      exact follows_unfinished hagrees (isArrival_completed harrives.isArrival)
    | none =>
      apply hnext ahead.pending ahead.connection t q _ (tail ++ rest) ?_ ?_ ?_ hagrees htvalid hqvalid
      · cases hpending : ahead.pending with
        | none =>
          rw [hpending] at htail
          rw [List.map_eq_nil_iff.mp htail]
          exact hrest
        | some following =>
          rw [hpending] at htail
          obtain ⟨entry,rfl,hentry⟩ := List.map_eq_singleton_iff.mp htail
          have hafter := hlast entry (by simp)
          have hfirst : [entry] ++ rest = (following,ahead.connection.rest)::rest := by
            rw [← hafter,← hentry]
            rfl
          rw [hfirst]
          exact ⟨rest,rfl,hrest⟩
      · rw [List.length_append,List.length_append,List.length_append]
        omega
      · rw [hahead.observed,hobserved]
        simp only [List.append_assoc,List.cons_append,List.nil_append]

end Pass

/-- Under every clean schedule the loop follows the plain reading. -/
theorem readLoop_follows {schedule : Schedule} (hclean : schedule.Clean) (fuel : Nat)
    {pending : Option Bytes} {c : Connection} {s p : Session} {entries : List (Bytes × Bytes)}
    {stop : Stop} {observed : List Bytes} (hupcoming : Upcoming pending c entries stop)
    (hfuel : entries.length < fuel) (hobserved : c.observed = observed ++ pending.toList)
    (h : Agrees s p) (hs : s.Valid) (hp : p.Valid) :
    Follows (readLoop schedule fuel pending c s) (plainRead entries stop p) observed := by
  induction fuel generalizing pending c s p entries observed with
  | zero => omega
  | succ fuel ih =>
    have hpass {frame : Bytes} {c : Connection} {later : List (Bytes × Bytes)}
        (harrives : Arrives c.rest later stop) (hlength : later.length < fuel)
        (hobserved : c.observed = observed ++ [frame]) :
        Follows (if s.contextGrouping = true ∧ kindField frame = Kind.mixed.code then
            groupPass schedule frame c s (readLoop schedule fuel)
          else framePass schedule frame c s (readLoop schedule fuel))
          (plainRead ((frame,c.rest)::later) stop p) observed := by
      split_ifs with hgroup
      · apply groupPass_follows hclean h hs hp hobserved harrives hgroup.1 hgroup.2
        intro pending c t q observed entries hupcoming hle hobserved hagrees ht hq
        exact ih hupcoming (by omega) hobserved hagrees ht hq
      · apply framePass_follows hclean h hs hp hobserved
        intro t q hagrees ht hq
        exact ih harrives hlength (by rw [hobserved]; simp) hagrees ht hq
    rw [readLoop]
    cases pending with
    | some frame =>
      obtain ⟨later,rfl,harrives⟩ := hupcoming
      rw [List.length_cons] at hfuel
      exact hpass harrives (by omega) hobserved
    | none =>
      have hreceive := receiveFrame_clean hclean c
      dsimp only [Option.map_none,Option.getD_none]
      cases hupcoming with
      | stop hnext =>
        rw [hnext] at hreceive
        dsimp only at hreceive
        rw [hreceive]
        exact follows_unfinished h (isArrival_completed (Arrives.stop hnext).isArrival)
      | @frame _ frame rest later _ hnext hlater =>
        rw [hnext] at hreceive
        obtain ⟨time,hreceive⟩ := hreceive
        rw [hreceive]
        rw [List.length_cons] at hfuel
        have hconnection : c.observed ++ [frame] = observed ++ [frame] := by
          rw [hobserved]
          simp
        exact @hpass frame { rest, time, observed := c.observed ++ [frame] } later hlater (by omega)
          hconnection

end Cpu2Tensor.Client
