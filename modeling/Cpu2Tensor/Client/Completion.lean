import Cpu2Tensor.Client.Schedules
import Cpu2Tensor.Stream.Reduction

/-!
# Reads of whole and of truncated traces

A schedule does not change what a read delivers, and no proper prefix of a trace looks complete.
-/

namespace Cpu2Tensor.Client
open Library

/-- A read says what the plain reading says, up to what it lost with its collator. -/
structure Reads (batchBytes : Nat) (result : ReadResult) (r : Reading) : Prop where
  ending : result.ending = r.session.conclude r.stop
  reports : result.yielded.filter Batch.isReport = r.session.reports
  rows : ∀ key, ∃ held, contents (Collator.ofKey key result.yielded) + held = r.session.said key ∧
    (batchBytes = 0 ∨ r.stop.completed = true → held = 0)
  observed : r.stop.completed = true → result.observed = r.frames

theorem conclude_facts (s : Session) (stop : Stop) : s.conclude stop = s.facts.conclude stop := by
  cases stop with
  | cleanEnd truncated => cases truncated <;> rfl
  | transport fault => cases fault <;> rfl
  | raised error => rfl
  | returned outcome => rfl
  | hangs => rfl

theorem valid_start (endpoint : String) (collator : Option Collator)
    (hcollator : ∀ c, collator = some c → 1 ≤ c.targetBytes ∧ c = { targetBytes := c.targetBytes }) :
    ({ endpoint, collator } : Session).Valid := by
  refine ⟨nofun,nofun,nofun,fun _ hsome => absurd rfl hsome,
    fun b hb => absurd hb List.not_mem_nil,fun shape _ => ⟨?_,?_,?_,?_⟩⟩
  · exact fun c hc => (hcollator c hc).1
  · intro c hc
    rw [(hcollator c hc).2]
    exact ⟨rfl,rfl,(fun _ _ h => nomatch h),(fun _ _ h => nomatch h)⟩
  · intro c hc
    obtain ⟨htarget,hfresh⟩ := hcollator c hc
    rw [hfresh]
    refine ⟨?_,?_,(fun _ _ h => nomatch h),(fun _ _ h => nomatch h)⟩
    · change (0 : Int) < 2*(c.targetBytes : Int)
      omega
    · change (0 : Int) < (maxPendingFrames : Int)
      decide
  · intro c hc
    rw [(hcollator c hc).2]
    exact fun _ _ h => nomatch h

variable {batchBytes : Nat} {bytes part : Bytes} {r : Reading} {result : ReadResult} {s : Stream}

theorem poolRead_reads {schedule : Schedule} (hclean : schedule.Clean) (endpoint : String)
    (batchBytes : Nat) {entries : List (Bytes × Bytes)} {stop : Stop}
    (harrives : Arrives bytes entries stop) :
    Reads batchBytes (poolRead endpoint batchBytes schedule bytes)
      (plainRead entries stop { endpoint }) := by
  unfold poolRead
  dsimp only
  generalize hcollator : (if batchBytes = 0 then none
    else some { targetBytes := batchBytes } : Option Collator) = collator
  have hfresh : ∀ c, collator = some c → 1 ≤ c.targetBytes ∧ c = { targetBytes := c.targetBytes } := by
    intro c hc
    rw [← hcollator] at hc
    split_ifs at hc with hzero
    obtain rfl := Option.some.inj hc
    exact ⟨Nat.one_le_iff_ne_zero.mpr hzero,rfl⟩
  have hagrees : Agrees { endpoint, collator } { endpoint } := by
    refine ⟨rfl,?_,rfl⟩
    funext key
    cases collator with
    | none => rfl
    | some c =>
      rw [(hfresh c rfl).2]
      rfl
  have hfollows := @readLoop_follows schedule hclean (bytes.length+1) none { rest := bytes } _ _
    entries stop [] harrives (Nat.lt_succ_of_le harrives.length_le) rfl hagrees
    (valid_start endpoint collator hfresh) (valid_start endpoint none fun _ h => by cases h)
  have hbare : batchBytes = 0 → (readLoop schedule (bytes.length+1) none { rest := bytes }
      { endpoint, collator }).session.collator = none := by
    intro hzero
    apply readLoop_collator
    rw [← hcollator,if_pos hzero]
  generalize readLoop schedule (bytes.length+1) none { rest := bytes } { endpoint, collator } =
    ended at hfollows hbare
  have hsaid := hfollows.stopped.agrees
  refine ⟨?_,hsaid.reports,fun key => ⟨contents (ended.session.held key),?_,?_⟩,hfollows.observed⟩
  · rw [conclude_facts,hsaid.facts,hfollows.stop,← conclude_facts]
  · exact congrFun hsaid.said key
  · rintro (hzero | hcompleted)
    · rw [Session.held,hbare hzero]
      rfl
    · rw [(hfollows.stopped.flushed hcompleted key).1]
      rfl

/-- The frames of a trace that the validator accepts up to a Complete at its end. -/
structure CompleteTrace (frames : List Bytes) (decoded : List Decoded) (last : Decoded) : Prop where
  accepted : ∃ t, decodeEach frames {} = (t,decoded,none)
  ends : decoded.getLast? = some last
  complete : last.kind = .complete

/-- The worker takes no input from its client. -/
def ObservationOnly (decoded : List Decoded) : Prop :=
  ∀ d ∈ decoded, d.kind = .hello →
    ¬Has (UInt64.ofNat d.detail) featureStdio ∧ ¬Has (UInt64.ofNat d.detail) featureKernel

variable {decoded : List Decoded} {frame : Bytes} {frames : List Bytes} {h : Header} {t : Stream}

theorem headerSize_of_frameHeader (hh : frameHeader frame = .ok h) :
    headerSize (frame.take headerBytes) = .ok (payloadSize h) ∧
      frame.length = headerBytes+payloadSize h := by
  unfold frameHeader at hh
  split at hh
  · cases hh
  · next other hdecode =>
    split_ifs at hh with hlength
    obtain rfl := Except.ok.inj hh
    have hlength := not_not.mp hlength
    rw [if_pos (by omega)] at hdecode
    rw [headerSize,hdecode]
    exact ⟨rfl,hlength⟩

theorem nextFrame_append (hh : frameHeader frame = .ok h) (rest : Bytes) :
    nextFrame (frame ++ rest) = .ok (frame,rest) := by
  obtain ⟨hsize,hlength⟩ := headerSize_of_frameHeader hh
  have hheader : headerBytes ≤ frame.length := by omega
  have htotal : headerBytes+payloadSize h = frame.length := hlength.symm
  unfold nextFrame
  rw [List.length_append,if_neg (by omega),List.take_append_of_le_length hheader,hsize]
  dsimp only
  rw [if_neg (by omega),htotal,List.take_left',List.drop_left'] <;> rfl

def entriesOf (tail : Bytes) : List Bytes → List (Bytes × Bytes)
  | [] => []
  | frame::frames => (frame,frames.flatten ++ tail)::entriesOf tail frames

theorem entriesOf_append (tail : Bytes) (frames more : List Bytes) :
    entriesOf tail (frames ++ more) = entriesOf (more.flatten ++ tail) frames ++ entriesOf tail more := by
  induction frames with
  | nil => rfl
  | cons frame frames ih =>
    rw [List.cons_append,entriesOf,entriesOf,ih,List.cons_append,List.flatten_append,
      List.append_assoc]

theorem arrives_entriesOf {frames : List Bytes} (hh : ∀ frame ∈ frames, ∃ h, frameHeader frame = .ok h)
    {tail : Bytes} {stop : Stop} (hstop : nextFrame tail = .error stop) :
    Arrives (frames.flatten ++ tail) (entriesOf tail frames) stop := by
  induction frames with
  | nil => exact .stop hstop
  | cons frame frames ih =>
    obtain ⟨⟨h,hfirst⟩,hrest⟩ := List.forall_mem_cons.mp hh
    rw [List.flatten_cons,List.append_assoc]
    exact .frame (nextFrame_append hfirst _) (ih hrest)

theorem nextFrame_cut (hh : frameHeader frame = .ok h) (hpart : part <+: frame)
    (hne : part ≠ frame) : nextFrame part = .error (.cleanEnd (part ≠ [])) := by
  obtain ⟨hsize,hlength⟩ := headerSize_of_frameHeader hh
  obtain ⟨missing,rfl⟩ := hpart
  have hmissing : missing ≠ [] := by
    rintro rfl
    exact hne (List.append_nil part).symm
  have hshort := List.length_pos_iff.mpr hmissing
  rw [List.length_append] at hlength
  unfold nextFrame
  by_cases hheader : part.length < headerBytes
  · rw [if_pos hheader]
  · have hpart : part ≠ [] := by
      rintro rfl
      exact hheader (by decide)
    rw [List.take_append_of_le_length (Nat.le_of_not_lt hheader)] at hsize
    rw [if_neg hheader,hsize]
    dsimp only
    rw [if_pos (by omega),decide_eq_true hpart]

theorem decodeEach_nil (h : decodeEach [] s = (t,decoded,none)) : s = t ∧ decoded = [] := by
  obtain ⟨hstream,hrest⟩ := Prod.mk.inj h
  exact ⟨hstream,(Prod.mk.inj hrest).1.symm⟩

theorem decodeEach_cons_inv (h : decodeEach (frame::frames) s = (t,decoded,none)) :
    ∃ d r rest, decode frame s = .ok d r ∧ decodeEach frames r = (t,rest,none) ∧
      decoded = d::rest := by
  cases hd : decode frame s with
  | error fault r =>
    rw [decodeEach,hd] at h
    cases h
  | ok d r =>
    rw [decodeEach_cons hd] at h
    obtain ⟨hstream,hrest⟩ := Prod.mk.inj h
    obtain ⟨rfl,hfault⟩ := Prod.mk.inj hrest
    exact ⟨d,r,_,rfl,Prod.ext hstream (Prod.ext rfl hfault),rfl⟩

theorem decodeEach_split {more : List Bytes}
    (h : decodeEach (frames ++ more) s = (t,decoded,none)) :
    ∃ r first rest, decodeEach frames s = (r,first,none) ∧ decodeEach more r = (t,rest,none) ∧
      decoded = first ++ rest := by
  induction frames generalizing s decoded with
  | nil => exact ⟨s,[],decoded,rfl,h,rfl⟩
  | cons frame frames ih =>
    obtain ⟨d,r,others,hd,hothers,rfl⟩ := decodeEach_cons_inv h
    obtain ⟨q,first,rest,hfirst,hmore,rfl⟩ := ih hothers
    refine ⟨q,d::first,rest,?_,hmore,rfl⟩
    rw [decodeEach_cons hd,hfirst]

theorem decodeEach_headers (h : decodeEach frames s = (t,decoded,none)) :
    (∀ frame ∈ frames, ∃ header, frameHeader frame = .ok header) ∧
      ∃ parsed, acceptAll parsed s = .ok () t ∧
        decoded.map Decoded.kind = parsed.map fun frame => frame.header.kind := by
  induction frames generalizing s decoded with
  | nil =>
    obtain ⟨rfl,rfl⟩ := decodeEach_nil h
    exact ⟨fun frame hframe => absurd hframe List.not_mem_nil,[],acceptAll_nil.mpr rfl,rfl⟩
  | cons frame frames ih =>
    obtain ⟨d,r,others,hd,hothers,rfl⟩ := decodeEach_cons_inv h
    obtain ⟨hheaders,parsed,haccept,hkinds⟩ := ih hothers
    obtain ⟨header,payload,hheader,hr,_,rfl⟩ := decode_eq_ok hd
    refine ⟨List.forall_mem_cons.mpr ⟨⟨header,hheader⟩,hheaders⟩,
      ⟨header,some (frame.drop headerBytes)⟩::parsed,acceptAll_cons.mpr ⟨r,hr,haccept⟩,?_⟩
    rw [List.map_cons,List.map_cons,hkinds]
    rfl

theorem Agrees.refl (s : Session) : Agrees s s := ⟨rfl,rfl,rfl⟩

structure Progressed (decoded : List Decoded) (s t : Session) : Prop where
  valid : t.Valid
  summaries : t.pendingSummaries = s.pendingSummaries ++ decoded.flatMap Decoded.summaries
  reports : ∃ more, t.reports = s.reports ++ more ∧ ∀ b ∈ more, b.observationSummary = none
  summary : ∀ d ∈ decoded, d.kind = .observationSummary →
    ∃ b, batchOf d none false = .ok b ∧ d.summaries = [b] ∧ b.observationSummary.isSome = true

theorem handle_middle {s : Session} (hs : s.Valid) {d : Decoded}
    (hd : decode frame s.stream = .ok d t) (hmiddle : ¬d.Stops) (rest : Bytes) :
    ∃ q, handle d (.bytes 0) rest { s with stream := t } = .ok () q ∧ q.Valid ∧
      Advanced d { s with stream := t } q := by
  have hmatch := handle_matches (.refl s) hs hs hd 0 0 rest
  revert hmatch
  cases handle d (.bytes 0) rest { s with stream := t } with
  | error e q => exact fun hmatch => absurd hmatch.2.2.stops hmiddle
  | ok _ q => exact fun hmatch => ⟨q,rfl,hmatch.2.1,hmatch.2.2.2⟩

theorem plainRead_middle {s : Session} (hs : s.Valid)
    (hd : decodeEach frames s.stream = (t,decoded,none)) (hmiddle : ∀ d ∈ decoded, ¬d.Stops)
    (tail : Bytes) (later : List (Bytes × Bytes)) (stop : Stop) :
    ∃ q, plainRead (entriesOf tail frames ++ later) stop s = (plainRead later stop q).after frames ∧
      q.stream = t ∧ Progressed decoded s q := by
  induction frames generalizing s decoded with
  | nil =>
    obtain ⟨rfl,rfl⟩ := decodeEach_nil hd
    exact ⟨s,rfl,rfl,hs,(List.append_nil _).symm,
      ⟨[],(List.append_nil _).symm,fun b hb => absurd hb List.not_mem_nil⟩,
      fun d hd => absurd hd List.not_mem_nil⟩
  | cons frame frames ih =>
    obtain ⟨d,r,rest,hfirst,hrest,rfl⟩ := decodeEach_cons_inv hd
    obtain ⟨hnot,hothers⟩ := List.forall_mem_cons.mp hmiddle
    obtain ⟨q,hhandle,hq,hadvanced⟩ := handle_middle hs hfirst hnot (frames.flatten ++ tail)
    have hnext : q.stream = r := hadvanced.stream
    obtain ⟨u,hread,hu,hprogressed⟩ := @ih _ q hq (by rw [hnext]; exact hrest) hothers
    refine ⟨u,?_,hu,hprogressed.valid,?_,?_,?_⟩
    · rw [entriesOf,List.cons_append,plainRead,hfirst,outcome_ok,handleThen_ok hhandle,hread,
        Reading.after_after]
      rfl
    · rw [hprogressed.summaries,hadvanced.summaries,List.append_assoc]
      rfl
    · obtain ⟨more,hmore,hnone⟩ := hadvanced.reports
      obtain ⟨others,hothers,hnone'⟩ := hprogressed.reports
      refine ⟨more ++ others,?_,List.forall_mem_append.mpr ⟨hnone,hnone'⟩⟩
      rw [hothers,hmore,List.append_assoc]
      rfl
    · exact List.forall_mem_cons.mpr ⟨hadvanced.summary,hprogressed.summary⟩

theorem completion_completed (s : Session) (detail : Nat) :
    (s.completion detail).completed = true := by
  unfold Session.completion
  split_ifs <;> rfl

theorem completeTrace_ne_ok (detail : Nat) (s t : Session) : completeTrace detail s ≠ .ok () t := by
  intro h
  cases hc : collate .finish s with
  | error e r =>
    rw [completeTrace,bind_of_error hc] at h
    cases h
  | ok _ r =>
    rw [completeTrace_eq hc] at h
    split_ifs at h

theorem handle_last {s : Session} (hs : s.Valid) {frame : Bytes} {d : Decoded} {t : Stream}
    (hd : decode frame s.stream = .ok d t) (hk : d.kind = .complete) (rest : Bytes) :
    ∃ stop q, handle d (.bytes 0) rest { s with stream := t } = .error stop q ∧
      stop = ({ s with stream := t } : Session).completion d.detail ∧
      q.reports = s.reports ++ if d.detail = 0 then s.pendingSummaries else [] := by
  have hmatch := handle_matches (.refl s) hs hs hd 0 0 rest
  revert hmatch
  cases hhandle : handle d (.bytes 0) rest { s with stream := t } with
  | error e q =>
    intro hmatch
    obtain ⟨hstop,hreports⟩ := hmatch.2.2.complete hk
    exact ⟨e,q,rfl,hstop,hreports⟩
  | ok _ q =>
    intro _
    rw [handle_other (by rw [hk]; nofun) (by rw [hk]; rfl),hk] at hhandle
    exact absurd hhandle (completeTrace_ne_ok _ _ _)

namespace CompleteTrace

variable {frames : List Bytes} {decoded : List Decoded} {last : Decoded}
  (htrace : CompleteTrace frames decoded last) (hobservation : ObservationOnly decoded)
include htrace

theorem frames_ne_nil : frames ≠ [] := by
  rintro rfl
  obtain ⟨t,haccepted⟩ := htrace.accepted
  have hnil := congrArg (fun result => result.2.1) haccepted
  have hends := htrace.ends
  change [] = decoded at hnil
  rw [← hnil] at hends
  cases hends

theorem arrives : Arrives frames.flatten (entriesOf [] frames) (.cleanEnd false) := by
  obtain ⟨t,haccepted⟩ := htrace.accepted
  have harrives := @arrives_entriesOf frames (decodeEach_headers haccepted).1 [] (.cleanEnd false) rfl
  rw [List.append_nil] at harrives
  exact harrives

include hobservation

theorem middle {before after : List Decoded} (hdecoded : decoded = before ++ after)
    (hafter : after ≠ []) : ∀ d ∈ before, ¬d.Stops := by
  intro d hd hstops
  have hmem : d ∈ decoded := by
    rw [hdecoded]
    exact List.mem_append_left _ hd
  rcases hstops with hfinal | ⟨hk,hinteractive⟩
  · obtain ⟨t,haccepted⟩ := htrace.accepted
    obtain ⟨_,parsed,haccept,hkinds⟩ := decodeEach_headers haccepted
    have hpairs := acceptAll_final_last haccept
    rw [← List.pairwise_map (f := fun frame : Frame => frame.header.kind)
      (R := fun kind _ => kind.isFinal = false),← hkinds,List.pairwise_map,hdecoded,
      List.pairwise_append] at hpairs
    obtain ⟨other,rest,rfl⟩ := List.exists_cons_of_ne_nil hafter
    have hopen := hpairs.2.2 d hd other List.mem_cons_self
    rw [hfinal] at hopen
    cases hopen
  · obtain ⟨hstdio,hkernel⟩ := hobservation d hmem hk
    exact hinteractive.elim hstdio hkernel

theorem plainRead_whole (endpoint : String) (stop : Stop) :
    ∃ q, ∃ s : Session, plainRead (entriesOf [] frames) stop { endpoint } =
        ⟨q,s.completion last.detail,frames⟩ ∧
      (∃ more, q.reports = more ++ (if last.detail = 0 then decoded.flatMap Decoded.summaries else []) ∧
        ∀ b ∈ more, b.observationSummary = none) ∧
      ∀ d ∈ decoded, d.kind = .observationSummary →
        ∃ b, batchOf d none false = .ok b ∧ d.summaries = [b] ∧
          b.observationSummary.isSome = true := by
  obtain ⟨t,haccepted⟩ := htrace.accepted
  obtain ⟨before,final,rfl⟩ := (List.eq_nil_or_concat frames).resolve_left htrace.frames_ne_nil
  rw [List.concat_eq_append] at haccepted ⊢
  obtain ⟨r,first,rest,hfirst,hrest,hdecoded⟩ := decodeEach_split haccepted
  obtain ⟨d,u,none,hd,hnil,rfl⟩ := decodeEach_cons_inv hrest
  obtain ⟨_,rfl⟩ := decodeEach_nil hnil
  have hlast : d = last := by
    have hends := htrace.ends
    rw [hdecoded,List.getLast?_append,List.getLast?_singleton,Option.some_or] at hends
    exact Option.some.inj hends
  subst hlast
  have hmiddle := htrace.middle hobservation hdecoded (List.cons_ne_nil _ _)
  have hstart := valid_start endpoint none (fun _ h => by cases h)
  obtain ⟨q,hread,hq,hprogressed⟩ := plainRead_middle hstart hfirst hmiddle final
    (entriesOf [] [final]) stop
  have hcomplete := htrace.complete
  obtain ⟨halt,v,hhandle,hstop,hreports⟩ := @handle_last q hprogressed.valid final d u
    (by rw [hq]; exact hd) hcomplete []
  have hsummary : d.kind ≠ .observationSummary := by
    rw [hcomplete]
    decide
  refine ⟨v,{ q with stream := u },?_,?_,?_⟩
  · have hflatten : [final].flatten ++ [] = final := by simp
    rw [entriesOf_append,hflatten,hread,entriesOf,entriesOf,plainRead,hq,hd,outcome_ok,handleThen,
      List.flatten_nil,List.append_nil,hhandle,← hstop]
    rfl
  · obtain ⟨more,hmore,hnone⟩ := hprogressed.reports
    refine ⟨more,?_,hnone⟩
    rw [hreports,hmore,hprogressed.summaries,hdecoded,List.flatMap_append,List.flatMap_singleton,
      summaries_of_ne hsummary,List.append_nil]
    rfl
  · rw [hdecoded]
    refine List.forall_mem_append.mpr ⟨hprogressed.summary,?_⟩
    intro other hother hk
    rw [List.mem_singleton.mp hother] at hk
    exact absurd hk hsummary

end CompleteTrace

theorem contents_eq_zero {a b : Contents} (h : a+b = 0) : a = 0 := by
  have hfield {α : Type} (field : Contents → List α) (hadd : field (a+b) = field a ++ field b)
      (hzero : field 0 = []) : field a = field 0 := by
    rw [h,hzero] at hadd
    rw [hzero]
    exact (List.append_eq_nil_iff.mp hadd.symm).1
  ext1
  · exact hfield Contents.blocks rfl rfl
  · exact hfield Contents.blockSequences rfl rfl
  · exact funext fun column => hfield (fun c => c.registers column) rfl rfl
  · exact hfield Contents.registerValues rfl rfl
  · exact hfield Contents.registerSequences rfl rfl
  · exact funext fun column => hfield (fun c => c.memory column) rfl rfl
  · exact hfield Contents.memoryValues rfl rfl
  · exact funext fun column => hfield (fun c => c.mapping column) rfl rfl
  · exact hfield Contents.memorySequences rfl rfl
  · exact funext fun column => hfield (fun c => c.context column) rfl rfl
  · exact hfield Contents.contextSequences rfl rfl
  · exact hfield Contents.layouts rfl rfl
  · exact hfield Contents.filters rfl rfl

theorem plainRead_refused {s : Session} {d : Decoded} (hd : decode frame s.stream = .ok d t)
    (hk : d.kind = .hello)
    (hinteractive : Has (UInt64.ofNat d.detail) featureStdio ∨
      Has (UInt64.ofNat d.detail) featureKernel)
    (rest : Bytes) (entries : List (Bytes × Bytes)) (stop : Stop) :
    ∃ message, plainRead ((frame,rest)::entries) stop s =
      ⟨({ s with stream := t } : Session).progress d,valueError message,[frame]⟩ := by
  rw [plainRead,hd,outcome_ok,handleThen,handle_hello hk]
  by_cases hstdio : Has (UInt64.ofNat d.detail) featureStdio
  · rw [if_pos hstdio]
    exact ⟨_,rfl⟩
  · rw [if_neg hstdio,if_pos (hinteractive.resolve_left hstdio)]
    exact ⟨_,rfl⟩

theorem CompleteTrace.plainRead_interactive {last : Decoded}
    (htrace : CompleteTrace frames decoded last) (hinteractive : ¬ObservationOnly decoded)
    (endpoint : String) (stop : Stop) (key : Key) :
    (plainRead (entriesOf [] frames) stop { endpoint }).session.said key = 0 := by
  obtain ⟨t,haccepted⟩ := htrace.accepted
  obtain ⟨_,parsed,haccept,hkinds⟩ := decodeEach_headers haccepted
  unfold ObservationOnly at hinteractive
  push Not at hinteractive
  obtain ⟨d,hd,hk,hfeatures⟩ := hinteractive
  obtain ⟨hello,hmem,hhello⟩ : ∃ frame ∈ parsed, frame.header.kind = .hello := by
    have hkind : Kind.hello ∈ decoded.map Decoded.kind := List.mem_map.mpr ⟨d,hd,hk⟩
    rw [hkinds] at hkind
    exact List.mem_map.mp hkind
  obtain ⟨rest,rfl,_,_,hothers⟩ := acceptAll_hello haccept hmem hhello
  obtain ⟨frame,frames,rfl⟩ := List.exists_cons_of_ne_nil htrace.frames_ne_nil
  obtain ⟨first,r,others,hfirst,_,rfl⟩ := decodeEach_cons_inv haccepted
  rw [List.map_cons,List.map_cons] at hkinds
  obtain ⟨hkind,hkinds⟩ := List.cons.inj hkinds
  have hd : d = first := by
    refine (List.mem_cons.mp hd).resolve_right fun hrest => ?_
    have hin : Kind.hello ∈ rest.map fun frame => frame.header.kind := by
      rw [← hkinds]
      exact List.mem_map.mpr ⟨d,hrest,hk⟩
    obtain ⟨other,hother,hagain⟩ := List.mem_map.mp hin
    exact hothers other hother hagain
  subst hd
  obtain ⟨message,hread⟩ := @plainRead_refused frame r { endpoint } d hfirst hk
    (or_iff_not_imp_left.mpr hfeatures) (frames.flatten ++ []) (entriesOf [] frames) stop
  rw [entriesOf,hread,Session.progress]
  dsimp only
  rw [if_pos hk]
  rfl

/-- What a read delivers does not depend on the schedule. -/
theorem poolRead_schedules (endpoint : String) (bytes : Bytes) (a b : Schedule) (ha : a.Clean)
    (hb : b.Clean) :
    (∀ batchBytes, (poolRead endpoint batchBytes a bytes).ending =
        (poolRead endpoint batchBytes b bytes).ending ∧
      (poolRead endpoint batchBytes a bytes).yielded.filter Batch.isReport =
        (poolRead endpoint batchBytes b bytes).yielded.filter Batch.isReport) ∧
    (∀ key, contents (Collator.ofKey key (poolRead endpoint 0 a bytes).yielded) =
      contents (Collator.ofKey key (poolRead endpoint 0 b bytes).yielded)) ∧
    ∀ frames decoded last, CompleteTrace frames decoded last → bytes = frames.flatten →
      (last.detail = 0 → ∀ batchBytes key,
        contents (Collator.ofKey key (poolRead endpoint batchBytes a bytes).yielded) =
          contents (Collator.ofKey key (poolRead endpoint batchBytes b bytes).yielded)) ∧
      (ObservationOnly decoded → ∀ batchBytes,
        (poolRead endpoint batchBytes a bytes).observed = frames ∧
          (poolRead endpoint batchBytes a bytes).observed.flatten = bytes) := by
  have hrows {batchBytes : Nat} {key : Key} {schedule : Schedule} (hclean : schedule.Clean)
      {entries : List (Bytes × Bytes)} {stop : Stop} (harrives : Arrives bytes entries stop)
      (hheld : batchBytes = 0 ∨ (plainRead entries stop { endpoint }).stop.completed = true) :
      contents (Collator.ofKey key (poolRead endpoint batchBytes schedule bytes).yielded) =
        (plainRead entries stop { endpoint }).session.said key := by
    obtain ⟨held,hsum,hzero⟩ := (poolRead_reads hclean endpoint batchBytes harrives).rows key
    rw [← hsum,hzero hheld,add_zero]
  obtain ⟨entries,stop,harrives⟩ := exists_arrives bytes
  refine ⟨fun batchBytes => ?_,fun key => ?_,fun frames decoded last htrace hbytes => ⟨?_,?_⟩⟩
  · have hreads := poolRead_reads ha endpoint batchBytes harrives
    have hreads' := poolRead_reads hb endpoint batchBytes harrives
    exact ⟨hreads.ending.trans hreads'.ending.symm,hreads.reports.trans hreads'.reports.symm⟩
  · exact (hrows ha harrives (.inl rfl)).trans (hrows hb harrives (.inl rfl)).symm
  · intro _ batchBytes key
    have hwhole := htrace.arrives
    rw [← hbytes] at hwhole
    by_cases hobservation : ObservationOnly decoded
    · obtain ⟨q,s,hread,_⟩ := htrace.plainRead_whole hobservation endpoint (.cleanEnd false)
      have hcompleted : (plainRead (entriesOf [] frames) (.cleanEnd false) { endpoint }).stop.completed =
          true := by
        rw [hread]
        exact completion_completed s last.detail
      exact (hrows ha hwhole (.inr hcompleted)).trans (hrows hb hwhole (.inr hcompleted)).symm
    · have hnothing {schedule : Schedule} (hclean : schedule.Clean) :
          contents (Collator.ofKey key (poolRead endpoint batchBytes schedule bytes).yielded) = 0 := by
        obtain ⟨held,hsum,_⟩ := (poolRead_reads hclean endpoint batchBytes hwhole).rows key
        rw [htrace.plainRead_interactive hobservation] at hsum
        exact contents_eq_zero hsum
      rw [hnothing ha,hnothing hb]
  · intro hobservation batchBytes
    have hwhole := htrace.arrives
    rw [← hbytes] at hwhole
    obtain ⟨q,s,hread,_⟩ := htrace.plainRead_whole hobservation endpoint (.cleanEnd false)
    have hobserved := (poolRead_reads ha endpoint batchBytes hwhole).observed
    rw [hread] at hobserved
    have hframes := hobserved (completion_completed s last.detail)
    exact ⟨hframes,by rw [hframes,hbytes]⟩

theorem CompleteTrace.of_decoded {frames : List Bytes}
    (hnone : (decodeEach frames {}).2.2.isNone = true)
    (hlast : (decodeEach frames {}).2.1.getLast?.map (fun d => (d.kind,d.detail)) =
      some (.complete,0)) :
    ∃ last, CompleteTrace frames (decodeEach frames {}).2.1 last ∧ last.detail = 0 := by
  obtain ⟨last,hends,hlast⟩ := Option.map_eq_some_iff.mp hlast
  obtain ⟨hkind,hdetail⟩ := Prod.mk.inj hlast
  refine ⟨last,⟨⟨(decodeEach frames {}).1,?_⟩,hends,hkind⟩,hdetail⟩
  rw [← Option.isNone_iff_eq_none.mp hnone]

/-- All bytes at once with every frame ready, and byte by byte with none. -/
def eagerSchedule : Schedule := ⟨fun _ => .bytes 4096,fun _ => .bytes 4096⟩

def slowSchedule : Schedule := ⟨fun _ => .bytes 1,fun _ => .bytes 0⟩

theorem eagerSchedule_clean : eagerSchedule.Clean := ⟨fun _ => ⟨_,rfl⟩,fun _ => ⟨_,rfl⟩⟩

theorem slowSchedule_clean : slowSchedule.Clean := ⟨fun _ => ⟨_,rfl⟩,fun _ => ⟨_,rfl⟩⟩

def pairFrames : List Frame :=
  [contextHello,contextPair 0,contextPair 1,⟨{ kind := .sourceEnd, sequence := 2 },none⟩,
    ⟨{ kind := .sourceEnd, source := 1, sequence := 2 },none⟩,⟨{ kind := .complete },none⟩]

def pairTrace : List Bytes := pairFrames.map encodeFrame

/-- The frames of both sources are read as a group or one by one, and merged up to 16 bytes. -/
theorem poolRead_schedules_pair :
    (poolRead "worker" 16 eagerSchedule pairTrace.flatten).ending =
      (poolRead "worker" 16 slowSchedule pairTrace.flatten).ending ∧
    (poolRead "worker" 16 slowSchedule pairTrace.flatten).observed = pairTrace ∧
    ∀ source < 2, (contents (Collator.ofKey (0,some source)
      (poolRead "worker" 16 slowSchedule pairTrace.flatten).yielded)).blocks = [0x1000] := by
  obtain ⟨last,htrace,hdetail⟩ := @CompleteTrace.of_decoded pairTrace (by decide +kernel)
    (by decide +kernel)
  have hobservation : ObservationOnly (decodeEach pairTrace {}).2.1 := by
    unfold ObservationOnly
    decide +kernel
  obtain ⟨hending,_,hcomplete⟩ := poolRead_schedules "worker" pairTrace.flatten slowSchedule
    eagerSchedule slowSchedule_clean eagerSchedule_clean
  obtain ⟨hrows,hobserved⟩ := hcomplete _ _ last htrace rfl
  refine ⟨(hending 16).1.symm,(hobserved hobservation 16).1,fun source hsource => ?_⟩
  rw [hrows hdetail]
  revert source
  decide +kernel

/-- The bytes end between two frames, or before the first. -/
def AtBoundary (frames : List Bytes) (bytes : Bytes) : Prop := ∃ count, bytes = (frames.take count).flatten

/-- A proper prefix of a trace ends inside one of its frames or right before it. -/
theorem cut_of_prefix (h : bytes <+: frames.flatten) (hne : bytes ≠ frames.flatten) :
    ∃ before frame after part, frames = before ++ frame::after ∧
      bytes = before.flatten ++ part ∧ part <+: frame ∧ part ≠ frame := by
  induction frames generalizing bytes with
  | nil => exact absurd (List.prefix_nil.mp h) hne
  | cons frame frames ih =>
    rw [List.flatten_cons] at h hne
    by_cases hshort : bytes.length < frame.length
    · refine ⟨[],frame,frames,bytes,rfl,rfl,?_,?_⟩
      · exact List.prefix_of_prefix_length_le h (List.prefix_append _ _) hshort.le
      · rintro rfl
        exact absurd hshort (Nat.lt_irrefl _)
    · obtain ⟨rest,rfl⟩ := List.prefix_of_prefix_length_le (List.prefix_append frame _) h
        (Nat.le_of_not_lt hshort)
      rw [List.prefix_append_right_inj] at h
      obtain ⟨before,other,after,part,rfl,rfl,hpart,hne'⟩ := ih h fun heq => hne (by rw [heq])
      exact ⟨frame::before,other,after,part,rfl,by rw [List.flatten_cons,List.append_assoc],hpart,hne'⟩

theorem atBoundary_iff {before : List Bytes} {after : List Bytes} (hpart : part <+: frame)
    (hne : part ≠ frame) :
    AtBoundary (before ++ frame::after) (before.flatten ++ part) ↔ part = [] := by
  constructor
  · rintro ⟨count,heq⟩
    obtain ⟨missing,rfl⟩ := hpart
    have hmissing : 0 < missing.length := by
      apply List.length_pos_iff.mpr
      rintro rfl
      exact hne (List.append_nil part).symm
    have hlength := congrArg List.length heq
    rw [List.take_append] at hlength
    by_cases hcount : count ≤ before.length
    · rw [Nat.sub_eq_zero_of_le hcount,List.take_zero,List.append_nil,List.length_append] at hlength
      have hle := ((List.take_prefix count before).flatten).length_le
      exact List.length_eq_zero_iff.mp (by omega)
    · obtain ⟨more,hmore⟩ := Nat.exists_eq_add_of_lt (Nat.lt_of_not_le hcount)
      have hsucc : count-before.length = more+1 := by omega
      rw [List.take_of_length_le (by omega),hsucc,List.take_succ_cons] at hlength
      simp only [List.flatten_append,List.flatten_cons,List.length_append] at hlength
      omega
  · rintro rfl
    refine ⟨before.length,?_⟩
    rw [List.take_left',List.append_nil]
    rfl

theorem no_summary (h : Reads batchBytes result r)
    (hreports : ∀ b ∈ r.session.reports, b.observationSummary = none) :
    ∀ b ∈ result.yielded, b.observationSummary = none := by
  intro b hb
  cases hreport : b.isReport with
  | true =>
    apply hreports b
    rw [← h.reports]
    exact List.mem_filter.mpr ⟨hb,hreport⟩
  | false =>
    simp only [Batch.isReport,Bool.or_eq_false_iff] at hreport
    exact Option.not_isSome_iff_eq_none.mp (by rw [hreport.2]; exact Bool.false_ne_true)

theorem filter_summaries (h : Reads batchBytes result r) :
    (result.yielded.filter fun b => b.observationSummary.isSome) =
      r.session.reports.filter fun b => b.observationSummary.isSome := by
  rw [← h.reports,List.filter_filter]
  apply List.filter_congr
  intro b _
  cases hsome : b.observationSummary.isSome with
  | false => rfl
  | true => simp [Batch.isReport,hsome]

theorem forall₂_summaries
    (h : ∀ d ∈ decoded, d.kind = .observationSummary → ∃ b, batchOf d none false = .ok b ∧
      d.summaries = [b] ∧ b.observationSummary.isSome = true) :
    List.Forall₂ (fun d b => batchOf d none false = .ok b)
        (decoded.filter fun d => d.kind = .observationSummary) (decoded.flatMap Decoded.summaries) ∧
      ∀ b ∈ decoded.flatMap Decoded.summaries, b.observationSummary.isSome = true := by
  induction decoded with
  | nil => exact ⟨.nil,fun b hb => absurd hb List.not_mem_nil⟩
  | cons d decoded ih =>
    obtain ⟨hfirst,hrest⟩ := List.forall_mem_cons.mp h
    obtain ⟨hpairs,hsome⟩ := ih hrest
    rw [List.flatMap_cons]
    by_cases hk : d.kind = .observationSummary
    · obtain ⟨b,hb,hsingle,hsummary⟩ := hfirst hk
      rw [hsingle,List.filter_cons,if_pos (decide_eq_true hk)]
      exact ⟨.cons hb hpairs,List.forall_mem_cons.mpr ⟨hsummary,hsome⟩⟩
    · rw [summaries_of_ne hk,List.filter_cons,if_neg (by simpa using hk)]
      exact ⟨hpairs,hsome⟩

def published (summary : Cpu2Tensor.ObservationSummary) : ObservationSummary where
  sources := summary.sources
  transitionCapacity := summary.transitionCapacity
  contextCapacity := summary.contextCapacity
  blocks := summary.blocks
  transitions := summary.transitions
  distinctTransitions := summary.distinct
  transitionOverflow := summary.transitionOverflow
  contextChanges := summary.contextChanges
  retainedContexts := summary.retainedContexts
  contextOverflow := summary.contextOverflow

def summaryFrames (frames : List Bytes) : List (Header × Bytes) :=
  frames.filterMap fun frame => (frameHeader frame).toOption.bind fun h =>
    if h.kind = .observationSummary then some (h,frame.drop headerBytes) else none

theorem summaryBatch_published {source : Nat} {bytes : Bytes} {b : Batch}
    (h : (summaryBatch source bytes).toOption.toList = [b]) :
    b.source = some source ∧
      b.observationSummary = some (published (loadObservationSummary bytes)) := by
  unfold summaryBatch at h
  split_ifs at h
  · cases h
  · cases h
    exact ⟨rfl,rfl⟩

theorem summaries_frame {frame : Bytes} {d : Decoded} {s t : Stream}
    (hd : decode frame s = .ok d t)
    (hsummary : d.kind = .observationSummary → ∃ b, d.summaries = [b]) :
    (d.summaries.map fun b => (b.source,b.observationSummary)) =
      (summaryFrames [frame]).map fun frame =>
        (some frame.1.source.toNat,some (published (loadObservationSummary frame.2))) := by
  obtain ⟨header,payload,hheader,_,hpayload,rfl⟩ := decode_eq_ok hd
  by_cases hk : header.kind = .observationSummary
  · obtain ⟨b,hb⟩ := hsummary hk
    have hbytes : (frame.drop headerBytes).take (payloadSize header) = frame.drop headerBytes := by
      apply List.take_of_length_le
      rw [List.length_drop,(headerSize_of_frameHeader hheader).2]
      omega
    unfold decodePayload at hpayload
    rw [hk,hbytes] at hpayload
    obtain rfl := Except.ok.inj hpayload
    have hbatch : (summaryBatch header.source.toNat (frame.drop headerBytes)).toOption.toList = [b] := by
      unfold Decoded.summaries decodedFrame at hb
      rw [hk] at hb
      exact hb
    obtain ⟨hsource,hpublished⟩ := summaryBatch_published hbatch
    rw [hb,List.map_singleton,hsource,hpublished]
    simp [summaryFrames,hheader,hk,Except.toOption]
  · rw [summaries_of_ne hk]
    simp [summaryFrames,hheader,hk,Except.toOption]

theorem summaries_published {frames : List Bytes} {decoded : List Decoded} {s t : Stream}
    (h : decodeEach frames s = (t,decoded,none))
    (hsummary : ∀ d ∈ decoded, d.kind = .observationSummary → ∃ b, d.summaries = [b]) :
    ((decoded.flatMap Decoded.summaries).map fun b => (b.source,b.observationSummary)) =
      (summaryFrames frames).map fun frame =>
        (some frame.1.source.toNat,some (published (loadObservationSummary frame.2))) := by
  induction frames generalizing s decoded with
  | nil =>
    obtain ⟨_,rfl⟩ := decodeEach_nil h
    rfl
  | cons frame frames ih =>
    obtain ⟨d,r,rest,hd,hrest,rfl⟩ := decodeEach_cons_inv h
    obtain ⟨hfirst,hothers⟩ := List.forall_mem_cons.mp hsummary
    have hsplit : summaryFrames (frame::frames) = summaryFrames [frame] ++ summaryFrames frames :=
      List.filterMap_append (l := [frame])
    rw [hsplit,List.map_append,List.flatMap_cons,List.map_append,summaries_frame hd hfirst,
      ih hrest hothers]

/-- No proper prefix of a trace looks complete, and a whole trace gives its summaries. -/
theorem poolRead_truncated (endpoint : String) (batchBytes : Nat) (schedule : Schedule)
    (hclean : schedule.Clean) (frames : List Bytes) (decoded : List Decoded) (last : Decoded)
    (htrace : CompleteTrace frames decoded last) (hobservation : ObservationOnly decoded) :
    (∀ bytes, bytes <+: frames.flatten → bytes ≠ frames.flatten → ∃ message outcome,
      (poolRead endpoint batchBytes schedule bytes).ending =
        .raised (.trace .terminal message outcome) ∧
      (AtBoundary frames bytes → outcome.reason = .unknownDisconnection) ∧
      (¬AtBoundary frames bytes → outcome.reason = .truncatedStream) ∧
      ∀ b ∈ (poolRead endpoint batchBytes schedule bytes).yielded, b.observationSummary = none) ∧
    (last.detail = 0 → (∃ outcome,
        (poolRead endpoint batchBytes schedule frames.flatten).ending = .returned outcome ∧
        outcome.reason = .complete ∧ outcome.complete = true) ∧
      List.Forall₂ (fun d b => batchOf d none false = .ok b)
        (decoded.filter fun d => d.kind = .observationSummary)
        ((poolRead endpoint batchBytes schedule frames.flatten).yielded.filter fun b =>
          b.observationSummary.isSome) ∧
      (((poolRead endpoint batchBytes schedule frames.flatten).yielded.filter fun b =>
          b.observationSummary.isSome).map fun b => (b.source,b.observationSummary)) =
        (summaryFrames frames).map fun frame =>
          (some frame.1.source.toNat,some (published (loadObservationSummary frame.2)))) ∧
    (last.detail ≠ 0 → (∃ message outcome,
        (poolRead endpoint batchBytes schedule frames.flatten).ending =
          .raised (.trace .terminal message outcome) ∧ outcome.reason = .targetExit) ∧
      ∀ b ∈ (poolRead endpoint batchBytes schedule frames.flatten).yielded,
        b.observationSummary = none) := by
  obtain ⟨q,s,hwhole,⟨more,hreports,hnone⟩,hsummary⟩ :=
    htrace.plainRead_whole hobservation endpoint (.cleanEnd false)
  have hreads := poolRead_reads hclean endpoint batchBytes htrace.arrives
  rw [hwhole] at hreads
  refine ⟨fun bytes hbytes hne => ?_,fun hzero => ?_,fun hnonzero => ?_⟩
  · obtain ⟨before,frame,after,part,rfl,rfl,hpart,hcut⟩ := cut_of_prefix hbytes hne
    obtain ⟨t,haccepted⟩ := htrace.accepted
    obtain ⟨hheaders,_⟩ := decodeEach_headers haccepted
    obtain ⟨r,first,rest,hfirst,hrest,rfl⟩ := decodeEach_split haccepted
    obtain ⟨header,hheader⟩ := hheaders frame (by simp)
    have harrives := arrives_entriesOf (fun other hother => hheaders other (List.mem_append_left _ hother))
      (nextFrame_cut hheader hpart hcut)
    obtain ⟨d,_,others,_,_,rfl⟩ := decodeEach_cons_inv hrest
    obtain ⟨u,hread,_,hprogressed⟩ := plainRead_middle
      (valid_start endpoint none (fun _ h => by cases h)) hfirst
      (htrace.middle hobservation rfl (List.cons_ne_nil d others)) part [] (.cleanEnd (part ≠ []))
    have hcutReads := poolRead_reads hclean endpoint batchBytes harrives
    rw [List.append_nil] at hread
    rw [hread] at hcutReads
    have hending := hcutReads.ending
    have hnosummary := no_summary hcutReads (by
      obtain ⟨others,hothers,hnone⟩ := hprogressed.reports
      change ∀ b ∈ u.reports, _
      rw [hothers]
      exact hnone)
    change _ = u.conclude (.cleanEnd (part ≠ [])) at hending
    rw [atBoundary_iff hpart hcut]
    by_cases hnil : part = []
    · rw [decide_eq_false (not_not.mpr hnil)] at hending
      exact ⟨_,_,hending,fun _ => rfl,fun hnot => absurd hnil hnot,hnosummary⟩
    · rw [decide_eq_true hnil] at hending
      exact ⟨_,_,hending,fun heq => absurd heq hnil,fun _ => rfl,hnosummary⟩
  · rw [hzero,if_pos rfl] at hreports
    obtain ⟨hpairs,hsome⟩ := forall₂_summaries hsummary
    have hending := hreads.ending
    rw [hzero] at hending
    have hmore : (more.filter fun b => b.observationSummary.isSome) = [] := by
      rw [List.filter_eq_nil_iff]
      intro b hb
      rw [hnone b hb]
      exact Bool.false_ne_true
    have hyielded : ((poolRead endpoint batchBytes schedule frames.flatten).yielded.filter fun b =>
        b.observationSummary.isSome) = decoded.flatMap Decoded.summaries := by
      rw [filter_summaries hreads]
      change q.reports.filter _ = _
      rw [hreports,List.filter_append,hmore,List.nil_append,List.filter_eq_self.mpr hsome]
    obtain ⟨t,haccepted⟩ := htrace.accepted
    rw [hyielded]
    refine ⟨⟨_,hending,rfl,rfl⟩,hpairs,summaries_published haccepted fun d hd hk => ?_⟩
    obtain ⟨b,_,hb,_⟩ := hsummary d hd hk
    exact ⟨b,hb⟩
  · rw [if_neg hnonzero,List.append_nil] at hreports
    have hending := hreads.ending
    unfold Session.completion at hending
    rw [if_pos hnonzero] at hending
    refine ⟨⟨_,_,hending,?_⟩,no_summary hreads (by
      change ∀ b ∈ q.reports, _
      rw [hreports]
      exact hnone)⟩
    unfold Session.completeOutcome Session.makeOutcome
    exact if_neg hnonzero

def summaryTrace : List Bytes :=
  (reducedTrace ++ [(⟨{ kind := .complete },none⟩ : Frame)]).map encodeFrame

/-- Cut off after its summary the trace gives no summary, and whole it gives the one it holds. -/
theorem poolRead_truncated_summary :
    (∃ message outcome, (poolRead "worker" 16 slowSchedule (summaryTrace.take 4).flatten).ending =
        .raised (.trace .terminal message outcome) ∧ outcome.reason = .unknownDisconnection) ∧
    (∀ b ∈ (poolRead "worker" 16 slowSchedule (summaryTrace.take 4).flatten).yielded,
      b.observationSummary = none) ∧
    ((poolRead "worker" 16 slowSchedule summaryTrace.flatten).yielded.filter fun b =>
        b.observationSummary.isSome).map (fun b => (b.source,b.observationSummary)) =
      [(some 0,some (published (loadObservationSummary (summaryPayload 2 1 1 1 1))))] := by
  obtain ⟨last,htrace,hdetail⟩ := @CompleteTrace.of_decoded summaryTrace (by decide +kernel)
    (by decide +kernel)
  have hobservation : ObservationOnly (decodeEach summaryTrace {}).2.1 := by
    unfold ObservationOnly
    decide +kernel
  obtain ⟨hcut,hwhole,_⟩ := poolRead_truncated "worker" 16 slowSchedule slowSchedule_clean
    summaryTrace _ last htrace hobservation
  obtain ⟨message,outcome,hraised,hboundary,_,hnone⟩ := hcut (summaryTrace.take 4).flatten
    (List.take_prefix 4 summaryTrace).flatten (by decide +kernel)
  refine ⟨⟨message,outcome,hraised,hboundary ⟨4,rfl⟩⟩,hnone,?_⟩
  rw [(hwhole hdetail).2.2]
  decide +kernel

end Cpu2Tensor.Client
