import Cpu2Tensor.Client.Delivery

/-!
# Sessions that say the same

Two sessions agree when they differ only in what is already yielded and what the collator still
holds back.  Handling a decoded frame keeps that.
-/

namespace Cpu2Tensor.Client
open Library

namespace Session

def held (s : Session) (key : Key) : List Batch := (s.collator.map fun c => c.pendingOf key).getD []

def said (s : Session) (key : Key) : Contents :=
  contents (Collator.ofKey key s.yielded) + contents (s.held key)

def reports (s : Session) : List Batch := s.yielded.filter Batch.isReport

def facts (s : Session) : Session := { s with collator := none, yielded := [] }

/-- What the collator holds back is well formed and within its bounds. -/
structure Holding (shape : MemoryShape) (collator : Option Collator) : Prop where
  target : ∀ c, collator = some c → 1 ≤ c.targetBytes
  consistent : ∀ c, collator = some c → c.Consistent fun _ => shape
  bounded : ∀ c, collator = some c → c.Bounded
  rows : ∀ c, collator = some c → c.Holds fun b => b.isReport = false

structure Valid (s : Session) : Prop where
  features : s.stream.started = true → OpenFeatures s.stream.features
  reduced : s.stream.started = true →
    s.reducedObservation = decide (Has s.stream.features featureObservationReduction)
  grouping : s.contextGrouping = true → s.stream.started = true ∧ ContextOnly s.stream.features
  named : ∀ source, (s.stream.lanes source).registers ≠ none → s.names.get? source ≠ none
  summaries : ∀ b ∈ s.pendingSummaries, b.isReport = true ∧ b.contents = 0 ∧
    b.observationSummary.isSome = true
  -- Before the Hello nothing is held back, so that any shape fits.
  holding : ∀ shape, (s.stream.started = true → shape = streamShape s.stream.features) →
    Holding shape s.collator

end Session

section Facts

variable {s p : Session} (h : s.facts = p.facts)
include h

theorem stream_of_facts : s.stream = p.stream := by
  have hfield := congrArg Session.stream h
  exact hfield

theorem names_of_facts : s.names = p.names := by
  have hfield := congrArg Session.names h
  exact hfield

theorem reduced_of_facts : s.reducedObservation = p.reducedObservation := by
  have hfield := congrArg Session.reducedObservation h
  exact hfield

theorem grouping_of_facts : s.contextGrouping = p.contextGrouping := by
  have hfield := congrArg Session.contextGrouping h
  exact hfield

theorem summaries_of_facts : s.pendingSummaries = p.pendingSummaries := by
  have hfield := congrArg Session.pendingSummaries h
  exact hfield

/-- A session knows the same after anything that touches only its delivery. -/
theorem Session.Valid.of_facts (hp : p.Valid) (hheld : ∀ shape,
    (p.stream.started = true → shape = streamShape p.stream.features) →
      Session.Holding shape s.collator) : s.Valid := by
  refine ⟨?_,?_,?_,?_,?_,?_⟩
  · rw [stream_of_facts h]
    exact hp.features
  · rw [stream_of_facts h,reduced_of_facts h]
    exact hp.reduced
  · rw [stream_of_facts h,grouping_of_facts h]
    exact hp.grouping
  · rw [stream_of_facts h,names_of_facts h]
    exact hp.named
  · rw [summaries_of_facts h]
    exact hp.summaries
  · rw [stream_of_facts h]
    exact hheld

end Facts

/-- Nothing but the progress of delivery differs. -/
structure Agrees (s p : Session) : Prop where
  facts : s.facts = p.facts
  said : s.said = p.said
  reports : s.reports = p.reports

variable {batches : List Batch} {d : Decoded} {p s t : Session} {request : Collator.Call}
  {α : Type}

theorem Agrees.map (h : Agrees s p) (f : Session → Session)
    (hfacts : ∀ s, (f s).facts = (f s.facts).facts) (hcollator : ∀ s, (f s).collator = s.collator)
    (hyielded : ∀ s, (f s).yielded = s.yielded) : Agrees (f s) (f p) := by
  have hsaid (s : Session) : (f s).said = s.said := by
    funext key
    rw [Session.said,Session.said,Session.held,Session.held,hcollator,hyielded]
  refine ⟨?_,?_,?_⟩
  · rw [hfacts s,hfacts p,h.facts]
  · rw [hsaid,hsaid,h.said]
  · rw [Session.reports,Session.reports,hyielded,hyielded]
    exact h.reports

structure Collated (shape : MemoryShape) (request : Collator.Call) (s t : Session) : Prop where
  facts : t.facts = s.facts
  said : ∀ key, t.said key = s.said key + contents (Collator.ofKey key request.added)
  reports : t.reports = s.reports
  holding : Session.Holding shape t.collator
  finished : request = .finish → ∀ key, t.held key = []

theorem filter_isReport (h : ∀ b ∈ batches, b.isReport = false) :
    batches.filter Batch.isReport = [] := by
  rw [List.filter_eq_nil_iff]
  intro b hb
  rw [h b hb]
  exact Bool.false_ne_true

theorem collate_none (hc : s.collator = none) (request : Collator.Call) :
    collate request s = emit request.added s := by
  have hget : (get : SessionM Session) s = .ok s s := rfl
  rw [collate,bind_of_ok hget,hc]

theorem collate_some {c after : Collator} {out : List Batch} (hc : s.collator = some c)
    (hcall : c.call request = .ok (after,out)) :
    collate request s = .ok () { s with collator := some after, yielded := s.yielded ++ out } := by
  have hget : (get : SessionM Session) s = .ok s s := rfl
  rw [collate,bind_of_ok hget,hc]
  dsimp only
  rw [hcall]
  rfl

theorem collate_ok {shape : MemoryShape} {request : Collator.Call} {s : Session}
    (hs : Session.Holding shape s.collator)
    (hadded : ∀ b ∈ request.added, Collator.WellFormed (fun _ => shape) b ∧ b.isReport = false) :
    ∃ t, collate request s = .ok () t ∧ Collated shape request s t := by
  cases hc : s.collator with
  | none =>
    refine ⟨_,collate_none hc request,rfl,fun key => ?_,?_,?_,fun _ key => ?_⟩
    · rw [Session.said,Session.said,Session.held,Session.held]
      dsimp only
      rw [hc,Collator.ofKey_append,contents_append]
      exact (add_zero _).trans (congrArg (· + _) (add_zero _).symm)
    · rw [Session.reports,List.filter_append,filter_isReport fun b hb => (hadded b hb).2,
        List.append_nil]
      rfl
    · exact ⟨hs.target,hs.consistent,hs.bounded,hs.rows⟩
    · rw [Session.held]
      dsimp only
      rw [hc]
      rfl
  | some c =>
    obtain ⟨after,out,hcall,hconsistent,hbounded,htarget,hclosed,hcontents⟩ :=
      Collator.call_ok (hs.target c hc) (hs.consistent c hc) (hs.bounded c hc)
        fun b hb => (hadded b hb).1
    obtain ⟨hout,hrows⟩ := Collator.call_holds Collator.inherited_isReport (hs.rows c hc)
      (fun b hb => (hadded b hb).2) hcall
    refine ⟨_,collate_some hc hcall,rfl,fun key => ?_,?_,?_,?_⟩
    · rw [Session.said,Session.said,Session.held,Session.held]
      dsimp only
      rw [hc,Collator.ofKey_append,contents_append,add_assoc,add_assoc]
      exact congrArg (contents _ + ·) (hcontents key)
    · rw [Session.reports,List.filter_append,filter_isReport hout,List.append_nil]
      rfl
    · refine ⟨?_,?_,?_,?_⟩ <;> intro other hother <;> obtain rfl := Option.some.inj hother
      · exact htarget ▸ hs.target c hc
      · exact hconsistent
      · exact hbounded
      · exact hrows
    · rintro rfl key
      exact hclosed key

theorem Agrees.collated {shape : MemoryShape} {q : Session} (h : Agrees s p)
    (hs : Collated shape request s t) (hp : Collated shape request p q) : Agrees t q := by
  refine ⟨?_,?_,?_⟩
  · rw [hs.facts,hp.facts,h.facts]
  · funext key
    rw [hs.said,hp.said,h.said]
  · rw [hs.reports,hp.reports,h.reports]

theorem Collated.valid (hs : s.Valid) (hstarted : s.stream.started = true)
    (h : Collated (streamShape s.stream.features) request s t) : t.Valid := by
  apply hs.of_facts h.facts
  intro shape hshape
  rw [hshape hstarted]
  exact h.holding

theorem contents_reports (h : ∀ b ∈ batches, b.contents = 0) (key : Key) :
    contents (Collator.ofKey key batches) = 0 := by
  apply List.sum_eq_zero
  intro c hc
  obtain ⟨b,hb,rfl⟩ := List.mem_map.mp hc
  exact h b (List.mem_of_mem_filter hb)

theorem Agrees.emit (h : Agrees s p) {others : List Batch} (heq : batches = others)
    (hempty : ∀ b ∈ batches, b.contents = 0) :
    Agrees { s with yielded := s.yielded ++ batches } { p with yielded := p.yielded ++ others } := by
  subst heq
  have hsaid (s : Session) : ({ s with yielded := s.yielded ++ batches } : Session).said = s.said := by
    funext key
    rw [Session.said,Session.said]
    dsimp only
    rw [Collator.ofKey_append,contents_append,contents_reports hempty,add_zero]
    rfl
  refine ⟨h.facts,?_,?_⟩
  · rw [hsaid,hsaid,h.said]
  · have hreports := h.reports
    rw [Session.reports,Session.reports] at hreports ⊢
    rw [List.filter_append,List.filter_append,hreports]

theorem Session.Valid.emit (hs : s.Valid) (batches : List Batch) :
    ({ s with yielded := s.yielded ++ batches } : Session).Valid :=
  ⟨hs.features,hs.reduced,hs.grouping,hs.named,hs.summaries,hs.holding⟩

variable {b : Batch} {bytes : Bytes} {features : UInt64}

theorem decode_eq_ok {s t : Stream} (hd : decode bytes s = .ok d t) :
    ∃ h payload, frameHeader bytes = .ok h ∧
      acceptFrame ⟨h,some (bytes.drop headerBytes)⟩ s = .ok () t ∧
      decodePayload t.features h (bytes.drop headerBytes) = .ok payload ∧
      d = decodedFrame h payload := by
  cases hh : frameHeader bytes with
  | error message =>
    unfold decode at hd
    rw [hh] at hd
    cases hd
  | ok h =>
    rw [decode_eq hh] at hd
    cases hr : acceptFrame ⟨h,some (bytes.drop headerBytes)⟩ s with
    | error fault r =>
      rw [hr] at hd
      cases hd
    | ok _ r =>
      rw [hr] at hd
      dsimp only at hd
      cases hp : decodePayload r.features h (bytes.drop headerBytes) with
      | error fault =>
        rw [hp] at hd
        cases hd
      | ok payload =>
        rw [hp] at hd
        cases hd
        exact ⟨h,payload,rfl,hr,hp,rfl⟩

def Stop.completed : Stop → Bool
  | .returned outcome => outcome.complete
  | .raised (.trace _ _ outcome) => outcome.complete
  | _ => false

structure Stopped (stop : Stop) (s p : Session) : Prop where
  agrees : Agrees s p
  flushed : stop.completed = true → ∀ key, s.held key = [] ∧ p.held key = []

def Decoded.summaries (d : Decoded) : List Batch :=
  match d.kind, d.payload with
  | .observationSummary, .bytes bytes => (summaryBatch d.source bytes).toOption.toList
  | _, _ => []

theorem summaries_of_ne (hk : d.kind ≠ .observationSummary) : d.summaries = [] := by
  unfold Decoded.summaries
  split
  · next hkind _ => exact absurd hkind hk
  · rfl

/-- A frame that ends the session: the last one of a trace, or the Hello of an interactive worker. -/
def Decoded.Stops (d : Decoded) : Prop :=
  d.kind.isFinal = true ∨ (d.kind = .hello ∧
    (Has (UInt64.ofNat d.detail) featureStdio ∨ Has (UInt64.ofNat d.detail) featureKernel))

/-- What a frame in the middle of a trace does to the summaries and reports of a session. -/
structure Advanced (d : Decoded) (s t : Session) : Prop where
  stream : t.stream = s.stream
  summaries : t.pendingSummaries = s.pendingSummaries ++ d.summaries
  reports : ∃ more, t.reports = s.reports ++ more ∧ ∀ b ∈ more, b.observationSummary = none
  summary : d.kind = .observationSummary →
    ∃ b, batchOf d none false = .ok b ∧ d.summaries = [b] ∧ b.observationSummary.isSome = true

theorem Advanced.refl (hk : d.kind ≠ .observationSummary) (hstream : t.stream = s.stream)
    (hsummaries : t.pendingSummaries = s.pendingSummaries) (hreports : t.reports = s.reports) :
    Advanced d s t := by
  refine ⟨hstream,?_,⟨[],?_,fun b hb => absurd hb List.not_mem_nil⟩,fun heq => absurd heq hk⟩
  · rw [hsummaries,summaries_of_ne hk,List.append_nil]
  · rw [hreports,List.append_nil]

def Session.completion (s : Session) (detail : Nat) : Stop :=
  if detail ≠ 0 then
    .raised (.trace .terminal ("Target exited with code " ++ toString detail) (s.completeOutcome detail))
  else .returned (s.completeOutcome detail)

structure Halted (d : Decoded) (s : Session) (stop : Stop) (t : Session) : Prop where
  stops : d.Stops
  complete : d.kind = .complete → stop = s.completion d.detail ∧
    t.reports = s.reports ++ if d.detail = 0 then s.pendingSummaries else []

/-- Two results of one decoded frame, the first in the session `s`. -/
def Matches (d : Decoded) (s : Session) :
    EStateM.Result Stop Session Unit → EStateM.Result Stop Session Unit → Prop
  | .ok _ t, .ok _ q => Agrees t q ∧ t.Valid ∧ q.Valid ∧ Advanced d s t
  | .error e t, .error e' q => e = e' ∧ Stopped e t q ∧ Halted d s e t
  | _, _ => False

theorem Matches.received (hk : d.kind ≠ .complete) {dataReceived : Bool}
    {x y : EStateM.Result Stop Session Unit} (h : Matches d { s with dataReceived } x y) :
    Matches d s x y := by
  cases x with
  | ok _ t =>
    cases y with
    | ok _ q =>
      obtain ⟨hagrees,ht,hq,hadvanced⟩ := h
      exact ⟨hagrees,ht,hq,hadvanced.stream,hadvanced.summaries,hadvanced.reports,hadvanced.summary⟩
    | error e q => exact h
  | error e t =>
    cases y with
    | ok _ q => exact h
    | error e' q =>
      obtain ⟨heq,hstopped,hhalted⟩ := h
      exact ⟨heq,hstopped,hhalted.stops,fun hcomplete => absurd hcomplete hk⟩

theorem Agrees.progress (h : Agrees s p) (d : Decoded) : Agrees (s.progress d) (p.progress d) := by
  apply h.map (fun s => s.progress d)
  all_goals
    intro s
    unfold Session.progress
    dsimp only
    split_ifs <;> rfl

theorem progress_advanced (hk : d.kind ≠ .observationSummary) (s : Session) :
    Advanced d s (s.progress d) := by
  apply Advanced.refl hk
  all_goals
    unfold Session.progress
    dsimp only
    split_ifs <;> rfl

theorem openFeatures_hello {version : UInt16} (hf : helloFault version features = none)
    (hstdio : ¬Has features featureStdio) (hkernel : ¬Has features featureKernel) :
    OpenFeatures features := by
  refine ⟨hstdio,hkernel,fun hwindows => ?_⟩
  simp only [helloFault,check_eq_none] at hf
  obtain ⟨_,_,_,_,_,_,_,hf,_⟩ := hf
  exact hf ⟨hwindows,hkernel⟩

theorem handle_hello (hk : d.kind = .hello) (trailing : Arrival) (rest : Bytes) (s : Session) :
    handle d trailing rest s =
      if Has (UInt64.ofNat d.detail) featureStdio then
        .error (valueError "Use StdioEnv for an interactive worker") (s.progress d)
      else if Has (UInt64.ofNat d.detail) featureKernel then
        .error (valueError "Use KernelEnv for an interactive system worker") (s.progress d)
      else .ok () (s.progress d) := by
  unfold handle
  change (if _ then _ else _ : SessionM Unit) (s.progress d) = _
  by_cases hstdio : Has (UInt64.ofNat d.detail) featureStdio
  · rw [if_pos ⟨hk,hstdio⟩,if_pos hstdio]
    rfl
  rw [if_neg fun h => hstdio h.2,if_neg hstdio]
  by_cases hkernel : Has (UInt64.ofNat d.detail) featureKernel
  · rw [if_pos ⟨hk,hkernel⟩,if_pos hkernel]
    rfl
  rw [if_neg fun h => hkernel h.2,if_neg hkernel,hk]
  rfl

theorem handle_delivered (hk : Kind.isDelivered d.kind = true) (trailing : Arrival) (rest : Bytes)
    (s : Session) : handle d trailing rest s = deliver d { s with dataReceived := true } := by
  have hhello : d.kind ≠ .hello := by
    intro heq
    rw [heq] at hk
    cases hk
  have hprogress : s.progress d = { s with dataReceived := true } := by
    rw [Session.progress,if_neg hhello,if_pos hk]
  unfold handle
  change (if _ then _ else _ : SessionM Unit) (s.progress d) = _
  rw [if_neg fun h => hhello h.1,if_neg fun h => hhello h.1,if_pos hk,hprogress]

theorem handle_other (hhello : d.kind ≠ .hello) (hk : Kind.isDelivered d.kind = false)
    (trailing : Arrival) (rest : Bytes) (s : Session) :
    handle d trailing rest s = (match d.kind with
      | .registerSchema => addNames d
      | .sourceEnd => collate (.endSource d.source 0)
      | .complete => completeTrace d.detail
      | .error => do throw ((← get).failure d.detail)
      | .terminalReport => do
        throw ((← get).reportedTerminal (UInt64.ofNat d.detail) trailing rest)
      | _ => pure () : SessionM Unit) s := by
  have hprogress : s.progress d = s := by
    rw [Session.progress,if_neg hhello,if_neg (by rw [hk]; exact Bool.false_ne_true)]
  unfold handle
  change (if _ then _ else _ : SessionM Unit) (s.progress d) = _
  rw [hprogress]
  refine (congrFun (if_neg fun h => hhello h.1) s).trans ?_
  refine (congrFun (if_neg fun h => hhello h.1) s).trans ?_
  exact congrFun (if_neg (by rw [hk]; exact Bool.false_ne_true)) s

section Deliver

variable {d : Decoded} {b : Batch} {s : Session}
  (hb : batchOf d (s.names.get? d.source) s.reducedObservation = .ok b)
include hb

theorem deliver_eq : deliver d s = (if d.kind = .observationSummary then
      modify fun s => { s with pendingSummaries := s.pendingSummaries ++ [b] }
    else if s.reducedObservation = true ∧ (d.kind = .blockTransitions ∨ d.kind = .reducedContext) then
      emit [b]
    else collate (.add b) : SessionM Unit) s := by
  have hget : (get : SessionM Session) s = .ok s s := rfl
  rw [deliver,bind_of_ok hget,hb]

theorem deliver_summary (hk : d.kind = .observationSummary) :
    deliver d s = .ok () { s with pendingSummaries := s.pendingSummaries ++ [b] } := by
  rw [deliver_eq hb,if_pos hk]
  rfl

theorem deliver_report (hk : d.kind = .blockTransitions ∨ d.kind = .reducedContext)
    (hreduced : s.reducedObservation = true) :
    deliver d s = .ok () { s with yielded := s.yielded ++ [b] } := by
  have hsummary : d.kind ≠ .observationSummary := by
    rcases hk with hk | hk <;> rw [hk] <;> nofun
  rw [deliver_eq hb,if_neg hsummary,if_pos ⟨hreduced,hk⟩]
  rfl

theorem deliver_rows (hk : Kind.isReduced d.kind = false) : deliver d s = collate (.add b) s := by
  have hne {kind : Kind} (hkind : Kind.isReduced kind = true) : d.kind ≠ kind := by
    intro heq
    rw [heq,hkind] at hk
    cases hk
  rw [deliver_eq hb,if_neg (hne rfl),if_neg]
  rintro ⟨_,hkind | hkind⟩
  · exact hne rfl hkind
  · exact hne rfl hkind

end Deliver

theorem summaries_of_batch {names : Option Names} {reduced : Bool}
    (hk : d.kind = .observationSummary) (hb : batchOf d names reduced = .ok b) :
    batchOf d none false = .ok b ∧ d.summaries = [b] := by
  unfold batchOf at hb ⊢
  unfold Decoded.summaries
  rw [hk] at hb ⊢
  cases hpayload : d.payload <;> rw [hpayload] at hb <;> try cases hb
  dsimp only at hb ⊢
  rw [hb]
  exact ⟨rfl,rfl⟩

theorem isReduced_cases {kind : Kind} (h : Kind.isReduced kind = true) :
    kind = .observationSummary ∨ kind = .blockTransitions ∨ kind = .reducedContext := by
  cases kind <;> simp [Kind.isReduced] at h ⊢

theorem deliver_matches (h : Agrees s p) (hs : s.Valid) (hp : p.Valid)
    (hstarted : s.stream.started = true)
    (hb : batchOf d (s.names.get? d.source) s.reducedObservation = .ok b)
    (hdelivered : Delivered s.stream.features d.kind b) :
    Matches d s (deliver d s) (deliver d p) := by
  have hbp : batchOf d (p.names.get? d.source) p.reducedObservation = .ok b := by
    rw [← names_of_facts h.facts,← reduced_of_facts h.facts]
    exact hb
  by_cases hreduced : Kind.isReduced d.kind = true
  · obtain ⟨hhas,hcontents⟩ := hdelivered.reduced hreduced
    have hflag : s.reducedObservation = true := (hs.reduced hstarted).trans (decide_eq_true hhas)
    rcases isReduced_cases hreduced with hk | hk
    · rw [deliver_summary hb hk,deliver_summary hbp hk]
      have hsummaries : ∀ (s : Session), s.Valid → ({ s with
          pendingSummaries := s.pendingSummaries ++ [b] } : Session).Valid := by
        intro s hs
        refine ⟨hs.features,hs.reduced,hs.grouping,hs.named,?_,hs.holding⟩
        refine List.forall_mem_append.mpr ⟨hs.summaries,?_⟩
        intro other hother
        rw [List.mem_singleton.mp hother]
        refine ⟨hdelivered.report.trans hreduced,hcontents,hdelivered.summary.trans ?_⟩
        exact decide_eq_true hk
      refine ⟨h.map (fun s => { s with pendingSummaries := s.pendingSummaries ++ [b] })
        (fun _ => rfl) (fun _ => rfl) (fun _ => rfl),hsummaries s hs,hsummaries p hp,rfl,?_,
        ⟨[],(List.append_nil _).symm,fun b hb => absurd hb List.not_mem_nil⟩,?_⟩
      · rw [(summaries_of_batch hk hb).2]
      · intro _
        obtain ⟨hbatch,hsingle⟩ := summaries_of_batch hk hb
        exact ⟨b,hbatch,hsingle,hdelivered.summary.trans (decide_eq_true hk)⟩
    · rw [deliver_report hb hk hflag,deliver_report hbp hk ((reduced_of_facts h.facts).symm.trans hflag)]
      have hsummary : d.kind ≠ .observationSummary := by
        rcases hk with hk | hk <;> rw [hk] <;> nofun
      have hnone : b.observationSummary = none := by
        have hsome := hdelivered.summary
        rw [decide_eq_false hsummary] at hsome
        exact Option.not_isSome_iff_eq_none.mp (by rw [hsome]; exact Bool.false_ne_true)
      refine ⟨h.emit rfl ?_,hs.emit _,hp.emit _,rfl,?_,⟨[b],?_,?_⟩,fun heq => absurd heq hsummary⟩
      · intro other hother
        rw [List.mem_singleton.mp hother]
        exact hcontents
      · rw [summaries_of_ne hsummary,List.append_nil]
      · rw [Session.reports,List.filter_append]
        have hreport : [b].filter Batch.isReport = [b] := by
          rw [List.filter_cons,if_pos (hdelivered.report.trans hreduced),List.filter_nil]
        rw [hreport]
        rfl
      · intro other hother
        rw [List.mem_singleton.mp hother]
        exact hnone
  · rw [Bool.not_eq_true] at hreduced
    rw [deliver_rows hb hreduced,deliver_rows hbp hreduced]
    have hadded : ∀ other ∈ (Collator.Call.add b).added,
        Collator.WellFormed (fun _ => streamShape s.stream.features) other ∧
          other.isReport = false := by
      intro other hother
      rw [List.mem_singleton.mp hother]
      exact ⟨hdelivered.rows hreduced,hdelivered.report.trans hreduced⟩
    have hstream := stream_of_facts h.facts
    obtain ⟨t,hcollate,ht⟩ := collate_ok (hs.holding _ fun _ => rfl) hadded
    obtain ⟨q,hcollate',hq⟩ := collate_ok (hp.holding _ fun _ => congrArg (streamShape ∘ Stream.features)
      hstream) hadded
    rw [hcollate,hcollate']
    have hsummary : d.kind ≠ .observationSummary := by
      intro heq
      rw [heq] at hreduced
      cases hreduced
    refine ⟨h.collated ht hq,ht.valid hs hstarted,?_,.refl hsummary (stream_of_facts ht.facts)
      (summaries_of_facts ht.facts) ht.reports⟩
    rw [hstream] at hstarted hq
    exact hq.valid hp hstarted

section Accept

variable {s : Session} (hs : s.Valid) {frame : Frame} {t : Stream}
  (hr : acceptFrame frame s.stream = .ok () t)
include hs hr

theorem Session.Valid.accept (hstarted : s.stream.started = true) {names : Dict Nat Names}
    (hnames : ∀ source, (t.lanes source).registers ≠ none → names.get? source ≠ none) :
    ({ s with stream := t, names } : Session).Valid := by
  obtain ⟨ht,hfeatures,_⟩ := acceptFrame_features hstarted hr
  refine ⟨?_,?_,?_,hnames,hs.summaries,?_⟩
  · intro _
    change OpenFeatures t.features
    rw [hfeatures]
    exact hs.features hstarted
  · intro _
    change s.reducedObservation = decide (Has t.features featureObservationReduction)
    rw [hfeatures]
    exact hs.reduced hstarted
  · intro hgrouping
    change t.started = true ∧ ContextOnly t.features
    rw [hfeatures]
    exact ⟨ht,(hs.grouping hgrouping).2⟩
  · intro shape hshape
    change t.started = true → shape = streamShape t.features at hshape
    rw [hfeatures] at hshape
    exact hs.holding shape fun _ => hshape ht

theorem Session.Valid.named_of_accept (hk : frame.header.kind ≠ .registerSchema) (source : Nat)
    (hsome : (t.lanes source).registers ≠ none) : s.names.get? source ≠ none := by
  apply hs.named source
  intro hnone
  exact hsome (acceptFrame_registers hr hnone fun h => hk h.1)

theorem Session.Valid.named_of_schema (names : Names) (source : Nat)
    (hsome : (t.lanes source).registers ≠ none) :
    (s.names.set frame.header.source.toNat names).get? source ≠ none := by
  rw [Dict.get?_set]
  split_ifs with hsource
  · exact Option.some_ne_none names
  · apply hs.named source
    intro hnone
    exact hsome (acceptFrame_registers hr hnone fun h => hsource h.2)

end Accept

theorem acceptFrame_unstarted {frame : Frame} {s t : Stream} (hs : s.started = false)
    (hr : acceptFrame frame s = .ok () t) : headerFault frame.header = none ∧
      (frame.header.kind = .terminalReport ∨ frame.header.kind = .hello) ∧
      t = s.opened frame.header := by
  by_cases hm : frame.header.kind = .mixed
  · obtain ⟨hstarted,_⟩ := acceptFrame_mixed hm hr
    rw [hs] at hstarted
    cases hstarted
  · rw [acceptFrame_of_ne_mixed hm] at hr
    obtain ⟨hf,_,⟨_,hk,ht⟩ | ⟨hstarted,_⟩⟩ := acceptRun_eq_ok.mp hr
    · exact ⟨hf,hk,ht⟩
    · rw [hs] at hstarted
      cases hstarted

theorem has_and_not_or {a b : UInt64} :
    ¬Has features (a ||| b) ↔ ¬Has features a ∧ ¬Has features b := by
  rw [has_or,not_or]

theorem Session.Valid.hello (hs : s.Valid) (hstarted : s.stream.started = false) {h : Header}
    {payload : Payload} (hk : h.kind = .hello) (hopen : OpenFeatures h.detail) :
    (({ s with stream := s.stream.opened h } : Session).progress (decodedFrame h payload)).Valid := by
  have hdetail : UInt64.ofNat (decodedFrame h payload).detail = h.detail := UInt64.ofNat_toNat
  have hopened : s.stream.opened h =
      { s.stream with started := true, version := h.version.toNat, features := h.detail } := by
    rw [Stream.opened,hk,if_neg (by decide)]
  have hkind : (decodedFrame h payload).kind = .hello := hk
  unfold Session.progress
  dsimp only
  rw [if_pos hkind,hdetail,hopened]
  refine ⟨fun _ => hopen,fun _ => rfl,?_,hs.named,hs.summaries,?_⟩
  · intro hgrouping
    obtain ⟨hcontext,hmixed,hrows⟩ := of_decide_eq_true hgrouping
    obtain ⟨hmemory,hregisters⟩ := has_and_not_or.mp hrows
    exact ⟨rfl,hmixed,hcontext,hmemory,hregisters⟩
  · intro shape _
    apply hs.holding shape
    intro hcontra
    rw [hstarted] at hcontra
    cases hcontra

theorem completeTrace_eq (ht : collate .finish s = .ok () t) (detail : Nat) :
    completeTrace detail s =
      if detail ≠ 0 then
        .error (.raised (.trace .terminal ("Target exited with code " ++ toString detail)
          (t.completeOutcome detail))) t
      else .error (.returned (t.completeOutcome detail))
        { t with yielded := t.yielded ++ t.pendingSummaries } := by
  unfold completeTrace
  rw [bind_of_ok ht]
  change (if detail ≠ 0 then _ else _ : SessionM Unit) t = _
  by_cases hd : detail ≠ 0
  · rw [if_pos hd,if_pos hd]
    rfl
  · rw [if_neg hd,if_neg hd]
    rfl

theorem completeOutcome_facts (s : Session) (detail : Nat) :
    s.completeOutcome detail = s.facts.completeOutcome detail := rfl

theorem completeTrace_matches (hk : d.kind = .complete) (h : Agrees s p) (hs : s.Valid)
    (hp : p.Valid) : Matches d s (completeTrace d.detail s) (completeTrace d.detail p) := by
  have hshape : p.stream.started = true →
      streamShape s.stream.features = streamShape p.stream.features :=
    fun _ => congrArg (streamShape ∘ Stream.features) (stream_of_facts h.facts)
  obtain ⟨t,hcollate,ht⟩ := @collate_ok _ .finish _ (hs.holding _ fun _ => rfl)
    fun b hb => absurd hb List.not_mem_nil
  obtain ⟨q,hcollate',hq⟩ := @collate_ok _ .finish _ (hp.holding _ hshape)
    fun b hb => absurd hb List.not_mem_nil
  have hagrees := h.collated ht hq
  have houtcome : t.completeOutcome d.detail = q.completeOutcome d.detail := by
    rw [completeOutcome_facts,hagrees.facts,← completeOutcome_facts]
  have hbefore : t.completeOutcome d.detail = s.completeOutcome d.detail := by
    rw [completeOutcome_facts,ht.facts,← completeOutcome_facts]
  have hsummaries := summaries_of_facts hagrees.facts
  have hflushed : ∀ key, t.held key = [] ∧ q.held key = [] :=
    fun key => ⟨ht.finished rfl key,hq.finished rfl key⟩
  have hstops : d.Stops := .inl (by rw [hk]; rfl)
  rw [completeTrace_eq hcollate,completeTrace_eq hcollate',← houtcome,hbefore]
  split_ifs with hdetail
  · refine ⟨rfl,⟨hagrees,fun _ => hflushed⟩,hstops,fun _ => ⟨?_,?_⟩⟩
    · rw [Session.completion,if_pos hdetail]
    · rw [if_neg hdetail,List.append_nil]
      exact ht.reports
  · refine ⟨rfl,⟨hagrees.emit hsummaries ?_,fun _ => hflushed⟩,hstops,fun _ => ⟨?_,?_⟩⟩
    · rw [summaries_of_facts ht.facts]
      exact fun b hb => (hs.summaries b hb).2.1
    · rw [Session.completion,if_neg hdetail]
    · rw [if_pos (not_not.mp hdetail),Session.reports,List.filter_append,
        summaries_of_facts ht.facts,List.filter_eq_self.mpr fun b hb => (hs.summaries b hb).1]
      exact congrArg (· ++ _) ht.reports

theorem failure_completed (s : Session) (detail : Nat) : (s.failure detail).completed = false := by
  unfold Session.failure
  split <;> rfl

theorem reportedTerminal_completed (s : Session) (detail : UInt64) (trailing : Arrival)
    (rest : Bytes) : (s.reportedTerminal detail trailing rest).completed = false := by
  unfold Session.reportedTerminal
  cases trailing with
  | fault fault => cases fault <;> dsimp only <;> split_ifs <;> rfl
  | bytes limit => dsimp only; split_ifs <;> rfl

/-- A stop before the end that both sessions compute from what they know. -/
theorem matches_error (hd : d.Stops) (hk : d.kind ≠ .complete) {r : Session} (h : Agrees s p)
    (stop : Session → Stop) (hfacts : ∀ s, stop s = stop s.facts)
    (hcompleted : ∀ s, (stop s).completed = false) :
    Matches d r (.error (stop s) s) (.error (stop p) p) := by
  refine ⟨?_,⟨h,fun htrue => ?_⟩,hd,fun hcomplete => absurd hcomplete hk⟩
  · rw [hfacts s,hfacts p,h.facts]
  · rw [hcompleted] at htrue
    cases htrue

theorem Session.Valid.received (hs : s.Valid) (dataReceived : Bool) :
    ({ s with dataReceived } : Session).Valid :=
  ⟨hs.features,hs.reduced,hs.grouping,hs.named,hs.summaries,hs.holding⟩

theorem addNames_schema {update : List (Nat × String)} (hd : d.payload = .schema update)
    (s : Session) : addNames d s = .ok () { s with
      names := s.names.set d.source (updatedNames (s.names.get? d.source) update) } := by
  unfold addNames
  rw [hd]
  rfl

section Frame

variable {s p : Session} (h : Agrees s p) (hs : s.Valid) (hp : p.Valid) {header : Header}
  {bytes : Bytes} {payload : Payload} {t : Stream}
  (hr : acceptFrame ⟨header,some bytes⟩ s.stream = .ok () t)
include h hs hp hr

theorem handle_first (hstarted : s.stream.started = false) (seen limit : Nat) (rest : Bytes) :
    Matches (decodedFrame header payload) { s with stream := t }
      (handle (decodedFrame header payload) (.bytes seen) rest { s with stream := t })
      (handle (decodedFrame header payload) (.bytes limit) rest { p with stream := t }) := by
  have hstream := stream_of_facts h.facts
  have hstep : Agrees { s with stream := t } { p with stream := t } :=
    h.map (fun s => { s with stream := t }) (fun _ => rfl) (fun _ => rfl) (fun _ => rfl)
  obtain ⟨hf,hkind,ht⟩ := acceptFrame_unstarted hstarted hr
  dsimp only at hf hkind ht
  rcases hkind with hk | hk
  · have hkind : (decodedFrame header payload).kind = .terminalReport := hk
    rw [handle_other (by rw [hkind]; nofun) (by rw [hkind]; rfl),
      handle_other (by rw [hkind]; nofun) (by rw [hkind]; rfl),hkind]
    exact matches_error (.inl (by rw [hkind]; rfl)) (by rw [hkind]; nofun) hstep
      (fun s => s.reportedTerminal _ (.bytes seen) rest) (fun _ => rfl)
      fun s => reportedTerminal_completed s _ _ _
  · have hkind : (decodedFrame header payload).kind = .hello := hk
    have hcomplete : (decodedFrame header payload).kind ≠ .complete := by rw [hkind]; nofun
    have hdetail : UInt64.ofNat (decodedFrame header payload).detail = header.detail :=
      UInt64.ofNat_toNat
    have hprogress := hstep.progress (decodedFrame header payload)
    rw [handle_hello hkind,handle_hello hkind,hdetail]
    by_cases hstdio : Has header.detail featureStdio
    · rw [if_pos hstdio,if_pos hstdio]
      exact matches_error (.inr ⟨hkind,.inl (hdetail ▸ hstdio)⟩) hcomplete hprogress
        (fun _ => valueError _) (fun _ => rfl) (fun _ => rfl)
    rw [if_neg hstdio,if_neg hstdio]
    by_cases hkernel : Has header.detail featureKernel
    · rw [if_pos hkernel,if_pos hkernel]
      exact matches_error (.inr ⟨hkind,.inr (hdetail ▸ hkernel)⟩) hcomplete hprogress
        (fun _ => valueError _) (fun _ => rfl) (fun _ => rfl)
    rw [if_neg hkernel,if_neg hkernel]
    have hopen := openFeatures_hello (helloFault_of_headerFault hk hf) hstdio hkernel
    refine ⟨hprogress,?_,?_,?_⟩
    · rw [ht]
      exact hs.hello hstarted hk hopen
    · rw [ht,hstream]
      exact hp.hello (hstream ▸ hstarted) hk hopen
    · exact progress_advanced (by rw [hkind]; nofun) _

theorem handle_batch (hstarted : s.stream.started = true) (hlen : bytes.length = payloadSize header)
    (hpayload : decodePayload t.features header bytes = .ok payload)
    (hk : Kind.isDelivered header.kind = true) (trailing trailing' : Arrival) (rest : Bytes) :
    Matches (decodedFrame header payload) { s with stream := t }
      (handle (decodedFrame header payload) trailing rest { s with stream := t })
      (handle (decodedFrame header payload) trailing' rest { p with stream := t }) := by
  have hrp := hr
  rw [stream_of_facts h.facts] at hrp
  have hstartedp := hstarted
  rw [stream_of_facts h.facts] at hstartedp
  have hschema : header.kind ≠ .registerSchema := by
    intro heq
    rw [heq] at hk
    cases hk
  obtain ⟨ht,hfeatures,_⟩ := acceptFrame_features hstarted hr
  have hvalid := (hs.accept hr hstarted (hs.named_of_accept hr hschema)).received true
  have hvalidp := (hp.accept hrp hstartedp (hp.named_of_accept hrp hschema)).received true
  have hstep : Agrees { s with stream := t, dataReceived := true }
      { p with stream := t, dataReceived := true } :=
    h.map (fun s => { s with stream := t, dataReceived := true }) (fun _ => rfl) (fun _ => rfl)
      (fun _ => rfl)
  obtain ⟨decoded,b,hdecoded,hb,hdelivered⟩ := batchOf_accepted (hs.features hstarted) hk hlen hr
    (hs.named header.source.toNat)
  obtain rfl := Except.ok.inj (hpayload.symm.trans hdecoded)
  rw [← hs.reduced hstarted] at hb
  rw [← hfeatures] at hdelivered
  rw [handle_delivered hk,handle_delivered hk]
  have hcomplete : (decodedFrame header payload).kind ≠ .complete := by
    intro heq
    change header.kind = .complete at heq
    rw [heq] at hk
    cases hk
  exact (deliver_matches hstep hvalid hvalidp ht hb hdelivered).received hcomplete

theorem handle_control (hstarted : s.stream.started = true)
    (hpayload : decodePayload t.features header bytes = .ok payload)
    (hk : Kind.isDelivered header.kind = false) (seen limit : Nat) (rest : Bytes) :
    Matches (decodedFrame header payload) { s with stream := t }
      (handle (decodedFrame header payload) (.bytes seen) rest { s with stream := t })
      (handle (decodedFrame header payload) (.bytes limit) rest { p with stream := t }) := by
  have hrp := hr
  rw [stream_of_facts h.facts] at hrp
  have hstartedp := hstarted
  rw [stream_of_facts h.facts] at hstartedp
  have hstep : Agrees { s with stream := t } { p with stream := t } :=
    h.map (fun s => { s with stream := t }) (fun _ => rfl) (fun _ => rfl) (fun _ => rfl)
  obtain ⟨ht,hfeatures,hhello⟩ := acceptFrame_features hstarted hr
  rw [handle_other hhello hk,handle_other hhello hk]
  by_cases hschema : header.kind = .registerSchema
  · have hkind : (decodedFrame header payload).kind = .registerSchema := hschema
    obtain ⟨update,rfl⟩ : ∃ update, payload = .schema update := by
      unfold decodePayload at hpayload
      rw [hschema] at hpayload
      exact ⟨_,(Except.ok.inj hpayload).symm⟩
    rw [hkind]
    dsimp only
    rw [addNames_schema rfl,addNames_schema rfl]
    refine ⟨hstep.map (fun s => { s with
        names := s.names.set header.source.toNat
          (updatedNames (s.names.get? header.source.toNat) update) })
      (fun _ => rfl) (fun _ => rfl) (fun _ => rfl),?_,?_,?_⟩
    · exact hs.accept hr hstarted (hs.named_of_schema hr _)
    · exact hp.accept hrp hstartedp (hp.named_of_schema hrp _)
    · exact .refl (by rw [hkind]; nofun) rfl rfl rfl
  have hvalid := hs.accept hr hstarted (hs.named_of_accept hr hschema)
  have hvalidp := hp.accept hrp hstartedp (hp.named_of_accept hrp hschema)
  by_cases hend : header.kind = .sourceEnd
  · have hkind : (decodedFrame header payload).kind = .sourceEnd := hend
    rw [hkind]
    dsimp only
    obtain ⟨r,hcollate,hafter⟩ := @collate_ok (streamShape t.features)
      (.endSource (decodedFrame header payload).source 0) { s with stream := t }
      (hvalid.holding _ fun _ => rfl) fun b hb => absurd hb List.not_mem_nil
    obtain ⟨q,hcollate',hafter'⟩ := @collate_ok (streamShape t.features)
      (.endSource (decodedFrame header payload).source 0) { p with stream := t }
      (hvalidp.holding _ fun _ => rfl) fun b hb => absurd hb List.not_mem_nil
    rw [hcollate,hcollate']
    exact ⟨hstep.collated hafter hafter',hafter.valid hvalid ht,hafter'.valid hvalidp ht,
      .refl (by rw [hkind]; nofun) (stream_of_facts hafter.facts) (summaries_of_facts hafter.facts)
        hafter.reports⟩
  by_cases hcomplete : header.kind = .complete
  · have hkind : (decodedFrame header payload).kind = .complete := hcomplete
    rw [hkind]
    exact completeTrace_matches hkind hstep hvalid hvalidp
  by_cases herror : header.kind = .error
  · have hkind : (decodedFrame header payload).kind = .error := herror
    rw [hkind]
    exact matches_error (.inl (by rw [hkind]; rfl)) hcomplete hstep (fun s => s.failure _)
      (fun _ => rfl) fun s => failure_completed s _
  by_cases hreport : header.kind = .terminalReport
  · have hkind : (decodedFrame header payload).kind = .terminalReport := hreport
    rw [hkind]
    exact matches_error (.inl (by rw [hkind]; rfl)) hcomplete hstep
      (fun s => s.reportedTerminal _ (.bytes seen) rest) (fun _ => rfl)
      fun s => reportedTerminal_completed s _ _ _
  · have hsummary : (decodedFrame header payload).kind ≠ .observationSummary := by
      intro heq
      change header.kind = .observationSummary at heq
      rw [heq] at hk
      cases hk
    have hpure : Matches (decodedFrame header payload) { s with stream := t }
        (.ok () { s with stream := t }) (.ok () { p with stream := t }) :=
      ⟨hstep,hvalid,hvalidp,.refl hsummary rfl rfl rfl⟩
    have hkind : (decodedFrame header payload).kind = header.kind := rfl
    rw [hkind]
    cases hcase : header.kind <;> first | exact hpure | exact absurd hcase ‹_›

end Frame

theorem handle_matches (h : Agrees s p) (hs : s.Valid) (hp : p.Valid) {t : Stream}
    (hd : decode bytes s.stream = .ok d t) (seen limit : Nat) (rest : Bytes) :
    Matches d { s with stream := t }
      (handle d (.bytes seen) rest { s with stream := t })
      (handle d (.bytes limit) rest { p with stream := t }) := by
  obtain ⟨header,payload,hheader,hr,hpayload,rfl⟩ := decode_eq_ok hd
  obtain ⟨_,hbytes,hlen⟩ := frameHeader_sized hheader
  obtain rfl := Option.some.inj hbytes
  cases hstarted : s.stream.started with
  | false => exact handle_first h hs hp hr hstarted seen limit rest
  | true =>
    cases hk : Kind.isDelivered header.kind with
    | true => exact handle_batch h hs hp hr hstarted hlen hpayload hk _ _ rest
    | false => exact handle_control h hs hp hr hstarted hpayload hk seen limit rest

def sessionOf {α : Type} : EStateM.Result Stop Session α → Session
  | .ok _ s => s
  | .error _ s => s

/-- A computation that keeps a property of the session, also when it throws. -/
def Keeps {α : Type} (P : Session → Prop) (x : SessionM α) : Prop := ∀ s, P s → P (sessionOf (x s))

/-- A property that delivering a batch does not touch. -/
structure Undelivered (P : Session → Prop) : Prop where
  yielded : ∀ s yielded, P s → P { s with yielded }
  names : ∀ s names, P s → P { s with names }
  summaries : ∀ s pendingSummaries, P s → P { s with pendingSummaries }
  collate : ∀ request, Keeps P (collate request)

section Keeps

variable {P : Session → Prop}

theorem Keeps.bind {β : Type} {x : SessionM α} {f : α → SessionM β} (hx : Keeps P x)
    (hf : ∀ a, Keeps P (f a)) : Keeps P (x >>= f) := by
  intro s hs
  have hstep := hx s hs
  cases hresult : x s with
  | error e t =>
    rw [bind_of_error hresult]
    rw [hresult] at hstep
    exact hstep
  | ok a t =>
    rw [bind_of_ok hresult]
    rw [hresult] at hstep
    exact hf a t hstep

theorem keeps_pure (a : α) : Keeps P (pure a : SessionM α) := fun _ hs => hs

theorem keeps_throw (stop : Stop) : Keeps P (throw stop : SessionM α) := fun _ hs => hs

theorem keeps_get : Keeps P (get : SessionM Session) := fun _ hs => hs

theorem keeps_modify {f : Session → Session} (hf : ∀ s, P s → P (f s)) :
    Keeps P (modify f : SessionM Unit) := hf

theorem modify_then {f : Session → Session} {g : Unit → SessionM α} {s : Session} (hs : P (f s))
    (hg : Keeps P (g ())) : P (sessionOf ((modify f >>= g) s)) := hg (f s) hs

namespace Undelivered

variable (hP : Undelivered P)
include hP

theorem emit (batches : List Batch) : Keeps P (emit batches) :=
  keeps_modify fun s hs => hP.yielded s _ hs

theorem deliver (d : Decoded) : Keeps P (deliver d) := by
  refine Keeps.bind keeps_get fun s => ?_
  split
  · exact keeps_throw _
  · split_ifs
    · exact keeps_modify fun s hs => hP.summaries s _ hs
    · exact hP.emit _
    · exact hP.collate _

theorem completeTrace (detail : Nat) : Keeps P (completeTrace detail) := by
  refine (hP.collate _).bind fun _ => Keeps.bind keeps_get fun s => ?_
  split_ifs
  · exact keeps_throw _
  · exact (hP.emit _).bind fun _ => keeps_throw _

/-- What a frame says about the progress of the trace outlasts its delivery. -/
theorem handle (d : Decoded) (trailing : Arrival) (rest : Bytes) {s : Session}
    (hs : P (s.progress d)) : P (sessionOf (handle d trailing rest s)) := by
  unfold Client.handle
  refine modify_then hs ?_
  dsimp only
  split_ifs
  · exact keeps_throw _
  · exact keeps_throw _
  · exact hP.deliver d
  · split
    · unfold addNames
      split
      · exact keeps_modify fun s hs => hP.names s _ hs
      · exact keeps_throw _
    · exact hP.collate _
    · exact hP.completeTrace _
    · exact Keeps.bind keeps_get fun _ => keeps_throw _
    · exact Keeps.bind keeps_get fun _ => keeps_throw _
    · exact keeps_pure ()

theorem handleAll (hprogress : ∀ s d, P s → P (s.progress d)) (trailing : Arrival) (rest : Bytes)
    (decoded : List Decoded) : Keeps P (handleAll trailing rest decoded) := by
  induction decoded with
  | nil => exact keeps_pure ()
  | cons d decoded ih =>
    exact Keeps.bind (fun s hs => hP.handle d trailing rest (hprogress s d hs)) fun _ => ih

end Undelivered

end Keeps

theorem undelivered_collator : Undelivered fun s => s.collator = none := by
  refine ⟨fun _ _ hs => hs,fun _ _ hs => hs,fun _ _ hs => hs,fun request s hs => ?_⟩
  rw [collate_none hs]
  exact hs

theorem progress_collator (s : Session) (d : Decoded) (hs : s.collator = none) :
    (s.progress d).collator = none := by
  unfold Session.progress
  dsimp only
  split_ifs <;> exact hs

section Loop

variable {schedule : Schedule} {next : Option Bytes → Connection → Session → Ended}

theorem handlePass_collator {c : Connection} {trailing : Arrival} {decoded : List Decoded}
    {s : Session} (hs : s.collator = none) {next : Session → Ended}
    (hnext : ∀ t : Session, t.collator = none → (next t).session.collator = none) :
    (handlePass c trailing decoded s next).session.collator = none := by
  have hstep := undelivered_collator.handleAll progress_collator trailing c.rest decoded s hs
  unfold handlePass
  cases hresult : handleAll trailing c.rest decoded s with
  | error stop t =>
    rw [hresult] at hstep
    exact hstep
  | ok _ t =>
    rw [hresult] at hstep
    exact hnext t hstep

variable (hnext : ∀ pending c, ∀ t : Session, t.collator = none →
  (next pending c t).session.collator = none)
include hnext

variable {c : Connection} {frame : Bytes}

theorem framePass_collator (hs : s.collator = none) :
    (framePass schedule frame c s next).session.collator = none := by
  unfold framePass
  cases decode frame s.stream with
  | error fault t => exact hs
  | ok d t =>
    rw [outcome_ok]
    exact handlePass_collator (s := { s with stream := t }) hs (hnext none c)

theorem groupPass_collator (hs : s.collator = none) :
    (groupPass schedule frame c s next).session.collator = none := by
  unfold groupPass
  dsimp only
  generalize readAhead schedule (maxContextGroupFrames-1) c = ahead
  cases (decodeContextFrames (frame::ahead.frames) s.stream).2 with
  | error e => exact hs
  | ok group =>
    dsimp only
    refine handlePass_collator
      (s := { s with stream := (decodeContextFrames (frame::ahead.frames) s.stream).1 }) hs ?_
    intro t ht
    split
    · exact ht
    · split
      · exact ht
      · exact hnext _ _ t ht

end Loop

theorem readLoop_collator {schedule : Schedule} (fuel : Nat) {pending : Option Bytes}
    {c : Connection} (hs : s.collator = none) :
    (readLoop schedule fuel pending c s).session.collator = none := by
  induction fuel generalizing pending c s with
  | zero => exact hs
  | succ fuel ih =>
    rw [readLoop]
    split
    · exact hs
    · split_ifs
      · exact groupPass_collator (fun _ _ _ ht => ih ht) hs
      · exact framePass_collator (fun _ _ _ ht => ih ht) hs

end Cpu2Tensor.Client
