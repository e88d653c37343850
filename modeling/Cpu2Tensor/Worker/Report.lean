import Cpu2Tensor.Worker.Deadline
import Cpu2Tensor.Client.Bounds
import Cpu2Tensor.Client.Completion

/-!
# The deadline report of the process worker

`report_deadline` of the process worker against the client that reads it.  The worker tracks what
it has forwarded, the client what it has received, and each has its own list of the kinds that
count as data; the client's validator has to take the report as well.
-/

namespace Cpu2Tensor.Process
open Library Client

/-- The process worker keeps the record of the kernel worker. -/
abbrev TerminalProgress := KernelTerminalProgress

def observationFrame (kind : Kind) : Bool :=
  kind ∈ [Kind.blocks,.registers,.memory,.addressContext,.executableLayout,.mixed,
    .blockTransitions,.transitionWindow,.observationSummary,.reducedContext]

def executionFrame (kind : Kind) : Bool :=
  kind ∈ [Kind.blocks,.registers,.memory,.addressContext,.mixed,.blockTransitions,
    .transitionWindow,.observationSummary,.reducedContext]

/-- The end of a pass of `run`: the frame has been sent. -/
def forwarded (progress : TerminalProgress) (h : Header) : TerminalProgress :=
  let progress :=
    if h.kind = .hello then { progress with helloSent := true, version := h.version.toNat }
    else progress
  if observationFrame h.kind then
    { progress with
      dataSent := true
      startObserved := progress.startObserved ||
        (progress.startConfigured && executionFrame h.kind) }
  else progress

/-- The progress of a worker with or without start and stop addresses. -/
def progressAfter (startPc stopPc : Bool) (frames : List Frame) : TerminalProgress :=
  frames.foldl (fun progress frame => forwarded progress frame.header)
    { startConfigured := startPc, stopConfigured := stopPc }

/-- The frame that `report_deadline` sends. -/
def reportFrame (progress : TerminalProgress) : Frame := ⟨reportHeader progress,some []⟩

/-- The report decodes, the client's validator takes it after the frames, and however the bytes
arrive on a connection that does not fail, the client ends the run with the deadline as its reason. -/
structure Classified (report : Frame) (frames : List Frame) : Prop where
  decodes : decodeHeader (encodeHeader report.header) = .ok report.header
  accepted : ∃ t, acceptAll (frames ++ [report]) {} = .ok () t
  raised : ∀ endpoint batchBytes schedule, Schedule.Clean schedule → ∃ cls message outcome,
    (poolRead endpoint batchBytes schedule ((frames ++ [report]).map encodeFrame).flatten).ending =
      .raised (.trace cls message outcome) ∧ outcome.reason = .maxRunDeadline

section Progress

variable {startPc stopPc : Bool} {frames : List Frame}

/-- What the worker has tracked, read off the frames it has sent. -/
structure Tracked (startPc stopPc : Bool) (frames : List Frame) (progress : TerminalProgress) :
    Prop where
  hello : progress.helloSent = true ↔ ∃ frame ∈ frames, frame.header.kind = .hello
  data : progress.dataSent = true ↔ ∃ frame ∈ frames, observationFrame frame.header.kind = true
  start : progress.startConfigured = startPc
  stop : progress.stopConfigured = stopPc
  started : progress.startObserved = true → startPc = true
  stopped : progress.stopObserved = false

variable {frame : Frame}

private theorem forwarded_tracked {progress : TerminalProgress}
    (ht : Tracked startPc stopPc frames progress) :
    Tracked startPc stopPc (frames ++ [frame]) (forwarded progress frame.header) := by
  obtain ⟨hhello,hdata,hstart,hstop,hstarted,hstopped⟩ := ht
  by_cases hk : frame.header.kind = .hello
  · have hobserved : observationFrame frame.header.kind = false := by rw [hk]; rfl
    refine ⟨?_,?_,?_,?_,?_,?_⟩ <;>
      simp_all [forwarded]
  · by_cases hobserved : observationFrame frame.header.kind = true
    · refine ⟨?_,?_,?_,?_,?_,?_⟩ <;>
        simp_all [forwarded]
      tauto
    · refine ⟨?_,?_,?_,?_,?_,?_⟩ <;>
        simp_all [forwarded]

theorem progressAfter_tracked (startPc stopPc : Bool) (frames : List Frame) :
    Tracked startPc stopPc frames (progressAfter startPc stopPc frames) := by
  induction frames using List.reverseRecOn with
  | nil => exact ⟨by simp [progressAfter],by simp [progressAfter],rfl,rfl,by simp [progressAfter],rfl⟩
  | append_singleton frames frame ih =>
    rw [progressAfter,List.foldl_concat]
    exact forwarded_tracked ih

/-- What the client has noted, read off the same frames. -/
structure Noted (startPc stopPc : Bool) (frames : List Frame) (session : Session) : Prop where
  hello : session.helloReceived = true ↔ ∃ frame ∈ frames, frame.header.kind = .hello
  data : session.dataReceived = true ↔ ∃ frame ∈ frames, Kind.isDelivered frame.header.kind = true
  configured : session.helloReceived = true →
    session.startConfigured = some startPc ∧ session.stopConfigured = some stopPc

/-- The plugin's Hello says whether start and stop addresses are set. -/
def Configured (startPc stopPc : Bool) (frames : List Frame) : Prop :=
  ∀ frame ∈ frames, frame.header.kind = .hello →
    startPc = decide (Has frame.header.detail featureWindow) ∧
    stopPc = decide (Has frame.header.detail featureStop)

private theorem exists_mem_snoc {p : Frame → Prop} :
    (∃ f ∈ frames ++ [frame], p f) ↔ (∃ f ∈ frames, p f) ∨ p frame := by
  simp [or_and_right,exists_or]

private theorem progress_noted {session : Session} (hn : Noted startPc stopPc frames session)
    (payload : Payload) (hc : frame.header.kind = .hello →
      startPc = decide (Has frame.header.detail featureWindow) ∧
      stopPc = decide (Has frame.header.detail featureStop)) :
    Noted startPc stopPc (frames ++ [frame])
      (session.progress (decodedFrame frame.header payload)) := by
  obtain ⟨hhello,hdata,hconfigured⟩ := hn
  by_cases hk : frame.header.kind = .hello
  · obtain ⟨hstart,hstop⟩ := hc hk
    have hdelivered : Kind.isDelivered frame.header.kind = false := by rw [hk]; rfl
    refine ⟨?_,?_,fun _ => ?_⟩
    · rw [exists_mem_snoc]
      simp [Session.progress,decodedFrame,hk]
    · rw [exists_mem_snoc,hdelivered]
      simp [Session.progress,decodedFrame,hk,hdata]
    · simp [Session.progress,decodedFrame,hk,hstart,hstop]
  · by_cases hdelivered : Kind.isDelivered frame.header.kind = true
    · have hprogress : session.progress (decodedFrame frame.header payload) =
          { session with dataReceived := true } := by
        simp [Session.progress,decodedFrame,hk,hdelivered]
      rw [hprogress]
      refine ⟨?_,?_,hconfigured⟩
      · rw [exists_mem_snoc]
        simp [hhello,hk]
      · rw [exists_mem_snoc]
        simp [hdelivered]
    · have hprogress : session.progress (decodedFrame frame.header payload) = session := by
        simp [Session.progress,decodedFrame,hk,hdelivered]
      rw [hprogress]
      refine ⟨?_,?_,hconfigured⟩
      · rw [exists_mem_snoc]
        simp [hhello,hk]
      · rw [exists_mem_snoc]
        simp [hdata,hdelivered]

private theorem undelivered_noted : Undelivered (Noted startPc stopPc frames) := by
  have hemit (batches : List Batch) : Client.Keeps (Noted startPc stopPc frames) (emit batches) :=
    keeps_modify fun _ hs => ⟨hs.hello,hs.data,hs.configured⟩
  refine ⟨fun _ _ hs => ⟨hs.hello,hs.data,hs.configured⟩,
    fun _ _ hs => ⟨hs.hello,hs.data,hs.configured⟩,
    fun _ _ hs => ⟨hs.hello,hs.data,hs.configured⟩,
    fun request => Client.Keeps.bind keeps_get fun s => ?_⟩
  split
  · exact hemit _
  · split
    · exact keeps_throw _
    · refine Client.Keeps.bind (keeps_modify ?_) fun _ => hemit _
      exact fun _ hs => ⟨hs.hello,hs.data,hs.configured⟩

/-- A frame after which the client goes on reading. -/
def Continues (frame : Frame) : Prop :=
  frame.header.kind.isFinal = false ∧ (frame.header.kind = .hello →
    ¬Has frame.header.detail featureStdio ∧ ¬Has frame.header.detail featureKernel)

private theorem continues_stops (hc : Continues frame) (payload : Payload) :
    ¬(decodedFrame frame.header payload).Stops := by
  have hdetail : UInt64.ofNat (decodedFrame frame.header payload).detail = frame.header.detail :=
    UInt64.ofNat_toNat
  rw [Decoded.Stops,hdetail]
  rintro (hfinal | ⟨hhello,hinteractive⟩)
  · exact Bool.false_ne_true (hc.1.symm.trans hfinal)
  · obtain ⟨hstdio,hkernel⟩ := hc.2 hhello
    exact hinteractive.elim hstdio hkernel

private theorem handle_report {report : Header} (hk : report.kind = .terminalReport)
    (payload : Payload) (trailing : Arrival) (rest : Bytes) (s : Session) :
    handle (decodedFrame report payload) trailing rest s =
      .error (s.reportedTerminal report.detail trailing rest) s := by
  have hkind : (decodedFrame report payload).kind = .terminalReport := hk
  have hdetail : UInt64.ofNat (decodedFrame report payload).detail = report.detail :=
    UInt64.ofNat_toNat
  rw [handle_other (by rw [hkind]; decide) (by rw [hkind]; rfl),hkind,hdetail]
  rfl

private theorem decode_forwarded {s t : Stream} (hsized : SizedFrame frame)
    (hr : acceptFrame frame s = .ok () t) :
    ∃ payload, decode (encodeFrame frame) s = .ok (decodedFrame frame.header payload) t := by
  obtain ⟨bytes,hbytes,hlen⟩ := hsized
  obtain ⟨header,content⟩ := frame
  obtain rfl : content = some bytes := hbytes
  obtain ⟨payload,hpayload⟩ := decodePayload_total hlen hr
  exact ⟨payload,decode_encodeFrame ⟨bytes,rfl,hlen⟩ hr hpayload⟩

/-- The client reads what the worker has forwarded and notes what the frames say. -/
theorem plainRead_forwarded {before : List Frame} {s : Session} (hs : s.Valid)
    (hnoted : Noted startPc stopPc before s) {t : Stream}
    (haccepted : acceptAll frames s.stream = .ok () t) (hsized : ∀ frame ∈ frames, SizedFrame frame)
    (hcontinues : ∀ frame ∈ frames, Continues frame) (hc : Configured startPc stopPc frames)
    (tail : Bytes) (later : List (Bytes × Bytes)) (stop : Stop) :
    ∃ q, plainRead (entriesOf tail (frames.map encodeFrame) ++ later) stop s =
        (plainRead later stop q).after (frames.map encodeFrame) ∧
      q.stream = t ∧ Noted startPc stopPc (before ++ frames) q := by
  induction frames generalizing before s with
  | nil =>
    rw [List.append_nil]
    exact ⟨s,rfl,acceptAll_nil.mp haccepted,hnoted⟩
  | cons frame frames ih =>
    obtain ⟨r,hfirst,hrest⟩ := acceptAll_cons.mp haccepted
    obtain ⟨hframe,hsized⟩ := List.forall_mem_cons.mp hsized
    obtain ⟨hcontinue,hcontinues⟩ := List.forall_mem_cons.mp hcontinues
    obtain ⟨payload,hdecode⟩ := decode_forwarded hframe hfirst
    obtain ⟨q,hhandle,hq,hadvanced⟩ := handle_middle hs hdecode (continues_stops hcontinue payload)
      ((frames.map encodeFrame).flatten ++ tail)
    have hnext : q.stream = r := hadvanced.stream
    have hreceived : Noted startPc stopPc before { s with stream := r } :=
      ⟨hnoted.hello,hnoted.data,hnoted.configured⟩
    have hstep := undelivered_noted.handle (decodedFrame frame.header payload) (.bytes 0)
      ((frames.map encodeFrame).flatten ++ tail)
      (progress_noted hreceived payload (hc frame List.mem_cons_self))
    rw [hhandle] at hstep
    obtain ⟨u,hread,hu,hlast⟩ := @ih _ q hq hstep (by rw [hnext]; exact hrest) hsized hcontinues
      fun f hf => hc f (List.mem_cons_of_mem _ hf)
    refine ⟨u,?_,hu,?_⟩
    · rw [List.map_cons,entriesOf,List.cons_append,plainRead,hdecode,outcome_ok,handleThen_ok hhandle,
        hread,Reading.after_after]
      rfl
    · rw [List.append_assoc] at hlast
      exact hlast

end Progress

private theorem report_fields : ∀ hello data startConfigured startObserved stopConfigured : Bool,
    let progress : TerminalProgress :=
      ⟨hello,data,startConfigured,startObserved,stopConfigured,false,wireVersion⟩
    let detail := (reportHeader progress).detail
    let flags := (detail >>> 16).toUInt8
    detail.toUInt8 = terminalReportVersion ∧ (detail >>> 8).toUInt8 = 1 ∧
      decide (flags &&& terminalHello ≠ 0) = hello ∧ decide (flags &&& terminalData ≠ 0) = data ∧
      decide (flags &&& terminalStartConfigured ≠ 0) = startConfigured ∧
      decide (flags &&& terminalStopConfigured ≠ 0) = stopConfigured := by
  decide +kernel

variable {progress : TerminalProgress}

/-- `_raise_reported_terminal` names the deadline exactly when the worker's account of Hello, data
and boundaries is the client's, whatever the last look at the connection gives. -/
theorem reportedTerminal_classified {session : Session} (hstopped : progress.stopObserved = false)
    (trailing : Arrival) :
    (∃ cls message outcome, session.reportedTerminal (reportHeader progress).detail trailing [] =
        .raised (.trace cls message outcome) ∧ outcome.reason = .maxRunDeadline) ↔
      session.helloReceived = progress.helloSent ∧ session.dataReceived = progress.dataSent ∧
        (session.helloReceived = true →
          session.startConfigured = some progress.startConfigured ∧
          session.stopConfigured = some progress.stopConfigured) := by
  obtain ⟨hello,data,startConfigured,startObserved,stopConfigured,stopObserved,version⟩ := progress
  obtain rfl : stopObserved = false := hstopped
  obtain ⟨hversion,hreason,hhello,hdata,hstart,hstop⟩ :=
    report_fields hello data startConfigured startObserved stopConfigured
  change (∃ cls message outcome, session.reportedTerminal (reportHeader
    ⟨hello,data,startConfigured,startObserved,stopConfigured,false,wireVersion⟩).detail trailing [] =
      .raised (.trace cls message outcome) ∧ outcome.reason = .maxRunDeadline) ↔ _
  dsimp only at hversion hreason hhello hdata hstart hstop ⊢
  generalize (reportHeader
    ⟨hello,data,startConfigured,startObserved,stopConfigured,false,wireVersion⟩).detail = detail at *
  simp only [Session.reportedTerminal,hversion,hreason,hhello,hdata,hstart,hstop,ne_eq,not_true,
    or_self,if_false]
  constructor
  · rintro ⟨cls,message,outcome,heq,_⟩
    split at heq
    · cases heq
    · rename_i hprogress
      split at heq
      · cases heq
      · rename_i hboundary
        tauto
  · rintro ⟨hh,hd,hb⟩
    rw [if_neg (by tauto),if_neg (by tauto)]
    cases trailing with
    | bytes limit => exact ⟨_,_,_,rfl,rfl⟩
    | fault fault => cases fault <;> exact ⟨_,_,_,rfl,rfl⟩

variable {frames : List Frame} {s : Stream}

/-- The validator takes a report unless the trace has ended or still owes its layout. -/
theorem accept_report (hp : progress.Sound) :
    (∃ t, accept (reportHeader progress) (some []) s = .ok () t) ↔
      s.finished = false ∧ (s.started = true → s.version = wireVersion ∧
        (Has s.features featureExecutableLayout → s.layoutSeen = true)) := by
  have hfault : headerFault (reportHeader progress) = none := by
    have hd := reportHeader_decodes hp
    rw [decodeHeader_encodeHeader] at hd
    cases hf : headerFault (reportHeader progress) with
    | none => rfl
    | some message => simp [hf] at hd
  have hrun : accept (reportHeader progress) (some []) =
      acceptRun (reportHeader progress) (some []) :=
    @acceptFrame_of_ne_mixed ⟨reportHeader progress,some []⟩ (by simp [reportHeader])
  have hkind : (reportHeader progress).kind = .terminalReport := rfl
  rw [hrun]
  constructor
  · rintro ⟨t,ht⟩
    obtain ⟨_,hn,⟨hs,_⟩ | ⟨_,hv,_,hr⟩⟩ := acceptRun_eq_ok.mp ht
    · exact ⟨hn,fun h => by simp [hs] at h⟩
    · refine ⟨hn,fun _ => ⟨hv.symm,fun hlayout => ?_⟩⟩
      obtain ⟨hl,_⟩ | ⟨_,hready,_⟩ := acceptKind_eq_ok.mp hr
      · simp [hkind] at hl
      · by_contra hseen
        have := hready hlayout (by simpa using hseen)
        simp [hkind] at this
  · rintro ⟨hn,hs⟩
    by_cases hstarted : s.started = true
    · obtain ⟨hv,hlayout⟩ := hs hstarted
      have hready : s.layoutReady (reportHeader progress) := fun hf hseen => by
        simp [hlayout hf] at hseen
      exact ⟨{ s with finished := true },acceptRun_eq_ok.mpr ⟨hfault,hn,.inr ⟨hstarted,hv.symm,
        by simp [hkind],acceptKind_eq_ok.mpr (.inr ⟨by simp [hkind],hready,rfl⟩)⟩⟩⟩
    · exact ⟨_,acceptRun_eq_ok.mpr ⟨hfault,hn,.inl ⟨by simpa using hstarted,.inl hkind,rfl⟩⟩⟩

private theorem hello_of_data (haccepted : acceptAll frames {} = .ok () s) {frame : Frame}
    (hframe : frame ∈ frames) (hobserved : observationFrame frame.header.kind = true) :
    ∃ hello ∈ frames, hello.header.kind = .hello := by
  obtain ⟨rfl,_⟩ | ⟨report,rfl,hreport,_⟩ | ⟨hello,rest,rfl,hhello,_⟩ := accepted_first haccepted
  · cases hframe
  · rw [List.mem_singleton.mp hframe,hreport] at hobserved
    cases hobserved
  · exact ⟨hello,List.mem_cons_self,hhello⟩

/-- The layout that a Hello promises has been sent. -/
abbrev LayoutSent (frames : List Frame) : Prop :=
  ∀ hello ∈ frames, hello.header.kind = .hello →
    Has hello.header.detail featureExecutableLayout →
    ∃ frame ∈ frames, frame.header.kind = .executableLayout

/-- No Hello is that of an interactive worker. -/
abbrev Observing (frames : List Frame) : Prop :=
  ∀ hello ∈ frames, hello.header.kind = .hello →
    ¬Has hello.header.detail featureStdio ∧ ¬Has hello.header.detail featureKernel

/-- Not the filter alone counts as data. -/
abbrev DataSent (frames : List Frame) : Prop :=
  (∃ frame ∈ frames, frame.header.kind = .contextFilter) →
    ∃ frame ∈ frames, observationFrame frame.header.kind = true

/-- The condition under which client and worker agree on a deadline. -/
structure Reportable (frames : List Frame) : Prop where
  unended : ∀ frame ∈ frames, frame.header.kind ≠ .terminalReport
  layout : LayoutSent frames
  observing : Observing frames
  data : DataSent frames

private theorem accepted_ready (haccepted : acceptAll frames {} = .ok () s)
    (hversion : ∀ frame ∈ frames, frame.header.version.toNat = wireVersion)
    (hopen : ∀ frame ∈ frames, frame.header.kind ≠ .complete ∧ frame.header.kind ≠ .error) :
    (s.finished = false ↔ ∀ frame ∈ frames, frame.header.kind ≠ .terminalReport) ∧
    ((s.started = true → s.version = wireVersion ∧
        (Has s.features featureExecutableLayout → s.layoutSeen = true)) ↔ LayoutSent frames) := by
  obtain ⟨rfl,rfl⟩ | ⟨report,rfl,hreport,hfinished⟩ | ⟨hello,rest,rfl,hhello,hrest,honly⟩ :=
    accepted_first haccepted
  · simp [LayoutSent]
  · have hstarted : s.started = false := by
      obtain ⟨r,hhead,htail⟩ := acceptAll_cons.mp haccepted
      obtain rfl := acceptAll_nil.mp htail
      rw [acceptFrame_of_ne_mixed (by simp [hreport])] at hhead
      obtain ⟨_,_,⟨_,_,rfl⟩ | ⟨hno,_⟩⟩ := acceptRun_eq_ok.mp hhead
      · simp [Stream.opened,hreport]
      · simp at hno
    simp [hfinished,hstarted,hreport,LayoutSent]
  · rw [helloed_eq hhello] at hrest
    obtain ⟨hstarted,hfeatures,hversion',hfinished,hlayout⟩ := acceptAll_flags rfl hrest
    simp only [Bool.false_eq_true,false_or] at hfeatures hversion' hfinished hlayout
    have hfinal : ∀ frame ∈ rest,
        (frame.header.kind.isFinal = true ↔ frame.header.kind = .terminalReport) := by
      intro frame hframe
      have hends := hopen frame (List.mem_cons_of_mem _ hframe)
      cases hkind : frame.header.kind <;> simp_all [Kind.isFinal]
    constructor
    · rw [← Bool.not_eq_true,hfinished,List.forall_mem_cons]
      constructor
      · intro hno
        exact ⟨by simp [hhello],fun frame hframe hk => hno ⟨frame,hframe,(hfinal _ hframe).mpr hk⟩⟩
      · rintro ⟨_,hno⟩ ⟨frame,hframe,hk⟩
        exact hno frame hframe ((hfinal frame hframe).mp hk)
    · have hbody : (∃ frame ∈ hello::rest, frame.header.kind = .executableLayout) ↔
          s.layoutSeen = true := by
        rw [hlayout]
        simp [hhello]
      rw [LayoutSent,hbody,List.forall_mem_cons,hfeatures,hversion']
      constructor
      · intro h
        exact ⟨fun _ => (h hstarted).2,fun other hother hk => absurd hk (honly other hother)⟩
      · rintro ⟨h,_⟩ _
        exact ⟨hversion hello List.mem_cons_self,h hhello⟩

private theorem isDelivered_iff (kind : Kind) :
    Kind.isDelivered kind = true ↔ observationFrame kind = true ∨ kind = .contextFilter := by
  cases kind <;> decide

private theorem data_of_filter :
    ((∃ frame ∈ frames, Kind.isDelivered frame.header.kind = true) ↔
        ∃ frame ∈ frames, observationFrame frame.header.kind = true) ↔
      DataSent frames := by
  have hsplit : (∃ frame ∈ frames, Kind.isDelivered frame.header.kind = true) ↔
      (∃ frame ∈ frames, observationFrame frame.header.kind = true) ∨
        ∃ frame ∈ frames, frame.header.kind = .contextFilter := by
    simp only [isDelivered_iff,and_or_left,exists_or]
  rw [hsplit]
  exact or_iff_left_iff_imp

private theorem poolRead_frames
    (haccepted : acceptAll (frames ++ [reportFrame progress]) {} = .ok () s)
    (hsized : ∀ frame ∈ frames, SizedFrame frame) (endpoint : String) (batchBytes : Nat)
    {schedule : Schedule} (hclean : schedule.Clean) :
    ∃ session : Session, (poolRead endpoint batchBytes schedule
        ((frames ++ [reportFrame progress]).map encodeFrame).flatten).ending = session.conclude
      (plainRead (entriesOf [] ((frames ++ [reportFrame progress]).map encodeFrame))
        (.cleanEnd false) { endpoint }).stop := by
  have hsized : ∀ frame ∈ frames ++ [reportFrame progress], SizedFrame frame :=
    List.forall_mem_append.mpr ⟨hsized,List.forall_mem_singleton.mpr ⟨[],rfl,rfl⟩⟩
  have harrives : Arrives (((frames ++ [reportFrame progress]).map encodeFrame).flatten ++ [])
      (entriesOf [] ((frames ++ [reportFrame progress]).map encodeFrame)) (.cleanEnd false) := by
    refine arrives_entriesOf (fun bytes hbytes => ?_) rfl
    obtain ⟨frame,hframe,rfl⟩ := List.mem_map.mp hbytes
    exact ⟨frame.header,
      frameHeader_encodeFrame (hsized frame hframe) (acceptAll_header haccepted frame hframe)⟩
  rw [List.append_nil] at harrives
  exact ⟨_,(poolRead_reads hclean endpoint batchBytes harrives).ending⟩

private theorem plainRead_reported {startPc stopPc : Bool}
    (haccepted : acceptAll (frames ++ [reportFrame progress]) {} = .ok () s)
    (hsized : ∀ frame ∈ frames, SizedFrame frame) (hcontinues : ∀ frame ∈ frames, Continues frame)
    (hc : Configured startPc stopPc frames) (endpoint : String) :
    ∃ session, Noted startPc stopPc frames session ∧
      (plainRead (entriesOf [] ((frames ++ [reportFrame progress]).map encodeFrame)) (.cleanEnd false)
        { endpoint }).stop =
        session.reportedTerminal (reportHeader progress).detail (.bytes 0) [] := by
  obtain ⟨r,hframes,hreport⟩ := acceptAll_append.mp haccepted
  obtain ⟨t,hreport,_⟩ := acceptAll_cons.mp hreport
  obtain ⟨payload,hdecode⟩ := decode_forwarded ⟨[],rfl,rfl⟩ hreport
  have hfresh : Noted startPc stopPc [] { endpoint } := ⟨by simp,by simp,by simp⟩
  obtain ⟨q,hread,hq,hnoted⟩ := plainRead_forwarded (valid_start endpoint none (fun _ h => by cases h))
    hfresh hframes hsized hcontinues hc ([encodeFrame (reportFrame progress)].flatten ++ [])
    (entriesOf [] [encodeFrame (reportFrame progress)]) (.cleanEnd false)
  refine ⟨{ q with stream := t },⟨hnoted.hello,hnoted.data,hnoted.configured⟩,?_⟩
  rw [List.map_append,List.map_singleton,entriesOf_append,hread,entriesOf,entriesOf,plainRead,hq,
    hdecode,outcome_ok,handleThen,handle_report rfl]
  rfl

/-- No other stop of a read is given the deadline as its reason. -/
private theorem conclude_deadline (session : Session) (stop : Stop) :
    (∃ cls message outcome, session.conclude stop = .raised (.trace cls message outcome) ∧
        outcome.reason = .maxRunDeadline) ↔
      ∃ cls message outcome, stop = .raised (.trace cls message outcome) ∧
        outcome.reason = .maxRunDeadline := by
  cases stop with
  | cleanEnd truncated => cases truncated <;> simp [Session.conclude,Session.makeOutcome]
  | transport fault => cases fault <;> simp [Session.conclude,Session.makeOutcome]
  | raised error => simp [Session.conclude]
  | returned outcome => simp [Session.conclude]
  | hangs => simp [Session.conclude]

/-- The Hello of an interactive worker ends the read at once. -/
private theorem plainRead_interactive {hello : Frame} {rest : List Frame}
    (haccepted : acceptAll (hello::rest) {} = .ok () s) (hsized : SizedFrame hello)
    (hk : hello.header.kind = .hello)
    (hinteractive : Has hello.header.detail featureStdio ∨ Has hello.header.detail featureKernel)
    (endpoint : String) (stop : Stop) :
    ∃ message, (plainRead (entriesOf [] ((hello::rest).map encodeFrame)) stop { endpoint }).stop =
      valueError message := by
  obtain ⟨r,hfirst,_⟩ := acceptAll_cons.mp haccepted
  obtain ⟨payload,hdecode⟩ := decode_forwarded hsized hfirst
  have hdetail : UInt64.ofNat (decodedFrame hello.header payload).detail = hello.header.detail :=
    UInt64.ofNat_toNat
  obtain ⟨message,hread⟩ := @plainRead_refused _ _ { endpoint } _ hdecode hk
    (by rwa [hdetail]) ((rest.map encodeFrame).flatten ++ []) (entriesOf [] (rest.map encodeFrame)) stop
  exact ⟨message,by rw [List.map_cons,entriesOf,hread]⟩

private theorem accept_reportFrame (haccepted : acceptAll frames {} = .ok () s)
    (hversion : ∀ frame ∈ frames, frame.header.version.toNat = wireVersion)
    (hopen : ∀ frame ∈ frames, frame.header.kind ≠ .complete ∧ frame.header.kind ≠ .error)
    (hp : progress.Sound) :
    (∃ t, acceptAll (frames ++ [reportFrame progress]) {} = .ok () t) ↔
      (∀ frame ∈ frames, frame.header.kind ≠ .terminalReport) ∧
      LayoutSent frames := by
  obtain ⟨hunended,hlayout⟩ := accepted_ready haccepted hversion hopen
  rw [← hunended,← hlayout,← accept_report hp]
  simp only [acceptAll_append,haccepted]
  simp [reportFrame,acceptFrame]

section Read

variable {startPc stopPc : Bool} (hsized : ∀ frame ∈ frames, SizedFrame frame)
  (hconfigured : Configured startPc stopPc frames)
  (htracked : Tracked startPc stopPc frames progress)
  (haccepted : acceptAll (frames ++ [reportFrame progress]) {} = .ok () s)
include hsized hconfigured htracked haccepted

/-- A read that reaches the report names the deadline exactly when both sides count the same
frames as data. -/
private theorem poolRead_reported (hcontinues : ∀ frame ∈ frames, Continues frame)
    (endpoint : String) (batchBytes : Nat) {schedule : Schedule} (hclean : schedule.Clean) :
    (∃ cls message outcome, (poolRead endpoint batchBytes schedule
        ((frames ++ [reportFrame progress]).map encodeFrame).flatten).ending =
      .raised (.trace cls message outcome) ∧ outcome.reason = .maxRunDeadline) ↔
      DataSent frames := by
  obtain ⟨session,hending⟩ := poolRead_frames haccepted hsized endpoint batchBytes hclean
  obtain ⟨q,hnoted,hstop⟩ := plainRead_reported haccepted hsized hcontinues hconfigured endpoint
  rw [hending,hstop,conclude_deadline,reportedTerminal_classified htracked.stopped,htracked.start,
    htracked.stop,← data_of_filter,← hnoted.data,← htracked.data,← Bool.eq_iff_iff]
  refine ⟨fun h => h.2.1,fun hdata => ⟨?_,hdata,hnoted.configured⟩⟩
  rw [Bool.eq_iff_iff,hnoted.hello,htracked.hello]

omit htracked hconfigured

private theorem poolRead_refuses {hello : Frame} (hhello : hello ∈ frames)
    (hk : hello.header.kind = .hello)
    (hinteractive : Has hello.header.detail featureStdio ∨ Has hello.header.detail featureKernel)
    (endpoint : String) (batchBytes : Nat) {schedule : Schedule} (hclean : schedule.Clean) :
    ∃ message, (poolRead endpoint batchBytes schedule
      ((frames ++ [reportFrame progress]).map encodeFrame).flatten).ending =
        .raised (.other (.value message)) := by
  obtain ⟨session,hending⟩ := poolRead_frames haccepted hsized endpoint batchBytes hclean
  obtain ⟨rest,hframes,_⟩ := acceptAll_hello haccepted (List.mem_append_left _ hhello) hk
  rw [hframes] at haccepted hending ⊢
  obtain ⟨message,hstop⟩ := plainRead_interactive haccepted (hsized hello hhello) hk hinteractive
    endpoint (.cleanEnd false)
  rw [hending,hstop]
  exact ⟨message,rfl⟩

end Read

/-- For every v3 trace without an end that the worker has forwarded, the client takes the deadline
report for what it is exactly when the trace is reportable. -/
theorem deadlineReport_classified (startPc stopPc : Bool) (frames : List Frame) (s : Stream)
    (haccepted : acceptAll frames {} = .ok () s) (hsized : ∀ frame ∈ frames, SizedFrame frame)
    (hversion : ∀ frame ∈ frames, frame.header.version.toNat = wireVersion)
    (hopen : ∀ frame ∈ frames, frame.header.kind ≠ .complete ∧ frame.header.kind ≠ .error)
    (hconfigured : Configured startPc stopPc frames) :
    Classified (reportFrame (progressAfter startPc stopPc frames)) frames ↔ Reportable frames := by
  have htracked := progressAfter_tracked startPc stopPc frames
  generalize progressAfter startPc stopPc frames = progress at *
  have hsound : progress.Sound := by
    refine ⟨fun hdata => ?_,fun hstart => ?_,htracked.stopped⟩
    · rw [htracked.hello]
      obtain ⟨frame,hframe,hobserved⟩ := htracked.data.mp hdata
      exact hello_of_data haccepted hframe hobserved
    · rw [htracked.start]
      exact htracked.started hstart
  have hready := accept_reportFrame haccepted hversion hopen hsound
  have hcontinues (hunended : ∀ frame ∈ frames, frame.header.kind ≠ .terminalReport)
      (hobserving : Observing frames) :
      ∀ frame ∈ frames, Continues frame := by
    intro frame hframe
    refine ⟨?_,hobserving frame hframe⟩
    have hends := hopen frame hframe
    have hreport := hunended frame hframe
    cases hkind : frame.header.kind <;> simp_all [Kind.isFinal]
  constructor
  · rintro ⟨_,⟨t,ht⟩,hraised⟩
    obtain ⟨hunended,hlayout⟩ := hready.mp ⟨t,ht⟩
    have hraised := hraised "" 0 eagerSchedule eagerSchedule_clean
    have hobserving : Observing frames := by
      intro hello hhello hk
      rw [← not_or]
      intro hinteractive
      obtain ⟨message,hvalue⟩ := poolRead_refuses hsized ht hhello hk hinteractive "" 0
        eagerSchedule_clean
      obtain ⟨cls,text,outcome,htrace,_⟩ := hraised
      rw [hvalue] at htrace
      cases htrace
    exact ⟨hunended,hlayout,hobserving,(poolRead_reported hsized hconfigured htracked ht
      (hcontinues hunended hobserving) "" 0 eagerSchedule_clean).mp hraised⟩
  · rintro ⟨hunended,hlayout,hobserving,hfilter⟩
    obtain ⟨t,ht⟩ := hready.mpr ⟨hunended,hlayout⟩
    exact ⟨reportHeader_decodes hsound,⟨t,ht⟩,fun endpoint batchBytes schedule hclean =>
      (poolRead_reported hsized hconfigured htracked ht (hcontinues hunended hobserving) endpoint
        batchBytes hclean).mpr hfilter⟩

/-- A Hello that promises an executable layout. -/
def layoutHello : Frame where
  header := { kind := .hello, detail := 1 ||| featureExecutableLayout }
  payload := some []

/-- A deadline between that Hello and the layout: the client refuses the report. -/
theorem layoutHello_deadline_refused :
    acceptAll [layoutHello] {} = .ok () (.helloed layoutHello.header) ∧ SizedFrame layoutHello ∧
    layoutHello.header.version.toNat = wireVersion ∧ Configured false false [layoutHello] ∧
    (poolRead "worker" 0 eagerSchedule (([layoutHello] ++
      [reportFrame (progressAfter false false [layoutHello])]).map encodeFrame).flatten).ending =
        .raised (.other (.value "Trace data needs its initial executable layout")) ∧
    ¬Classified (reportFrame (progressAfter false false [layoutHello])) [layoutHello] := by
  have hrefused : (poolRead "worker" 0 eagerSchedule (([layoutHello] ++
      [reportFrame (progressAfter false false [layoutHello])]).map encodeFrame).flatten).ending =
        .raised (.other (.value "Trace data needs its initial executable layout")) := by
    decide +kernel
  refine ⟨rfl,⟨[],rfl,rfl⟩,rfl,?_,hrefused,?_⟩
  · simp [Configured,layoutHello]
    decide
  · rintro ⟨_,_,hraised⟩
    obtain ⟨cls,message,outcome,htrace,_⟩ := hraised "worker" 0 eagerSchedule eagerSchedule_clean
    rw [hrefused] at htrace
    cases htrace

/-- A Hello with a start address and a block of a source, followed by the deadline. -/
def startedFrames : List Frame :=
  [⟨{ kind := .hello, detail := 1 ||| featureWindow },some []⟩,
    ⟨{ kind := .blocks, count := 1 },some (List.replicate 8 0)⟩]

theorem deadlineReport_classified_started :
    Classified (reportFrame (progressAfter true false startedFrames)) startedFrames := by
  obtain ⟨s,hs⟩ : ∃ s, acceptAll startedFrames {} = .ok () s := ⟨_,rfl⟩
  refine (deadlineReport_classified true false startedFrames s hs ?_ ?_ ?_ ?_).mpr ⟨?_,?_,?_,?_⟩
  · exact List.forall_mem_cons.mpr ⟨⟨_,rfl,rfl⟩,List.forall_mem_singleton.mpr ⟨_,rfl,rfl⟩⟩
  · decide
  · decide
  · unfold Configured
    decide
  · decide
  · decide
  · decide
  · decide

end Cpu2Tensor.Process
