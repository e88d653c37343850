import Cpu2Tensor.Client.Mixed
import Cpu2Tensor.Stream.Sequence

/-!
# Mixed frames and the frames of their runs

A mixed frame does to the validator what its runs do as separate frames, and its batch is that of
their batches merged.
-/

namespace Cpu2Tensor.Client
open Library

variable {h : Header}

def encodeFrame (frame : Frame) : Bytes := encodeHeader frame.header ++ frame.payload.getD []

/-- A frame with exactly the payload that its header announces. -/
def SizedFrame (frame : Frame) : Prop :=
  ∃ payload, frame.payload = some payload ∧ payload.length = payloadSize frame.header

theorem encodeFrame_take (frame : Frame) :
    (encodeFrame frame).take headerBytes = encodeHeader frame.header := by
  rw [encodeFrame,← encodeHeader_length frame.header,List.take_left]

theorem encodeFrame_drop (frame : Frame) : (encodeFrame frame).drop headerBytes = frame.payload.getD [] := by
  rw [encodeFrame,← encodeHeader_length frame.header,List.drop_left]

variable {frame : Frame} {payload : Bytes} {runs : List MixedRun} {s t : Stream}

theorem encodeFrame_length (hsized : SizedFrame frame) :
    (encodeFrame frame).length = headerBytes+payloadSize frame.header := by
  obtain ⟨payload,hpayload,hlen⟩ := hsized
  rw [encodeFrame,List.length_append,encodeHeader_length,hpayload,Option.getD_some,hlen]

theorem frameHeader_encodeFrame (hsized : SizedFrame frame) (hf : headerFault frame.header = none) :
    frameHeader (encodeFrame frame) = .ok frame.header := by
  have hlength := encodeFrame_length hsized
  unfold frameHeader
  rw [if_pos (by omega),encodeFrame_take,decodeHeader_encodeHeader,hf]
  dsimp only
  rw [if_neg (by omega)]

theorem decode_encodeFrame {payload : Payload} (hsized : SizedFrame frame)
    (hr : acceptFrame frame s = .ok () t)
    (hpayload : decodePayload t.features frame.header (frame.payload.getD []) = .ok payload) :
    decode (encodeFrame frame) s = .ok (decodedFrame frame.header payload) t := by
  have hf := acceptFrame_header hr
  have haccept : accept frame.header (some (frame.payload.getD [])) s = .ok () t := by
    obtain ⟨bytes,hbytes,_⟩ := hsized
    rw [hbytes,Option.getD_some,← hbytes]
    exact hr
  unfold decode
  rw [frameHeader_encodeFrame hsized hf,encodeFrame_drop]
  dsimp only
  rw [bind_eq_ok]
  refine ⟨(),t,haccept,?_⟩
  rw [get_bind,hpayload]
  rfl

def exactFrame (frame : Frame) : Frame :=
  { frame with payload := frame.payload.map fun payload => payload.take (payloadSize frame.header) }

def legacyFrames (frame : Frame) : List Frame := frame.runs.map exactFrame

variable {entries : List (Nat × MixedRun)} {events first : Nat} {features : UInt64}
  {run : MixedRun}

theorem exactFrame_run (hv : run.Valid) (events : Nat) (rest : Bytes) :
    exactFrame ⟨(run.frame h events).header,some (run.body ++ rest)⟩ = run.frame h events := by
  unfold exactFrame
  dsimp only
  rw [hv.payloadSize h events,Option.map_some,List.take_left]
  rfl

theorem mixedFrames_encode {bytes : Bytes} (runs : List MixedRun) (fuel offset events : Nat)
    (hlen : bytes.length = h.detail.toNat) (hbytes : bytes.drop offset = encodeRuns runs)
    (hv : ∀ run ∈ runs, run.Valid) (hfuel : h.detail.toNat-offset < fuel) :
    (mixedFrames h bytes fuel offset events).map exactFrame = runFrames h events runs := by
  induction runs generalizing fuel offset events with
  | nil =>
    obtain ⟨fuel,rfl⟩ := Nat.exists_eq_succ_of_ne_zero (by omega : fuel ≠ 0)
    rw [mixedFrames,if_neg (runs_end hlen hbytes)]
    rfl
  | cons run runs ih =>
    obtain ⟨fuel,rfl⟩ := Nat.exists_eq_succ_of_ne_zero (by omega : fuel ≠ 0)
    obtain ⟨hrun,hrest⟩ := List.forall_mem_cons.mp hv
    have hat := runAt hbytes hrun
    have hfits := hat.fits
    rw [mixedFrames,if_pos (by omega),hat.kind,Kind.ofCode_code]
    dsimp only
    rw [hat.rows,hat.size,hat.body,List.map_cons,ih fuel _ _ hat.rest hrest (by omega)]
    change exactFrame ⟨(run.frame h events).header,some (run.body ++ encodeRuns runs)⟩ :: _ = _
    rw [exactFrame_run hrun]
    rfl

theorem legacyFrames_encode (hk : h.kind = .mixed) (hlen : payload.length = h.detail.toNat)
    (hruns : payload = encodeRuns runs) (hv : ∀ run ∈ runs, run.Valid) :
    legacyFrames ⟨h,some payload⟩ = runFrames h 0 runs := by
  unfold legacyFrames Frame.runs
  dsimp only
  rw [if_pos hk]
  exact mixedFrames_encode runs _ 0 0 hlen hruns hv (by omega)

theorem sizedFrame_run (hv : run.Valid) (events : Nat) : SizedFrame (run.frame h events) :=
  ⟨run.body,rfl,(hv.payloadSize h events).symm⟩

theorem decodeEach_runs (hv : ∀ entry ∈ entries, entry.2.Valid) (hstarted : s.started = true)
    (hr : acceptAll (entries.map fun entry => entry.2.frame h entry.1) s = .ok () t) :
    t.features = s.features ∧ (∀ entry ∈ entries, WholeRun s.features entry.2) ∧
      (∀ entry ∈ entries, h.sequence.toNat+entry.1 ≤ uint64Max →
        h.sequence.toNat+entry.1+entry.2.rows ≤ uint64Max) ∧
      (∀ entry ∈ entries, entry.2.kind = .registers →
        (s.lanes h.source.toNat).registers ≠ none) ∧
      decodeEach (entries.map fun entry => encodeFrame (entry.2.frame h entry.1)) s =
        (t,entries.map (runDecoded s.features h),none) := by
  induction entries generalizing s with
  | nil =>
    obtain rfl := acceptAll_nil.mp hr
    exact ⟨rfl,by simp,by simp,by simp,rfl⟩
  | cons entry entries ih =>
    obtain ⟨hentry,hrest⟩ := List.forall_mem_cons.mp hv
    rw [List.map_cons,acceptAll_cons] at hr
    obtain ⟨r,hfirst,htail⟩ := hr
    obtain ⟨hopen,hfeatures,_⟩ := acceptFrame_features hstarted hfirst
    obtain ⟨hlast,hwhole,hbounds,hschemas,hdecoded⟩ := ih hrest hopen htail
    obtain ⟨hrun,hschema⟩ := acceptFrame_whole hentry hfirst
    obtain ⟨_,_,lane,hevent,hr⟩ := acceptFrame_data hentry.data hfirst
    rw [hfeatures] at hlast hwhole hdecoded
    have hkept : (r.lanes h.source.toNat).registers ≠ none →
        (s.lanes h.source.toNat).registers ≠ none := by
      intro hsome hnone
      apply hsome
      rw [hr]
      have hkind : (entry.2.frame h entry.1).header.kind ≠ .registerSchema := by
        intro heq
        have hdata := hentry.data
        rw [show entry.2.kind = .registerSchema from heq] at hdata
        cases hdata
      simp only [Stream.counted,if_neg hkind]
      change ((Function.update s.lanes h.source.toNat _) h.source.toNat).registers = none
      rw [Function.update_self]
      have hkeep : lane.registers = none := checkEvent_registers hevent hnone
      exact hkeep
    refine ⟨hlast,List.forall_mem_cons.mpr ⟨hrun,hwhole⟩,List.forall_mem_cons.mpr ⟨?_,hbounds⟩,
      List.forall_mem_cons.mpr ⟨hschema,fun other hother hk => hkept (hschemas other hother hk)⟩,?_⟩
    · intro hbound
      have hcount := (checkEvent_withoutSignals hevent).2.1
      rw [hentry.count,runSequence hbound] at hcount
      unfold uint64Max at hcount hbound ⊢
      omega
    · have hpayload := @decodePayload_run r.features h entry hentry
      rw [List.map_cons,decodeEach,decode_encodeFrame (sizedFrame_run hentry _) hfirst hpayload]
      dsimp only
      rw [hdecoded,hfeatures]
      rfl

theorem arange_append (first a b : Nat) : arange first (a+b) = arange first a ++ arange (first+a) b := by
  unfold arange
  rw [List.range_add,List.map_append,List.map_map]
  congr 1
  apply List.map_congr_left
  intro i _
  exact congrArg UInt64.ofNat (Nat.add_assoc ..).symm

theorem arange_toNat {count : Nat} (hbound : first+count ≤ uint64Max) :
    (arange first count).map UInt64.toNat = List.range' first count := by
  rw [arange,List.map_map,List.range'_eq_map_range]
  apply List.map_congr_left
  intro i hi
  have := List.mem_range.mp hi
  unfold uint64Max at hbound
  exact UInt64.toNat_ofNat_of_lt' (by change first+i < 2^64; omega)

theorem runSequences_flatMap (h : Header) (events : Nat) (runs : List MixedRun) :
    (numbered events runs).flatMap (runSequences h) =
      arange (h.sequence.toNat+events) (runs.map MixedRun.rows).sum := by
  induction runs generalizing events with
  | nil => rfl
  | cons run runs ih =>
    rw [numbered,List.flatMap_cons,ih,List.map_cons,List.sum_cons,arange_append,runSequences]
    dsimp only
    rw [Nat.add_assoc]

theorem selected_perm (hd : ∀ entry ∈ entries, entry.2.kind.isData = true) :
    (Table.all.flatMap fun table => selected table entries).Perm entries := by
  induction entries with
  | nil => exact .refl _
  | cons entry entries ih =>
    obtain ⟨hentry,hrest⟩ := List.forall_mem_cons.mp hd
    have htail := ih hrest
    simp only [Table.all,List.flatMap_cons,List.flatMap_nil,List.append_nil,selected,Table.kind,
      List.filter_cons] at htail ⊢
    cases hk : entry.2.kind <;> simp only [hk,Kind.isData,Bool.false_eq_true] at hentry
    all_goals
      simp only [reduceCtorEq,decide_true,decide_false,if_true,Bool.false_eq_true,if_false,
        List.cons_append]
    case blocks => exact htail.cons entry
    case registers => exact List.perm_middle.trans (htail.cons entry)
    case memory =>
      rw [← List.append_assoc]
      apply List.perm_middle.trans
      rw [List.append_assoc]
      exact htail.cons entry
    case addressContext =>
      rw [← List.append_assoc,← List.append_assoc]
      apply List.perm_middle.trans
      rw [List.append_assoc,List.append_assoc]
      exact htail.cons entry

def Batch.tableSequences (b : Batch) : Column :=
  b.blockSequences.getD [] ++ (b.registers.bind RegisterChanges.sequences).getD [] ++
    (b.memory.bind MemoryAccesses.sequences).getD [] ++
    (b.context.bind AddressContext.sequences).getD []

theorem whenSelected_getD (h : Header) (table : Table) (entries : List (Nat × MixedRun)) :
    (whenSelected table entries (Client.tableSequences h table entries)).getD [] =
      Client.tableSequences h table entries := by
  by_cases hnil : selected table entries = []
  · rw [whenSelected_nil hnil,Client.tableSequences,hnil]
    rfl
  · rw [whenSelected_ne hnil]
    rfl

theorem runsBatch_tableSequences (features : UInt64) (names : Option Names) (h : Header)
    (entries : List (Nat × MixedRun)) : (runsBatch features names h entries).tableSequences =
      (Table.all.flatMap fun table => selected table entries).flatMap (runSequences h) := by
  have hcolumn {T : Type} (table : Table) (value : T) (sequences : T → Option Column)
      (hvalue : sequences value = some (Client.tableSequences h table entries)) :
      ((whenSelected table entries value).bind sequences).getD [] =
        Client.tableSequences h table entries := by
    rw [← whenSelected_getD]
    unfold whenSelected
    split_ifs
    · rfl
    · rw [Option.bind_some,hvalue]
  unfold Batch.tableSequences runsBatch
  dsimp only
  rw [whenSelected_getD,hcolumn .registers,hcolumn .memory,hcolumn .context]
  · simp only [Table.all,List.flatMap_cons,List.flatMap_nil,List.append_nil,List.flatMap_append,
      Client.tableSequences,List.append_assoc]
  all_goals rfl

theorem runFrames_consecutive (hv : ∀ run ∈ runs, run.Valid)
    (hbound : ∀ entry ∈ numbered events runs, h.sequence.toNat+entry.1 ≤ uint64Max) :
    Consecutive (h.sequence.toNat+events) ((runFrames h events runs).map fun frame =>
      (frame.header.sequence.toNat,frame.header.count.toNat)) := by
  induction runs generalizing events with
  | nil => trivial
  | cons run runs ih =>
    obtain ⟨hrun,hrest⟩ := List.forall_mem_cons.mp hv
    obtain ⟨hfirst,hlater⟩ := List.forall_mem_cons.mp hbound
    constructor
    · exact runSequence hfirst
    · rw [hrun.count h events,Nat.add_assoc]
      exact ih hrest hlater

/-- A validator and the register names that a client has from its schemas. -/
structure NamedStream where
  stream : Stream
  names : Nat → Option Names
  named : ∀ source, (stream.lanes source).registers ≠ none → names source ≠ none

def NamedStream.batch (client : NamedStream) (reduced : Bool) (decoded : Decoded) :
    Except ClientError Batch :=
  batchOf decoded (client.names decoded.source) reduced

theorem numbered_snd (events : Nat) (runs : List MixedRun) :
    (numbered events runs).map Prod.snd = runs := by
  induction runs generalizing events with
  | nil => rfl
  | cons run runs ih => rw [numbered,List.map_cons,ih]

theorem numbered_end {limit : Nat} (hfirst : first+events ≤ limit)
    (hends : ∀ entry ∈ numbered events runs, first+entry.1+entry.2.rows ≤ limit) :
    first+events+(runs.map MixedRun.rows).sum ≤ limit := by
  induction runs generalizing events with
  | nil => exact hfirst
  | cons run runs ih =>
    obtain ⟨hrun,hrest⟩ := List.forall_mem_cons.mp hends
    dsimp only at hrun
    have hsum := ih (by omega) hrest
    rw [List.map_cons,List.sum_cons]
    omega

theorem decodePayload_mixed (hk : h.kind = .mixed) (hf : headerFault h = none)
    (hlen : payload.length = h.detail.toNat) (hruns : payload = encodeRuns runs)
    (hv : ∀ run ∈ runs, run.Valid) (hrows : (runs.map MixedRun.rows).sum = h.count.toNat) :
    decodePayload features h payload = .ok (.mixed (mixedColumns (hasMemoryValues features)
      (hasSystemMemory features) (runTables h runs))) := by
  obtain ⟨hdetail,hcount,_⟩ := mixed_of_headerFault hf hk
  subst hruns
  unfold decodePayload decodeMixed
  simp only [hk]
  rw [gatherRuns_payload hlen hdetail hv (by omega)]
  rfl

theorem runsBatch_positions {names : Option Names} (hv : ∀ run ∈ runs, run.Valid)
    (hrows : (runs.map MixedRun.rows).sum = h.count.toNat)
    (hends : ∀ entry ∈ numbered 0 runs, h.sequence.toNat+entry.1+entry.2.rows ≤ uint64Max) :
    ((runsBatch features names h (numbered 0 runs)).tableSequences.map UInt64.toNat).Perm
      (List.range' h.sequence.toNat h.count.toNat) := by
  have hrange := (selected_perm fun entry (hentry : entry ∈ numbered 0 runs) =>
    (hv _ (mem_numbered hentry)).data).flatMap_right (runSequences h)
  rw [runSequences_flatMap,hrows,Nat.add_zero,← runsBatch_tableSequences features names] at hrange
  have hsequence : h.sequence.toNat+0 ≤ uint64Max := Nat.le_of_lt_succ h.sequence.toNat_lt
  have hend := numbered_end hsequence hends
  rw [hrows,Nat.add_zero] at hend
  rw [← arange_toNat hend]
  exact hrange.map UInt64.toNat

structure AcceptedRuns (h : Header) (payload : Bytes) (s t : Stream) (runs : List MixedRun) : Prop where
  encode : payload = encodeRuns runs
  nonempty : runs ≠ []
  valid : ∀ run ∈ runs, run.Valid
  whole : ∀ run ∈ runs, WholeRun s.features run
  rows : (runs.map MixedRun.rows).sum = h.count.toNat
  starts : ∀ entry ∈ numbered 0 runs, h.sequence.toNat+entry.1 ≤ uint64Max
  ends : ∀ entry ∈ numbered 0 runs, h.sequence.toNat+entry.1+entry.2.rows ≤ uint64Max
  schemas : ∀ entry ∈ numbered 0 runs, entry.2.kind = .registers →
    (s.lanes h.source.toNat).registers ≠ none
  accepted : acceptAll (runFrames h 0 runs) s = .ok () t
  features : t.features = s.features
  legacy : legacyFrames ⟨h,some payload⟩ = runFrames h 0 runs
  decoded : decodeEach ((runFrames h 0 runs).map encodeFrame) s =
    (t,(numbered 0 runs).map (runDecoded s.features h),none)
  payload : decodePayload t.features h payload = .ok (.mixed (mixedColumns
    (hasMemoryValues s.features) (hasSystemMemory s.features) (runTables h runs)))

theorem acceptFrame_acceptedRuns (hk : h.kind = .mixed) (hlen : payload.length = payloadSize h)
    (hr : acceptFrame ⟨h,some payload⟩ s = .ok () t) : ∃ runs, AcceptedRuns h payload s t runs := by
  have hdetail : payloadSize h = h.detail.toNat := by rw [payloadSize,hk]
  rw [hdetail] at hlen
  obtain ⟨runs,hruns,hv,hrows,hbound,hall⟩ := acceptFrame_mixed_runs hk hlen hr
  have hf : headerFault h = none := acceptFrame_header hr
  have hstarted : s.started = true := ((acceptFrame_mixed_eq_ok hk).mp hr).2.2.1
  obtain ⟨hfeatures,hwhole,hlast,hschemas,hdecoded⟩ := decodeEach_runs
    (fun entry hentry => hv _ (mem_numbered hentry)) hstarted hall
  refine ⟨runs,hruns,?_,hv,?_,hrows,hbound,?_,hschemas,hall,hfeatures,
    legacyFrames_encode hk hlen hruns hv,?_,?_⟩
  · intro hnil
    have hpositive := (mixed_of_headerFault hf hk).2.2
    rw [← hrows,hnil] at hpositive
    cases hpositive
  · intro run hrun
    rw [← numbered_snd 0 runs] at hrun
    obtain ⟨entry,hentry,rfl⟩ := List.mem_map.mp hrun
    exact hwhole entry hentry
  · exact fun entry hentry => hlast entry hentry (hbound entry hentry)
  · rw [runFrames,List.map_map]
    exact hdecoded
  · rw [← hfeatures]
    exact decodePayload_mixed hk hf hlen hruns hv hrows

/-- What a mixed frame says can be said by its runs as separate frames: they are accepted in turn
and lead to the same state, and their batches merged are the batch of the mixed frame. -/
theorem mixedFrame_separate (client : NamedStream) (reduced : Bool) (frame : Frame) (t : Stream)
    (hk : frame.header.kind = .mixed) (hsized : SizedFrame frame)
    (hr : acceptFrame frame client.stream = .ok () t) :
    acceptAll (legacyFrames frame) client.stream = .ok () t ∧
    Consecutive frame.header.sequence.toNat ((legacyFrames frame).map fun legacy =>
      (legacy.header.sequence.toNat,legacy.header.count.toNat)) ∧
    ∃ mixed batch decoded first rest,
      decode (encodeFrame frame) client.stream = .ok mixed t ∧
      client.batch reduced mixed = .ok batch ∧
      decodeEach ((legacyFrames frame).map encodeFrame) client.stream = (t,decoded,none) ∧
      decoded.map (client.batch reduced) = (first::rest).map .ok ∧
      mergeBatches first rest = .ok batch ∧
      batch.firstSequence = some frame.header.sequence.toNat ∧
      (batch.tableSequences.map UInt64.toNat).Perm
        (List.range' frame.header.sequence.toNat frame.header.count.toNat) := by
  obtain ⟨h,bytes⟩ := frame
  obtain ⟨payload,rfl,hlen⟩ := hsized
  dsimp only at hk hlen ⊢
  obtain ⟨runs,hruns⟩ := acceptFrame_acceptedRuns hk hlen hr
  have hentries : ∀ entry ∈ numbered 0 runs, entry.2.Valid := fun entry hentry =>
    hruns.valid _ (mem_numbered hentry)
  have hbatch : ∀ entry ∈ numbered 0 runs,
      client.batch reduced (runDecoded client.stream.features h entry) =
        .ok (runBatch client.stream.features (client.names h.source.toNat) h entry) :=
    fun entry hentry => batchOf_run (hentries entry hentry) (hruns.whole _ (mem_numbered hentry))
      (hruns.starts entry hentry)
      (fun hregisters => client.named _ (hruns.schemas entry hentry hregisters)) reduced
  have hdecode := decode_encodeFrame ⟨payload,rfl,hlen⟩ hr hruns.payload
  obtain ⟨run,rest,rfl⟩ := List.exists_cons_of_ne_nil hruns.nonempty
  rw [hruns.legacy]
  refine ⟨hruns.accepted,runFrames_consecutive hruns.valid hruns.starts,_,_,_,_,_,hdecode,
    batchOf_mixed hruns.valid hruns.whole hk reduced,hruns.decoded,?_,mergedBatch_runs rfl hentries,
    rfl,runsBatch_positions hruns.valid hruns.rows hruns.ends⟩
  rw [List.map_map,← List.map_cons (f := runBatch _ _ h),List.map_map]
  exact List.map_congr_left hbatch

/-- A stream of blocks and memory accesses in mixed frames, at its first frame. -/
def mixedClient : NamedStream where
  stream := { started := true, version := 3, features := 0x40101 }
  names := fun _ => none
  named := by
    intro source hsome
    exact (hsome rfl).elim

def mixedPair : Frame :=
  ⟨{ kind := .mixed, count := 2, detail := 48 },
    some (store Kind.blocks.code 2 ++ store 1 2 ++ store 8 4 ++ store 0x1000 8 ++
      (store Kind.memory.code 2 ++ store 1 2 ++ store 24 4 ++ store 0x1000 8 ++
        store 0x8000 8 ++ store 4 4 ++ store 0 4))⟩

theorem mixedFrame_separate_pair : ∃ t, acceptFrame mixedPair mixedClient.stream = .ok () t ∧
    acceptAll (legacyFrames mixedPair) mixedClient.stream = .ok () t := by
  have haccepted : ∃ t, acceptFrame mixedPair mixedClient.stream = .ok () t := by
    cases hr : acceptFrame mixedPair mixedClient.stream with
    | ok _ t => exact ⟨t,rfl⟩
    | error fault t =>
      have hok : (match acceptFrame mixedPair mixedClient.stream with
        | .ok _ _ => true
        | .error _ _ => false) = true := by decide +kernel
      rw [hr] at hok
      cases hok
  obtain ⟨t,hr⟩ := haccepted
  exact ⟨t,hr,(mixedFrame_separate mixedClient false mixedPair t rfl ⟨_,rfl,rfl⟩ hr).1⟩

end Cpu2Tensor.Client
