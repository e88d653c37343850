import Cpu2Tensor.Stream.Effect

/-!
# Runs of a mixed frame

The checks of a data frame read no byte behind its payload, so a run of a mixed frame is accepted
exactly as a separate frame with the same rows.  The payload of an accepted mixed frame is the
encoding of a list of runs.
-/

namespace Cpu2Tensor
open Library

variable {bytes payload : Bytes} {features : UInt64} {h : Header} {lane lane' : Lane}
  {run : MixedRun} {s t : Stream} {detail offset : Nat} {kind : Kind}

theorem registerRow_append (offset : Nat) (rest : Bytes) (hlen : payload.length = detail) :
    registerRow detail offset (payload ++ rest) = registerRow detail offset payload := by
  funext state
  unfold registerRow
  by_cases hshort : detail - offset < 16
  · rw [refuse_bind hshort,refuse_bind hshort]
  · rw [load_drop_append rest (by omega),load_drop_append rest (by omega),
      load_drop_append rest (by omega)]

theorem registerRows_append (rows offset : Nat) (rest : Bytes) (hlen : payload.length = detail) :
    registerRows detail (payload ++ rest) rows offset = registerRows detail payload rows offset := by
  induction rows generalizing offset with
  | zero => rfl
  | succ rows ih =>
    unfold registerRows
    rw [registerRow_append offset rest hlen,funext ih]

theorem registerSamples_append (features : UInt64) (rest : Bytes)
    (hlen : payload.length = h.detail.toNat) :
    Lane.registerSamples features h (payload ++ rest) = Lane.registerSamples features h payload := by
  unfold Lane.registerSamples
  rw [registerRows_append _ _ rest hlen]

theorem memoryRowFault_append (features : UInt64) (lane : Lane) {item : Bytes} (rest : Bytes)
    (hlen : memoryStride features ≤ item.length) :
    memoryRowFault features lane (item ++ rest) = memoryRowFault features lane item := by
  have hmin : 24 ≤ memoryStride features := by
    unfold memoryStride memoryPrefix
    split_ifs <;> omega
  have hsystem : Has features featureSystemMemory → 48 ≤ item.length := by
    intro hsystem
    simp only [memoryStride,memoryPrefix,hsystem,if_true] at hlen
    omega
  have hvalues : Has features featureMemoryValues →
      ((item ++ rest).drop (memoryPrefix features)).take 16 =
        (item.drop (memoryPrefix features)).take 16 := by
    intro hvalues
    simp only [memoryStride,hvalues,if_true] at hlen
    rw [List.drop_append_of_le_length (by omega),List.take_append_of_le_length]
    rw [List.length_drop]
    omega
  have hwidth : load ((item ++ rest).drop 16) 4 = load (item.drop 16) 4 :=
    load_drop_append rest (by omega)
  have hflags : load ((item ++ rest).drop 20) 4 = load (item.drop 20) 4 :=
    load_drop_append rest (by omega)
  have hmapping : Has features featureSystemMemory → ∀ width,
      mappingFault width (item ++ rest) = mappingFault width item := by
    intro hs width
    have hlong := hsystem hs
    unfold mappingFault
    rw [load_drop_append rest (by omega),load_drop_append rest (by omega),
      load_drop_append rest (by omega),load_drop_append rest (by omega)]
  have hcontext : Has features featureSystemMemory →
      load ((item ++ rest).drop 40) 8 = load (item.drop 40) 8 := by
    intro hs
    exact load_drop_append rest (by have := hsystem hs; omega)
  unfold memoryRowFault
  by_cases hs : Has features featureSystemMemory <;> by_cases hv : Has features featureMemoryValues
  · simp only [hwidth,hflags,hcontext hs,hmapping hs,hvalues hv]
  · simp only [hwidth,hflags,hcontext hs,hmapping hs,hv,false_and]
  · simp only [hwidth,hflags,hvalues hv,hs,false_and]
  · simp only [hwidth,hflags,hs,hv,false_and]

private theorem findSome_congr {α β : Type} {f g : α → Option β} {list : List α}
    (h : ∀ a ∈ list, f a = g a) : list.findSome? f = list.findSome? g := by
  induction list with
  | nil => rfl
  | cons a list ih =>
    obtain ⟨ha,hrest⟩ := List.forall_mem_cons.mp h
    rw [List.findSome?_cons,List.findSome?_cons,ha,ih hrest]

theorem memoryRows_append (features : UInt64) (rest : Bytes)
    (hlen : payload.length = h.detail.toNat) :
    Lane.memoryRows features h (payload ++ rest) = Lane.memoryRows features h payload := by
  by_cases hsize : h.detail.toNat = h.count.toNat*memoryStride features
  · have hrows : ∀ lane, (List.range h.count.toNat).findSome? (fun row =>
        memoryRowFault features lane ((payload ++ rest).drop (row*memoryStride features))) =
        (List.range h.count.toNat).findSome? fun row =>
          memoryRowFault features lane (payload.drop (row*memoryStride features)) := by
      intro lane
      apply findSome_congr
      intro row hrow
      have hrow := List.mem_range.mp hrow
      have hend : (row+1)*memoryStride features ≤ h.count.toNat*memoryStride features :=
        Nat.mul_le_mul_right _ hrow
      rw [Nat.succ_mul] at hend
      rw [List.drop_append_of_le_length (by omega),memoryRowFault_append]
      rw [List.length_drop]
      omega
    unfold Lane.memoryRows
    simp only [hrows]
  · funext lane
    unfold Lane.memoryRows
    by_cases hmemory : Has features featureMemory
    · rw [refuse_of_not (not_not.mpr hmemory)]
      change (refuse _ _ >>= _) lane = (refuse _ _ >>= _) lane
      rw [refuse_bind hsize,refuse_bind hsize]
    · rw [refuse_bind hmemory,refuse_bind hmemory]

theorem addressContext_append (features : UInt64) (h : Header) (rest : Bytes)
    (hlen : contextBytes ≤ payload.length) :
    Lane.addressContext features h (payload ++ rest) = Lane.addressContext features h payload := by
  unfold contextBytes at hlen
  unfold Lane.addressContext
  rw [load_drop_append rest (by omega),load_drop_append rest (by omega),
    load_drop_append rest (by omega)]

theorem payloadSize_data (hk : h.kind.isData = true) (hb : h.kind ≠ .blocks) :
    payloadSize h = h.detail.toNat := by
  unfold payloadSize
  cases hkind : h.kind <;> simp [Kind.isData,hkind] at hk hb ⊢

theorem checkEvent_append (features : UInt64) (rest : Bytes) (hf : headerFault h = none)
    (hk : h.kind.isData = true) (hlen : payload.length = payloadSize h) :
    Lane.checkEvent features h (payload ++ rest) = Lane.checkEvent features h payload := by
  unfold Lane.checkEvent
  cases hkind : h.kind with
  | addressContext =>
    have hdetail : h.detail.toNat = contextBytes := by
      simp only [headerFault,fieldFault,hkind,check_eq_none] at hf
      obtain ⟨_,_,_,hf,_⟩ := hf
      omega
    rw [payloadSize_data hk (by simp [hkind]),hdetail] at hlen
    rw [addressContext_append features h rest hlen.ge]
    simp [whenever]
  | registers =>
    rw [registerSamples_append features rest (hlen.trans (payloadSize_data hk (by simp [hkind])))]
    simp [whenever]
  | memory =>
    rw [memoryRows_append features rest (hlen.trans (payloadSize_data hk (by simp [hkind])))]
    simp [whenever]
  | _ => simp [whenever]

private theorem checkSource_some (features : UInt64) (h : Header) (a b : Bytes) :
    Lane.checkSource features h (some a) = Lane.checkSource features h (some b) := by
  unfold Lane.checkSource
  have hmissing : ∀ bytes : Bytes, ¬((h.kind = .registerSchema ∨ h.kind = .registers ∨
      h.kind = .memory ∨ h.kind = .addressContext) ∧ some bytes = none) := by
    intro bytes
    simp
  rw [refuse_of_not (hmissing a),refuse_of_not (hmissing b)]

theorem acceptRun_append (rest : Bytes) (hf : headerFault h = none) (hk : h.kind.isData = true)
    (hlen : payload.length = payloadSize h) :
    acceptRun h (some (payload ++ rest)) = acceptRun h (some payload) := by
  have hsource := Kind.isSource_of_isData hk
  have hschema : h.kind ≠ .registerSchema := by
    rintro heq
    simp [heq,Kind.isData] at hk
  have hcheck : ∀ features, Lane.checkFrame features h (some (payload ++ rest)) =
      Lane.checkFrame features h (some payload) := by
    intro features
    unfold Lane.checkFrame
    rw [checkSource_some features h (payload ++ rest) payload,if_neg hschema,if_neg hschema,
      Option.getD_some,Option.getD_some,checkEvent_append features rest hf hk hlen]
  have haccept : acceptSource h (some (payload ++ rest)) = acceptSource h (some payload) := by
    unfold acceptSource
    simp only [hcheck]
  unfold acceptRun acceptKind
  rw [acceptBody_source hsource,acceptBody_source hsource,haccept]
  cases hkind : h.kind <;> simp [Kind.isData,hkind] at hk ⊢

structure MixedRun where
  kind : Kind
  rows : Nat
  body : Bytes

def MixedRun.encode (run : MixedRun) : Bytes :=
  store run.kind.code 2 ++ store run.rows 2 ++ store run.body.length 4 ++ run.body

def encodeRuns (runs : List MixedRun) : Bytes := runs.flatMap MixedRun.encode

/-- What the validator asks of a run before it looks at the rows. -/
structure MixedRun.Valid (run : MixedRun) : Prop where
  data : run.kind.isData = true
  rows : 0 < run.rows
  rowsBound : run.rows ≤ maxAddresses
  bodyBound : run.body.length ≤ maxPayloadBytes
  blocks : run.kind = .blocks → run.body.length = run.rows*8

/-- A run as a separate frame, `count` events behind the start of the mixed frame. -/
def MixedRun.frame (h : Header) (count : Nat) (run : MixedRun) : Frame :=
  ⟨runHeader h run.kind run.rows run.body.length count,some run.body⟩

def numbered : Nat → List MixedRun → List (Nat × MixedRun)
  | _, [] => []
  | count, run::runs => (count,run) :: numbered (count+run.rows) runs

def runFrames (h : Header) (count : Nat) (runs : List MixedRun) : List Frame :=
  (numbered count runs).map fun entry => entry.2.frame h entry.1

theorem encodeRuns_cons (run : MixedRun) (runs : List MixedRun) :
    encodeRuns (run::runs) = run.encode ++ encodeRuns runs := rfl

theorem MixedRun.encode_length (run : MixedRun) : run.encode.length = 8+run.body.length := by
  simp only [encode,List.length_append,store_length]

theorem MixedRun.Valid.payloadSize (hv : run.Valid) (h : Header) (count : Nat) :
    payloadSize (run.frame h count).header = run.body.length := by
  have hrows := hv.rowsBound
  have hbody := hv.bodyBound
  have hdata := hv.data
  unfold maxAddresses at hrows
  unfold maxPayloadBytes at hbody
  cases hkind : run.kind <;>
    simp only [hkind,Kind.isData,Bool.false_eq_true] at hdata <;>
    simp only [MixedRun.frame,runHeader,Cpu2Tensor.payloadSize,hkind,if_true,reduceCtorEq,if_false]
  case blocks =>
    rw [hv.blocks hkind,UInt32.toNat_ofNat_of_lt' (by change run.rows < 2^32; omega)]
  all_goals exact UInt64.toNat_ofNat_of_lt' (by change run.body.length < 2^64; omega)

theorem MixedRun.Valid.count (hv : run.Valid) (h : Header) (events : Nat) :
    (run.frame h events).header.count.toNat = run.rows := by
  have hrows := hv.rowsBound
  unfold maxAddresses at hrows
  exact UInt32.toNat_ofNat_of_lt' (by change run.rows < 2^32; omega)

structure RunAt (bytes : Bytes) (offset : Nat) (run : MixedRun) (runs : List MixedRun) : Prop where
  fits : offset+8+run.body.length ≤ bytes.length
  kind : load (bytes.drop offset) 2 = run.kind.code
  rows : load (bytes.drop (offset+2)) 2 = run.rows
  size : load (bytes.drop (offset+4)) 4 = run.body.length
  body : bytes.drop (offset+8) = run.body ++ encodeRuns runs
  rest : bytes.drop (offset+8+run.body.length) = encodeRuns runs

theorem runs_end (hlen : bytes.length = h.detail.toNat)
    (hbytes : bytes.drop offset = encodeRuns []) : ¬ offset < h.detail.toNat := by
  have hlength := congrArg List.length hbytes
  rw [List.length_drop,hlen] at hlength
  change _ = 0 at hlength
  omega

theorem runAt {runs : List MixedRun} (hbytes : bytes.drop offset = encodeRuns (run::runs))
    (hv : run.Valid) : RunAt bytes offset run runs := by
  have hrows := hv.rowsBound
  have hsize := hv.bodyBound
  unfold maxAddresses at hrows
  unfold maxPayloadBytes at hsize
  have hsplit : bytes.drop offset = store run.kind.code 2 ++ (store run.rows 2 ++
      (store run.body.length 4 ++ (run.body ++ encodeRuns runs))) := by
    rw [hbytes,encodeRuns_cons,MixedRun.encode]
    simp only [List.append_assoc]
  have hbody : bytes.drop (offset+8) = run.body ++ encodeRuns runs := by
    rw [← List.drop_drop,hsplit,drop_store_append _ _ _ _ (by omega),
      drop_store_append _ _ _ _ (by omega),drop_store_append _ _ _ _ (by omega)]
    rfl
  constructor
  · have hlength := congrArg List.length hsplit
    simp only [List.length_drop,List.length_append,store_length] at hlength
    omega
  · rw [hsplit]
    exact load_store_of_lt (Kind.code_lt _) _
  · rw [← List.drop_drop,hsplit,drop_store_append _ _ _ _ (by omega)]
    exact load_store_of_lt (by omega) _
  · rw [← List.drop_drop,hsplit,drop_store_append _ _ _ _ (by omega),
      drop_store_append _ _ _ _ (by omega)]
    exact load_store_of_lt (by omega) _
  · exact hbody
  · rw [← List.drop_drop,hbody,List.drop_left]

private theorem take_append_drop_drop (bytes : Bytes) (offset size : Nat) :
    (bytes.drop offset).take size ++ bytes.drop (offset+size) = bytes.drop offset := by
  rw [← List.drop_drop,List.take_append_drop]

private theorem drop_eq_encode (hkind : load (bytes.drop offset) 2 = kind.code)
    (hfits : offset+8+load (bytes.drop (offset+4)) 4 ≤ bytes.length) :
    bytes.drop offset =
      MixedRun.encode ⟨kind,load (bytes.drop (offset+2)) 2,
        (bytes.drop (offset+8)).take (load (bytes.drop (offset+4)) 4)⟩ ++
      bytes.drop (offset+8+load (bytes.drop (offset+4)) 4) := by
  have hlength : ((bytes.drop (offset+8)).take (load (bytes.drop (offset+4)) 4)).length =
      load (bytes.drop (offset+4)) 4 := by
    rw [List.length_take,List.length_drop]
    omega
  unfold MixedRun.encode
  simp only [hlength]
  rw [← hkind,store_load _ 2 (by rw [List.length_drop]; omega),
    store_load _ 2 (by rw [List.length_drop]; omega),
    store_load _ 4 (by rw [List.length_drop]; omega),List.append_assoc,List.append_assoc,
    List.append_assoc,take_append_drop_drop,take_append_drop_drop,take_append_drop_drop,
    take_append_drop_drop]

private theorem isData_of_run
    (h : ¬(kind ≠ .blocks ∧ kind ≠ .registers ∧ kind ≠ .memory ∧ kind ≠ .addressContext)) :
    kind.isData = true := by
  cases kind <;> simp [Kind.isData] at h ⊢

private theorem acceptRun_frame {count : Nat} (rest : Bytes) (hv : run.Valid)
    (hr : acceptRun (run.frame h count).header (some (run.body ++ rest)) s = .ok () t) :
    acceptFrame (run.frame h count) s = .ok () t := by
  have hne : (run.frame h count).header.kind ≠ .mixed := by
    change run.kind ≠ .mixed
    rintro heq
    have hdata := hv.data
    simp [heq,Kind.isData] at hdata
  rw [acceptFrame_of_ne_mixed hne]
  have hf := (acceptRun_eq_ok.mp hr).1
  rwa [acceptRun_append rest hf hv.data (hv.payloadSize h count).symm] at hr

theorem mixedRuns_encode (fuel offset count : Nat) (hdetail : h.detail.toNat ≤ maxPayloadBytes)
    (hcount : h.count.toNat ≤ maxAddresses) (hlen : bytes.length = h.detail.toNat)
    (hoffset : offset ≤ h.detail.toNat) (hle : count ≤ h.count.toNat)
    (hr : mixedRuns h bytes fuel offset count s = .ok () t) :
    ∃ runs, bytes.drop offset = encodeRuns runs ∧ (∀ run ∈ runs, run.Valid) ∧
      count+(runs.map MixedRun.rows).sum = h.count.toNat ∧
      (∀ entry ∈ numbered count runs, h.sequence.toNat+entry.1 ≤ uint64Max) ∧
      acceptAll (runFrames h count runs) s = .ok () t := by
  induction fuel generalizing offset count s with
  | zero => simp [mixedRuns] at hr
  | succ fuel ih =>
    by_cases ho : offset < h.detail.toNat
    · cases hkind : Kind.ofCode (load (bytes.drop offset) 2) with
      | none => simp [mixedRuns,ho,hkind] at hr
      | some kind =>
        simp only [mixedRuns,ho,hkind,if_true,bind_eq_ok,exists_unit,refuse_eq_ok] at hr
        obtain ⟨_,⟨hhead,rfl⟩,_,⟨hrun,rfl⟩,_,⟨hsequence,rfl⟩,r,hfirst,hrest⟩ := hr
        simp only [not_or] at hrun
        obtain ⟨hdata,hzero,hrows,hsize,hblocks⟩ := hrun
        have hfits : offset+8+load (bytes.drop (offset+4)) 4 ≤ bytes.length := by omega
        have hencode := drop_eq_encode (Kind.ofCode_eq_some hkind) hfits
        have hlength : ((bytes.drop (offset+8)).take (load (bytes.drop (offset+4)) 4)).length =
            load (bytes.drop (offset+4)) 4 := by
          rw [List.length_take,List.length_drop]
          omega
        have hv : MixedRun.Valid ⟨kind,load (bytes.drop (offset+2)) 2,
            (bytes.drop (offset+8)).take (load (bytes.drop (offset+4)) 4)⟩ := by
          refine ⟨?_,Nat.pos_of_ne_zero hzero,?_,by rw [hlength]; omega,fun heq => ?_⟩
          · exact isData_of_run hdata
          · change load (bytes.drop (offset+2)) 2 ≤ maxAddresses
            omega
          · rw [hlength]
            exact not_not.mp fun hne => hblocks ⟨heq,hne⟩
        obtain ⟨runs,hruns,hvalid,hsum,hbound,hall⟩ := ih (offset+8+load (bytes.drop (offset+4)) 4)
          (count+load (bytes.drop (offset+2)) 2) (by omega) (by omega) hrest
        have hmax : count ≤ uint64Max := by
          unfold maxAddresses at hcount
          unfold uint64Max
          omega
        refine ⟨⟨kind,_,_⟩::runs,?_,List.forall_mem_cons.mpr ⟨hv,hvalid⟩,?_,
          List.forall_mem_cons.mpr ⟨?_,hbound⟩,?_⟩
        · rw [hencode,hruns,encodeRuns_cons]
        · rw [List.map_cons,List.sum_cons,← Nat.add_assoc]
          exact hsum
        · change h.sequence.toNat+count ≤ uint64Max
          omega
        · rw [runFrames,numbered,List.map_cons,acceptAll_cons]
          refine ⟨r,?_,hall⟩
          apply acceptRun_frame (bytes.drop (offset+8+load (bytes.drop (offset+4)) 4)) hv
          rw [take_append_drop_drop,MixedRun.frame,hlength]
          exact hfirst
    · simp only [mixedRuns,ho,if_false,refuse_eq_ok] at hr
      obtain ⟨hall,rfl⟩ := hr
      refine ⟨[],?_,by simp,?_,by simp [numbered],by simp [runFrames,numbered]⟩
      · rw [List.drop_eq_nil_of_le (by omega)]
        rfl
      · simpa using hall

theorem mixed_of_headerFault (hf : headerFault h = none) (hk : h.kind = .mixed) :
    h.detail.toNat ≤ maxPayloadBytes ∧ h.count.toNat ≤ maxAddresses ∧ 0 < h.count.toNat := by
  simp only [headerFault,fieldFault,hk,check_eq_none] at hf
  omega

/-- The payload of an accepted mixed frame is the encoding of runs that are accepted as separate
frames. -/
theorem acceptFrame_mixed_runs (hk : h.kind = .mixed) (hlen : payload.length = h.detail.toNat)
    (hr : acceptFrame ⟨h,some payload⟩ s = .ok () t) :
    ∃ runs, payload = encodeRuns runs ∧ (∀ run ∈ runs, run.Valid) ∧
      (runs.map MixedRun.rows).sum = h.count.toNat ∧
      (∀ entry ∈ numbered 0 runs, h.sequence.toNat+entry.1 ≤ uint64Max) ∧
      acceptAll (runFrames h 0 runs) s = .ok () t := by
  obtain ⟨hf,_,_,_,_,_,hr⟩ := (@acceptFrame_mixed_eq_ok ⟨h,some payload⟩ s t hk).mp hr
  obtain ⟨hdetail,hcount,_⟩ := mixed_of_headerFault hf hk
  obtain ⟨runs,hruns,hvalid,hsum,hbound,hall⟩ := mixedRuns_encode _ 0 0 hdetail hcount hlen (by omega)
    (by omega) hr
  exact ⟨runs,hruns,hvalid,(Nat.zero_add _).symm.trans hsum,hbound,hall⟩

theorem acceptFrame_data {frame : Frame} {s t : Stream} (hk : frame.header.kind.isData = true)
    (hr : acceptFrame frame s = .ok () t) :
    headerFault frame.header = none ∧ s.started = true ∧
      ∃ lane, Lane.checkEvent s.features frame.header (frame.payload.getD [])
        (s.lanes frame.header.source.toNat) = .ok () lane ∧ t = s.counted frame.header lane := by
  have hschema : frame.header.kind ≠ .registerSchema := fun heq => by
    simp [heq,Kind.isData] at hk
  obtain ⟨hf,hstarted,lane,hcheck,ht⟩ := acceptFrame_source (Kind.isSource_of_isData hk) hr
  obtain ⟨_,⟨hkind,_⟩ | ⟨_,hevent⟩⟩ := checkFrame_eq_ok.mp hcheck
  · exact absurd hkind hschema
  · exact ⟨hf,hstarted,lane,hevent,ht⟩

private theorem baseline_registers (hr : Lane.baseline features h lane = .ok () lane') :
    lane'.registers = lane.registers := by
  obtain ⟨_,rfl⟩ := baseline_flag hr
  rfl

theorem checkEvent_registers (hr : Lane.checkEvent features h bytes lane = .ok () lane')
    (hnone : lane.registers = none) : lane'.registers = none := by
  simp only [Lane.checkEvent,bind_eq_ok,exists_unit,get_eq_ok,refuse_eq_ok,whenever_eq_ok] at hr
  obtain ⟨_,_,⟨rfl,rfl⟩,_,⟨_,rfl⟩,_,⟨_,rfl⟩,l₁,⟨hctx,hctx'⟩,_,_,⟨rfl,rfl⟩,_,⟨_,rfl⟩,
    l₂,hbase,l₃,⟨hreg,hreg'⟩,hmem,hmem'⟩ := hr
  have hfirst : l₁.registers = none := by
    by_cases hk : h.kind = .addressContext
    · have hcontext := hctx hk
      simp only [Lane.addressContext,bind_eq_ok,exists_unit,refuse_eq_ok,modify_eq_ok] at hcontext
      obtain ⟨_,⟨_,rfl⟩,_,⟨_,rfl⟩,rfl⟩ := hcontext
      exact hnone
    · rw [← hctx' hk]
      exact hnone
  have hsecond : l₂.registers = none := (baseline_registers hbase).trans hfirst
  have hthird : l₃.registers = none := by
    by_cases hk : h.kind = .registers
    · obtain ⟨_,⟨_,rfl⟩,hsamples⟩ := hreg hk
      simp only [Lane.registerSamples,bind_eq_ok,get_eq_ok] at hsamples
      obtain ⟨_,_,⟨rfl,rfl⟩,hsamples⟩ := hsamples
      simp [hsecond] at hsamples
    · rw [← hreg' hk]
      exact hsecond
  by_cases hk : h.kind = .memory
  · rw [← (memoryRows_eq_ok.mp (hmem hk)).2.2.2]
    exact hthird
  · rw [← hmem' hk]
    exact hthird

theorem checkEvent_kind (hr : Lane.checkEvent features h bytes lane = .ok () lane') :
    (h.kind = .registers → ∃ before after, before.registers = lane.registers ∧
      Lane.registerSamples features h bytes before = .ok () after) ∧
    (h.kind = .memory → ∃ before after, Lane.memoryRows features h bytes before = .ok () after) := by
  simp only [Lane.checkEvent,bind_eq_ok,exists_unit,get_eq_ok,refuse_eq_ok,whenever_eq_ok] at hr
  obtain ⟨_,_,⟨rfl,rfl⟩,_,⟨_,rfl⟩,_,⟨_,rfl⟩,l₁,⟨_,hctx⟩,_,_,⟨rfl,rfl⟩,_,⟨_,rfl⟩,
    l₂,hbase,l₃,⟨hreg,_⟩,hmem,_⟩ := hr
  constructor
  · intro hk
    obtain ⟨_,⟨_,rfl⟩,hsamples⟩ := hreg hk
    refine ⟨l₂,l₃,?_,hsamples⟩
    have hfirst : lane = l₁ := hctx (by simp [hk])
    subst hfirst
    exact baseline_registers hbase
  · intro hk
    exact ⟨l₃,lane',hmem hk⟩

end Cpu2Tensor
