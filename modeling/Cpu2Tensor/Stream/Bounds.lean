import Cpu2Tensor.Library.Guarded
import Cpu2Tensor.Stream.Termination

/-!
# Memory accesses of the validator

The reads of payload bytes and the table entries that `accept` uses, beside the steps that use
them.  An access is listed whenever the checks before it in the source let it happen, or sooner;
an unsigned subtraction is listed with the value it subtracts.
-/

namespace Cpu2Tensor
open Library

def allSources : List Access := (List.range maxSources).map fun source => indexOf source maxSources

def allRegisters : List Access := (List.range maxRegisters).map fun id => indexOf id maxRegisters

/-- A schema row; `strcmp` stops at the terminator that has been found in the name. -/
def schemaRowAccesses (bytes : Bytes) (row : Nat) : List Access :=
  let base := row*registerSchemaBytes
  let id := load (bytes.drop base) 4
  [readAt bytes base 4,readAt bytes (base+4) 4,readAt bytes (base+8) 64] ++
    (if id ≥ maxRegisters then [] else [indexOf id maxRegisters]) ++ allRegisters

/-- The walk of `registers`, which goes on while the value of a row is inside the payload. -/
def registerAccesses (detail : Nat) (bytes : Bytes) : Nat → Nat → List Access
  | 0, _ => []
  | rows+1, offset =>
    subtrahend offset detail ::
    if detail-offset < 16 then []
    else
      let id := load (bytes.drop (offset+8)) 4
      let width := load (bytes.drop (offset+12)) 2
      [readAt bytes (offset+8) 4,readAt bytes (offset+12) 2,readAt bytes (offset+14) 2,
        subtrahend (offset+16) detail] ++
      (if id ≥ maxRegisters then [] else [indexOf id maxRegisters]) ++
      if width > detail-offset-16 then []
      else registerAccesses detail bytes rows (offset+16+width)

def memoryRowAccesses (features : UInt64) (bytes : Bytes) (row : Nat) : List Access :=
  let base := row*memoryStride features
  let width := load (bytes.drop (base+16)) 4
  [readAt bytes (base+16) 4,readAt bytes (base+20) 4] ++
  (if Has features featureSystemMemory then
    [readAt bytes (base+24) 8,readAt bytes (base+32) 4,readAt bytes (base+36) 4,
      readAt bytes (base+40) 8,readAt bytes (base+8) 8,
      subtrahend (load (bytes.drop (base+8)) 8 &&& 4095) 4096]
  else []) ++
  if Has features featureMemoryValues ∧ width ≤ 16 then
    [readAt bytes (base+memoryPrefix features+width) (16-width)]
  else []

def sourceAccesses (features : UInt64) (h : Header) (bytes : Bytes) : List Access :=
  indexOf h.source.toNat maxSources :: allRegisters ++
  match h.kind with
  | .registerSchema => (List.range h.count.toNat).flatMap (schemaRowAccesses bytes)
  | .registers => registerAccesses h.detail.toNat bytes h.count.toNat 0
  | .memory =>
    if h.detail.toNat ≠ h.count.toNat*memoryStride features then []
    else (List.range h.count.toNat).flatMap (memoryRowAccesses features bytes)
  | .addressContext => [readAt bytes 48 8,readAt bytes 56 8,readAt bytes 40 8]
  | _ => []

/-- The slots that a search from `home` can visit; after `capacity` steps it visits them again. -/
def slotAccesses (capacity home : Nat) : List Access :=
  (List.range capacity).map fun k =>
    indexOf ((fun slot => (slot+1) &&& (capacity-1))^[k] home) capacity

def growAccesses (s : Stream) (capacity : Nat) : List Access :=
  subtrahend capacity (2^32-1) :: (List.range s.windowKeyCapacity).flatMap fun index =>
    indexOf index s.windowKeyCapacity ::
    if (s.windowKeys index).window ≠ s.nextWindow then []
    else slotAccesses capacity ((s.windowKeys index).home (capacity-1))

def rememberAccesses (s : Stream) (source fromAddress destination : Nat) : List Access :=
  if s.windowDistinct ≥ maxTransitionSlots then []
  else
    (if s.windowKeyCapacity = 0 ∨ (s.windowDistinct+1)*2 > s.windowKeyCapacity then
      growAccesses s (if s.windowKeyCapacity = 0 then 512 else s.windowKeyCapacity*2)
    else []) ++
    slotAccesses s.grownCapacity
      (TransitionKey.home (s.grownCapacity-1) ⟨s.nextWindow,fromAddress,destination,source⟩)

def guardedTransitionRow (source : Nat) (observation : Bool) (bytes : Bytes) (row : Nat) :
    Guarded Stream Unit :=
  let base := row*transitionCountBytes
  let item := loadTransitionRow (bytes.drop base)
  guarded (fun s => [readAt bytes base 8,readAt bytes (base+8) 8,readAt bytes (base+16) 8,
      indexOf source maxSources] ++ rememberAccesses s source item.fromAddress item.destination)
    (transitionRow source observation item)

def guardedTransitionRows (source : Nat) (observation : Bool) (bytes : Bytes) :
    Nat → Nat → Guarded Stream Unit
  | 0, _ => pure ()
  | rows+1, row => do
    guardedTransitionRow source observation bytes row
    guardedTransitionRows source observation bytes rows (row+1)

def guardedBlockTransitions (h : Header) (bytes : Bytes) : Guarded Stream Unit := do
  let s ← get
  let source := h.source.toNat
  guarded (fun _ => if source ≥ maxSources then [] else [indexOf source maxSources]) (refuse
    ((¬Has s.features featureTransitionWindows ∧ ¬Has s.features featureObservationReduction) ∨
      some bytes = none ∨ h.sequence.toNat ≠ s.nextWindow ∨ source ≥ maxSources ∨
      (s.lanes source).ended = true ∨
      (Has s.features featureTransitionWindows ∧ s.windowExpected = false) ∨
      (Has s.features featureObservationReduction ∧ (s.lanes source).observationSummary = true))
    "Block transitions need their current reduction")
  guardedTransitionRows source (Has s.features featureObservationReduction) bytes h.count.toNat 0
  touch [indexOf source maxSources,subtrahend h.count.toNat maxTransitionSlots]
  unguarded (do
    let s ← get
    refuse (s.windowRowsPerSource source > maxTransitionSlots - h.count.toNat)
      "Per-source transition row count overflow"
    set { s with
      windowRowsPerSource := Function.update s.windowRowsPerSource source
        (s.windowRowsPerSource source + h.count.toNat)
      windowMaxSourcePlusOne :=
        if s.windowMaxSourcePlusOne ≤ source then source+1 else s.windowMaxSourcePlusOne
      windowRows := true })

def reducedRowAccesses (bytes : Bytes) (row : Nat) : List Access :=
  let base := row*reducedContextBytes
  [readAt bytes base 8,readAt bytes (base+56) 8,readAt bytes (base+64) 8,readAt bytes (base+48) 8]

def summaryAccesses (h : Header) (bytes : Bytes) : List Access :=
  [indexOf h.source.toNat maxSources,readAt bytes 0 4,readAt bytes 4 4,readAt bytes 8 4,
    readAt bytes 12 4,readAt bytes 16 8,readAt bytes 24 8,readAt bytes 32 8,readAt bytes 40 8,
    readAt bytes 48 8,readAt bytes 56 8,readAt bytes 64 8]

def windowAccesses (bytes : Bytes) : List Access :=
  [readAt bytes 0 4,readAt bytes 4 4,readAt bytes 8 4,readAt bytes 12 4,readAt bytes 16 8,
    readAt bytes 24 8,readAt bytes 32 8] ++ allSources

/-- The filter's source is an index only when it is below the number of sources. -/
def filterAccesses (bytes : Bytes) : List Access :=
  [readAt bytes 0 4,readAt bytes 4 4,readAt bytes 8 4,readAt bytes 12 4,readAt bytes 24 8,
    readAt bytes 32 8,readAt bytes 40 8,readAt bytes 48 8,readAt bytes 56 8,readAt bytes 64 8,
    readAt bytes 72 8] ++ allSources ++
  if load (bytes.drop 8) 4 ≥ maxSources then [] else [indexOf (load (bytes.drop 8) 4) maxSources]

def completeAccesses (s : Stream) : List Access :=
  allSources ++ (List.range s.windowSources).map (fun source => indexOf source maxSources) ++
    (List.range s.observationSources).map fun source => indexOf source maxSources

def guardedSource (h : Header) (bytes : Bytes) : Guarded Stream Unit :=
  guarded (fun s => sourceAccesses s.features h bytes) (acceptSource h (some bytes))

def guardedBody (h : Header) (bytes : Bytes) : Guarded Stream Unit :=
  match h.kind with
  | .kernelRequest => guarded (fun _ => allSources ++ allRegisters) acceptKernelRequest
  | .guestEvent => unguarded (acceptGuestEvent (some bytes))
  | .blockTransitions => guardedBlockTransitions h bytes
  | .reducedContext =>
    guarded (fun _ => indexOf h.source.toNat maxSources ::
        subtrahend h.count.toNat maxTransitionSlots ::
        (List.range h.count.toNat).flatMap (reducedRowAccesses bytes))
      (acceptReducedContext h (some bytes))
  | .observationSummary =>
    guarded (fun _ => summaryAccesses h bytes) (acceptObservationSummary h (some bytes))
  | .transitionWindow =>
    guarded (fun _ => windowAccesses bytes) (acceptTransitionWindow h (some bytes))
  | .contextFilter => guarded (fun _ => filterAccesses bytes) (acceptContextFilter (some bytes))
  | .error | .terminalReport => unguarded (modify fun s => { s with finished := true })
  | .complete => guarded completeAccesses acceptComplete
  | _ => guardedSource h bytes

def guardedKind (h : Header) (bytes : Bytes) : Guarded Stream Unit :=
  if h.kind = .executableLayout then
    guarded (fun _ => [readAt bytes 0 8,readAt bytes 8 8]) (acceptLayout (some bytes))
  else do
    let s ← get
    unguarded (refuse (Has s.features featureExecutableLayout ∧ s.layoutSeen = false ∧
        h.kind ≠ .registerSchema ∧ h.kind ≠ .error)
      "Trace data needs its initial executable layout")
    guardedBody h bytes

def guardedRun (h : Header) (bytes : Bytes) : Guarded Stream Unit := do
  if ← unguarded (acceptHeader h) then guardedKind h bytes

def guardedRuns (h : Header) (bytes : Bytes) : Nat → Nat → Nat → Guarded Stream Unit
  | 0, _, _ => unguarded (throw .divergence)
  | fuel+1, offset, count =>
    let detail := h.detail.toNat
    if offset < detail then do
      touch [subtrahend offset detail]
      unguarded (refuse (detail - offset < 8) "Truncated mixed run header")
      touch [readAt bytes offset 2,readAt bytes (offset+2) 2,readAt bytes (offset+4) 4,
        subtrahend count h.count.toNat,subtrahend (offset+8) detail,subtrahend count uint64Max]
      let rows := load (bytes.drop (offset+2)) 2
      let size := load (bytes.drop (offset+4)) 4
      match Kind.ofCode (load (bytes.drop offset) 2) with
      | none => unguarded (throw (.failure "Invalid mixed run kind, count or length"))
      | some kind =>
        unguarded (refuse ((kind ≠ .blocks ∧ kind ≠ .registers ∧ kind ≠ .memory ∧
            kind ≠ .addressContext) ∨ rows = 0 ∨ rows > h.count.toNat - count ∨
            size > detail - (offset+8) ∨ (kind = .blocks ∧ size ≠ rows*8))
          "Invalid mixed run kind, count or length")
        unguarded (refuse (h.sequence.toNat > uint64Max - count) "Mixed sequence overflow")
        guardedRun (runHeader h kind rows size count) (bytes.drop (offset+8))
        guardedRuns h bytes fuel (offset+8+size) (count+rows)
    else unguarded (refuse (count ≠ h.count.toNat) "Mixed event count does not match its runs")

def guardedMixed (h : Header) (bytes : Bytes) : Guarded Stream Unit := do
  let s ← get
  unguarded (refuse (¬Has s.features featureMixed ∨ some bytes = none)
    "Mixed capture needs its feature and payload")
  guardedRuns h bytes (h.detail.toNat+1) 0 0

def guardedAccept (h : Header) (bytes : Bytes) : Guarded Stream Unit := do
  if ← unguarded (acceptHeader h) then
    if h.kind = .mixed then guardedMixed h bytes
    else guardedKind h bytes

section Rows

variable {features : UInt64} {bytes : Bytes} {h : Header}

theorem allSources_fit : AllFit allSources := by
  rw [allSources,allFit_map]
  intro source hs
  exact List.mem_range.mp hs

theorem allRegisters_fit : AllFit allRegisters := by
  rw [allRegisters,allFit_map]
  intro id hid
  exact List.mem_range.mp hid

variable {count row : Nat}

theorem row_end {stride length : Nat} (hrow : row < count) (hlen : count*stride ≤ length) :
    row*stride+stride ≤ length := by
  have hle : (row+1)*stride ≤ count*stride := Nat.mul_le_mul_right stride hrow
  rw [Nat.succ_mul] at hle
  omega

private theorem schemaRow_fits (hrow : row < count)
    (hlen : count*registerSchemaBytes ≤ bytes.length) : AllFit (schemaRowAccesses bytes row) := by
  have hend := row_end hrow hlen
  unfold registerSchemaBytes at hend
  simp only [schemaRowAccesses,registerSchemaBytes,allFit_append,allFit_cons,allFit_nil,
    readAt_fits,and_true]
  refine ⟨⟨by omega,allFit_ite.mpr ⟨fun _ => allFit_nil,fun hid => ?_⟩⟩,allRegisters_fit⟩
  simpa using hid

private theorem registerAccesses_fit {detail : Nat} (hlen : detail ≤ bytes.length)
    (rows offset : Nat) (hoffset : offset ≤ detail) :
    AllFit (registerAccesses detail bytes rows offset) := by
  induction rows generalizing offset with
  | zero => exact allFit_nil
  | succ rows ih =>
    simp only [registerAccesses,allFit_cons,allFit_append,allFit_ite,allFit_nil,readAt_fits,
      indexOf_fits,subtrahend_fits,and_true,implies_true,true_and]
    refine ⟨hoffset,fun hfull => ⟨⟨?_,fun hid => by omega⟩,fun hwidth => ih _ ?_⟩⟩
    · omega
    · omega

private theorem memoryRow_fits (hrow : row < count)
    (hlen : count*memoryStride features ≤ bytes.length) :
    AllFit (memoryRowAccesses features bytes row) := by
  have hend := row_end hrow hlen
  have hstride : memoryStride features = memoryPrefix features +
      if Has features featureMemoryValues then 16 else 0 := rfl
  have hhead : memoryPrefix features = if Has features featureSystemMemory then 48 else 24 := rfl
  have hand : load (bytes.drop (row*memoryStride features+8)) 8 &&& 4095 ≤ 4095 :=
    Nat.and_le_right
  simp only [memoryRowAccesses,allFit_append,allFit_cons,allFit_nil,allFit_ite,readAt_fits,
    subtrahend_fits,and_true,implies_true]
  generalize row*memoryStride features = base at *
  refine ⟨⟨?_,fun hs => ?_⟩,fun hv => ?_⟩
  · split at hhead <;> omega
  · rw [if_pos hs] at hhead
    omega
  · rw [if_pos hv.1] at hstride
    omega

theorem sourceAccesses_fit (hf : headerFault h = none) (hlen : payloadSize h ≤ bytes.length) :
    AllFit (sourceAccesses features h bytes) := by
  have hsource := source_of_headerFault hf
  simp only [headerFault,check_eq_none] at hf
  obtain ⟨_,_,hf⟩ := hf
  rw [sourceAccesses,List.cons_append,allFit_cons,allFit_append]
  refine ⟨hsource,allRegisters_fit,?_⟩
  cases hk : h.kind <;> simp only [fieldFault,payloadSize,hk,check_eq_none] at hf hlen <;>
    simp only [allFit_nil]
  case registerSchema =>
    rw [allFit_flatMap]
    intro row hrow
    exact schemaRow_fits (List.mem_range.mp hrow) (by omega)
  case registers => exact registerAccesses_fit hlen _ _ (Nat.zero_le _)
  case memory =>
    rw [allFit_ite]
    refine ⟨fun _ => allFit_nil,fun hsize => ?_⟩
    rw [allFit_flatMap]
    intro row hrow
    exact memoryRow_fits (List.mem_range.mp hrow) (not_not.mp hsize ▸ hlen)
  case addressContext =>
    simp only [contextBytes] at hf
    simp only [allFit_cons,readAt_fits,allFit_nil,and_true]
    omega

end Rows

section Slots

variable {s : Stream} {capacity : Nat}

private theorem slotAccesses_fit {home : Nat} (hpos : 0 < capacity) (hhome : home < capacity) :
    AllFit (slotAccesses capacity home) := by
  rw [slotAccesses,allFit_map]
  intro k _
  rw [indexOf_fits]
  cases k with
  | zero => exact hhome
  | succ k =>
    rw [Function.iterate_succ_apply']
    have hle := @Nat.and_le_right ((fun slot => (slot+1) &&& (capacity-1))^[k] home+1) (capacity-1)
    omega

private theorem home_lt (hpos : 0 < capacity) (key : TransitionKey) :
    key.home (capacity-1) < capacity := by
  have hle := @Nat.and_le_right
    (transitionHash key.source key.fromAddress key.destination).toUInt32.toNat (capacity-1)
  unfold TransitionKey.home
  omega

private theorem rememberAccesses_fit (s : Stream) (source a b : Nat) :
    AllFit (rememberAccesses s source a b) := by
  rw [rememberAccesses,allFit_ite]
  refine ⟨fun _ => allFit_nil,fun hroom => ?_⟩
  have hpos : 0 < s.grownCapacity := by
    unfold Stream.grownCapacity
    split
    · split <;> omega
    · omega
  rw [allFit_append,allFit_ite]
  refine ⟨⟨fun hgrows => ?_,fun _ => allFit_nil⟩,slotAccesses_fit hpos (home_lt hpos _)⟩
  have hcapacity : 0 < (if s.windowKeyCapacity = 0 then 512 else s.windowKeyCapacity*2) ∧
      (if s.windowKeyCapacity = 0 then 512 else s.windowKeyCapacity*2) ≤ 2^32-1 := by
    unfold maxTransitionSlots at hroom
    split <;> omega
  rw [growAccesses,allFit_cons,allFit_flatMap]
  refine ⟨hcapacity.2,fun index hindex => ?_⟩
  rw [allFit_cons,allFit_ite]
  exact ⟨List.mem_range.mp hindex,fun _ => allFit_nil,
    fun _ => slotAccesses_fit hcapacity.1 (home_lt hcapacity.1 _)⟩

private theorem guardedTransitionRows_agrees {source count rows row : Nat} {observation : Bool}
    {bytes : Bytes} (hsource : source < maxSources) (hrow : row+rows ≤ count)
    (hlen : count*transitionCountBytes ≤ bytes.length) (s : Stream) :
    Agrees (guardedTransitionRows source observation bytes rows row)
      (transitionRows source observation (loadTransitionRows bytes rows row)) s := by
  induction rows generalizing row s with
  | zero => exact agrees_pure () s
  | succ rows ih =>
    have hend := row_end (show row < count by omega) hlen
    rw [guardedTransitionRows,loadTransitionRows,transitionRows]
    refine (agrees_guarded ?_).bind fun _ t _ => ih (by omega) t
    rw [allFit_append]
    refine ⟨?_,rememberAccesses_fit _ _ _ _⟩
    unfold transitionCountBytes at hend ⊢
    simp only [allFit_cons,readAt_fits,indexOf_fits,allFit_nil,and_true]
    omega

end Slots

/-- The numbers of sources that a summary or a window has declared are those of real sources. -/
def Stream.Sized (s : Stream) : Prop :=
  s.windowSources ≤ maxSources ∧ s.observationSources ≤ maxSources

section Dispatch

variable {h : Header} {bytes : Bytes} {s : Stream}

private theorem guardedBlockTransitions_agrees (hf : headerFault h = none)
    (hk : h.kind = .blockTransitions) (hlen : payloadSize h ≤ bytes.length) :
    Agrees (guardedBlockTransitions h bytes) (acceptBlockTransitions h (some bytes)) s := by
  have hsource := source_of_headerFault hf
  simp only [headerFault,check_eq_none,fieldFault,hk] at hf
  simp only [payloadSize,hk] at hlen
  refine .get_bind ?_
  refine Agrees.bind (agrees_guarded ?_) fun _ t ht => ?_
  · exact allFit_ite.mpr ⟨fun _ => allFit_nil,fun _ => by simpa using hsource⟩
  · refine (guardedTransitionRows_agrees hsource (Nat.zero_add _).le (by omega) t).bind fun _ u _ => ?_
    refine .touch_bind ?_ (agrees_unguarded _ u)
    simp only [allFit_cons,indexOf_fits,subtrahend_fits,allFit_nil,and_true]
    refine ⟨hsource,?_⟩
    unfold maxAddresses at hf
    unfold maxTransitionSlots
    omega

private theorem guardedBody_agrees (hf : headerFault h = none) (hlen : payloadSize h ≤ bytes.length)
    (hs : s.Sized) : Agrees (guardedBody h bytes) (acceptBody h (some bytes)) s := by
  have hsource := source_of_headerFault hf
  have hfields := hf
  simp only [headerFault,check_eq_none] at hfields
  obtain ⟨_,hcount,hfields⟩ := hfields
  unfold guardedBody acceptBody
  cases hk : h.kind <;> simp only [fieldFault,payloadSize,hk,check_eq_none] at hfields hlen
  case kernelRequest =>
    exact agrees_guarded (allFit_append.mpr ⟨allSources_fit,allRegisters_fit⟩)
  case blockTransitions =>
    exact guardedBlockTransitions_agrees hf hk (by simpa only [payloadSize,hk] using hlen)
  case reducedContext =>
    refine agrees_guarded ?_
    simp only [allFit_cons,indexOf_fits,subtrahend_fits,allFit_flatMap]
    refine ⟨hsource,?_,fun row hrow => ?_⟩
    · unfold maxAddresses at hcount
      unfold maxTransitionSlots
      omega
    · have hend := row_end (List.mem_range.mp hrow)
        (show h.count.toNat*reducedContextBytes ≤ bytes.length by omega)
      unfold reducedContextBytes at hend
      simp only [reducedRowAccesses,reducedContextBytes,allFit_cons,readAt_fits,allFit_nil,and_true]
      omega
  case observationSummary =>
    refine agrees_guarded ?_
    unfold observationSummaryBytes at hfields
    simp only [summaryAccesses,allFit_cons,indexOf_fits,readAt_fits,allFit_nil,and_true]
    omega
  case transitionWindow =>
    refine agrees_guarded (allFit_append.mpr ⟨?_,allSources_fit⟩)
    unfold transitionWindowBytes at hfields
    simp only [allFit_cons,readAt_fits,allFit_nil,and_true]
    omega
  case contextFilter =>
    refine agrees_guarded (allFit_append.mpr ⟨allFit_append.mpr ⟨?_,allSources_fit⟩,?_⟩)
    · unfold contextFilterBytes at hfields
      simp only [allFit_cons,readAt_fits,allFit_nil,and_true]
      omega
    · exact allFit_ite.mpr ⟨fun _ => allFit_nil,fun hid => by simpa using hid⟩
  case complete =>
    refine agrees_guarded (allFit_append.mpr ⟨allFit_append.mpr ⟨allSources_fit,?_⟩,?_⟩)
    · rw [allFit_map]
      intro source hin
      exact (List.mem_range.mp hin).trans_le hs.1
    · rw [allFit_map]
      intro source hin
      exact (List.mem_range.mp hin).trans_le hs.2
  case guestEvent => exact agrees_unguarded _ s
  case error => exact agrees_unguarded _ s
  case terminalReport => exact agrees_unguarded _ s
  all_goals
    exact agrees_guarded (sourceAccesses_fit hf (by simpa only [payloadSize,hk] using hlen))

private theorem guardedKind_agrees (hf : headerFault h = none) (hlen : payloadSize h ≤ bytes.length)
    (hs : s.Sized) : Agrees (guardedKind h bytes) (acceptKind h (some bytes)) s := by
  unfold guardedKind acceptKind
  by_cases hk : h.kind = .executableLayout
  · rw [if_pos hk,if_pos hk]
    simp only [headerFault,check_eq_none,fieldFault,hk] at hf
    simp only [payloadSize,hk] at hlen
    refine agrees_guarded ?_
    unfold layoutBytes at hf
    simp only [allFit_cons,readAt_fits,allFit_nil,and_true]
    omega
  · rw [if_neg hk,if_neg hk]
    exact .get_bind (.check_bind fun _ => guardedBody_agrees hf hlen hs)

private theorem guardedRun_agrees (hk : h.kind.isData = true) (hlen : payloadSize h ≤ bytes.length) :
    Agrees (guardedRun h bytes) (acceptRun h (some bytes)) s := by
  refine (agrees_unguarded _ s).bind fun more t ht => ?_
  obtain ⟨hf,_⟩ := acceptHeader_eq_ok.mp ht
  cases more with
  | false => exact agrees_pure () t
  | true =>
    have hkinds : h.kind ≠ .executableLayout := fun heq => by simp [heq,Kind.isData] at hk
    have hbody : guardedBody h bytes = guardedSource h bytes := by
      unfold guardedBody
      cases hkind : h.kind <;> simp [hkind,Kind.isData] at hk ⊢
    rw [if_pos rfl,if_pos rfl,guardedKind,acceptKind,if_neg hkinds,if_neg hkinds]
    refine .get_bind (.check_bind fun _ => ?_)
    rw [hbody,acceptBody_source (Kind.isSource_of_isData hk)]
    exact agrees_guarded (sourceAccesses_fit hf hlen)

private theorem runHeader_payload {kind : Kind} {rows size count : Nat} (hrows : rows < 2^16)
    (hsize : size < 2^32) (hdata : kind.isData = true) (hblocks : kind = .blocks → size = rows*8) :
    payloadSize (runHeader h kind rows size count) = size := by
  have hrow : (UInt32.ofNat rows).toNat = rows :=
    UInt32.toNat_ofNat_of_lt' (by change rows < 2^32; omega)
  have hdetail : (UInt64.ofNat size).toNat = size :=
    UInt64.toNat_ofNat_of_lt' (by change size < 2^64; omega)
  cases kind <;> simp only [Kind.isData,Bool.false_eq_true] at hdata <;>
    simp only [payloadSize,runHeader,if_true,reduceCtorEq,if_false,hrow,hdetail]
  exact (hblocks rfl).symm

private theorem guardedRuns_agrees (hlen : h.detail.toNat ≤ bytes.length)
    (hcount : h.count.toNat ≤ uint64Max) (fuel offset count : Nat) (hoffset : offset ≤ h.detail.toNat)
    (hevents : count ≤ h.count.toNat) :
    Agrees (guardedRuns h bytes fuel offset count) (mixedRuns h bytes fuel offset count) s := by
  induction fuel generalizing offset count s with
  | zero => exact agrees_unguarded _ s
  | succ fuel ih =>
    rw [guardedRuns,mixedRuns]
    by_cases ho : offset < h.detail.toNat
    · simp only [if_pos ho]
      refine .touch_bind (by simpa using hoffset) (.check_bind fun hhead => .touch_bind ?_ ?_)
      · simp only [allFit_cons,readAt_fits,subtrahend_fits,allFit_nil,and_true]
        omega
      cases Kind.ofCode (load (bytes.drop offset) 2) with
      | none => exact agrees_unguarded _ s
      | some kind =>
        refine .check_bind fun hrun => .check_bind fun _ => ?_
        push Not at hrun
        obtain ⟨hkind,_,hrows,hsize,hblocks⟩ := hrun
        have hdata : kind.isData = true := by
          revert hkind
          cases kind <;> simp [Kind.isData]
        have hpayload := @runHeader_payload h kind _ _ count (load_lt (bytes.drop (offset+2)) 2)
          (load_lt (bytes.drop (offset+4)) 4) hdata hblocks
        refine (guardedRun_agrees hdata ?_).bind fun _ t _ => ih _ _ (by omega) (by omega)
        rw [hpayload,List.length_drop]
        omega
    · simp only [if_neg ho]
      exact agrees_unguarded _ s

/-- No access of `accept` is outside of its buffer. -/
theorem guardedAccept_agrees (hlen : headerFault h = none → payloadSize h ≤ bytes.length)
    (hs : s.Sized) : Agrees (guardedAccept h bytes) (accept h (some bytes)) s := by
  refine (agrees_unguarded _ s).bind fun more t ht => ?_
  obtain ⟨hf,_,⟨_,_,rfl,_⟩ | ⟨_,_,_,rfl,rfl⟩⟩ := acceptHeader_eq_ok.mp ht
  · exact agrees_pure () t
  · have hbytes := hlen hf
    rw [if_pos rfl,if_pos rfl]
    by_cases hm : h.kind = .mixed
    · rw [if_pos hm,if_pos hm]
      simp only [payloadSize,hm] at hbytes
      simp only [headerFault,check_eq_none] at hf
      have hcount : h.count.toNat ≤ uint64Max := by
        unfold maxAddresses at hf
        unfold uint64Max
        omega
      exact .get_bind (.check_bind fun _ =>
        guardedRuns_agrees hbytes hcount _ 0 0 (Nat.zero_le _) (Nat.zero_le _))
    · rw [if_neg hm,if_neg hm]
      exact guardedKind_agrees hf hbytes hs

end Dispatch

theorem sized_windowInvariant : WindowInvariant Stream.Sized := by
  intro s t hs _ _ _ _ hwindow hobservation
  rw [Stream.Sized,hwindow,hobservation]
  exact hs

section Calls

variable {s : Stream}

private theorem transitionRows_sized (source : Nat) (observation : Bool) (rows : List TransitionRow) :
    Ends True Stream.Sized (transitionRows source observation rows) := by
  have hgrow (capacity : Nat) : Ends True Stream.Sized (growTransitionKeys capacity) := by
    refine .get_bind fun s hs => ?_
    cases s.rehash capacity with
    | none => exact ⟨fun _ hs => ⟨fun _ => trivial,hs⟩⟩
    | some keys => exact ends_set hs
  have hremember (a b : Nat) : Ends True Stream.Sized (rememberTransition source a b) := by
    refine .get_bind fun s _ => .refuse_bind <| (ends_whenever (hgrow _)).bind fun _ =>
      .get_bind fun t ht => ?_
    dsimp only
    cases t.findKey ⟨t.nextWindow,a,b,source⟩ with
    | vacant slot => exact ends_set ht
    | found slot => exact ends_failure _
    | exhausted => exact ⟨fun _ hs => ⟨fun _ => trivial,hs⟩⟩
  induction rows with
  | nil => exact ends_pure ()
  | cons row rows ih =>
    refine Ends.bind ((hremember _ _).bind fun _ => .get_bind fun s hs => .refuse_bind ?_) fun _ => ih
    refine (ends_set (P := Stream.Sized) (r := { s with windowObserved := s.windowObserved + row.count })
      hs).bind fun _ => ?_
    refine (ends_whenever (onLane_ends sized_windowInvariant source ?_)).bind fun _ =>
      ends_modify fun _ ht => ht
    exact ends_get.bind fun _ => .refuse_bind <| total_set _

private theorem acceptBlockTransitions_sized (h : Header) (bytes : Option Bytes) :
    Ends True Stream.Sized (acceptBlockTransitions h bytes) :=
  .get_bind fun _ _ => .refuse_bind <| (transitionRows_sized _ _ _).bind fun _ =>
    .get_bind fun _ hs => .refuse_bind <| ends_set hs

private theorem acceptObservationSummary_sized (h : Header) (bytes : Option Bytes) :
    Ends True Stream.Sized (acceptObservationSummary h bytes) := by
  refine .get_bind fun s hs => .refuse_bind <| .check_bind fun hfault => ends_set ?_
  have hsources : (loadObservationSummary (bytes.getD [])).sources ≤ maxSources := by
    by_contra hn
    exact hfault (.inr (.inl (not_le.mp hn)))
  refine ⟨?_,?_⟩
  · dsimp only [Stream.setLane]
    split <;> exact hs.1
  · dsimp only [Stream.setLane]
    split
    · exact hsources
    · exact hs.2

private theorem acceptTransitionWindow_sized (h : Header) (bytes : Option Bytes) :
    Ends True Stream.Sized (acceptTransitionWindow h bytes) := by
  refine .get_bind fun s hs => .refuse_bind <| .check_bind fun hfault => ?_
  have hsources : (loadWindowFrame (bytes.getD [])).sources ≤ maxSources := by
    by_contra hn
    exact hfault (.inr (.inr (.inl (not_le.mp hn))))
  refine (ends_set ?_).bind fun _ => .get_bind fun t ht => .refuse_bind <| ends_set ht
  refine ⟨?_,?_⟩
  · dsimp only
    split
    · exact hsources
    · exact hs.1
  · dsimp only
    split <;> exact hs.2

theorem acceptCalls_sized {frames : List Frame} (hc : acceptCalls frames {} = some s) :
    s.Sized := by
  refine acceptCalls_induct (fun frame s t hs hr => ?_) ⟨Nat.zero_le _,Nat.zero_le _⟩ hc
  exact acceptCall_of_endsAt (accept_endsAt sized_windowInvariant hs frame.header frame.payload
    (fun _ _ => (acceptBlockTransitions_sized _ _).at_state s hs)
    ((acceptObservationSummary_sized _ _).at_state s hs)
    fun _ _ => (acceptTransitionWindow_sized _ _).at_state s hs) hr

end Calls

end Cpu2Tensor
