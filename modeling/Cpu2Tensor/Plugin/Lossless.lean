import Cpu2Tensor.Plugin.Sampling

/-!
# Delta sampling loses nothing

From the start of a vCPU on, through its blocks, memory accesses, system calls and its end, a reader
that replays the rows has the values that the plugin has read.
-/

namespace Cpu2Tensor.Plugin
open Library

/-- A source during its register setup: nothing is sampled, and its rows are those of the schema. -/
structure SetUp (source : Source) (rows : List Row) : Prop where
  registers : ∀ reg ∈ source.registers, reg.sampled = false
  context : source.contextSampled = false
  few : source.registers.length ≤ maxRegisters
  rows : ∀ row ∈ rows, row.1 = .registerSchema

theorem replay_schema {rows : List Row} (h : ∀ row ∈ rows, row.1 = .registerSchema) :
    registerReplay rows = (fun _ => none) ∧ contextReplay rows = none ∧ History NewRow rows := by
  induction rows using List.reverseRecOn with
  | nil => exact ⟨rfl,rfl,history_nil⟩
  | append_singleton rows row ih =>
    obtain ⟨kind,bytes⟩ := row
    obtain rfl : kind = .registerSchema := h (kind,bytes) (by simp)
    obtain ⟨hregisters,hcontext,hrows⟩ := ih fun row hrow => h row (List.mem_append_left _ hrow)
    rw [registerReplay_snoc,contextReplay_snoc]
    exact ⟨hregisters,hcontext,history_snoc.mpr ⟨hrows,trivial⟩⟩

theorem SetUp.tracks {source : Source} {rows : List Row} (h : SetUp source rows) (o : Options) :
    Tracks o source rows := by
  obtain ⟨hregisters,hcontext,hrows⟩ := replay_schema h.rows
  refine ⟨fun id reg hreg => ?_,fun _ => ?_,hrows,h.few⟩
  · rw [hregisters,h.registers reg (List.mem_of_getElem? hreg)]
    rfl
  · rw [hcontext,h.context]
    rfl

theorem emits_forM {α : Type} {items : List α} {f : α → Callback Unit} {I : Source → Trail → Prop}
    {source : Source} {trail : Trail}
    (hstep : ∀ a source trail, I source trail → Emits (f a) (fun _ => I) source trail)
    (h : I source trail) : Emits (items.forM f) (fun _ => I) source trail := by
  induction items generalizing source trail with
  | nil => exact h
  | cons a items ih => exact (hstep a source trail h).bind fun _ _ _ hnext => ih hnext

theorem readHandle_kept {source : Source} {trail : Trail} (cpu : Cpu) (handle : Nat)
    (rawField : Option Nat) (name : Bytes) (expected : Nat) :
    Emits (readHandle cpu handle rawField name expected)
      (fun _ source' trail' => source' = source ∧ trail' = trail) source trail := by
  cases rawField with
  | some field => exact emits_get_bind (emits_pure ⟨rfl,rfl⟩)
  | none =>
    apply (readHandle_emits handle name expected).imp
    rintro _ source' trail' ⟨hsource,htrail,_⟩
    exact ⟨hsource,htrail⟩

theorem addRegister_setUp {source : Source} {trail : Trail} (o : Options) (cpu : Cpu)
    (handle : Nat) (name : Bytes) (hroom : source.registers.length ≠ maxRegisters)
    (h : SetUp source (rowsOf trail)) :
    Emits (addRegister o cpu handle name) (fun _ source' trail' => SetUp source' (rowsOf trail'))
      source trail := by
  apply (readHandle_kept cpu handle (rawField o name) name 0).bind
  rintro value source trail ⟨rfl,rfl⟩
  split
  · apply emits_ite
    · exact fun _ => emits_fail _ _
    · intro _
      refine emits_get_bind (emits_append_bind fun trail' hrows => emits_modify ⟨?_,h.context,?_,?_⟩)
      · intro reg hreg
        rcases List.mem_append.mp hreg with hreg | hreg
        · exact h.registers reg hreg
        · rw [List.mem_singleton.mp hreg]
      · rw [List.length_append,List.length_singleton]
        have hfew := h.few
        omega
      · rw [hrows]
        intro row hrow
        rcases List.mem_append.mp hrow with hrow | hrow
        · exact h.rows row hrow
        · rw [List.mem_singleton.mp hrow]
  · exact emits_pure h

theorem nameFault_room {source : Source} {name : Bytes} (h : nameFault source name = none) :
    source.registers.length ≠ maxRegisters := by
  intro hfull
  rw [nameFault,if_pos (.inr (.inr hfull))] at h
  cases h

theorem setupRegister_setUp {source : Source} {trail : Trail} (o : Options) (cpu : Cpu)
    (descriptor : Descriptor) (h : SetUp source (rowsOf trail)) :
    Emits (setupRegister o cpu descriptor) (fun _ source' trail' => SetUp source' (rowsOf trail'))
      source trail := by
  unfold setupRegister
  cases descriptor.name with
  | none => exact emits_fail _ _
  | some name =>
    have hcontrol : Emits (findControl o descriptor.handle name)
        (fun _ source' trail' => SetUp source' (rowsOf trail')) source trail := by
      apply emits_ite
      · exact fun _ => emits_modify ⟨h.registers,h.context,h.few,h.rows⟩
      · exact fun _ => emits_pure h
    apply hcontrol.bind
    rintro _ source trail h
    apply emits_ite
    · intro _
      apply emits_ite
      · exact fun _ => emits_ite (fun _ => emits_fail _ _) fun _ => emits_pure h
      · intro _
        apply emits_get_bind
        cases hfault : nameFault source name with
        | some message => exact emits_fail _ _
        | none => exact addRegister_setUp o cpu descriptor.handle name (nameFault_room hfault) h
    · exact fun _ => emits_pure h

theorem registerSetup_setUp {source : Source} {trail : Trail} (o : Options) (cpu : Cpu)
    (descriptors : Option (List Descriptor)) (h : SetUp source (rowsOf trail)) :
    Emits (registerSetup o cpu descriptors) (fun _ source' trail' => SetUp source' (rowsOf trail'))
      source trail := by
  apply emits_ite
  · exact fun _ => emits_pure h
  · intro _
    cases descriptors with
    | none => exact emits_fail _ _
    | some descriptors =>
      apply (emits_forM (I := fun source trail => SetUp source (rowsOf trail))
        (fun descriptor _ _ => setupRegister_setUp o cpu descriptor) h).bind
      intro _ source trail h
      apply emits_get_bind
      cases setupFault o source with
      | some message => exact emits_fail _ _
      | none =>
        refine emits_ask .flush fun answer => ?_
        rw [(silent_call trail rfl).rows]
        exact h

theorem sourceStart_setUp (index : Nat) (o : Options) (cpu : Cpu)
    (descriptors : Option (List Descriptor)) :
    Emits (sourceStart index o cpu descriptors) (fun _ source trail => SetUp source (rowsOf trail))
      {} [] := by
  have hnew : ∀ trail, rowsOf trail = [] →
      SetUp { ({} : Source) with state := .active } (rowsOf trail) := by
    intro trail hrows
    refine ⟨fun reg hreg => absurd hreg List.not_mem_nil,rfl,Nat.zero_le _,?_⟩
    rw [hrows]
    exact fun row hrow => absurd hrow List.not_mem_nil
  apply emits_get_bind
  apply emits_ite
  · exact fun _ => emits_fail _ _
  · intro _
    apply emits_modify_bind
    apply emits_ite
    · intro _
      refine emits_ask_bind _ fun _ => emits_ask_bind _ fun _ => ?_
      exact registerSetup_setUp o cpu descriptors (hnew _ rfl)
    · exact fun _ => registerSetup_setUp o cpu descriptors (hnew _ rfl)

/-- The parts of the callbacks that read the vCPU and write rows: `record_block`, and what a memory
access, a system call and the end of a vCPU do when they record. -/
inductive Observation
  | block (cpu : Cpu) (pc : UInt64) (admission : BlockAdmission) (latchContext : Bool)
  | access (cpu : Cpu) (info : MemoryInfo) (address pc : UInt64)
  | syscall (cpu : Cpu)
  | exit (cpu : Cpu)

/-- The result is false for a block that another vCPU's latch keeps out. -/
def observe (o : Options) : Observation → Callback Bool
  | .block cpu pc admission latchContext => recordBlock o cpu pc admission latchContext
  | .access cpu info address pc => do
    recordAccess o cpu info address pc
    return true
  | .syscall cpu => do
    syscallRows cpu
    return true
  | .exit cpu => do
    exitRows o cpu
    return true

/-- What a reader of the rows has after an observation that made `calls`. -/
def Observation.Exact (o : Options) (calls : Trail) (recorded : Bool) (source : Source)
    (rows : List Row) : Observation → Prop
  | .block cpu _ _ latchContext => Passes latchContext calls recorded ∧ (recorded = true →
      Located o source rows ∧ cpu.Shows o (source.registers.length ≠ 0) source ∧
      Filtered o (source.rawState 2) calls source.richRecording ∧
      (source.richRecording = true → Replays cpu source rows))
  | .access cpu .. => o.filters = false → Located o source rows ∧ cpu.Shows o false source
  | .syscall cpu => Replays cpu source rows
  | .exit cpu => Located o source rows ∧ cpu.Shows o true source ∧
      ∃ rich, Filtered o (source.rawState 2) calls rich ∧ (rich = true → Replays cpu source rows)

theorem observe_emits {o : Options} {source : Source} {trail : Trail}
    (observation : Observation) (h : Tracks o source (rowsOf trail)) :
    Emits (observe o observation) (fun recorded source' trail' => Tracks o source' (rowsOf trail') ∧
      source'.identities = source.identities ∧
      ∃ calls, trail' = trail ++ calls ∧ observation.Exact o calls recorded source' (rowsOf trail'))
      source trail := by
  cases observation with
  | block cpu pc admission latchContext =>
    apply (recordBlock_emits pc admission latchContext h).imp
    rintro recorded source' trail' ⟨htracks,hkept,calls,hcalls,hpasses,hrecorded⟩
    refine ⟨htracks,hkept,calls,hcalls,hpasses,fun htrue => ?_⟩
    obtain ⟨hcurrent,hfiltered,hreplays⟩ := hrecorded htrue
    exact ⟨hcurrent.located,hcurrent.shows,hfiltered,hreplays⟩
  | access cpu info address pc =>
    apply (recordAccess_emits info address pc h).extends.bind
    rintro _ source' _ ⟨⟨calls,rfl⟩,htracks,hregisters,hcurrent⟩
    refine emits_pure ⟨htracks,?_,calls,rfl,fun hfilters => ?_⟩
    · rw [Source.identities,hregisters,Source.identities]
    · exact ⟨(hcurrent hfilters).located,(hcurrent hfilters).shows⟩
  | syscall cpu =>
    apply (syscallRows_emits h).extends.bind
    rintro _ source' _ ⟨⟨calls,rfl⟩,htracks,hkept,hreplays⟩
    exact emits_pure ⟨htracks,hkept,calls,rfl,hreplays⟩
  | exit cpu =>
    apply (exitRows_emits h).bind
    rintro _ source' _ ⟨hcurrent,hkept,calls,rich,rfl,hfiltered,hreplays⟩
    exact emits_pure ⟨hcurrent.tracks,hkept,calls,rfl,hcurrent.located,hcurrent.shows,rich,
      hfiltered,hreplays⟩

/-- How the calls of the callbacks are answered. -/
abbrev Oracle := Trail → (call : Call) → Answer call

/-- The result of a part of a callback that does not fail, the source after it, and the calls so
far. -/
def Oracle.perform {α : Type} (oracle : Oracle) (x : Callback α) (s : Source × Trail) :
    Option (α × Source × Trail) :=
  match (x.run s.1).run.run oracle s.2 with
  | (.ok (a,source),trail) => some (a,source,trail)
  | (.error _,_) => none

def observeAll (oracle : Oracle) (o : Options) :
    List Observation → Source × Trail → Option (Source × Trail)
  | [], s => some s
  | observation::rest, s =>
    (oracle.perform (observe o observation) s).bind fun r => observeAll oracle o rest r.2

theorem Emits.perform {α : Type} {oracle : Oracle} {x : Callback α}
    {post : α → Source → Trail → Prop} {source after : Source} {trail trail' : Trail} {a : α}
    (h : Emits x post source trail)
    (hr : oracle.perform x (source,trail) = some (a,after,trail')) : post a after trail' := by
  have hrun := Program.wp_run (fun _ _ _ _ => trivial) oracle (x.run source).run trail h trivial
  unfold Oracle.perform at hr
  split at hr
  · rename_i heq
    cases hr
    rw [heq] at hrun
    exact hrun
  · cases hr

theorem observeAll_tracks {oracle : Oracle} {o : Options} {observations : List Observation}
    {source after : Source} {trail trail' : Trail} (h : Tracks o source (rowsOf trail))
    (hr : observeAll oracle o observations (source,trail) = some (after,trail')) :
    Tracks o after (rowsOf trail') ∧ after.identities = source.identities := by
  induction observations generalizing source trail with
  | nil =>
    cases hr
    exact ⟨h,rfl⟩
  | cons observation observations ih =>
    obtain ⟨⟨recorded,next,trailNext⟩,hnext,hrest⟩ := Option.bind_eq_some_iff.mp hr
    obtain ⟨htracks,hkept,_⟩ := (observe_emits observation h).perform hnext
    obtain ⟨hafter,hidentities⟩ := ih htracks hrest
    exact ⟨hafter,hidentities.trans hkept⟩

/-- From the start of a vCPU, after every observation a reader of its rows has exactly the values
that were read, of all the registers that setup has found; every row is new, and only a first value
is a baseline. -/
theorem deltas_lossless (oracle : Oracle) (index : Nat) (o : Options) (start : Cpu)
    (descriptors : Option (List Descriptor)) (source between after : Source)
    (setup trail trail' : Trail) (past : List Observation) (last : Observation) (recorded : Bool)
    (hstart : oracle.perform (sourceStart index o start descriptors) ({},[]) =
      some ((),source,setup))
    (hpast : observeAll oracle o past (source,setup) = some (between,trail))
    (hlast : oracle.perform (observe o last) (between,trail) = some (recorded,after,trail')) :
    (∃ calls, trail' = trail ++ calls ∧ last.Exact o calls recorded after (rowsOf trail')) ∧
      after.identities = source.identities ∧ History NewRow (rowsOf trail') ∧
      ∀ id, registerReplay (rowsOf trail) id ≠ none → registerReplay (rowsOf trail') id ≠ none := by
  have hsetup := (sourceStart_setUp index o start descriptors).perform hstart
  obtain ⟨hbetween,hkept⟩ := observeAll_tracks (hsetup.tracks o) hpast
  obtain ⟨htracks,hidentities,calls,rfl,hexact⟩ := (observe_emits last hbetween).perform hlast
  refine ⟨⟨calls,rfl,hexact⟩,hidentities.trans hkept,htracks.rows,fun id hpresent => ?_⟩
  rw [rowsOf_append]
  exact registerReplay_append _ hpresent

/-- Answers of a run in which nothing goes wrong. -/
def obliging : Oracle
  | _, .loadCapture | _, .swapCapture .. => .running
  | _, .beginWindow | _, .endWindow | _, .abortWindow | _, .observeBlock .. => .ok ()
  | _, .admitBlock => ⟨1,true⟩
  | _, .swapLatch .. | _, .loadLatch => .waiting
  | _, .loadPagingRoot => 0
  | _, .memoryTotal | _, .next | _, .count => 0
  | _, .append .. => .ok ()
  | _, .stopProcess => true
  | _, .storeCapture _ | _, .storeTarget .. | _, .storeLatch _ | _, .setMemoryTotal _
  | _, .setAdmission _ | _, .flush | _, .waitForFrames | _, .sendHeader _ => ()

/-- A system-mode target whose registers cs and rip are captured with the address context. -/
def systemTarget : Options := { architecture := .x8664, captureSystem := true, stateHook := true }

def systemRegisters : List Descriptor :=
  [⟨0,some (nameBytes "cr0")⟩,⟨1,some (nameBytes "cr3")⟩,⟨2,some (nameBytes "cr4")⟩,
    ⟨3,some (nameBytes "efer")⟩,⟨4,some (nameBytes "cs")⟩,⟨5,some (nameBytes "rip")⟩]

/-- A vCPU with this code segment, page table and program counter. -/
def systemCpu (cs cr3 rip : UInt64) : Cpu where
  register _ := some (store cs.toNat 4)
  state := some fun field => if field = 2 then cr3 else if field = 24 then rip else 0

/-- Between two blocks the page table and the program counter change, and cs does not. -/
theorem deltas_lossless_two : ∃ source setup between trail after trail',
    obliging.perform (sourceStart 0 systemTarget (systemCpu 8 0 0) systemRegisters) ({},[]) =
        some ((),source,setup) ∧
      observeAll obliging systemTarget [.block (systemCpu 8 0x5000 0x1000) 0x1000 ⟨0,true⟩ false]
        (source,setup) = some (between,trail) ∧
      obliging.perform (observe systemTarget
        (.block (systemCpu 8 0x6000 0x1004) 0x1004 ⟨0,true⟩ false)) (between,trail) =
        some (true,after,trail') ∧
      after.identities = [(4,nameBytes "cs",4,none),(5,nameBytes "rip",8,some 24)] ∧
      Replays (systemCpu 8 0x6000 0x1004) after (rowsOf trail') ∧
      contextReplay (rowsOf trail') = some [0,0x6000,0,0,0,0] := by
  have hruns : ((obliging.perform (sourceStart 0 systemTarget (systemCpu 8 0 0) systemRegisters)
      ({},[])).bind fun s => (observeAll obliging systemTarget
        [.block (systemCpu 8 0x5000 0x1000) 0x1000 ⟨0,true⟩ false] s.2).bind fun b =>
      obliging.perform (observe systemTarget
        (.block (systemCpu 8 0x6000 0x1004) 0x1004 ⟨0,true⟩ false)) b).isSome = true := by
    decide +kernel
  obtain ⟨⟨recorded,after,trail'⟩,hruns⟩ := Option.isSome_iff_exists.mp hruns
  obtain ⟨⟨_,source,setup⟩,hstart,hruns⟩ := Option.bind_eq_some_iff.mp hruns
  obtain ⟨⟨between,trail⟩,hpast,hlast⟩ := Option.bind_eq_some_iff.mp hruns
  have hfound : (obliging.perform (sourceStart 0 systemTarget (systemCpu 8 0 0) systemRegisters)
      ({},[])).map (fun s => s.2.1.identities) =
        some [(4,nameBytes "cs",4,none),(5,nameBytes "rip",8,some 24)] := by decide +kernel
  rw [hstart] at hfound
  obtain ⟨⟨calls,_,hpasses,hexact⟩,hkept,_⟩ := deltas_lossless obliging 0 systemTarget _ _ source
    between after setup trail trail' _ _ recorded hstart hpast hlast
  obtain rfl : recorded = true := hpasses
  obtain ⟨hlocated,hshows,hfiltered,hreplays⟩ := hexact rfl
  refine ⟨source,setup,between,trail,after,trail',hstart,hpast,hlast,
    hkept.trans (Option.some.inj hfound),hreplays hfiltered,?_⟩
  obtain ⟨words,hwords,hraw⟩ := hshows rfl
  cases hwords
  have hcontext : ∀ field < 8, after.rawState field = _ :=
    fun field hfield => hraw field (by split <;> omega)
  rw [hlocated rfl rfl]
  simp [Source.fields,contextFields,hcontext]

end Cpu2Tensor.Plugin
