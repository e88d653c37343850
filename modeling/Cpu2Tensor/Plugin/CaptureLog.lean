import Cpu2Tensor.Plugin.CaptureWindow

/-!
# Recorded blocks in the log of a run

What a log whose events are `Legit` says about the capture: the state only moves on, a vCPU sees
its moves in their order, and therefore records one contiguous window of its blocks.
-/

namespace Cpu2Tensor.Plugin
open Library

inductive Moves : CaptureState → CaptureState → Prop
  | stays (state : CaptureState) : Moves state state
  | starts : Moves .waiting .running
  | stops : Moves .running .stopped

theorem Moves.rank_le {s t : CaptureState} (h : Moves s t) : s.rank ≤ t.rank := by
  cases h with
  | stays => exact Nat.le_refl _
  | starts => decide
  | stops => decide

theorem rank_injective {s t : CaptureState} (h : s.rank = t.rank) : s = t := by
  cases s <;> cases t <;> first | rfl | cases h

theorem captureNext_passive (state : CaptureState) (i : Nat) {call : Call} (h : call.passive)
    (answer : Answer call) : captureNext state (.did i ⟨call,answer⟩) = state := by
  cases call with
  | swapCapture | storeCapture => rcases h with h | h <;> cases h
  | _ => rfl

section Log

variable {o : Options} {i : Nat} {before : List MachineEvent}

theorem Legit.moves {event : MachineEvent} (h : Legit o before event) :
    Moves (captureAfter o before) (captureAfter o (before ++ [event])) := by
  rw [captureAfter_snoc]
  cases event with
  | enter | leave | quit => exact .stays _
  | did i entry =>
    obtain ⟨call,answer⟩ := entry
    obtain ⟨_,current,trail,_,hasks⟩ := h
    have hasked : Asked o _ current trail call := hasks.asked
    generalize captureAfter o before = state
    cases hasked with
    | passive hpassive =>
      rw [captureNext_passive state i hpassive]
      exact .stays _
    | start _ _ =>
      cases state with
      | waiting => exact .starts
      | running => exact .stays _
      | stopped => exact .stays _
    | stop _ =>
      cases state with
      | waiting => exact .stays _
      | running => exact .stops
      | stopped => exact .stays _
    | _ => exact .stays _

theorem rank_captureAfter_le {first more : List MachineEvent}
    (h : History (Legit o) (first ++ more)) :
    (captureAfter o first).rank ≤ (captureAfter o (first ++ more)).rank := by
  induction more using List.reverseRecOn with
  | nil => rw [List.append_nil]
  | append_singleton more event ih =>
    rw [← List.append_assoc] at h ⊢
    obtain ⟨hmore,hevent⟩ := history_snoc.mp h
    exact (ih hmore).trans hevent.moves.rank_le

/-- The capture state that a call leaves, as far as its answer tells. -/
def witnessed : Sigma Answer → Option CaptureState
  | ⟨.loadCapture,found⟩ => some found
  | ⟨.swapCapture expected desired,found⟩ => some (if found = expected then desired else found)
  | _ => none

theorem Legit.witnessed_eq {entry : Sigma Answer} (h : Legit o before (.did i entry))
    {state : CaptureState} (hstate : witnessed entry = some state) :
    state = captureAfter o (before ++ [.did i entry]) := by
  rw [captureAfter_snoc]
  obtain ⟨hanswers,_⟩ := h
  obtain ⟨call,answer⟩ := entry
  cases call with
  | loadCapture =>
    have hfound : answer = captureAfter o before := hanswers
    rw [← hfound]
    exact (Option.some.inj hstate).symm
  | swapCapture expected desired =>
    have hfound : answer = captureAfter o before := hanswers
    rw [← hfound]
    exact (Option.some.inj hstate).symm
  | _ => cases hstate

/-- What the calls of a callback so far have to do with each other. -/
structure CallSound (o : Options) (entry : Entry) (trail : Trail) : Prop where
  recorded : ∀ call ∈ trail, records call = true → ∃ cpu pc, entry = .block cpu pc ∧
    (call.1 = .append .blocks (store pc.toNat 8) ∨ ∃ admission, call.1 = .observeBlock pc admission)
  loaded : Recorded trail → Loaded .running trail
  unstopped : ∀ cpu pc state, entry = .block cpu pc → Loaded state trail → o.stopPc ≠ some pc
  admitted : ∀ admission : BlockAdmission,
    (⟨.admitBlock,admission⟩ : Sigma Answer) ∈ trail → admission.included = true

theorem callSound_nil (o : Options) (entry : Entry) : CallSound o entry [] where
  recorded := by simp
  loaded := by
    rintro ⟨call,hcall,_⟩
    cases hcall
  unstopped := by
    intro cpu pc state _ hloaded
    cases hloaded
  admitted := by simp

theorem not_records_of_passive {call : Call} (h : call.passive) (answer : Answer call) :
    records ⟨call,answer⟩ = false := by
  cases call with
  | append kind row =>
    cases kind with
    | blocks => rcases h with h | h <;> cases h
    | _ => rfl
  | observeBlock => rcases h with h | h <;> cases h
  | _ => rfl

/-- A call that records is one of a block entry that has seen the capture running. -/
theorem Asks.records {past : List (Entry × Trail)} {entry : Entry} {trail : Trail}
    {call : Call} (h : Asks o past entry trail call) {answer : Answer call}
    (hrecords : records ⟨call,answer⟩ = true) :
    Loaded .running trail ∧ ∃ cpu pc, entry = .block cpu pc ∧
      (call = .append .blocks (store pc.toNat 8) ∨
        ∃ admission, call = .observeBlock pc admission) := by
  cases h.asked with
  | passive hpassive =>
    rw [not_records_of_passive hpassive] at hrecords
    cases hrecords
  | start | stop | admission | memory => cases hrecords
  | observe admission hloaded => exact ⟨hloaded,_,_,rfl,.inr ⟨admission,rfl⟩⟩
  | block hloaded => exact ⟨hloaded,_,_,rfl,.inl rfl⟩

theorem CallSound.snoc {past : List (Entry × Trail)} {entry : Entry} {trail : Trail}
    {call : Sigma Answer} (h : CallSound o entry trail) {state : CaptureState}
    (hanswers : Answers state call) (hasks : Asks o past entry trail call.1) :
    CallSound o entry (trail ++ [call]) where
  recorded := by
    intro other hother hrecords
    rcases List.mem_append.mp hother with hother | hother
    · exact h.recorded other hother hrecords
    · rw [List.mem_singleton.mp hother] at hrecords ⊢
      exact (hasks.records hrecords).2
  loaded := by
    rintro ⟨other,hother,hrecords⟩
    rcases List.mem_append.mp hother with hother | hother
    · exact (h.loaded ⟨other,hother,hrecords⟩).append _
    · rw [List.mem_singleton.mp hother] at hrecords
      exact (hasks.records hrecords).1.append _
  unstopped := by
    intro cpu pc found hentry hloaded
    rcases List.mem_append.mp hloaded with hloaded | hloaded
    · exact h.unstopped cpu pc found hentry hloaded
    · subst hentry
      rw [← List.mem_singleton.mp hloaded] at hasks
      exact hasks
  admitted := by
    intro admission hadmission
    rcases List.mem_append.mp hadmission with hadmission | hadmission
    · exact h.admitted admission hadmission
    · rw [← List.mem_singleton.mp hadmission] at hanswers
      exact hanswers

/-- The second call sees no earlier state than the first. -/
def Ordered (first second : Sigma Answer) : Prop :=
  ∀ s, witnessed first = some s → ∀ t, witnessed second = some t → s.rank ≤ t.rank

/-- What the calls of a thread have to do with each other and with the capture state. -/
structure ThreadSound (o : Options) (i : Nat) (log : List MachineEvent) : Prop where
  calls : ∀ call ∈ (account i log).calls, CallSound o call.1 call.2
  ended : ∀ call ∈ (account i log).past, Ends o call.1 call.2
  ordered : (account i log).made.Pairwise Ordered
  seen : ∀ call ∈ (account i log).made, ∀ s, witnessed call = some s →
    s.rank ≤ (captureAfter o log).rank
  entered : ∀ call trail, (account i log).current = some (call,trail) →
    ∃ first middle, log = first ++ .enter i call :: middle ∧ .leave i ∉ middle

theorem threadSound_nil (o : Options) (i : Nat) : ThreadSound o i [] where
  calls := by simp [account,Account.calls]
  ended := by simp [account]
  ordered := by simp [account,Account.made,Account.calls]
  seen := by simp [account,Account.made,Account.calls]
  entered := by simp [account]

theorem ThreadSound.same {event : MachineEvent} (h : ThreadSound o i before)
    (hlegit : Legit o before event)
    (hmade : (account i (before ++ [event])).made = (account i before).made)
    (hcalls : ∀ call ∈ (account i (before ++ [event])).calls, CallSound o call.1 call.2)
    (hended : ∀ call ∈ (account i (before ++ [event])).past, Ends o call.1 call.2)
    (hentered : ∀ call trail, (account i (before ++ [event])).current = some (call,trail) →
      ∃ first middle, before ++ [event] = first ++ .enter i call :: middle ∧ .leave i ∉ middle) :
    ThreadSound o i (before ++ [event]) := by
  refine ⟨hcalls,hended,by rw [hmade]; exact h.ordered,?_,hentered⟩
  rw [hmade]
  intro call hcall s hs
  exact (h.seen call hcall s hs).trans hlegit.moves.rank_le

theorem ThreadSound.stays {event : MachineEvent} (h : ThreadSound o i before)
    (hevent : event ≠ .leave i) {call : Entry} {trail : Trail}
    (hcurrent : (account i before).current = some (call,trail)) :
    ∃ first middle, before ++ [event] = first ++ .enter i call :: middle ∧ .leave i ∉ middle := by
  obtain ⟨first,middle,heq,hleave⟩ := h.entered call trail hcurrent
  refine ⟨first,middle ++ [event],by rw [heq,List.append_assoc,List.cons_append],?_⟩
  rw [List.mem_append,List.mem_singleton,not_or]
  exact ⟨hleave,Ne.symm hevent⟩

theorem ThreadSound.other {event : MachineEvent} (h : ThreadSound o i before)
    (hlegit : Legit o before event) (hevent : event ≠ .leave i)
    (hsame : account i (before ++ [event]) = account i before) :
    ThreadSound o i (before ++ [event]) := by
  refine h.same hlegit (by rw [hsame]) (by rw [hsame]; exact h.calls) (by rw [hsame]; exact h.ended)
    ?_
  intro call trail hcurrent
  rw [hsame] at hcurrent
  exact h.stays hevent hcurrent

theorem ThreadSound.enter {entry : Entry} (h : ThreadSound o i before)
    (hlegit : Legit o before (.enter i entry)) :
    ThreadSound o i (before ++ [.enter i entry]) := by
  have haccount : account i (before ++ [.enter i entry]) =
      ⟨(account i before).past,some (entry,[])⟩ := by
    rw [account_snoc]
    simp [Account.after]
  have hidle : (account i before).current = none := hlegit
  refine h.same hlegit ?_ ?_ ?_ ?_
  · rw [haccount]
    simp [Account.made,Account.calls,hidle]
  · rw [haccount]
    intro call hcall
    rcases List.mem_append.mp hcall with hcall | hcall
    · exact h.calls call (List.mem_append_left _ hcall)
    · rw [List.mem_singleton.mp hcall]
      exact callSound_nil o entry
  · rw [haccount]
    exact h.ended
  · intro call trail hcurrent
    rw [haccount] at hcurrent
    cases hcurrent
    exact ⟨before,[],rfl,by simp⟩

theorem ThreadSound.did {call : Sigma Answer} (h : ThreadSound o i before)
    (hlegit : Legit o before (.did i call)) :
    ThreadSound o i (before ++ [.did i call]) := by
  have hwitnessed := fun s (hs : witnessed call = some s) => hlegit.witnessed_eq hs
  have hmoves := hlegit.moves.rank_le
  obtain ⟨hanswers,entry,trail,hcurrent,hasks⟩ := hlegit
  have haccount : account i (before ++ [.did i call]) =
      ⟨(account i before).past,some (entry,trail ++ [call])⟩ := by
    rw [account_snoc]
    simp [Account.after,hcurrent]
  have hbefore : (entry,trail) ∈ (account i before).calls := by simp [Account.calls,hcurrent]
  have hmade : (account i (before ++ [.did i call])).made = (account i before).made ++ [call] := by
    rw [haccount]
    simp [Account.made,Account.calls,hcurrent]
  refine ⟨?_,?_,?_,?_,?_⟩
  · rw [haccount]
    intro other hother
    rcases List.mem_append.mp hother with hother | hother
    · exact h.calls other (List.mem_append_left _ hother)
    · rw [List.mem_singleton.mp hother]
      exact (h.calls _ hbefore).snoc hanswers hasks
  · rw [haccount]
    exact h.ended
  · rw [hmade]
    refine List.pairwise_append.mpr ⟨h.ordered,List.pairwise_singleton _ _,?_⟩
    intro first hfirst second hsecond s hs t ht
    rw [List.mem_singleton.mp hsecond] at ht
    rw [hwitnessed t ht]
    exact (h.seen first hfirst s hs).trans hmoves
  · rw [hmade]
    intro other hother s hs
    rcases List.mem_append.mp hother with hother | hother
    · exact (h.seen other hother s hs).trans hmoves
    · rw [List.mem_singleton.mp hother] at hs
      rw [hwitnessed s hs]
  · intro other after hother
    rw [haccount] at hother
    cases hother
    exact h.stays (show (.did i call : MachineEvent) ≠ .leave i from fun h => by cases h) hcurrent

theorem ThreadSound.leave (h : ThreadSound o i before) (hlegit : Legit o before (.leave i)) :
    ThreadSound o i (before ++ [.leave i]) := by
  have hlegit' := hlegit
  obtain ⟨entry,trail,hcurrent,hends⟩ := hlegit'
  have haccount : account i (before ++ [.leave i]) =
      ⟨(account i before).past ++ [(entry,trail)],none⟩ := by
    rw [account_snoc]
    simp [Account.after,hcurrent]
  have hcalls : (account i (before ++ [.leave i])).calls = (account i before).calls := by
    rw [haccount]
    simp [Account.calls,hcurrent]
  refine h.same hlegit (congrArg (List.flatMap Prod.snd) hcalls) (by rw [hcalls]; exact h.calls)
    ?_ ?_
  · rw [haccount]
    intro call hcall
    rcases List.mem_append.mp hcall with hcall | hcall
    · exact h.ended call hcall
    · rw [List.mem_singleton.mp hcall]
      exact hends
  · intro call after hafter
    rw [haccount] at hafter
    cases hafter

theorem threadSound (i : Nat) {log : List MachineEvent} (h : History (Legit o) log) :
    ThreadSound o i log := by
  induction log using List.reverseRecOn with
  | nil => exact threadSound_nil o i
  | append_singleton before event ih =>
    obtain ⟨hbefore,hevent⟩ := history_snoc.mp h
    have hsound := ih hbefore
    by_cases hi : event.thread = i
    · cases event with
      | enter j entry =>
        cases hi
        exact hsound.enter hevent
      | did j call =>
        cases hi
        exact hsound.did hevent
      | leave j =>
        cases hi
        exact hsound.leave hevent
      | quit j reason => exact hsound.other hevent nofun (account_snoc i before _)
    · refine hsound.other hevent ?_ ?_
      · rintro rfl
        exact hi rfl
      · rw [account_snoc,Account.after_other _ hi]

def blocksOf (i : Nat) (log : List MachineEvent) : List (UInt64 × Trail) :=
  blockEntries (account i log).calls

theorem mem_blockEntries {calls : List (Entry × Trail)} {block : UInt64 × Trail}
    (h : block ∈ blockEntries calls) : ∃ cpu, (Entry.block cpu block.1,block.2) ∈ calls := by
  obtain ⟨⟨entry,trail⟩,hcall,hblock⟩ := List.mem_filterMap.mp h
  cases entry with
  | block cpu pc =>
    cases hblock
    exact ⟨cpu,hcall⟩
  | _ => cases hblock

/-- A list in which no entry without the property stands between two with it has them in one
segment. -/
theorem exists_segment {α : Type} (P : α → Prop) (list : List α)
    (h : ∀ first x middle y more z last,
      list = first ++ x :: (middle ++ y :: (more ++ z :: last)) → P x → P z → P y) :
    ∃ before window after, list = before ++ window ++ after ∧ (∀ x ∈ window, P x) ∧
      ∀ x ∈ before ++ after, ¬ P x := by
  induction list with
  | nil => exact ⟨[],[],[],rfl,by simp,by simp⟩
  | cons x list ih =>
    obtain ⟨before,window,after,rfl,hwindow,hothers⟩ := ih (by
      intro first a middle y more z last heq
      exact h (x :: first) a middle y more z last (by rw [heq,List.cons_append]))
    by_cases hx : P x
    · cases window with
      | nil => exact ⟨[],[x],before ++ after,by simp,by simpa using hx,by simpa using hothers⟩
      | cons z window =>
        cases before with
        | nil =>
          refine ⟨[],x :: z :: window,after,rfl,?_,by simpa using hothers⟩
          intro a ha
          rcases List.mem_cons.mp ha with rfl | ha
          · exact hx
          · exact hwindow a ha
        | cons y before =>
          have hy : P y := h [] x [] y before z (window ++ after) (by simp) hx
            (hwindow z List.mem_cons_self)
          exact absurd hy (hothers y (by simp))
    · refine ⟨x :: before,window,after,rfl,hwindow,?_⟩
      intro a ha
      rcases List.mem_cons.mp ha with rfl | ha
      · exact hx
      · exact hothers a ha

section Blocks

variable {log : List MachineEvent}

theorem ThreadSound.block {block : UInt64 × Trail} (h : ThreadSound o i log)
    (hblock : block ∈ blocksOf i log) : ∃ cpu, CallSound o (.block cpu block.1) block.2 := by
  obtain ⟨cpu,hcall⟩ := mem_blockEntries hblock
  exact ⟨cpu,h.calls _ hcall⟩

theorem ThreadSound.recorded_loaded {block : UInt64 × Trail} (h : ThreadSound o i log)
    (hblock : block ∈ blocksOf i log) (hrecorded : Recorded block.2) :
    Loaded .running block.2 ∧ o.stopPc ≠ some block.1 := by
  obtain ⟨cpu,hsound⟩ := h.block hblock
  have hloaded := hsound.loaded hrecorded
  exact ⟨hloaded,hsound.unstopped cpu block.1 .running rfl hloaded⟩

theorem ThreadSound.blocks_ordered (h : ThreadSound o i log) :
    (blocksOf i log).Pairwise fun b b' => ∀ x ∈ b.2, ∀ y ∈ b'.2, Ordered x y := by
  have hcalls := (List.pairwise_flatMap.mp h.ordered).2
  refine hcalls.filterMap _ ?_
  rintro ⟨entry,trail⟩ ⟨entry',trail'⟩ hordered b hb b' hb'
  cases entry with
  | block cpu pc =>
    cases entry' with
    | block cpu' pc' =>
      cases hb
      cases hb'
      exact hordered
    | _ => cases hb'
  | _ => cases hb

theorem ThreadSound.block_ended {first last : List (UInt64 × Trail)} {y z : UInt64 × Trail}
    (h : ThreadSound o i log) (hblocks : blocksOf i log = first ++ z :: last) (hy : y ∈ first) :
    BlockEnds o y.1 y.2 := by
  have hlast : y ∈ (blocksOf i log).dropLast := by
    rw [hblocks,List.dropLast_append_cons]
    exact List.mem_append_left _ hy
  have hpast : y ∈ blockEntries (account i log).past := by
    rw [blocksOf,Account.calls] at hlast
    cases hcurrent : (account i log).current with
    | none =>
      rw [hcurrent,Option.toList_none,List.append_nil] at hlast
      exact List.mem_of_mem_dropLast hlast
    | some current =>
      obtain ⟨entry,trail⟩ := current
      rw [hcurrent,Option.toList_some] at hlast
      cases entry with
      | block cpu pc =>
        rw [blockEntries_snoc_block,List.dropLast_concat] at hlast
        exact hlast
      | _ =>
        rw [blockEntries_snoc_other _ _ rfl] at hlast
        exact List.mem_of_mem_dropLast hlast
  obtain ⟨cpu,hcall⟩ := mem_blockEntries hpast
  exact h.ended _ hcall

theorem ThreadSound.convex {first middle more last : List (UInt64 × Trail)}
    {x y z : UInt64 × Trail} (h : ThreadSound o i log)
    (hblocks : blocksOf i log = first ++ x :: (middle ++ y :: (more ++ z :: last)))
    (hx : Recorded x.2) (hz : Recorded z.2) : Recorded y.2 := by
  have hloadedx := (h.recorded_loaded (by rw [hblocks]; simp) hx).1
  have hloadedz := (h.recorded_loaded (by rw [hblocks]; simp) hz).1
  have hordered := h.blocks_ordered
  rw [hblocks] at hordered
  have hfrom := List.pairwise_cons.mp (List.pairwise_append.mp hordered).2.1
  have hto := List.pairwise_cons.mp (List.pairwise_append.mp hfrom.2).2.1
  -- Between two recorded blocks the vCPU sees the capture running.
  have hrunning : ∀ e ∈ y.2, ∀ s, witnessed e = some s → s = .running := by
    intro e he s hs
    have hlow := hfrom.1 y (by simp) _ hloadedx e he .running rfl s hs
    have hhigh := hto.1 z (by simp) e he _ hloadedz s hs .running rfl
    exact rank_injective (Nat.le_antisymm hhigh hlow)
  have hends : BlockEnds o y.1 y.2 := h.block_ended
    (show blocksOf i log = (first ++ x :: (middle ++ y :: more)) ++ z :: last by simp [hblocks])
    (by simp)
  rw [BlockEnds] at hends
  split at hends
  · obtain ⟨found,hfound⟩ := hends
    have hleft := hrunning _ hfound _ rfl
    cases found with
    | waiting => cases hleft
    | running => cases hleft
    | stopped => cases hleft
  · obtain ⟨state,hloaded,hends⟩ := hends
    rcases hends (hrunning _ hloaded state rfl) with hrecorded | ⟨admission,hmem,hexcluded⟩
    · exact hrecorded
    · obtain ⟨cpu,hsound⟩ := h.block (show y ∈ blocksOf i log by rw [hblocks]; simp)
      rw [hsound.admitted admission hmem] at hexcluded
      cases hexcluded

theorem ThreadSound.one_window (h : ThreadSound o i log) :
    ∃ before window after, blocksOf i log = before ++ window ++ after ∧
      (∀ block ∈ window, Recorded block.2) ∧ ∀ block ∈ before ++ after, ¬ Recorded block.2 :=
  exists_segment (fun block => Recorded block.2) _
    fun _ _ _ _ _ _ _ hblocks hx hz => h.convex hblocks hx hz

end Blocks

/-- The event that moves the capture state is the exchange of a start or of a stop block. -/
theorem Legit.moved {event : MachineEvent} (h : Legit o before event)
    (hmoved : captureAfter o (before ++ [event]) ≠ captureAfter o before) :
    ∃ j cpu pc trail, (account j before).current = some (.block cpu pc,trail) ∧
      ((captureAfter o before = .waiting ∧ o.startPc = some pc ∧
        event = .did j ⟨.swapCapture .waiting .running,.waiting⟩) ∨
      (captureAfter o before = .running ∧ o.stopPc = some pc ∧
        event = .did j ⟨.swapCapture .running .stopped,.running⟩)) := by
  rw [captureAfter_snoc] at hmoved
  cases event with
  | enter | leave | quit => exact absurd rfl hmoved
  | did j entry =>
    obtain ⟨call,answer⟩ := entry
    obtain ⟨hanswers,current,trail,hcurrent,hasks⟩ := h
    have hasked : Asked o _ current trail call := hasks.asked
    cases hasked with
    | passive hpassive => exact absurd (captureNext_passive _ j hpassive answer) hmoved
    | start hstart _ =>
      have hfound : answer = captureAfter o before := hanswers
      refine ⟨j,_,_,trail,hcurrent,.inl ?_⟩
      by_cases hwaiting : captureAfter o before = .waiting
      · exact ⟨hwaiting,hstart,by rw [hfound,hwaiting]⟩
      · exact absurd (if_neg hwaiting) hmoved
    | stop hstop =>
      have hfound : answer = captureAfter o before := hanswers
      refine ⟨j,_,_,trail,hcurrent,.inr ?_⟩
      by_cases hrunning : captureAfter o before = .running
      · exact ⟨hrunning,hstop,by rw [hfound,hrunning]⟩
      · exact absurd (if_neg hrunning) hmoved
    | _ => exact absurd rfl hmoved

/-- Between a running and a stopped capture stands the exchange that stopped it. -/
theorem exists_stop {first more : List MachineEvent} (h : History (Legit o) (first ++ more))
    (hfirst : captureAfter o first = .running)
    (hmore : captureAfter o (first ++ more) ≠ .running) :
    ∃ j, .did j ⟨.swapCapture .running .stopped,.running⟩ ∈ more := by
  induction more using List.reverseRecOn with
  | nil =>
    rw [List.append_nil] at hmore
    exact absurd hfirst hmore
  | append_singleton more event ih =>
    rw [← List.append_assoc] at h hmore
    obtain ⟨hlog,hevent⟩ := history_snoc.mp h
    by_cases hrunning : captureAfter o (first ++ more) = .running
    · obtain ⟨j,cpu,pc,trail,_,hcase⟩ := hevent.moved (by rw [hrunning]; exact hmore)
      rcases hcase with ⟨hwaiting,_⟩ | ⟨_,_,rfl⟩
      · rw [hrunning] at hwaiting
        cases hwaiting
      · exact ⟨j,List.mem_append_right _ List.mem_cons_self⟩
    · obtain ⟨j,hj⟩ := ih hlog hrunning
      exact ⟨j,List.mem_append_left _ hj⟩

theorem stop_of_stopped {log : List MachineEvent} (h : History (Legit o) log)
    (hstopped : captureAfter o log = .stopped) :
    o.stopPc.isSome = true := by
  induction log using List.reverseRecOn with
  | nil =>
    have hinitial : o.initialCapture = .stopped := hstopped
    rw [Options.initialCapture] at hinitial
    split at hinitial <;> cases hinitial
  | append_singleton log event ih =>
    obtain ⟨hlog,hevent⟩ := history_snoc.mp h
    by_cases hbefore : captureAfter o log = .stopped
    · exact ih hlog hbefore
    · obtain ⟨j,cpu,pc,trail,_,hcase⟩ := hevent.moved (by rw [hstopped]; exact Ne.symm hbefore)
      rcases hcase with ⟨hwaiting,_,rfl⟩ | ⟨_,hstop,_⟩
      · rw [captureAfter_snoc,hwaiting] at hstopped
        cases hstopped
      · rw [hstop]
        rfl

theorem waiting_before_start {log : List MachineEvent} (h : History (Legit o) log)
    (hstart : o.startPc.isSome = true)
    (hnone : ∀ j cpu pc, o.startPc = some pc → .enter j (.block cpu pc) ∉ log) :
    captureAfter o log = .waiting := by
  induction log using List.reverseRecOn with
  | nil =>
    show o.initialCapture = .waiting
    simp [Options.initialCapture,hstart]
  | append_singleton log event ih =>
    obtain ⟨hlog,hevent⟩ := history_snoc.mp h
    have hwaiting := ih hlog fun j cpu pc hpc hmem =>
      hnone j cpu pc hpc (List.mem_append_left _ hmem)
    by_contra hmoved
    obtain ⟨j,cpu,pc,trail,hcurrent,hcase⟩ := hevent.moved (by rw [hwaiting]; exact hmoved)
    rcases hcase with ⟨_,hpc,_⟩ | ⟨hrunning,_⟩
    · obtain ⟨first,middle,rfl,_⟩ := (threadSound j hlog).entered _ _ hcurrent
      exact hnone j cpu pc hpc (by simp)
    · rw [hwaiting] at hrunning
      cases hrunning

theorem mem_made {log : List MachineEvent} {block : UInt64 × Trail} {call : Sigma Answer}
    (hblock : block ∈ blocksOf i log) (hcall : call ∈ block.2) : call ∈ (account i log).made := by
  obtain ⟨cpu,hmem⟩ := mem_blockEntries hblock
  exact List.mem_flatMap.mpr ⟨_,hmem,hcall⟩

theorem not_recorded_waiting {log : List MachineEvent} (h : History (Legit o) log)
    (hwaiting : captureAfter o log = .waiting) {block : UInt64 × Trail}
    (hblock : block ∈ blocksOf i log) : ¬ Recorded block.2 := by
  intro hrecorded
  have hsound := threadSound i h
  have hloaded := (hsound.recorded_loaded hblock hrecorded).1
  have hseen := hsound.seen _ (mem_made hblock hloaded) .running rfl
  rw [hwaiting] at hseen
  exact absurd hseen (by decide)

def didBy (i : Nat) (events : List MachineEvent) : Trail := events.filterMap fun event =>
  match event with
  | .did j call => if j = i then some call else none
  | _ => none

theorem didBy_append (i : Nat) (events more : List MachineEvent) :
    didBy i (events ++ more) = didBy i events ++ didBy i more := List.filterMap_append

theorem didBy_self (i : Nat) (call : Sigma Answer) : didBy i [.did i call] = [call] := by
  simp only [didBy,List.filterMap_cons,if_true,List.filterMap_nil]

theorem didBy_quit (i j : Nat) (reason : Failure) : didBy i [.quit j reason] = [] := rfl

theorem didBy_other {event : MachineEvent} (h : event.thread ≠ i) : didBy i [event] = [] := by
  cases event with
  | did j call =>
    have hj : ¬ j = i := h
    simp only [didBy,List.filterMap_cons,if_neg hj,List.filterMap_nil]
  | _ => rfl

theorem mem_didBy {events : List MachineEvent} {call : Sigma Answer} (h : call ∈ didBy i events) :
    .did i call ∈ events := by
  obtain ⟨event,hevent,hcall⟩ := List.mem_filterMap.mp h
  cases event with
  | did j other =>
    by_cases hj : j = i
    · simp only [if_pos hj,Option.some.injEq] at hcall
      subst hcall
      subst hj
      exact hevent
    · simp only [if_neg hj] at hcall
      cases hcall
  | _ => cases hcall

/-- Until it leaves, a thread stays in its callback, and its calls are added to it. -/
theorem account_within {first more : List MachineEvent} (h : History (Legit o) (first ++ more))
    (hleave : .leave i ∉ more) {entry : Entry} {trail : Trail}
    (hcurrent : (account i first).current = some (entry,trail)) :
    account i (first ++ more) =
      ⟨(account i first).past,some (entry,trail ++ didBy i more)⟩ := by
  induction more using List.reverseRecOn with
  | nil =>
    rw [List.append_nil]
    cases haccount : account i first with
    | mk past current =>
      rw [haccount] at hcurrent
      have hcurrent : current = some (entry,trail) := hcurrent
      rw [hcurrent,didBy,List.filterMap_nil,List.append_nil]
  | append_singleton more event ih =>
    rw [← List.append_assoc] at h ⊢
    obtain ⟨hlog,hevent⟩ := history_snoc.mp h
    have hbefore := ih hlog fun hmem => hleave (List.mem_append_left _ hmem)
    rw [account_snoc,hbefore,didBy_append]
    by_cases hi : event.thread = i
    · cases event with
      | enter j other =>
        have hj : j = i := hi
        subst hj
        have hidle : (account j (first ++ more)).current = none := hevent
        rw [hbefore] at hidle
        cases hidle
      | did j call =>
        have hj : j = i := hi
        subst hj
        simp only [Account.after,if_true,Option.map_some,List.append_assoc,didBy_self]
      | leave j =>
        cases hi
        exact absurd (List.mem_append_right _ List.mem_cons_self) hleave
      | quit j reason => rw [didBy_quit,List.append_nil,Account.after]
    · rw [Account.after_other _ hi,didBy_other hi,List.append_nil]

theorem Legit.load_eq {state : CaptureState}
    (h : Legit o before (.did i ⟨.loadCapture,state⟩)) :
    state = captureAfter o before := h.1

theorem not_running_after_stop {first more : List MachineEvent}
    (h : History (Legit o) (first ++ more)) (hstopped : captureAfter o first = .stopped) :
    .did i ⟨.loadCapture,.running⟩ ∉ more := by
  intro hload
  obtain ⟨earlier,later,rfl⟩ := List.append_of_mem hload
  rw [← List.append_assoc] at h
  have hrunning := (h _ _ _ rfl).load_eq
  have hrank := rank_captureAfter_le h.left
  rw [hstopped,← hrunning] at hrank
  exact absurd hrank (by decide)

/-- A row of a memory access comes from a callback that began in a recorded block, before the
capture had stopped. -/
theorem memory_row_within {row : Bytes} {answer : Except Failure Unit}
    (h : History (Legit o) before)
    (hrow : Legit o before (.did i ⟨.append .memory row,answer⟩)) :
    ∃ first entry middle, before = first ++ .enter i entry :: middle ∧ .leave i ∉ middle ∧
      LastRecorded (account i first).past ∧ captureAfter o first ≠ .stopped := by
  obtain ⟨_,entry,trail,hcurrent,hasks⟩ := hrow
  obtain ⟨first,middle,rfl,hleave⟩ := (threadSound i h).entered entry trail hcurrent
  refine ⟨first,entry,middle,rfl,hleave,?_⟩
  rw [← List.singleton_append,← List.append_assoc] at h hcurrent hasks
  have hentered : account i (first ++ [.enter i entry]) =
      ⟨(account i first).past,some (entry,[])⟩ := by
    rw [account_snoc]
    simp [Account.after]
  have hwithin := account_within h hleave (by rw [hentered])
  rw [hwithin] at hcurrent hasks
  cases hcurrent
  rw [hentered,List.nil_append] at hasks
  have hbegun : captureAfter o (first ++ [.enter i entry]) = captureAfter o first :=
    captureAfter_snoc o first _
  have hasked : Asked o (account i first).past entry (didBy i middle) (.append .memory row) :=
    hasks.asked
  cases hasked with
  | passive hpassive => rcases hpassive with h | h <;> cases h
  | memory _ hlast hloaded =>
    refine ⟨hlast,fun hstopped => ?_⟩
    have hload := mem_didBy (hloaded (stop_of_stopped h.left.left hstopped))
    exact not_running_after_stop h (hbegun.trans hstopped) hload

theorem stop_within {first more : List MachineEvent} (h : History (Legit o) (first ++ more))
    (hleave : .leave i ∉ more) {cpu : Cpu} {pc : UInt64} {trail : Trail}
    (hcurrent : (account i first).current = some (.block cpu pc,trail)) {found : CaptureState}
    (hstop : .did i ⟨.swapCapture .running .stopped,found⟩ ∈ more) :
    o.stopPc = some pc := by
  obtain ⟨earlier,later,rfl⟩ := List.append_of_mem hstop
  rw [← List.append_assoc] at h
  have hown : .leave i ∉ earlier := fun hmem => hleave (List.mem_append_left _ hmem)
  have hwithin := account_within h.left hown hcurrent
  obtain ⟨_,call,whole,hcall,hasks⟩ := h _ _ _ rfl
  rw [hwithin] at hcall
  cases hcall
  have hasked : Asked o _ (.block cpu pc) _ (.swapCapture .running .stopped) := hasks.asked
  cases hasked with
  | passive hpassive => rcases hpassive with h | h <;> cases h
  | stop hpc => exact hpc

/-- The entry of the block that starts the capture records it, or another vCPU has stopped the
capture before the entry reads its state. -/
theorem start_recorded (hdistinct : ∀ pc, o.startPc = some pc → o.stopPc ≠ some pc)
    {first middle after : List MachineEvent}
    (h : History (Legit o) (first ++ .did i ⟨.swapCapture .waiting .running,.waiting⟩ ::
      (middle ++ .leave i :: after)))
    (hleave : .leave i ∉ middle) :
    (∃ call, .did i call ∈ middle ∧ records call = true) ∨
    ∃ earlier state later j, middle = earlier ++ .did i ⟨.loadCapture,state⟩ :: later ∧ j ≠ i ∧
      .did j ⟨.swapCapture .running .stopped,.running⟩ ∈ earlier := by
  set swap : Sigma Answer := ⟨.swapCapture .waiting .running,.waiting⟩ with hswap
  set started := first ++ [.did i swap] with hstarted
  have hlog : first ++ .did i swap :: (middle ++ .leave i :: after) =
      started ++ middle ++ .leave i :: after := by simp [hstarted]
  obtain ⟨hwaiting,call,trail,hcurrent,hasks⟩ := h first (.did i swap) _ rfl
  have hfirst : CallSound o call trail :=
    (threadSound i h.left).calls (call,trail) (by simp [Account.calls,hcurrent])
  have hasked : Asked o _ call trail (.swapCapture .waiting .running) := hasks.asked
  rw [hlog] at h
  cases hasked with
  | passive hpassive => rcases hpassive with h | h <;> cases h
  | @start cpu pc trail hstart hunloaded =>
    have hrunning : captureAfter o started = .running := by
      rw [hstarted,captureAfter_snoc]
      exact if_pos hwaiting.symm
    have haccount : (account i started).current = some (.block cpu pc,trail ++ [swap]) := by
      rw [hstarted,account_snoc]
      simp [Account.after,hcurrent]
    have hwithin := account_within h.left hleave haccount
    obtain ⟨call,whole,hcurrent',hends⟩ := h (started ++ middle) (.leave i) _ rfl
    rw [hwithin] at hcurrent'
    cases hcurrent'
    have hends : BlockEnds o pc (trail ++ [swap] ++ didBy i middle) := hends
    rw [BlockEnds,if_neg (hdistinct pc hstart)] at hends
    obtain ⟨state,hloaded,hends⟩ := hends
    -- The state is read after the exchange.
    have hload : .did i ⟨.loadCapture,state⟩ ∈ middle := by
      rcases List.mem_append.mp hloaded with hbefore | hbefore
      · rcases List.mem_append.mp hbefore with hbefore | hbefore
        · exact absurd hbefore (hunloaded state)
        · have hsame : (⟨.loadCapture,state⟩ : Sigma Answer) =
              ⟨.swapCapture .waiting .running,.waiting⟩ := List.mem_singleton.mp hbefore
          cases hsame
      · exact mem_didBy hbefore
    obtain ⟨earlier,later,rfl⟩ := List.append_of_mem hload
    by_cases hstate : state = .running
    · left
      rcases hends hstate with ⟨call,hcall,hrecords⟩ | ⟨admission,hmem,hexcluded⟩
      · refine ⟨call,?_,hrecords⟩
        rcases List.mem_append.mp hcall with hbefore | hbefore
        · rcases List.mem_append.mp hbefore with hbefore | hbefore
          · exact absurd (hfirst.loaded ⟨call,hbefore,hrecords⟩) (hunloaded _)
          · rw [List.mem_singleton.mp hbefore] at hrecords
            cases hrecords
        · exact mem_didBy hbefore
      · have hsound := (threadSound i h.left).calls (.block cpu pc,_)
          (by rw [Account.calls,hwithin]; exact List.mem_append_right _ List.mem_cons_self)
        rw [hsound.admitted admission hmem] at hexcluded
        cases hexcluded
    · right
      have hread : History (Legit o) (started ++ earlier ++ .did i ⟨.loadCapture,state⟩ ::
          (later ++ .leave i :: after)) := by simpa using h
      have hstopped := (hread _ _ _ rfl).load_eq
      obtain ⟨j,hj⟩ := exists_stop hread.left hrunning (by rw [← hstopped]; exact hstate)
      refine ⟨earlier,state,later,j,rfl,?_,hj⟩
      rintro rfl
      have hown : .leave j ∉ earlier := fun hmem => hleave (List.mem_append_left _ hmem)
      exact hdistinct pc hstart (stop_within hread.left hown haccount hj)

end Log

/-- Capture bounds without action windows and context filter, in every run of any number of vCPUs.
The state only moves from waiting to running to stopped.  The recorded blocks of a vCPU are a
contiguous segment of its blocks and no stop blocks, and only the entry of a block records it.
Nothing is recorded before a start block is entered, and the block that starts the capture is
recorded unless another vCPU stops it before its state is read.  A memory row comes from a callback
that began in a recorded block, before the capture had stopped. -/
theorem capture_one_window (c : Config) (hwindow : c.anyWindow = false)
    (hfilters : c.filters = false) {steps : List (Step Entry Background)} {p : Machine}
    (h : Machine.run c.toOptions steps = some p) :
    p.shared.capture = captureAfter c.toOptions p.log ∧
    (∀ before event after, p.log = before ++ event :: after →
      Moves (captureAfter c.toOptions before) (captureAfter c.toOptions (before ++ [event]))) ∧
    (∀ i, ∃ before window after, blocksOf i p.log = before ++ window ++ after ∧
      (∀ block ∈ window, Recorded block.2 ∧ c.stopPc ≠ some block.1) ∧
      ∀ block ∈ before ++ after, ¬ Recorded block.2) ∧
    (∀ before i call after, p.log = before ++ .did i call :: after → records call = true →
      ∃ cpu pc trail, (account i before).current = some (.block cpu pc,trail) ∧
        (call.1 = .append .blocks (store pc.toNat 8) ∨
          ∃ admission, call.1 = .observeBlock pc admission)) ∧
    (c.startPc.isSome = true → ∀ before after, p.log = before ++ after →
      (∀ j cpu pc, c.startPc = some pc → .enter j (.block cpu pc) ∉ before) →
      ∀ i, ∀ block ∈ blocksOf i before, ¬ Recorded block.2) ∧
    (∀ first i middle after,
      p.log = first ++ .did i ⟨.swapCapture .waiting .running,.waiting⟩ ::
        (middle ++ .leave i :: after) → .leave i ∉ middle →
      (∃ call, .did i call ∈ middle ∧ records call = true) ∨
      ∃ earlier state later j, middle = earlier ++ .did i ⟨.loadCapture,state⟩ :: later ∧ j ≠ i ∧
        .did j ⟨.swapCapture .running .stopped,.running⟩ ∈ earlier) ∧
    (∀ before i row answer after, p.log = before ++ .did i ⟨.append .memory row,answer⟩ :: after →
      ∃ first entry middle, before = first ++ .enter i entry :: middle ∧ .leave i ∉ middle ∧
        LastRecorded (account i first).past ∧ captureAfter c.toOptions first ≠ .stopped) := by
  have hlogged := run_logged c hwindow hfilters h
  have hlegit := hlogged.legit
  refine ⟨hlogged.capture,?_,?_,?_,?_,?_,?_⟩
  · intro before event after heq
    exact (hlegit before event after heq).moves
  · intro i
    have hsound := threadSound i hlegit
    obtain ⟨before,window,after,hblocks,hrecorded,hothers⟩ := hsound.one_window
    refine ⟨before,window,after,hblocks,?_,hothers⟩
    intro block hblock
    have hmem : block ∈ blocksOf i p.log := by
      rw [hblocks]
      exact List.mem_append_left _ (List.mem_append_right _ hblock)
    exact ⟨hrecorded block hblock,(hsound.recorded_loaded hmem (hrecorded block hblock)).2⟩
  · intro before i call after heq hrecords
    obtain ⟨_,entry,trail,hcurrent,hasks⟩ := hlegit before _ after heq
    obtain ⟨_,cpu,pc,rfl,hcall⟩ := hasks.records hrecords
    exact ⟨cpu,pc,trail,hcurrent,hcall⟩
  · intro hstart before after heq hnone i block hblock
    rw [heq] at hlegit
    exact not_recorded_waiting hlegit.left (waiting_before_start hlegit.left hstart hnone) hblock
  · intro first i middle after heq hleave
    rw [heq] at hlegit
    exact start_recorded (fun pc hpc => c.start_ne_stop hpc) hlegit hleave
  · intro before i row answer after heq
    have hrow := hlegit before _ after heq
    rw [heq] at hlegit
    exact memory_row_within hlegit.left hrow

def boundsConfig : Config where
  architecture := .x8664
  outputFd := some 3
  registerProfile := .none
  captureMemory := false
  startPc := some 4096
  stopPc := some 8192
  accepted := by decide

/-- The second CPU reaches the stop address between two blocks of the first. -/
def stopRun : List (Step Entry Background) :=
  [.enter 0 (.start ⟨fun _ => none,none⟩ none),.advance 0,
    .enter 1 (.start ⟨fun _ => none,none⟩ none),.advance 1,
    .enter 0 (.block ⟨fun _ => none,none⟩ 4096),.advance 0,.advance 0,.advance 0,.advance 0,
    .advance 0,.enter 1 (.block ⟨fun _ => none,none⟩ 8192),.advance 1,.advance 1,
    .enter 0 (.block ⟨fun _ => none,none⟩ 4100),.advance 0,.advance 0]

theorem capture_one_window_stop : ∃ p, Machine.run boundsConfig.toOptions stopRun = some p ∧
    p.shared.capture = .stopped ∧
    (blocksOf 0 p.log).map (fun block => (block.1,block.2.any records)) =
      [(4096,true),(4100,false)] ∧
    ∃ before window after, blocksOf 0 p.log = before ++ window ++ after ∧
      (∀ block ∈ window, Recorded block.2 ∧ boundsConfig.stopPc ≠ some block.1) ∧
      ∀ block ∈ before ++ after, ¬ Recorded block.2 := by
  have hsome : (Machine.run boundsConfig.toOptions stopRun).isSome = true := rfl
  obtain ⟨p,hp⟩ := Option.isSome_iff_exists.mp hsome
  refine ⟨p,hp,?_,?_,(capture_one_window boundsConfig rfl rfl hp).2.2.1 0⟩
  · cases hp
    rfl
  · cases hp
    rfl

end Cpu2Tensor.Plugin
