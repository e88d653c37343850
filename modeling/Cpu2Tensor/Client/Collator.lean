import Cpu2Tensor.Client.Batch

/-!
# The batch collator

`BatchCollator` holds batches back until a source has enough bytes or frames, or all sources
together have too many.  It neither loses nor moves a row, and what it holds back is bounded.
-/

namespace Cpu2Tensor.Client
open Library

def maxBatchBytes : Nat := 4*1024*1024

def maxSourceFrames : Nat := 256

def maxPendingFrames : Nat := 512

/-- The batches of one source that are held back: at least one, and their bytes. -/
structure PendingSource where
  first : Batch
  rest : List Batch := []
  size : Nat

def PendingSource.batches (p : PendingSource) : List Batch := p.first::p.rest

structure Collator where
  targetBytes : Nat
  pendingBytes : Int := 0
  pendingFrames : Int := 0
  sources : Dict Key PendingSource := {}

namespace Collator

def new (targetBytes : Nat) : Except ClientError Collator :=
  if 1 ≤ targetBytes ∧ targetBytes ≤ maxBatchBytes then .ok { targetBytes }
  else .error (.value "Collation target must be between 1 and 4 MiB")

def without (c : Collator) (key : Key) (pending : PendingSource) : Collator :=
  { c with
    sources := c.sources.pop key
    pendingBytes := c.pendingBytes-pending.size
    pendingFrames := c.pendingFrames-pending.batches.length }

def flush (c : Collator) (key : Key) (pending : PendingSource) :
    Except ClientError (Collator × Batch) := do
  let batch ← mergeBatches pending.first pending.rest
  return (c.without key pending,batch)

/-- Add a batch to the pending ones of its key. -/
def hold (c : Collator) (b : Batch) : Collator × PendingSource :=
  let pending : PendingSource :=
    match c.sources.get? b.key with
    | some pending =>
      { pending with rest := pending.rest ++ [b], size := pending.size+tensorBytes b }
    | none => { first := b, size := tensorBytes b }
  ({ c with
    sources := c.sources.set b.key pending
    pendingBytes := c.pendingBytes+tensorBytes b
    pendingFrames := c.pendingFrames+1 },pending)

def flushFull (c : Collator) (key : Key) (pending : PendingSource) :
    Except ClientError (Collator × List Batch) :=
  if c.targetBytes ≤ pending.size ∨ maxSourceFrames ≤ pending.batches.length then do
    let (c,batch) ← c.flush key pending
    return (c,[batch])
  else .ok (c,[])

/-- Flush the oldest sources while there is too much in all.  Every pass removes a source. -/
def relieve : Nat → Collator → Except ClientError (Collator × List Batch)
  | 0, c => .ok (c,[])
  | passes+1, c =>
    match c.sources.entries with
    | [] => .ok (c,[])
    | (key,pending)::_ =>
      if 2*c.targetBytes ≤ c.pendingBytes ∨ maxPendingFrames ≤ c.pendingFrames then do
        let (c,batch) ← c.flush key pending
        let (c,batches) ← relieve passes c
        return (c,batch::batches)
      else .ok (c,[])

def add (c : Collator) (b : Batch) : Except ClientError (Collator × List Batch) :=
  if b.layout ≠ none ∨ b.contextFilter ≠ none then .ok (c,[b])
  else if b.source = none ∨ b.firstSequence = none then
    .error (.value "CPU observations need a source and sequence")
  else if b.hasRows = false then .error (.value "Cannot collate an empty CPU batch")
  else do
    let (c,pending) := c.hold b
    let (c,own) ← c.flushFull b.key pending
    let (c,oldest) ← relieve c.sources.entries.length c
    return (c,own ++ oldest)

def endSource (c : Collator) (source : Nat) (worker : Nat) :
    Except ClientError (Collator × List Batch) :=
  match c.sources.get? (worker,some source) with
  | some pending => do
    let (c,batch) ← c.flush (worker,some source) pending
    return (c,[batch])
  | none => .ok (c,[])

def flushAll : List (Key × PendingSource) → Collator → Except ClientError (Collator × List Batch)
  | [], c => .ok (c,[])
  | (key,pending)::entries, c => do
    let (c,batch) ← c.flush key pending
    let (c,batches) ← flushAll entries c
    return (c,batch::batches)

def finish (c : Collator) : Except ClientError (Collator × List Batch) :=
  flushAll c.sources.entries c

def pendingOf (c : Collator) (key : Key) : List Batch :=
  ((c.sources.get? key).map PendingSource.batches).getD []

def ofKey (key : Key) (batches : List Batch) : List Batch := batches.filter fun b => b.key = key

theorem ofKey_append (key : Key) (a b : List Batch) :
    ofKey key (a ++ b) = ofKey key a ++ ofKey key b := List.filter_append _ _

/-- The counters are the totals of what is held back, and that is well formed. -/
structure Consistent (shape : Key → MemoryShape) (c : Collator) : Prop where
  bytes : c.pendingBytes = c.sources.total PendingSource.size
  frames : c.pendingFrames = c.sources.total fun p => p.batches.length
  size : ∀ key p, c.sources.get? key = some p → p.size = (p.batches.map tensorBytes).sum
  cpu : ∀ key p, c.sources.get? key = some p → ∀ b ∈ p.batches, b.Cpu (shape key) ∧ b.key = key

structure Bounded (c : Collator) : Prop where
  bytes : c.pendingBytes < 2*c.targetBytes
  frames : c.pendingFrames < maxPendingFrames
  size : ∀ key p, c.sources.get? key = some p → p.size < c.targetBytes
  length : ∀ key p, c.sources.get? key = some p → p.batches.length < maxSourceFrames

/-- What is returned and what is still held back was held back before. -/
structure Releases (c : Collator) (out : List Batch) (after : Collator) : Prop where
  conserves : ∀ key,
    contents (ofKey key out) + contents (after.pendingOf key) = contents (c.pendingOf key)
  fewer : ∀ key p, after.sources.get? key = some p → c.sources.get? key = some p
  target : after.targetBytes = c.targetBytes

variable {shape : Key → MemoryShape} {c after last : Collator} {out more : List Batch}

theorem Releases.refl (c : Collator) : Releases c [] c :=
  ⟨fun _ => zero_add _,fun _ _ h => h,rfl⟩

theorem Releases.trans (h : Releases c out after) (hmore : Releases after more last) :
    Releases c (out ++ more) last := by
  refine ⟨fun key => ?_,fun key p hp => h.fewer key p (hmore.fewer key p hp),
    hmore.target.trans h.target⟩
  rw [ofKey_append,contents_append,add_assoc,hmore.conserves,h.conserves]

variable {b : Batch} {key : Key} {p : PendingSource} {request : Call}

theorem flush_ok (hc : c.Consistent shape) (hp : c.sources.get? key = some p) :
    ∃ after batch, c.flush key p = .ok (after,batch) ∧ after.Consistent shape ∧
      Releases c [batch] after ∧ after.sources = c.sources.pop key ∧
      after.pendingBytes ≤ c.pendingBytes ∧ after.pendingFrames ≤ c.pendingFrames := by
  have hcpu := hc.cpu key p hp
  obtain ⟨batch,hmerge,hkey,hcontents⟩ := mergeBatches_ok
    (fun b hb => (hcpu b hb).1) (fun b hb => (hcpu b (List.mem_cons_of_mem _ hb)).2.trans
      (hcpu p.first List.mem_cons_self).2.symm)
  have hbatch : batch.key = key := hkey.trans (hcpu p.first List.mem_cons_self).2
  have hbytes := c.sources.total_pop PendingSource.size hp
  have hframes := c.sources.total_pop (fun p => p.batches.length) hp
  have hfewer : ∀ other q, (c.sources.pop key).get? other = some q →
      c.sources.get? other = some q := by
    intro other q hq
    rw [Dict.get?_pop] at hq
    split_ifs at hq with hne
    exact hq
  refine ⟨c.without key p,batch,by rw [flush,hmerge]; rfl,⟨?_,?_,?_,?_⟩,⟨?_,hfewer,rfl⟩,rfl,?_,?_⟩
  · simp only [without,hc.bytes]
    omega
  · simp only [without,hc.frames]
    omega
  · exact fun other q hq => hc.size other q (hfewer other q hq)
  · exact fun other q hq => hc.cpu other q (hfewer other q hq)
  · intro other
    by_cases hother : key = other
    · subst hother
      simp only [pendingOf,without,Dict.get?_pop,if_pos,hp,ofKey,List.filter_cons,hbatch,decide_true,
        List.filter_nil]
      change batch.contents + 0 + 0 = _
      rw [add_zero,add_zero,hcontents]
      rfl
    · simp only [pendingOf,without,Dict.get?_pop,ofKey,List.filter_cons,hbatch,hother,
        decide_false,Bool.false_eq_true,if_false,List.filter_nil]
      exact zero_add _
  · simp only [without]
    omega
  · simp only [without]
    omega

theorem hold_ok (hc : c.Consistent shape) (hb : b.Cpu (shape b.key)) :
    (c.hold b).1.Consistent shape ∧ (c.hold b).1.sources.get? b.key = some (c.hold b).2 ∧
      (∀ key, b.key ≠ key → (c.hold b).1.sources.get? key = c.sources.get? key) ∧
      ∀ key, (c.hold b).1.pendingOf key = c.pendingOf key ++ ofKey key [b] := by
  have hbytes := c.sources.total_set PendingSource.size b.key (c.hold b).2
  have hframes := c.sources.total_set (fun p => p.batches.length) b.key (c.hold b).2
  have hget : ∀ key, (c.hold b).1.sources.get? key =
      if b.key = key then some (c.hold b).2 else c.sources.get? key :=
    fun key => Dict.get?_set _ _ _ _
  have hheld : (c.hold b).2.batches = c.pendingOf b.key ++ [b] ∧
      (c.hold b).2.size = ((c.hold b).2.batches.map tensorBytes).sum ∧
      (c.hold b).2.size = ((c.sources.get? b.key).map PendingSource.size).getD 0 + tensorBytes b := by
    simp only [hold,pendingOf]
    cases hold : c.sources.get? b.key with
    | none => simp [PendingSource.batches]
    | some p =>
      have hsize := hc.size _ _ hold
      refine ⟨rfl,?_,rfl⟩
      change p.size + tensorBytes b = ((p.batches ++ [b]).map tensorBytes).sum
      rw [List.map_append,List.sum_append,← hsize]
      simp
  have hlength : (c.hold b).2.batches.length =
      ((c.sources.get? b.key).map fun p => p.batches.length).getD 0 + 1 := by
    rw [hheld.1,List.length_append,pendingOf]
    cases c.sources.get? b.key <;> rfl
  refine ⟨⟨?_,?_,?_,?_⟩,?_,?_,?_⟩
  · change c.pendingBytes + tensorBytes b = ((c.sources.set b.key (c.hold b).2).total _ : Nat)
    rw [hc.bytes]
    omega
  · change c.pendingFrames + 1 = ((c.sources.set b.key (c.hold b).2).total _ : Nat)
    rw [hc.frames]
    omega
  · intro key p hp
    rw [hget] at hp
    split_ifs at hp
    · obtain rfl := Option.some.inj hp
      exact hheld.2.1
    · exact hc.size key p hp
  · intro key p hp
    rw [hget] at hp
    split_ifs at hp with hkey
    · obtain rfl := Option.some.inj hp
      intro other hother
      rw [hheld.1,List.mem_append,List.mem_singleton] at hother
      subst hkey
      rcases hother with hother | rfl
      · unfold pendingOf at hother
        cases hold : c.sources.get? b.key with
        | none => simp [hold] at hother
        | some p =>
          rw [hold] at hother
          exact hc.cpu _ _ hold other hother
      · exact ⟨hb,rfl⟩
    · exact hc.cpu key p hp
  · rw [hget,if_pos rfl]
  · intro key hkey
    rw [hget,if_neg hkey]
  · intro key
    by_cases hkey : b.key = key
    · subst hkey
      rw [pendingOf,hget,if_pos rfl]
      simp [hheld.1,ofKey]
    · rw [pendingOf,hget,if_neg hkey]
      simp [ofKey,hkey,pendingOf]

private theorem empty_bounds (htarget : 1 ≤ c.targetBytes) (hc : c.Consistent shape)
    (hnil : c.sources.entries = []) :
    c.pendingBytes < 2*c.targetBytes ∧ c.pendingFrames < maxPendingFrames := by
  have hbytes := hc.bytes
  have hframes := hc.frames
  simp only [Dict.total,hnil,List.map_nil,List.sum_nil,Nat.cast_zero] at hbytes hframes
  rw [hbytes,hframes]
  exact ⟨by omega,by decide⟩

theorem relieve_ok (passes : Nat) (htarget : 1 ≤ c.targetBytes) (hc : c.Consistent shape)
    (hpasses : c.sources.entries.length ≤ passes) :
    ∃ after out, relieve passes c = .ok (after,out) ∧ after.Consistent shape ∧
      Releases c out after ∧ after.pendingBytes < 2*after.targetBytes ∧
      after.pendingFrames < maxPendingFrames := by
  induction passes generalizing c with
  | zero =>
    have hnil := List.length_eq_zero_iff.mp (Nat.le_zero.mp hpasses)
    exact ⟨c,[],rfl,hc,.refl c,empty_bounds htarget hc hnil⟩
  | succ passes ih =>
    rw [relieve]
    cases hentries : c.sources.entries with
    | nil => exact ⟨c,[],rfl,hc,.refl c,empty_bounds htarget hc hentries⟩
    | cons entry entries =>
      obtain ⟨key,pending⟩ := entry
      dsimp only
      split_ifs with hfull
      · have hget : c.sources.get? key = some pending := by
          rw [Dict.get?,hentries,Entries.get?,if_pos rfl]
        obtain ⟨next,batch,hflush,hnext,hreleases,hsources,_,_⟩ := flush_ok hc hget
        have hshorter : next.sources.entries.length ≤ passes := by
          have hlength := Entries.pop_length hget
          rw [hsources]
          change (Entries.pop key c.sources.entries).length ≤ passes
          omega
        obtain ⟨after,out,hrelieve,hafter,hmore,hbounds⟩ :=
          ih (hreleases.target ▸ htarget) hnext hshorter
        refine ⟨after,batch::out,?_,hafter,hreleases.trans hmore,hbounds⟩
        rw [hflush]
        change (relieve passes next >>= _) = _
        rw [hrelieve]
        rfl
      · refine ⟨c,[],rfl,hc,.refl c,?_,?_⟩ <;> omega

theorem flushFull_ok (hc : c.Consistent shape) (hp : c.sources.get? key = some p) :
    ∃ after out, c.flushFull key p = .ok (after,out) ∧ after.Consistent shape ∧
      Releases c out after ∧ ∀ q, after.sources.get? key = some q →
        q.size < c.targetBytes ∧ q.batches.length < maxSourceFrames := by
  unfold flushFull
  split_ifs with hfull
  · obtain ⟨after,batch,hflush,hafter,hreleases,hsources,_,_⟩ := flush_ok hc hp
    refine ⟨after,[batch],by rw [hflush]; rfl,hafter,hreleases,fun q hq => ?_⟩
    rw [hsources,Dict.get?_pop,if_pos rfl] at hq
    cases hq
  · refine ⟨c,[],rfl,hc,.refl c,fun q hq => ?_⟩
    obtain rfl := Option.some.inj (hp.symm.trans hq)
    omega

/-- A batch that is passed on at once: a layout or a filter summary, without rows. -/
structure Immediate (b : Batch) : Prop where
  payload : b.layout ≠ none ∨ b.contextFilter ≠ none
  addresses : b.addresses = []
  blockSequences : b.blockSequences = none
  registers : b.registers = none
  memory : b.memory = none
  context : b.context = none

def WellFormed (shape : Key → MemoryShape) (b : Batch) : Prop :=
  b.Cpu (shape b.key) ∨ Immediate b

private theorem Immediate.comm (hb : Immediate b) {batches : List Batch}
    (hcpu : ∀ other ∈ batches, other.layout = none ∧ other.contextFilter = none) :
    b.contents + contents batches = contents batches + b.contents := by
  have hlayouts : (contents batches).layouts = [] := by
    rw [contents_flatMap Contents.layouts rfl fun _ _ => rfl,List.flatMap_eq_nil_iff]
    intro other hother
    rw [Batch.contents,(hcpu other hother).1]
    rfl
  have hfilters : (contents batches).filters = [] := by
    rw [contents_flatMap Contents.filters rfl fun _ _ => rfl,List.flatMap_eq_nil_iff]
    intro other hother
    rw [Batch.contents,(hcpu other hother).2]
    rfl
  have hrows : ∀ {α : Type} {own : List α} (rows : List α), own = [] → own ++ rows = rows ++ own := by
    rintro α own rows rfl
    simp
  obtain ⟨_,haddresses,hsequences,hregisters,hmemory,hcontext⟩ := hb
  have hblocks : b.contents.blockSequences = [] := by
    simp [Batch.contents,Batch.sequencesOfBlocks,hsequences,haddresses,rowSequences,arange]
  ext1
  case blocks => exact hrows _ haddresses
  case blockSequences => exact hrows _ hblocks
  case registers => exact funext fun _ => hrows _ (by simp [Batch.contents,hregisters])
  case registerValues => exact hrows _ (by simp [Batch.contents,hregisters])
  case registerSequences => exact hrows _ (by simp [Batch.contents,hregisters])
  case memory => exact funext fun _ => hrows _ (by simp [Batch.contents,hmemory])
  case memoryValues => exact hrows _ (by simp [Batch.contents,hmemory])
  case mapping => exact funext fun _ => hrows _ (by simp [Batch.contents,hmemory])
  case memorySequences => exact hrows _ (by simp [Batch.contents,hmemory])
  case context => exact funext fun _ => hrows _ (by simp [Batch.contents,hcontext])
  case contextSequences => exact hrows _ (by simp [Batch.contents,hcontext])
  case layouts => exact (hrows _ hlayouts).symm
  case filters => exact (hrows _ hfilters).symm

private theorem pendingOf_cpu (hc : c.Consistent shape) (hb : b ∈ c.pendingOf key) :
    b.Cpu (shape key) ∧ b.key = key := by
  unfold pendingOf at hb
  cases hget : c.sources.get? key with
  | none => simp [hget] at hb
  | some p =>
    rw [hget] at hb
    exact hc.cpu key p hget b hb

theorem add_ok (htarget : 1 ≤ c.targetBytes) (hc : c.Consistent shape) (hbounded : c.Bounded)
    (hb : WellFormed shape b) :
    ∃ after out, c.add b = .ok (after,out) ∧ after.Consistent shape ∧ after.Bounded ∧
      after.targetBytes = c.targetBytes ∧
      ∀ key, contents (ofKey key out) + contents (after.pendingOf key) =
        contents (c.pendingOf key) + contents (ofKey key [b]) := by
  unfold add
  rcases hb with hcpu | himmediate
  · rw [if_neg (by simp [hcpu.layout,hcpu.filter]),if_neg (by simp [hcpu.source,hcpu.sequence]),
      if_neg (by simp [hcpu.rows])]
    obtain ⟨hheld,hget,hothers,hpending⟩ := hold_ok hc hcpu
    obtain ⟨flushed,own,hflush,hflushed,hfirst,hkey⟩ := flushFull_ok hheld hget
    have htargets : flushed.targetBytes = c.targetBytes := hfirst.target
    obtain ⟨after,oldest,hrelieve,hafter,hsecond,hbytes,hframes⟩ :=
      relieve_ok flushed.sources.entries.length (htargets ▸ htarget) hflushed le_rfl
    have hreleases := hfirst.trans hsecond
    have hsource : ∀ key p, after.sources.get? key = some p →
        p.size < c.targetBytes ∧ p.batches.length < maxSourceFrames := by
      intro key p hp
      by_cases hsame : b.key = key
      · exact hkey p (hsame ▸ hsecond.fewer key p hp)
      · have hbefore := hreleases.fewer key p hp
        rw [hothers key hsame] at hbefore
        exact ⟨hbounded.size key p hbefore,hbounded.length key p hbefore⟩
    have hlast : after.targetBytes = c.targetBytes := hsecond.target.trans htargets
    refine ⟨after,own ++ oldest,?_,hafter,⟨hbytes,hframes,?_,fun key p hp => (hsource key p hp).2⟩,
      hlast,fun key => ?_⟩
    · change ((c.hold b).1.flushFull b.key (c.hold b).2 >>= _) = _
      rw [hflush]
      change (relieve _ _ >>= _) = _
      rw [hrelieve]
      rfl
    · rw [hlast]
      exact fun key p hp => (hsource key p hp).1
    · rw [hreleases.conserves,hpending,contents_append]
  · rw [if_pos himmediate.payload]
    refine ⟨c,[b],rfl,hc,hbounded,rfl,fun key => ?_⟩
    by_cases hkey : b.key = key
    · have hown : contents (ofKey key [b]) = b.contents := by
        simp [ofKey,hkey,contents]
      rw [hown]
      apply himmediate.comm
      intro other hother
      exact ⟨(pendingOf_cpu hc hother).1.layout,(pendingOf_cpu hc hother).1.filter⟩
    · have hnone : ofKey key [b] = [] := by simp [ofKey,hkey]
      rw [hnone]
      exact (zero_add _).trans (add_zero _).symm

theorem Releases.bounded (h : Releases c out after) (hbounded : c.Bounded)
    (hbytes : after.pendingBytes ≤ c.pendingBytes) (hframes : after.pendingFrames ≤ c.pendingFrames) :
    after.Bounded := by
  have htarget := h.target
  refine ⟨?_,hframes.trans_lt hbounded.frames,fun key p hp => ?_,fun key p hp => ?_⟩
  · rw [htarget]
    exact hbytes.trans_lt hbounded.bytes
  · rw [htarget]
    exact hbounded.size key p (h.fewer key p hp)
  · exact hbounded.length key p (h.fewer key p hp)

theorem endSource_ok (hc : c.Consistent shape) (hbounded : c.Bounded) (source worker : Nat) :
    ∃ after out, c.endSource source worker = .ok (after,out) ∧ after.Consistent shape ∧
      after.Bounded ∧ Releases c out after ∧ after.pendingOf (worker,some source) = [] := by
  unfold endSource
  split
  · next p hp =>
    obtain ⟨after,batch,hflush,hafter,hreleases,hsources,hbytes,hframes⟩ := flush_ok hc hp
    refine ⟨after,[batch],by rw [hflush]; rfl,hafter,
      hreleases.bounded hbounded hbytes hframes,hreleases,?_⟩
    rw [pendingOf,hsources,Dict.get?_pop,if_pos rfl]
    rfl
  · next hp =>
    refine ⟨c,[],rfl,hc,hbounded,.refl c,?_⟩
    rw [pendingOf,hp]
    rfl

theorem flushAll_ok (entries : List (Key × PendingSource)) (hc : c.Consistent shape)
    (hbounded : c.Bounded) (hentries : c.sources.entries = entries) :
    ∃ after out, flushAll entries c = .ok (after,out) ∧ after.Consistent shape ∧
      after.Bounded ∧ Releases c out after ∧ after.sources.entries = [] := by
  induction entries generalizing c with
  | nil => exact ⟨c,[],rfl,hc,hbounded,.refl c,hentries⟩
  | cons entry entries ih =>
    obtain ⟨key,p⟩ := entry
    have hget : c.sources.get? key = some p := by
      rw [Dict.get?,hentries,Entries.get?,if_pos rfl]
    obtain ⟨next,batch,hflush,hnext,hreleases,hsources,hbytes,hframes⟩ := flush_ok hc hget
    have hrest : next.sources.entries = entries := by
      rw [hsources]
      change Entries.pop key c.sources.entries = entries
      rw [hentries,Entries.pop,if_pos rfl]
    obtain ⟨after,out,hall,hafter,hlast,hmore,hempty⟩ :=
      ih hnext (hreleases.bounded hbounded hbytes hframes) hrest
    refine ⟨after,batch::out,?_,hafter,hlast,hreleases.trans hmore,hempty⟩
    rw [flushAll,hflush]
    change (flushAll entries next >>= _) = _
    rw [hall]
    rfl

inductive Call
  | add (b : Batch)
  | endSource (source worker : Nat)
  | finish

def call (c : Collator) : Call → Except ClientError (Collator × List Batch)
  | .add b => c.add b
  | .endSource source worker => c.endSource source worker
  | .finish => c.finish

def calls : Collator → List Call → Except ClientError (Collator × List Batch)
  | c, [] => .ok (c,[])
  | c, first::rest => do
    let (c,out) ← c.call first
    let (c,more) ← calls c rest
    return (c,out ++ more)

def Call.added : Call → List Batch
  | .add b => [b]
  | _ => []

def Call.Closed (c : Collator) : Call → Prop
  | .add _ => True
  | .endSource source worker => c.pendingOf (worker,some source) = []
  | .finish => ∀ key, c.pendingOf key = []

theorem call_ok (htarget : 1 ≤ c.targetBytes) (hc : c.Consistent shape) (hbounded : c.Bounded)
    (hwf : ∀ b ∈ request.added, WellFormed shape b) :
    ∃ after out, c.call request = .ok (after,out) ∧ after.Consistent shape ∧ after.Bounded ∧
      after.targetBytes = c.targetBytes ∧ request.Closed after ∧
      ∀ key, contents (ofKey key out) + contents (after.pendingOf key) =
        contents (c.pendingOf key) + contents (ofKey key request.added) := by
  cases request with
  | add b =>
    obtain ⟨after,out,hadd,hafter,hlast,htargets,hconserves⟩ :=
      add_ok htarget hc hbounded (hwf b (List.mem_singleton_self b))
    exact ⟨after,out,hadd,hafter,hlast,htargets,trivial,hconserves⟩
  | endSource source worker =>
    obtain ⟨after,out,hend,hafter,hlast,hreleases,hnone⟩ := endSource_ok hc hbounded source worker
    refine ⟨after,out,hend,hafter,hlast,hreleases.target,hnone,fun key => ?_⟩
    rw [hreleases.conserves]
    exact (add_zero _).symm
  | finish =>
    obtain ⟨after,out,hfinish,hafter,hlast,hreleases,hnone⟩ := flushAll_ok _ hc hbounded rfl
    refine ⟨after,out,hfinish,hafter,hlast,hreleases.target,fun key => ?_,fun key => ?_⟩
    · rw [pendingOf,Dict.get?,hnone]
      rfl
    · rw [hreleases.conserves]
      exact (add_zero _).symm

theorem calls_snoc {middle final : Collator} {session : List Call}
    (h : c.calls session = .ok (middle,out)) (hlast : middle.call request = .ok (final,more)) :
    c.calls (session ++ [request]) = .ok (final,out ++ more) := by
  induction session generalizing c out with
  | nil =>
    obtain ⟨rfl,rfl⟩ := Prod.mk.inj (Except.ok.inj h)
    rw [List.nil_append,calls,hlast]
    exact congrArg (fun out => Except.ok (final,out)) (List.append_nil more)
  | cons first session ih =>
    rw [calls] at h
    rw [List.cons_append,calls]
    match hfirst : c.call first with
    | .error e =>
      rw [hfirst] at h
      cases h
    | .ok (next,own) =>
      rw [hfirst] at h
      change (next.calls session >>= _) = _ at h
      match hrest : next.calls session with
      | .error e =>
        rw [hrest] at h
        cases h
      | .ok (middle',rest) =>
        rw [hrest] at h
        obtain ⟨rfl,rfl⟩ := Prod.mk.inj (Except.ok.inj h)
        change (next.calls (session ++ [request]) >>= _) = _
        rw [ih hrest]
        exact congrArg (fun out => Except.ok (final,out)) (List.append_assoc _ _ _).symm

structure After (shape : Key → MemoryShape) (targetBytes : Nat) (session : List Call) (c : Collator)
    (out : List Batch) : Prop where
  conserves : ∀ key, contents (ofKey key out) + contents (c.pendingOf key) =
    contents (ofKey key (session.flatMap Call.added))
  consistent : c.Consistent shape
  bounded : c.Bounded
  target : c.targetBytes = targetBytes
  closed : ∀ request, session.getLast? = some request → request.Closed c

theorem calls_ok {targetBytes : Nat} (htarget : 1 ≤ targetBytes) (session : List Call)
    (hwf : ∀ b ∈ session.flatMap Call.added, WellFormed shape b) :
    ∃ c out, ({ targetBytes } : Collator).calls session = .ok (c,out) ∧
      After shape targetBytes session c out := by
  induction session using List.reverseRecOn with
  | nil =>
    refine ⟨_,[],rfl,fun _ => rfl,⟨rfl,rfl,?_,?_⟩,⟨?_,?_,?_,?_⟩,rfl,by simp⟩
    · exact fun _ _ h => nomatch h
    · exact fun _ _ h => nomatch h
    · change (0 : Int) < 2*(targetBytes : Int)
      omega
    · change (0 : Int) < maxPendingFrames
      decide
    · exact fun _ _ h => nomatch h
    · exact fun _ _ h => nomatch h
  | append_singleton session request ih =>
    rw [List.flatMap_append] at hwf
    obtain ⟨middle,out,hcalls,hmiddle⟩ := ih fun b hb => hwf b (List.mem_append_left _ hb)
    obtain ⟨c,more,hcall,hc,hbounded,htargets,hclosed,hconserves⟩ := call_ok
      (hmiddle.target ▸ htarget) hmiddle.consistent hmiddle.bounded
      (fun b hb => hwf b (List.mem_append_right _ (by simpa using hb)))
    refine ⟨c,out ++ more,calls_snoc hcalls hcall,fun key => ?_,hc,hbounded,
      htargets.trans hmiddle.target,?_⟩
    · rw [ofKey_append,contents_append,add_assoc,hconserves,← add_assoc,hmiddle.conserves,
        List.flatMap_append,ofKey_append,contents_append]
      simp
    · intro last hlast
      rw [List.getLast?_append,List.getLast?_singleton] at hlast
      obtain rfl := Option.some.inj hlast
      exact hclosed

theorem Consistent.bytes_eq (hc : c.Consistent shape) : c.pendingBytes =
    ((c.sources.entries.flatMap fun entry => entry.2.batches).map tensorBytes).sum := by
  have hsizes : c.sources.entries.map (fun entry => entry.2.size) =
      c.sources.entries.map fun entry => (entry.2.batches.map tensorBytes).sum := by
    apply List.map_congr_left
    intro entry hentry
    exact hc.size entry.1 entry.2 (Entries.get?_eq_some_of_mem c.sources.distinct hentry)
  rw [hc.bytes,Dict.total,hsizes,List.map_flatMap,List.flatMap,List.sum_flatten,List.map_map]
  rfl

theorem Consistent.frames_eq (hc : c.Consistent shape) : c.pendingFrames =
    (c.sources.entries.flatMap fun entry => entry.2.batches).length := by
  rw [hc.frames,Dict.total,List.length_flatMap]

theorem Bounded.pendingOf (hbounded : c.Bounded) (hc : c.Consistent shape)
    (htarget : 1 ≤ c.targetBytes) (key : Key) :
    ((c.pendingOf key).map tensorBytes).sum < c.targetBytes ∧
      (c.pendingOf key).length < maxSourceFrames := by
  unfold Collator.pendingOf
  cases hget : c.sources.get? key with
  | none => exact ⟨htarget,by decide⟩
  | some p =>
    have hsize := hbounded.size key p hget
    rw [hc.size key p hget] at hsize
    exact ⟨hsize,hbounded.length key p hget⟩

end Collator

/-- Over every session of calls on well-formed batches the collator returns or holds back every
row, its counters are exact, and what it holds back stays below the bounds. -/
theorem collator_conserves (targetBytes : Nat) (htarget : 1 ≤ targetBytes ∧ targetBytes ≤ maxBatchBytes)
    (shape : Key → MemoryShape) (session : List Collator.Call)
    (hwf : ∀ b ∈ session.flatMap Collator.Call.added, Collator.WellFormed shape b) :
    ∃ start c out, Collator.new targetBytes = .ok start ∧ start.calls session = .ok (c,out) ∧
      (∀ key, contents (Collator.ofKey key out) + contents (c.pendingOf key) =
        contents (Collator.ofKey key (session.flatMap Collator.Call.added))) ∧
      c.pendingBytes = ((c.sources.entries.flatMap fun entry => entry.2.batches).map tensorBytes).sum ∧
      c.pendingFrames = (c.sources.entries.flatMap fun entry => entry.2.batches).length ∧
      c.pendingBytes < 2*targetBytes ∧ c.pendingFrames < 512 ∧
      (∀ key, ((c.pendingOf key).map tensorBytes).sum < targetBytes ∧
        (c.pendingOf key).length < 256) ∧
      (∀ source worker, session.getLast? = some (.endSource source worker) →
        c.pendingOf (worker,some source) = []) ∧
      (session.getLast? = some .finish → ∀ key, c.pendingOf key = []) := by
  obtain ⟨c,out,hcalls,h⟩ := Collator.calls_ok htarget.1 session hwf
  refine ⟨{ targetBytes },c,out,if_pos htarget,hcalls,h.conserves,?_,?_,?_,?_,?_,?_,?_⟩
  · exact h.consistent.bytes_eq
  · exact h.consistent.frames_eq
  · exact h.target ▸ h.bounded.bytes
  · exact h.bounded.frames
  · intro key
    rw [← h.target]
    exact h.bounded.pendingOf h.consistent (h.target ▸ htarget.1) key
  · exact fun source worker hlast => h.closed _ hlast
  · exact fun hlast => h.closed _ hlast

def blockBatch (source sequence : Nat) : Batch :=
  { source := some source, firstSequence := some sequence, addresses := [UInt64.ofNat sequence] }

/-- Two sources, an end of the first and the finish, with a target that the second block of a
source reaches. -/
theorem collator_conserves_two :
    ∃ start c out, Collator.new 16 = .ok start ∧
      start.calls [.add (blockBatch 0 0),.add (blockBatch 1 0),.add (blockBatch 0 1),
        .endSource 0 0,.finish] = .ok (c,out) ∧ ∀ key, c.pendingOf key = [] := by
  obtain ⟨start,c,out,hnew,hcalls,_,_,_,_,_,_,_,hfinish⟩ := collator_conserves 16 (by decide)
    (fun _ => ⟨false,false⟩) [.add (blockBatch 0 0),.add (blockBatch 1 0),.add (blockBatch 0 1),
      .endSource 0 0,.finish] (by
        intro b hb
        have hblock : ∃ source sequence, b = blockBatch source sequence := by
          simp [Collator.Call.added] at hb
          rcases hb with rfl | rfl | rfl
          · exact ⟨0,0,rfl⟩
          · exact ⟨1,0,rfl⟩
          · exact ⟨0,1,rfl⟩
        obtain ⟨source,sequence,rfl⟩ := hblock
        refine .inl ⟨by simp [blockBatch],by simp [blockBatch],by simp [blockBatch,Batch.hasRows],
          by simp [blockBatch],by simp [blockBatch],by simp [blockBatch],rfl,rfl⟩)
  exact ⟨start,c,out,hnew,hcalls,hfinish rfl⟩

end Cpu2Tensor.Client
