import NitroRs.Lib.Search
import NitroRs.Reader.SuccessfulCalls
import NitroRs.Reader.ScanRuns
import Mathlib.Order.WellFounded

/-! Progress of the scan at a fixed height. A window that reads nothing grows, but only to its
maximum, and its start stays: what is further ahead is never reached. -/
namespace NitroRs
open KeyValue Outcome

/-- The bounds of the window in order, and in a `u64`. -/
structure InboxReaderConfig.Valid (cfg : InboxReaderConfig) : Prop where
  positive : 1 ≤ cfg.minBlocksToRead
  minLe : cfg.minBlocksToRead ≤ cfg.defaultBlocksToRead
  defaultLe : cfg.defaultBlocksToRead ≤ cfg.maxBlocksToRead
  word : cfg.maxBlocksToRead < 2 ^ 64

/-- The block holds a delayed message that the tracker does not. -/
def MissingDelayedAt (h : L1History) (t : InboxTracker) (block : Nat) : Prop :=
  ∃ i d, h.delayed[i]? = some d ∧ d.block = block ∧ t.db.get .rlpDelayedMessage i = none

def MissingBatchAt (h : L1History) (t : InboxTracker) (block : Nat) : Prop :=
  ∃ i b, h.batches[i]? = some b ∧ b.parentChainBlockNumber = block ∧ t.db.get .sequencerBatchMeta i = none

def MissingAt (h : L1History) (t : InboxTracker) (block : Nat) : Prop :=
  MissingDelayedAt h t block ∨ MissingBatchAt h t block

/-- The block holds something to read. While delayed messages are missing, those that are
stored are read again. -/
def ReadAt (h : L1History) (height : Nat) (t : InboxTracker) (block : Nat) : Prop :=
  MissingAt h t block ∨ ((∃ b ≤ height, MissingDelayedAt h t b) ∧ ∃ d ∈ h.delayed, d.block = block)

namespace InboxReader

/-- An iteration from one state of the loop to the next. -/
def Iterates [Externals] (cfg : InboxReaderConfig) (latestMode : Bool) (l1 : L1Calls) (height : Nat)
    (s s' : InboxReader × Scan) : Prop := iterate cfg latestMode l1 height s.2 s.1 = .ok s'.2 s'.1

/-- The window contains the next block, up to the height, with something missing. -/
def Finds (h : L1History) (height : Nat) (s : InboxReader × Scan) : Prop :=
  ∃ block, IsLeast {b | s.2.fromBlock ≤ b ∧ b ≤ height ∧ MissingAt h s.1.tracker b} block ∧
    block ≤ s.2.toBlock height

/-- The next block, up to the height, with something to read is in reach of the largest window. -/
def Near (cfg : InboxReaderConfig) (h : L1History) (height : Nat) (s : InboxReader × Scan) : Prop :=
  ∃ block, IsLeast {b | s.2.fromBlock ≤ b ∧ b ≤ height ∧ ReadAt h height s.1.tracker b} block ∧
    block ≤ s.2.fromBlock + cfg.maxBlocksToRead

theorem exists_isLeast_le {P : Nat → Prop} {lo hi bound : Nat} :
    (∃ m, IsLeast {b | lo ≤ b ∧ b ≤ hi ∧ P b} m ∧ m ≤ bound) ↔ ∃ b, lo ≤ b ∧ b ≤ hi ∧ b ≤ bound ∧ P b := by
  constructor
  · rintro ⟨m, ⟨⟨low, high, holds⟩, _⟩, inside⟩
    exact ⟨m, low, high, inside, holds⟩
  · rintro ⟨b, low, high, inside, holds⟩
    obtain ⟨m, member, least⟩ := Nat.lt_wfRel.wf.has_min {b | lo ≤ b ∧ b ≤ hi ∧ P b} ⟨b, low, high, holds⟩
    refine ⟨m, ⟨member, fun b' other => not_lt.mp (least b' other)⟩, ?_⟩
    exact (not_lt.mp (least b ⟨low, high, holds⟩)).trans inside

section Growth
variable {cfg : InboxReaderConfig} {n have_ : Nat}

theorem nextBlocksToFetch_le (valid : cfg.Valid) : nextBlocksToFetch cfg n have_ ≤ cfg.maxBlocksToRead := by
  have ordered := valid.minLe.trans valid.defaultLe
  unfold nextBlocksToFetch
  dsimp only
  split_ifs <;> omega

/-- An empty window grows until it has its largest size. -/
theorem lt_nextBlocksToFetch (valid : cfg.Valid) (less : n < cfg.maxBlocksToRead) :
    n < nextBlocksToFetch cfg n 0 := by
  obtain ⟨positive, minLe, defaultLe, word⟩ := valid
  unfold nextBlocksToFetch saturate
  rw [if_pos rfl]
  dsimp only
  split
  · omega
  · split <;> omega

end Growth

end InboxReader

section
variable [Externals] {h : L1History} {t t' : InboxTracker} {p p' : Progress} {height block lo hi : Nat}

/-- What is missing, by the numbers that the tracker holds. -/
def Progress.Misses (h : L1History) (p : Progress) (block : Nat) : Prop :=
  (∃ i d, p.delayed ≤ i ∧ h.delayed[i]? = some d ∧ d.block = block) ∨
    ∃ i b, p.batches ≤ i ∧ h.batches[i]? = some b ∧ b.parentChainBlockNumber = block

namespace Follows

theorem delayed_eq_none (follows : Follows h t p) {i : Nat} {d : DelayedMessage} (here : h.delayed[i]? = some d) :
    t.db.get .rlpDelayedMessage i = none ↔ p.delayed ≤ i := by
  have entry : t.db.get .rlpDelayedMessage i = ((h.delayed.take p.delayed)[i]?).map fun d =>
      (accumulator ((h.delayed.take p.delayed).take i)).val ++ d.bytes := follows.delayed.entries i
  rw [entry, Option.map_eq_none_iff, List.getElem?_take]
  split
  · simp only [here]
    exact iff_of_false (fun same => nomatch same) (by omega)
  · exact iff_of_true rfl (by omega)

theorem batch_eq_none (follows : Follows h t p) (i : Nat) :
    t.db.get .sequencerBatchMeta i = none ↔ p.batches ≤ i := by
  obtain ⟨l, represents, batches⟩ := follows.ledger
  rw [represents.metas, List.getElem?_eq_none_iff, follows.length_ledger batches]

theorem missingDelayedAt_iff (follows : Follows h t p) : MissingDelayedAt h t block ↔
    ∃ i d, p.delayed ≤ i ∧ h.delayed[i]? = some d ∧ d.block = block := by
  constructor
  · rintro ⟨i, d, here, same, absent⟩
    exact ⟨i, d, (follows.delayed_eq_none here).mp absent, here, same⟩
  · rintro ⟨i, d, later, here, same⟩
    exact ⟨i, d, here, same, (follows.delayed_eq_none here).mpr later⟩

theorem missingAt_iff (follows : Follows h t p) : MissingAt h t block ↔ p.Misses h block := by
  refine or_congr follows.missingDelayedAt_iff ?_
  constructor
  · rintro ⟨i, b, here, same, absent⟩
    exact ⟨i, b, (follows.batch_eq_none i).mp absent, here, same⟩
  · rintro ⟨i, b, later, here, same⟩
    exact ⟨i, b, here, same, (follows.batch_eq_none i).mpr later⟩

/-- Some delayed message up to a height is missing. -/
theorem delayedShort_iff (follows : Follows h t p) :
    (∃ b ≤ height, MissingDelayedAt h t b) ↔ p.delayed < h.delayedBefore (height + 1) := by
  constructor
  · rintro ⟨_, below, missing⟩
    obtain ⟨i, d, later, here, rfl⟩ := follows.missingDelayedAt_iff.mp missing
    exact later.trans_lt (L1History.lt_delayedBefore.mpr ⟨d, here, Nat.lt_succ_of_le below⟩)
  · intro short
    obtain ⟨d, here, below⟩ := L1History.lt_delayedBefore.mp short
    exact ⟨d.block, Nat.le_of_lt_succ below, follows.missingDelayedAt_iff.mpr ⟨_, d, le_rfl, here, rfl⟩⟩

theorem readAt_iff (follows : Follows h t p) : ReadAt h height t block ↔
    p.Misses h block ∨ (p.delayed < h.delayedBefore (height + 1) ∧ ∃ d ∈ h.delayed, d.block = block) := by
  rw [ReadAt, follows.missingAt_iff, follows.delayedShort_iff]

end Follows

namespace Progress

omit [Externals] in
theorem clean_iff : p.Clean h lo hi ↔ ∀ b, lo ≤ b → b ≤ hi → ¬ p.Misses h b := by
  have delayed := Ascending.exists_between_iff h.delayedOrdered p.delayed lo (hi + 1)
  have batches := Ascending.exists_between_iff h.batchesOrdered p.batches lo (hi + 1)
  constructor
  · rintro clean b low high (⟨i, d, later, here, rfl⟩ | ⟨i, b, later, here, rfl⟩)
    · exact absurd (delayed.mp ⟨i, d, later, here, low, Nat.lt_succ_of_le high⟩) (not_lt.mpr clean.delayed)
    · exact absurd (batches.mp ⟨i, b, later, here, low, Nat.lt_succ_of_le high⟩) (not_lt.mpr clean.batches)
  · intro none
    constructor
    · refine not_lt.mp fun some => ?_
      obtain ⟨i, d, later, here, low, high⟩ := delayed.mpr some
      exact none _ low (Nat.le_of_lt_succ high) (.inl ⟨i, d, later, here, rfl⟩)
    · refine not_lt.mp fun some => ?_
      obtain ⟨i, b, later, here, low, high⟩ := batches.mpr some
      exact none _ low (Nat.le_of_lt_succ high) (.inr ⟨i, b, later, here, rfl⟩)

omit [Externals] in
theorem Misses.short (misses : p.Misses h block) (below : block ≤ height) : p.Short h height := by
  rcases misses with ⟨i, d, later, here, rfl⟩ | ⟨i, b, later, here, rfl⟩
  · exact .inl (later.trans_lt (L1History.lt_delayedBefore.mpr ⟨d, here, Nat.lt_succ_of_le below⟩))
  · exact .inr (later.trans_lt (L1History.lt_batchesBefore.mpr ⟨b, here, Nat.lt_succ_of_le below⟩))

omit [Externals] in
/-- What is missing past a window stays missing when the window is read. -/
theorem Misses.past (misses : p.Misses h block) (past : hi < block)
    (delayed : p'.delayed ≤ max p.delayed (h.delayedBefore (hi + 1)))
    (batches : p'.batches ≤ max p.batches (h.batchesBefore (hi + 1))) : p'.Misses h block := by
  rcases misses with ⟨i, d, later, here, rfl⟩ | ⟨i, b, later, here, rfl⟩
  · refine .inl ⟨i, d, delayed.trans (max_le later (not_lt.mp fun inside => ?_)), here, rfl⟩
    obtain ⟨d', here', early⟩ := L1History.lt_delayedBefore.mp inside
    cases here.symm.trans here'
    omega
  · refine .inr ⟨i, b, batches.trans (max_le later (not_lt.mp fun inside => ?_)), here, rfl⟩
    obtain ⟨b', here', early⟩ := L1History.lt_batchesBefore.mp inside
    cases here.symm.trans here'
    omega

omit [Externals] in
theorem misses_checked (below : block ≤ height) : (p.checked h height).Misses h block ↔ p.Misses h block := by
  have read := h.batchesBefore_le_readUpTo (height + 1)
  refine or_congr (exists_congr fun i => exists_congr fun d => ?_) (exists_congr fun i => exists_congr fun b => ?_)
  · refine and_congr_left fun ⟨here, same⟩ => ?_
    have inside : i < h.delayedBefore (height + 1) :=
      L1History.lt_delayedBefore.mpr ⟨d, here, by omega⟩
    change min p.delayed (h.delayedBefore (height + 1)) ≤ i ↔ _
    omega
  · refine and_congr_left fun ⟨here, same⟩ => ?_
    have inside : i < h.batchesBefore (height + 1) :=
      L1History.lt_batchesBefore.mpr ⟨b, here, by omega⟩
    change min p.batches (h.readUpTo (h.delayedBefore (height + 1))) ≤ i ↔ _
    omega

end Progress

/-- The checks do not change what there is to read. -/
theorem readAt_checked (follows : Follows h t p) (follows' : Follows h t' (p.checked h height))
    (below : block ≤ height) : ReadAt h height t' block ↔ ReadAt h height t block := by
  rw [follows.readAt_iff, follows'.readAt_iff, Progress.misses_checked below]
  refine or_congr_right (and_congr_left' ?_)
  change min p.delayed (h.delayedBefore (height + 1)) < _ ↔ _
  omega

theorem missingAt_checked (follows : Follows h t p) (follows' : Follows h t' (p.checked h height))
    (below : block ≤ height) : MissingAt h t' block ↔ MissingAt h t block := by
  rw [follows.missingAt_iff, follows'.missingAt_iff, Progress.misses_checked below]

namespace InboxReader
variable {cfg : InboxReaderConfig} {latestMode : Bool} {l1 : L1Calls} {s s' : InboxReader × Scan}

/-- A state of the loop with something left to read. -/
structure Searching (cfg : InboxReaderConfig) (h : L1History) (height : Nat) (s : InboxReader × Scan) : Prop where
  follows : ∃ p, Follows h s.1.tracker p
  bounded : s.2.blocksToFetch ≤ cfg.maxBlocksToRead
  missing : ∃ b, s.2.fromBlock ≤ b ∧ b ≤ height ∧ MissingAt h s.1.tracker b

/-- The window holds something to read. -/
def Reads (h : L1History) (height : Nat) (s : InboxReader × Scan) : Prop :=
  ∃ b, s.2.fromBlock ≤ b ∧ b ≤ s.2.toBlock height ∧ ReadAt h height s.1.tracker b

omit [Externals] in
theorem toBlock_eq (word : height < 2 ^ 64) (scan : Scan) :
    scan.toBlock height = min (scan.fromBlock + scan.blocksToFetch) height := by
  rw [Scan.toBlock, saturate]
  omega

omit [Externals] in
theorem finds_iff : Finds h height s ↔
    ∃ b, s.2.fromBlock ≤ b ∧ b ≤ s.2.toBlock height ∧ MissingAt h s.1.tracker b := by
  refine exists_isLeast_le.trans (exists_congr fun b => ?_)
  have inside : s.2.toBlock height ≤ height := Nat.min_le_right _ _
  constructor
  · rintro ⟨low, _, high, missing⟩
    exact ⟨low, high, missing⟩
  · rintro ⟨low, high, missing⟩
    exact ⟨low, high.trans inside, high, missing⟩

omit [Externals] in
theorem Reads.near (word : height < 2 ^ 64) (bounded : s.2.blocksToFetch ≤ cfg.maxBlocksToRead)
    (reads : Reads h height s) : Near cfg h height s := by
  obtain ⟨b, low, high, read⟩ := reads
  rw [toBlock_eq word] at high
  exact exists_isLeast_le.mpr ⟨b, low, by omega, by omega, read⟩

omit [Externals] in
theorem Finds.reads (finds : Finds h height s) : Reads h height s := by
  obtain ⟨b, low, high, missing⟩ := finds_iff.mp finds
  exact ⟨b, low, high, .inl missing⟩

theorem Iterates.deterministic {a b : InboxReader × Scan} (one : Iterates cfg latestMode l1 height s a)
    (other : Iterates cfg latestMode l1 height s b) : a = b := by
  obtain ⟨same, same'⟩ := EStateM.Result.ok.inj (one.symm.trans other)
  exact Prod.ext same' same

theorem reads_iff {p : Progress} (follows : Follows h s.1.tracker p)
    (clean : p.Clean h s.2.fromBlock (s.2.toBlock height)) : Reads h height s ↔ p.Rereads h height s.2 := by
  have range := Ascending.exists_between_iff h.delayedOrdered 0 s.2.fromBlock (s.2.toBlock height + 1)
  rw [Nat.zero_max] at range
  constructor
  · rintro ⟨b, low, high, read⟩
    rcases follows.readAt_iff.mp read with missing | ⟨short, d, member, rfl⟩
    · exact absurd missing (Progress.clean_iff.mp clean b low high)
    · obtain ⟨i, here⟩ := List.mem_iff_getElem?.mp member
      exact ⟨short, range.mp ⟨i, d, Nat.zero_le i, here, low, Nat.lt_succ_of_le high⟩⟩
  · rintro ⟨short, some⟩
    obtain ⟨i, d, _, here, low, high⟩ := range.mpr some
    exact ⟨d.block, low, Nat.le_of_lt_succ high,
      follows.readAt_iff.mpr (.inr ⟨short, d, List.mem_of_getElem? here, rfl⟩)⟩

/-- An iteration that does not find what is missing. Its window is passed when there is
something to read in it, and grows when there is not. -/
theorem iterates_cases (latestMode : Bool) (valid : cfg.Valid) (word : height < 2 ^ 64)
    (succeeds : Succeeds h height l1) (searching : Searching cfg h height s) (unfound : ¬ Finds h height s) :
    ∃ s', Iterates cfg latestMode l1 height s s' ∧ Searching cfg h height s' ∧
      ((Reads h height s ∧ s.2.fromBlock < s'.2.fromBlock) ∨
        (¬ Reads h height s ∧ s'.2 = ⟨s.2.fromBlock, nextBlocksToFetch cfg s.2.blocksToFetch 0⟩ ∧
          (∀ b ≤ height, MissingAt h s'.1.tracker b ↔ MissingAt h s.1.tracker b) ∧
          ∀ b ≤ height, ReadAt h height s'.1.tracker b ↔ ReadAt h height s.1.tracker b)) := by
  obtain ⟨⟨p, follows⟩, bounded, block, low, high, missing⟩ := searching
  have misses := follows.missingAt_iff.mp missing
  have clean : p.Clean h s.2.fromBlock (s.2.toBlock height) := by
    refine Progress.clean_iff.mpr fun b low' high' misses' => unfound ?_
    exact finds_iff.mpr ⟨b, low', high', follows.missingAt_iff.mpr misses'⟩
  have past : s.2.toBlock height < block := by
    by_contra inside
    exact unfound (finds_iff.mpr ⟨block, low, not_lt.mp inside, missing⟩)
  have forward : s.2.fromBlock ≤ s.2.toBlock height := by
    rw [toBlock_eq word]
    omega
  have next : saturate (s.2.toBlock height + 1) = s.2.toBlock height + 1 := by
    rw [saturate]
    omega
  rcases iterate_clean cfg latestMode follows succeeds (misses.short high) clean with
    ⟨rereads, n, have_, r', p', ran, follows', delayed, batches⟩ | ⟨passes, r', ran, follows'⟩
  · rw [next] at ran
    refine ⟨(r', _), ran, ⟨⟨p', follows'⟩, nextBlocksToFetch_le valid, block, past, high, ?_⟩,
      .inl ⟨(reads_iff follows clean).mpr rereads, by dsimp only; omega⟩⟩
    exact follows'.missingAt_iff.mpr (misses.past past (delayed.le.trans (Nat.le_max_right _ _)) batches)
  · refine ⟨(r', _), ran, ⟨⟨_, follows'⟩, nextBlocksToFetch_le valid, block, low, high, ?_⟩,
      .inr ⟨fun reads => passes ((reads_iff follows clean).mp reads), rfl,
        fun b below => missingAt_checked follows follows' below, fun b below => readAt_checked follows follows' below⟩⟩
    exact (missingAt_checked follows follows' high).mpr missing

/-- What is left of the scan: the blocks, and the growth of the window at each. -/
def left (cfg : InboxReaderConfig) (height : Nat) (s : InboxReader × Scan) : Nat :=
  (height + 1 - s.2.fromBlock) * (cfg.maxBlocksToRead + 1) + (cfg.maxBlocksToRead - s.2.blocksToFetch)

theorem searching_kept (valid : cfg.Valid) (word : height < 2 ^ 64) (succeeds : Succeeds h height l1)
    (searching : Searching cfg h height s) (unfound : ¬ Finds h height s)
    (iterates : Iterates cfg latestMode l1 height s s') : Searching cfg h height s' := by
  obtain ⟨_, iterates', searching', _⟩ := iterates_cases latestMode valid word succeeds searching unfound
  rwa [iterates.deterministic iterates']

/-- In reach of the largest window the scan gets on. -/
theorem near_onward (latestMode : Bool) (valid : cfg.Valid) (word : height < 2 ^ 64) (succeeds : Succeeds h height l1)
    (searching : Searching cfg h height s) (unfound : ¬ Finds h height s) (near : Near cfg h height s) :
    ∃ s', Iterates cfg latestMode l1 height s s' ∧ left cfg height s' < left cfg height s := by
  obtain ⟨s', iterates, searching', ⟨_, moved⟩ | ⟨passed, scan, _⟩⟩ :=
    iterates_cases latestMode valid word succeeds searching unfound
  · refine ⟨s', iterates, ?_⟩
    obtain ⟨b, low, high, _⟩ := searching'.missing
    have fewer : (height + 1 - s'.2.fromBlock) * (cfg.maxBlocksToRead + 1) + (cfg.maxBlocksToRead + 1) ≤
        (height + 1 - s.2.fromBlock) * (cfg.maxBlocksToRead + 1) := by
      rw [← Nat.succ_mul]
      exact Nat.mul_le_mul_right _ (by omega)
    unfold left
    omega
  · refine ⟨s', iterates, ?_⟩
    have small : s.2.blocksToFetch < cfg.maxBlocksToRead := by
      by_contra large
      obtain ⟨b, low, high, inside, read⟩ := exists_isLeast_le.mp near
      refine passed ⟨b, low, ?_, read⟩
      rw [toBlock_eq word]
      omega
    have grows := lt_nextBlocksToFetch valid small
    rw [left, left, scan]
    dsimp only
    omega

/-- Out of its reach the scan stays where it is. -/
theorem far_stays (valid : cfg.Valid) (word : height < 2 ^ 64) (succeeds : Succeeds h height l1)
    (searching : Searching cfg h height s) (far : ¬ Near cfg h height s)
    (iterates : Iterates cfg latestMode l1 height s s') : ¬ Near cfg h height s' := by
  have unread : ¬ Reads h height s := fun reads => far (reads.near word searching.bounded)
  obtain ⟨s'', iterates', _, ⟨reads, _⟩ | ⟨_, scan, _, same⟩⟩ :=
    iterates_cases latestMode valid word succeeds searching (fun finds => unread finds.reads)
  · exact absurd reads unread
  · obtain rfl := iterates.deterministic iterates'
    have position : s'.2.fromBlock = s.2.fromBlock := by rw [scan]
    intro near
    obtain ⟨b, low, high, inside, read⟩ := exists_isLeast_le.mp near
    rw [position] at low inside
    exact far (exists_isLeast_le.mpr ⟨b, low, high, inside, (same b high).mp read⟩)

/-- The scan comes to what is missing exactly when something to read stays in its reach. -/
theorem finds_iff_near (latestMode : Bool) (valid : cfg.Valid) (word : height < 2 ^ 64)
    (succeeds : Succeeds h height l1) (searching : Searching cfg h height s) :
    (∃ s', Search.Visits (Iterates cfg latestMode l1 height) (Finds h height) s s' ∧ Finds h height s') ↔
      ∀ s', Search.Visits (Iterates cfg latestMode l1 height) (Finds h height) s s' → Near cfg h height s' :=
  Search.finds_iff (fun _ _ _ => Iterates.deterministic) (left cfg height)
    (fun _ _ searching => searching_kept valid word succeeds searching)
    (fun _ searching finds => finds.reads.near word searching.bounded)
    (fun _ => near_onward latestMode valid word succeeds)
    (fun _ _ => far_stays valid word succeeds) searching

/-- The blocks in front of the next one with something missing hold no delayed message. -/
structure Stretch (h : L1History) (height block : Nat) (s : InboxReader × Scan) : Prop where
  next : IsLeast {b | s.2.fromBlock ≤ b ∧ b ≤ height ∧ MissingAt h s.1.tracker b} block
  empty : ∀ d ∈ h.delayed, d.block < s.2.fromBlock ∨ block ≤ d.block

omit [Externals] in
theorem Stretch.readAt {block : Nat} (stretch : Stretch h height block s) {b : Nat} (low : s.2.fromBlock ≤ b)
    (high : b ≤ height) (read : ReadAt h height s.1.tracker b) : block ≤ b := by
  rcases read with missing | ⟨_, d, member, rfl⟩
  · exact stretch.next.2 ⟨low, high, missing⟩
  · rcases stretch.empty d member with before | behind
    · omega
    · exact behind

omit [Externals] in
theorem Stretch.near_iff {block : Nat} (stretch : Stretch h height block s) :
    Near cfg h height s ↔ block ≤ s.2.fromBlock + cfg.maxBlocksToRead := by
  refine exists_isLeast_le.trans ⟨?_, fun inside => ?_⟩
  · rintro ⟨b, low, high, inside, read⟩
    exact (stretch.readAt low high read).trans inside
  · obtain ⟨low, high, missing⟩ := stretch.next.1
    exact ⟨block, low, high, inside, .inl missing⟩

/-- The scan does not leave a stretch without finding what is behind it. -/
theorem stretch_kept {block : Nat} (valid : cfg.Valid) (word : height < 2 ^ 64) (succeeds : Succeeds h height l1)
    (searching : Searching cfg h height s) (stretch : Stretch h height block s) (unfound : ¬ Finds h height s)
    (iterates : Iterates cfg latestMode l1 height s s') :
    Stretch h height block s' ∧ s'.2.fromBlock = s.2.fromBlock := by
  obtain ⟨s'', iterates', _, ⟨reads, _⟩ | ⟨_, scan, same, _⟩⟩ :=
    iterates_cases latestMode valid word succeeds searching unfound
  · obtain ⟨b, low, high, read⟩ := reads
    have inside : s.2.toBlock height ≤ height := Nat.min_le_right _ _
    have reached := stretch.readAt low (high.trans inside) read
    exact absurd (finds_iff.mpr ⟨block, stretch.next.1.1, reached.trans high, stretch.next.1.2.2⟩) unfound
  · obtain rfl := iterates.deterministic iterates'
    have position : s'.2.fromBlock = s.2.fromBlock := by rw [scan]
    refine ⟨⟨?_, by rw [position]; exact stretch.empty⟩, position⟩
    have equal : {b | s'.2.fromBlock ≤ b ∧ b ≤ height ∧ MissingAt h s'.1.tracker b} =
        {b | s.2.fromBlock ≤ b ∧ b ≤ height ∧ MissingAt h s.1.tracker b} := by
      ext b
      rw [Set.mem_ofPred_eq, Set.mem_ofPred_eq, position]
      exact and_congr_right fun _ => and_congr_right fun below => same b below
    rw [equal]
    exact stretch.next

/-- The scan comes to the next block with something missing exactly when something to read
stays in reach of its largest window, and over a stretch without events exactly when that
window spans the stretch. -/
theorem scan_finds_next_missing_iff (valid : cfg.Valid) (word : height < 2 ^ 64) (succeeds : Succeeds h height l1)
    (searching : Searching cfg h height s) :
    ((∃ s', Search.Visits (Iterates cfg latestMode l1 height) (Finds h height) s s' ∧ Finds h height s') ↔
      ∀ s', Search.Visits (Iterates cfg latestMode l1 height) (Finds h height) s s' → Near cfg h height s') ∧
    ∀ block, Stretch h height block s →
      ((∃ s', Search.Visits (Iterates cfg latestMode l1 height) (Finds h height) s s' ∧ Finds h height s') ↔
        block ≤ s.2.fromBlock + cfg.maxBlocksToRead) := by
  have whole := finds_iff_near latestMode valid word succeeds searching
  refine ⟨whole, fun block stretch => whole.trans ⟨fun near => ?_, fun inside s' visits => ?_⟩⟩
  · exact stretch.near_iff.mp (near s .start)
  · have keeps (a b : InboxReader × Scan) (held : Searching cfg h height a ∧ Stretch h height block a ∧
        a.2.fromBlock = s.2.fromBlock) (unfound : ¬ Finds h height a)
        (iterates : Iterates cfg latestMode l1 height a b) : Searching cfg h height b ∧ Stretch h height block b ∧
          b.2.fromBlock = s.2.fromBlock := by
      obtain ⟨searching, stretch, position⟩ := held
      obtain ⟨stretch', position'⟩ := stretch_kept valid word succeeds searching stretch unfound iterates
      exact ⟨searching_kept valid word succeeds searching unfound iterates, stretch', position'.trans position⟩
    obtain ⟨_, stretch', position⟩ := visits.kept keeps ⟨searching, stretch, rfl⟩
    rw [stretch'.near_iff, position]
    exact inside

end InboxReader
end

namespace InboxReader
section Samples
open Codecs

/-- An L1 with one batch, ten blocks on. -/
def farHistory : L1History where
  firstMessageBlock := 0
  delayed := []
  batches := [{ newBatch with parentChainBlockNumber := 10 }]
  delayedDeployed _ member := nomatch member
  batchesDeployed _ _ := Nat.zero_le _
  delayedOrdered := .nil
  batchesOrdered := List.pairwise_singleton _ _
  numbered := rfl
  delayedCounted := by decide
  batchesCounted := by decide
  readsOrdered := List.pairwise_singleton _ _
  readsEmitted := by simp [newBatch, batch]

def farL1 : L1Calls := { reorgedL1 with
  sequencerInbox := { reorgedL1.sequencerInbox with
    getBatchCount := fun height => .ok (farHistory.batchesBefore (height + 1))
    lookupBatchesInRange := fun fromBlock toBlock => .ok (farHistory.batchesIn fromBlock toBlock) } }

theorem farL1_succeeds (height : Nat) : Succeeds farHistory height farL1 where
  messageCount := rfl
  batchCount := rfl
  messages _ _ _ looked := by
    cases looked
    rfl
  backfill _ _ _ looked := by
    cases looked
    rfl
  batches _ _ _ looked := by
    cases looked
    rfl
  messageLookup _ _ := ⟨_, rfl⟩
  batchLookup _ _ := ⟨_, rfl⟩
  messageAccumulator i inside := absurd inside (Nat.not_lt_zero i)
  batchAccumulator i b inside here := by
    rw [List.mem_singleton.mp (List.mem_of_getElem? here)]
    rfl
  data b member := by
    rw [List.mem_singleton.mp member]
    exact .event rfl rfl

/-- A window of five blocks at most. -/
def narrowConfig (maxBlocksToRead : Nat) : InboxReaderConfig := ⟨0, 1, 2, 500, maxBlocksToRead⟩

theorem farBatch_missing : MissingAt farHistory freshReader.tracker 10 := by
  have absent : freshReader.tracker.db.get .sequencerBatchMeta 0 = none := by decide +kernel
  exact .inr ⟨0, _, rfl, rfl, absent⟩

theorem farBatch_searching {cfg : InboxReaderConfig} (large : 2 ≤ cfg.maxBlocksToRead) :
    Searching cfg farHistory 100 (freshReader, ⟨0, 2⟩) where
  follows := ⟨_, follows_fresh farHistory (.refl _ _) fun i _ => Store.get_empty _ _⟩
  bounded := large
  missing := ⟨10, by decide, by decide, farBatch_missing⟩

theorem farBatch_stretch : Stretch farHistory 100 10 (freshReader, ⟨0, 2⟩) where
  next := by
    refine ⟨⟨by decide, by decide, farBatch_missing⟩, ?_⟩
    rintro b ⟨_, _, ⟨i, d, here, _⟩ | ⟨i, b, here, rfl, _⟩⟩
    · cases here
    · rw [List.mem_singleton.mp (List.mem_of_getElem? here)]
  empty _ member := nomatch member

/-- Windows of five blocks never come to a batch ten blocks on. -/
theorem far_batch_never_found : ¬ ∀ (cfg : InboxReaderConfig) (h : L1History) (height : Nat) (l1 : L1Calls)
    (s : InboxReader × Scan), cfg.Valid → height < 2 ^ 64 → Succeeds h height l1 → Searching cfg h height s →
    ∃ s', Search.Visits (Iterates cfg true l1 height) (Finds h height) s s' ∧ Finds h height s' := by
  intro always
  have valid : (narrowConfig 5).Valid := ⟨by decide, by decide, by decide, by decide⟩
  have found := always (narrowConfig 5) farHistory 100 farL1 (freshReader, ⟨0, 2⟩) valid (by decide)
    (farL1_succeeds 100) (farBatch_searching (by decide))
  rw [finds_iff_near true valid (by decide) (farL1_succeeds 100) (farBatch_searching (by decide))] at found
  exact absurd (farBatch_stretch.near_iff.mp (found _ .start)) (by decide)

/-- Windows of twelve blocks do. -/
theorem far_batch_found : ∃ s', Search.Visits (Iterates (narrowConfig 12) true farL1 100) (Finds farHistory 100)
    (freshReader, ⟨0, 2⟩) s' ∧ Finds farHistory 100 s' :=
  ((scan_finds_next_missing_iff ⟨by decide, by decide, by decide, by decide⟩ (by decide) (farL1_succeeds 100)
    (farBatch_searching (by decide))).2 10 farBatch_stretch).mpr (by decide)

end Samples
end InboxReader
end NitroRs
