import NitroRs.Reader.ScanPosition

/-! Runs of the reader over a fixed L1 history, with restarts. A restart scans from the block
of the last delayed message, whatever batches are missing before it. -/
namespace NitroRs
open KeyValue Outcome TransactionStreamer

/-- A new process finds the tables as they are. -/
theorem RepresentsWith.restart [Externals] {t : InboxTracker} {l : Ledger} (represents : Represents t l) :
    Represents (InboxTracker.restart t.db) l := by
  obtain ⟨tables, counters, read⟩ := restart_spec t.db
  refine ⟨?_, ?_, fun i => ?_, fun i => ?_, fun i => ?_, fun k i => ?_, fun k m hit => ?_⟩
  · rw [counters, represents.delayedCount, Option.getD_some]
  · rw [counters, represents.batchCount, Option.getD_some]
  · rw [tables, represents.entries]
  · rw [tables, represents.noLegacy]
  · rw [tables, represents.metas]
  · rw [tables, represents.index]
  · have same := read (k + 1)
    rw [InboxTracker.metadataBefore, InboxTracker.metadataAt, hit, Option.some_or] at same
    rw [tables]
    exact same.symm

section
variable [Externals] {h : L1History} {t t' : InboxTracker} {p : Progress}

theorem Follows.restart (follows : Follows h t p) : Follows h (InboxTracker.restart t.db) p := by
  obtain ⟨tables, counters, _⟩ := restart_spec t.db
  obtain ⟨l, represents, batches⟩ := follows.ledger
  refine ⟨follows.delayedLe, follows.batchesLe, ⟨⟨?_, fun i => ?_, fun i => ?_⟩, fun i => ?_⟩,
    ⟨l, represents.restart, batches⟩, fun i past => ?_⟩
  · rw [counters, follows.delayed.delayedCount, Option.getD_some]
  · rw [tables, follows.delayed.entries]
  · rw [tables, follows.delayed.noLegacy]
  · rw [tables, follows.delayed.noParentBlocks]
  · rw [tables]
    apply follows.tidy
    rwa [messageCountOrZero, counters, Option.getD_some] at past

/-- A fresh database follows every history. -/
theorem follows_fresh (h : L1History) {db : Db} (fresh : Fresh db) (tidy : NothingPastCount db) :
    Follows h (InboxTracker.restart db) ⟨0, 0⟩ := by
  obtain ⟨tables, counters, _⟩ := restart_spec db
  have represents := initializeTracker_represents fresh
  refine ⟨Nat.zero_le _, Nat.zero_le _, ⟨⟨represents.delayedCount, represents.entries, represents.noLegacy⟩,
    fun i => ?_⟩, ⟨_, represents, rfl⟩, fun i past => ?_⟩
  · rw [tables, fresh.get _ rfl]
    exact Store.get_empty _ _
  · rw [tables]
    apply tidy
    rwa [messageCountOrZero, counters, Option.getD_some] at past

end

namespace InboxReader

/-- The trackers that an iteration leaves when the process stops in it or after it. -/
inductive Leaves [Externals] (l1 : L1Calls) (height : Nat) (scan : Scan) (r : InboxReader) : InboxTracker → Prop
  | checked : Leaves l1 height scan r (final (check l1 height r.tracker))
  | fetched {found : DelayedCheck} {sequencer : SequencerCheck} {added : Nat} {t : InboxTracker}
      (fetches : Fetches l1 height scan r.tracker found sequencer added t) : Leaves l1 height scan r t
  | ready {found : DelayedCheck} {sequencer : SequencerCheck} {added : Nat} {t u : InboxTracker}
      {window : List SequencerInboxBatch} (fetches : Fetches l1 height scan r.tracker found sequencer added t)
      (ready : Readies l1 r.firstMessageBlock (scan.toBlock height) scan t window u) : Leaves l1 height scan r u
  | ended (cfg : InboxReaderConfig) : Leaves l1 height scan r (final (iterate cfg true l1 height scan r)).tracker

/-- What the steps of a run are asked for. -/
structure Conditions where
  iteration : L1Calls → Nat → Nat → Scan → InboxTracker → Prop
  /-- about the scan position that the process stops at and the tracker that it leaves -/
  restart : Nat → InboxTracker → Prop

/-- The reader and its scan position at the start of the loop, in latest mode. -/
inductive ScanRun [Externals] (h : L1History) (conditions : Conditions) : InboxReader → Scan → Prop
  | start {db : Db} {cfg : InboxReaderConfig} {fromBlock : Nat} (fresh : Fresh db) (tidy : NothingPastCount db)
      (next : getNextBlockToRead (new (InboxTracker.restart db) h.firstMessageBlock) = .ok fromBlock) :
      ScanRun h conditions (new (InboxTracker.restart db) h.firstMessageBlock) ⟨fromBlock, cfg.defaultBlocksToRead⟩
  | iterate {r r' : InboxReader} {scan scan' : Scan} {cfg : InboxReaderConfig} {l1 : L1Calls}
      {latest fromBlock height : Nat} (run : ScanRun h conditions r scan)
      (window : latestWindow cfg r.firstMessageBlock latest scan.fromBlock = some (fromBlock, height))
      (answers : Answers h height l1)
      (condition : conditions.iteration l1 r.firstMessageBlock height ⟨fromBlock, scan.blocksToFetch⟩ r.tracker)
      (ran : InboxReader.iterate cfg true l1 height ⟨fromBlock, scan.blocksToFetch⟩ r = .ok scan' r') :
      ScanRun h conditions r' scan'
  | restart {r : InboxReader} {scan : Scan} {cfg : InboxReaderConfig} {t : InboxTracker} {position fromBlock : Nat}
      (run : ScanRun h conditions r scan)
      (stops : (position = scan.fromBlock ∧ t = r.tracker) ∨ ∃ cfg l1 latest height,
        latestWindow cfg r.firstMessageBlock latest scan.fromBlock = some (position, height) ∧
          Answers h height l1 ∧
          conditions.iteration l1 r.firstMessageBlock height ⟨position, scan.blocksToFetch⟩ r.tracker ∧
          Leaves l1 height ⟨position, scan.blocksToFetch⟩ r t)
      (condition : conditions.restart position t)
      (next : getNextBlockToRead (new (InboxTracker.restart t.db) h.firstMessageBlock) = .ok fromBlock) :
      ScanRun h conditions (new (InboxTracker.restart t.db) h.firstMessageBlock) ⟨fromBlock, cfg.defaultBlocksToRead⟩

/-- L1 has no batch from the scan position up to the last delayed message that is stored. -/
def CarefulRestart (h : L1History) (position : Nat) (t : InboxTracker) : Prop :=
  ∀ n d, InboxTracker.getDelayedCount t.db = .ok (n + 1) → h.delayed[n]? = some d →
    ∀ b ∈ h.batches, position ≤ b.parentChainBlockNumber → d.block ≤ b.parentChainBlockNumber

def careful [Externals] (h : L1History) : Conditions := ⟨Careful h, CarefulRestart h⟩

section
variable [Externals] {h : L1History} {t : InboxTracker} {p : Progress} {l1 : L1Calls} {height : Nat} {scan : Scan}
  {r : InboxReader}

omit [Externals] in
theorem latestWindow_le {cfg : InboxReaderConfig} {firstMessageBlock latest fromBlock from₀ : Nat}
    (window : latestWindow cfg firstMessageBlock latest fromBlock = some (from₀, height)) :
    from₀ ≤ fromBlock ∧ from₀ ≤ height := by
  simp only [latestWindow] at window
  split at window
  · contradiction
  · cases window
    exact ⟨Nat.min_le_left _ _, Nat.min_le_right _ _⟩

/-- Wherever the process stops, nothing is missing in front of the iteration's window. -/
theorem Leaves.follows (leaves : Leaves l1 height scan r t) (follows : Follows h r.tracker p)
    (answers : Answers h height l1) (covers : Covers h p scan.fromBlock) (below : scan.fromBlock ≤ height)
    (careful : Careful h l1 r.firstMessageBlock height scan r.tracker) :
    ∃ p', Follows h t p' ∧ Covers h p' scan.fromBlock := by
  cases leaves with
  | checked =>
    obtain ⟨_, _, t', checked, follows', _⟩ := follows.check answers rfl
    have front : h.delayedBefore scan.fromBlock ≤ h.delayedBefore (height + 1) :=
      L1History.delayedBefore_mono (by omega)
    rw [checked]
    exact ⟨_, follows', covers.write front (Nat.le_min.mpr ⟨covers.delayed, front⟩)⟩
  | fetched fetches =>
    obtain ⟨p', follows', read⟩ := fetches.read follows answers covers below
    exact ⟨p', follows', read.covers⟩
  | ready fetches ready =>
    obtain ⟨p', follows', read⟩ := fetches.read follows answers covers below
    exact ⟨p', careful.ready follows answers follows' read ready, read.covers⟩
  | ended cfg =>
    obtain ⟨p', follows', front⟩ := iterate_follows follows answers covers below
    exact ⟨p', follows', (front careful).1⟩

omit [Externals] in
/-- Nothing is emitted before the first message block. -/
theorem covers_first (h : L1History) (p : Progress) : Covers h p h.firstMessageBlock where
  delayed := (Ascending.below_eq_zero h.delayedDeployed).trans_le (Nat.zero_le _)
  batches := (Ascending.below_eq_zero h.batchesDeployed).trans_le (Nat.zero_le _)

/-- The position after a restart: the block of the last delayed message. -/
theorem restart_covers (follows : Follows h t p)
    (earlier : ∀ n d, p.delayed = n + 1 → h.delayed[n]? = some d → h.batchesBefore d.block ≤ p.batches)
    {fromBlock : Nat} (next : getNextBlockToRead (new t h.firstMessageBlock) = .ok fromBlock) :
    Covers h p fromBlock := by
  rw [getNextBlockToRead, new, follows.delayedCount] at next
  by_cases none : p.delayed = 0
  · simp only [none] at next
    cases next
    exact covers_first h p
  · have inside : p.delayed - 1 < h.delayed.length := by
      have := follows.delayedLe
      omega
    have here : h.delayed[p.delayed - 1]? = some h.delayed[p.delayed - 1] := List.getElem?_eq_getElem inside
    generalize h.delayed[p.delayed - 1] = d at here
    have last : (h.delayed.take p.delayed)[p.delayed - 1]? = some d := by
      rw [List.getElem?_take_of_lt (by omega), here]
    have deployed : max d.block h.firstMessageBlock = d.block :=
      Nat.max_eq_left (h.delayedDeployed d (List.mem_of_getElem? here))
    have block : fromBlock = d.block := by
      rw [← deployed]
      simp only [bind, Except.bind, if_neg none, follows.delayed.getDelayedEntry last] at next
      cases next
      rfl
    rw [block]
    refine ⟨?_, earlier (p.delayed - 1) d (by omega) here⟩
    by_contra short
    obtain ⟨d', there, before⟩ := L1History.lt_delayedBefore.mp (not_le.mp short)
    exact absurd (h.delayedOrdered.le here there (by omega)) (not_le.mpr before)

theorem CarefulRestart.covers {position : Nat} (careful : CarefulRestart h position t) (follows : Follows h t p)
    (covers : Covers h p position) {n : Nat} {d : DelayedMessage} (count : p.delayed = n + 1)
    (last : h.delayed[n]? = some d) : h.batchesBefore d.block ≤ p.batches := by
  refine le_trans (le_of_forall_lt fun i inside => ?_) covers.batches
  obtain ⟨b, here, before⟩ := L1History.lt_batchesBefore.mp inside
  refine L1History.lt_batchesBefore.mpr ⟨b, here, ?_⟩
  by_contra past
  have later := careful n d (count ▸ follows.delayedCount) last b (List.mem_of_getElem? here) (not_lt.mp past)
  omega

theorem ScanRun.follows (run : ScanRun h (careful h) r scan) :
    ∃ p, Follows h r.tracker p ∧ Covers h p scan.fromBlock := by
  induction run with
  | start fresh tidy next =>
    have follows := follows_fresh h fresh tidy
    exact ⟨⟨0, 0⟩, follows, restart_covers follows (fun n _ none => absurd none (Nat.succ_ne_zero n).symm) next⟩
  | @iterate r r' scan scan' cfg l1 latest fromBlock height run window answers condition ran ih =>
    obtain ⟨p, follows, covers⟩ := ih
    obtain ⟨back, below⟩ := latestWindow_le window
    have front : Covers h p (Scan.mk fromBlock scan.blocksToFetch).fromBlock := covers.mono back
    obtain ⟨p', follows', moved⟩ := iterate_follows follows answers front below
    rw [ran] at follows'
    exact ⟨p', follows', (moved condition).2 _ _ ran⟩
  | @restart r scan cfg t position fromBlock run stops condition next ih =>
    obtain ⟨p, follows, covers⟩ := ih
    obtain ⟨p', follows', front⟩ : ∃ p', Follows h t p' ∧ Covers h p' position := by
      rcases stops with ⟨rfl, rfl⟩ | ⟨cfg, l1, latest, height, window, answers, careful, leaves⟩
      · exact ⟨p, follows, covers⟩
      · obtain ⟨back, below⟩ := latestWindow_le window
        exact leaves.follows follows answers (covers.mono back) below careful
    have earlier (n : Nat) (d : DelayedMessage) (count : p'.delayed = n + 1) (last : h.delayed[n]? = some d) :
        h.batchesBefore d.block ≤ p'.batches := condition.covers follows' front count last
    exact ⟨p', follows'.restart, restart_covers follows'.restart earlier next⟩

end

section Samples
open Codecs

def freshReader : InboxReader := new (InboxTracker.restart .empty) 0

end Samples
end InboxReader
end NitroRs
