import NitroRs.Reader.ScanSteps

/-! The scan position. It moves on when an iteration reads anything at all, so the delayed
messages and the batches of a window have to be read together. -/
namespace NitroRs
open KeyValue Outcome

/-- The last block of an iteration's window. -/
def Scan.toBlock (scan : Scan) (height : Nat) : Nat :=
  min (saturate (scan.fromBlock + scan.blocksToFetch)) height

namespace InboxReader
section
variable [Externals]

/-- An iteration up to its batch side. -/
structure Fetches (l1 : L1Calls) (height : Nat) (scan : Scan) (t : InboxTracker) (found : DelayedCheck)
    (sequencer : SequencerCheck) (added : Nat) (t' : InboxTracker) : Prop where
  path : ∃ t₁, check l1 height t = .ok (found, sequencer) t₁ ∧
    fetchMissingDelayed l1 found scan.fromBlock (scan.toBlock height) t₁ = .ok added t'
  /-- something is missing -/
  missing : nothingMissing found sequencer = false

omit [Externals] in
/-- The lookup of delayed messages fails in the window. -/
def DelayedFails (l1 : L1Calls) (height : Nat) (scan : Scan) : Prop :=
  ∃ e, l1.delayedBridge.lookupMessagesInRange scan.fromBlock (scan.toBlock height) = .error e

omit [Externals] in
def BatchesFail (l1 : L1Calls) (height : Nat) (scan : Scan) : Prop :=
  ∃ e, l1.sequencerInbox.lookupBatchesInRange scan.fromBlock (scan.toBlock height) = .error e

/-- What keeps the two sides of an iteration together: conditions on its lookups and on the
tracker before it, and the one of `Takes` on a window that is handed over. -/
structure Careful (h : L1History) (l1 : L1Calls) (firstMessageBlock height : Nat) (scan : Scan)
    (t : InboxTracker) : Prop where
  /-- When the delayed lookup fails, the batch lookup fails too, or there are as many delayed
  messages as L1 has up to the end of the window. -/
  delayed : ∀ n, InboxTracker.getDelayedCount t.db = .ok n → DelayedFails l1 height scan →
    BatchesFail l1 height scan ∨ h.delayedBefore (scan.toBlock height + 1) ≤ n
  /-- When messages of the window are read and its batches are not, because that lookup fails
  or no batch is missing, then the batches were there before, and they read none of the messages. -/
  batches : ∀ n k, InboxTracker.getDelayedCount t.db = .ok n → t.db.count .sequencerBatchCount = some k →
    n < h.delayedBefore (height + 1) → ¬ DelayedFails l1 height scan →
    h.delayedBefore scan.fromBlock < h.delayedBefore (scan.toBlock height + 1) →
    BatchesFail l1 height scan ∨ h.batchesBefore (height + 1) ≤ k →
    h.batchesBefore (scan.toBlock height + 1) ≤ k ∧
      ∀ b ∈ h.batchesIn scan.fromBlock (scan.toBlock height), b.afterDelayedCount ≤ h.delayedBefore scan.fromBlock
  /-- A window that counts as read, or that delayed messages were read with, is taken. -/
  taken : ∀ found sequencer added t' first rest u, Fetches l1 height scan t found sequencer added t' →
    found.reorging = false → sequencer.reorging = false → sequencer.missing = true →
    Readies l1 firstMessageBlock (scan.toBlock height) scan t' (first :: rest) u →
    isOk (InboxTracker.addSequencerBatchesAndStream (first :: rest) u) = true ∨ 0 < added → Takes u (first :: rest)

variable {h : L1History} {p : Progress} {cfg : InboxReaderConfig} {latestMode : Bool} {l1 : L1Calls}
  {height : Nat} {scan scan' : Scan} {r r' : InboxReader} {found : DelayedCheck} {sequencer : SequencerCheck}
  {t t₁ : InboxTracker}

/-- The end of an iteration that fetches. -/
theorem iterate_eq_ok (checked : check l1 height r.tracker = .ok (found, sequencer) t)
    (missing : nothingMissing found sequencer = false)
    (ran : iterate cfg latestMode l1 height scan r = .ok scan' r') : ∃ added fetched t',
      fetchWindow cfg l1 r.firstMessageBlock (scan.toBlock height) found sequencer scan t = .ok (added, fetched) t' ∧
      r'.tracker = t' ∧ nextScan cfg r.firstMessageBlock (scan.toBlock height)
        (found.reorging || sequencer.reorging) (added + fetched.batchesLen) fetched.scan = .ok scan' := by
  have first : withTracker (onTracker (check l1 height)) r =
      .ok (found, sequencer) { r with tracker := t } := zoom_ok (onTracker_ok checked)
  rw [iterate, bind_read, bind_ok first] at ran
  dsimp only at ran
  rw [missing] at ran
  simp only [Bool.false_eq_true, if_false] at ran
  obtain ⟨⟨added, fetched⟩, r₁, second, ran⟩ := bind_eq_ok.mp ran
  cases window : fetchWindow cfg l1 r.firstMessageBlock
    (min (saturate (scan.fromBlock + scan.blocksToFetch)) height) found sequencer scan t with
  | error e t' =>
    have failed : withTracker (fetchWindow cfg l1 r.firstMessageBlock
        (min (saturate (scan.fromBlock + scan.blocksToFetch)) height) found sequencer scan)
        { r with tracker := t } = .error e { r with tracker := t' } := zoom_error window
    cases second.symm.trans failed
  | ok result t' =>
    have done : withTracker (fetchWindow cfg l1 r.firstMessageBlock
        (min (saturate (scan.fromBlock + scan.blocksToFetch)) height) found sequencer scan)
        { r with tracker := t } = .ok result { r with tracker := t' } := zoom_ok window
    cases second.symm.trans done
    rw [bind_update] at ran
    obtain ⟨moved, rfl⟩ := lift_eq_ok.mp ran
    exact ⟨added, fetched, t', window, rfl, moved⟩

omit [Externals] in
/-- The position stays or goes back, unless something was read and no reorg was seen. -/
theorem nextScan_fromBlock {firstMessageBlock toBlock haveMessages : Nat} {reorging : Bool}
    (moved : nextScan cfg firstMessageBlock toBlock reorging haveMessages scan = .ok scan') :
    scan'.fromBlock ≤ scan.fromBlock ∨
      (reorging = false ∧ 0 < haveMessages ∧ scan'.fromBlock ≤ toBlock + 1) := by
  cases reorging with
  | true =>
    left
    simp only [nextScan, if_true, getPrevBlockForReorg] at moved
    split at moved
    · contradiction
    · rename_i older
      cases moved
      exact Nat.max_le.mpr ⟨Nat.sub_le _ _, by omega⟩
  | false =>
    simp only [nextScan, Bool.false_eq_true, if_false] at moved
    split at moved
    · rename_i some
      cases moved
      exact .inr ⟨rfl, some, Nat.min_le_left _ _⟩
    · cases moved
      exact .inl le_rfl

omit [Externals] in
/-- Batches of a window that read none of its messages outlast a write of them. -/
theorem batchesBefore_le_of_reads {toBlock : Nat} (reads : ∀ b ∈ h.batchesIn scan.fromBlock toBlock,
    b.afterDelayedCount ≤ h.delayedBefore scan.fromBlock) :
    h.batchesBefore (toBlock + 1) ≤ h.readUpTo (h.delayedBefore scan.fromBlock) := by
  refine le_of_forall_lt fun i inside => ?_
  obtain ⟨b, here, within⟩ := L1History.lt_batchesBefore.mp inside
  have member := List.mem_of_getElem? here
  refine L1History.lt_readUpTo.mpr ⟨b, here, ?_⟩
  by_cases later : scan.fromBlock ≤ b.parentChainBlockNumber
  · exact reads b (List.mem_filter.mpr ⟨member, decide_eq_true ⟨later, within⟩⟩)
  · exact (h.readsEmitted b member).trans (L1History.delayedBefore_mono (by omega))

/-- The progress after the delayed side of an iteration. -/
structure Read (h : L1History) (l1 : L1Calls) (height : Nat) (scan : Scan) (p : Progress) (found : DelayedCheck)
    (sequencer : SequencerCheck) (added : Nat) (p' : Progress) : Prop where
  covers : Covers h p' scan.fromBlock
  missing : sequencer.missing = decide
    (min p.batches (h.readUpTo (h.delayedBefore (height + 1))) < h.batchesBefore (height + 1))
  /-- what was there is still there -/
  stays : h.delayedBefore (scan.toBlock height + 1) ≤ p.delayed → h.delayedBefore (scan.toBlock height + 1) ≤ p'.delayed
  reach : DelayedFails l1 height scan ∨ h.delayedBefore (scan.toBlock height + 1) ≤ p'.delayed
  written : 0 < added → ¬ DelayedFails l1 height scan ∧
    h.delayedBefore scan.fromBlock < h.delayedBefore (scan.toBlock height + 1) ∧
    (found.reorging = false → p.delayed < h.delayedBefore (height + 1)) ∧
    p'.batches = min (min p.batches (h.readUpTo (h.delayedBefore (height + 1))))
      (h.readUpTo (h.delayedBefore scan.fromBlock))

/-- An iteration that finds something missing has a delayed side. -/
theorem fetchMissingDelayed_read (follows : Follows h t p) (answers : Answers h height l1)
    (covers : Covers h p scan.fromBlock) (below : scan.fromBlock ≤ height)
    (checked : check l1 height t = .ok (found, sequencer) t₁) : ∃ added t₂ p₂,
      fetchMissingDelayed l1 found scan.fromBlock (scan.toBlock height) t₁ = .ok added t₂ ∧ Follows h t₂ p₂ ∧
        Read h l1 height scan p found sequencer added p₂ := by
  obtain ⟨found', sequencer', t', checked', follows₁, behind, behind'⟩ := follows.check answers rfl
  cases checked.symm.trans checked'
  have front : h.delayedBefore scan.fromBlock ≤ h.delayedBefore (height + 1) :=
    L1History.delayedBefore_mono (by omega)
  have inside : h.delayedBefore (scan.toBlock height + 1) ≤ h.delayedBefore (height + 1) :=
    L1History.delayedBefore_mono (Nat.succ_le_succ (Nat.min_le_right _ _))
  have covers₁ := covers.write front (Nat.le_min.mpr ⟨covers.delayed, front⟩)
  have present : (found.missing || found.reorging) = false →
      h.delayedBefore (scan.toBlock height + 1) ≤ min p.delayed (h.delayedBefore (height + 1)) := by
    intro none
    rw [Bool.or_eq_false_iff, behind, decide_eq_false_iff_not, not_lt] at none
    exact inside.trans (Nat.le_min.mpr ⟨none.1, le_rfl⟩)
  obtain ⟨added, t₂, p₂, fetched, follows₂, ⟨rfl, rfl, reach⟩ | ⟨some, made, answered, more, rfl⟩⟩ :=
    fetchMissingDelayed_follows follows₁ answers found covers₁ present
  · exact ⟨0, t₂, _, fetched, follows₂, covers₁, behind', fun enough => Nat.le_min.mpr ⟨enough, inside⟩, reach,
      fun some => absurd some (Nat.lt_irrefl 0)⟩
  · refine ⟨added, t₂, _, fetched, follows₂, covers₁.write le_rfl more.le, behind', fun _ => le_rfl, .inr le_rfl,
      fun _ => ⟨answered, more, fun quiet => ?_, rfl⟩⟩
    rw [quiet, Bool.or_false, behind, decide_eq_true_eq] at made
    exact made

/-- The delayed side, from the progress before the iteration. -/
theorem Fetches.read {added : Nat} {t' : InboxTracker} (fetches : Fetches l1 height scan t found sequencer added t')
    (follows : Follows h t p) (answers : Answers h height l1) (covers : Covers h p scan.fromBlock)
    (below : scan.fromBlock ≤ height) :
    ∃ p', Follows h t' p' ∧ Read h l1 height scan p found sequencer added p' := by
  obtain ⟨t₁, checked, fetched⟩ := fetches.path
  obtain ⟨_, _, p', fetched', follows', read⟩ := fetchMissingDelayed_read follows answers covers below checked
  cases fetched.symm.trans fetched'
  exact ⟨p', follows', read⟩

section Side
variable {firstMessageBlock added : Nat} {t₂ u : InboxTracker} {p₂ : Progress} {window : List SequencerInboxBatch}

/-- Where batches are looked at, the messages of the window are stored. -/
theorem Careful.reads (careful : Careful h l1 firstMessageBlock height scan t) (follows : Follows h t p)
    (read : Read h l1 height scan p found sequencer added p₂) (looked : ¬ BatchesFail l1 height scan) :
    h.delayedBefore (scan.toBlock height + 1) ≤ p₂.delayed := by
  rcases read.reach with failed | reach
  · rcases careful.delayed _ follows.delayedCount failed with failed' | enough
    · exact absurd failed' looked
    · exact read.stays enough
  · exact reach

omit [Externals] in
theorem Readies.looked [Externals] (ready : Readies l1 firstMessageBlock (scan.toBlock height) scan t₂ window u) :
    ¬ BatchesFail l1 height scan := by
  rintro ⟨e, failed⟩
  obtain ⟨batches, _, _, _, looked, _⟩ := ready.path
  cases failed.symm.trans looked

/-- So a window that is ready has not been backfilled. -/
theorem Careful.ready (careful : Careful h l1 firstMessageBlock height scan t) (follows : Follows h t p)
    (answers : Answers h height l1) (follows₂ : Follows h t₂ p₂)
    (read : Read h l1 height scan p found sequencer added p₂)
    (ready : Readies l1 firstMessageBlock (scan.toBlock height) scan t₂ window u) : Follows h u p₂ := by
  obtain ⟨p', follows', enough, _⟩ := ready.follows follows₂ answers
  rwa [enough (careful.reads follows read ready.looked)] at follows'

/-- Messages that were read without batches have left the batches of the window there. -/
theorem Careful.keeps (careful : Careful h l1 firstMessageBlock height scan t) (follows : Follows h t p)
    (read : Read h l1 height scan p found sequencer added p₂) (some : 0 < added) (quiet : found.reorging = false)
    (unread : BatchesFail l1 height scan ∨ sequencer.missing = false) :
    Covers h p₂ (scan.toBlock height + 1) := by
  obtain ⟨answered, more, lacking, batches⟩ := read.written some
  have unread' : BatchesFail l1 height scan ∨ h.batchesBefore (height + 1) ≤ p.batches := by
    refine unread.imp_right fun complete => ?_
    rw [read.missing, decide_eq_false_iff_not, not_lt] at complete
    exact complete.trans (Nat.min_le_left _ _)
  obtain ⟨stored, reads⟩ := careful.batches _ _ follows.delayedCount follows.batchCount (lacking quiet) answered more
    unread'
  refine ⟨read.reach.resolve_left answered, ?_⟩
  rw [batches]
  refine Nat.le_min.mpr ⟨Nat.le_min.mpr ⟨stored, ?_⟩, batchesBefore_le_of_reads reads⟩
  exact (L1History.batchesBefore_mono (Nat.succ_le_succ (Nat.min_le_right _ _))).trans
    (h.batchesBefore_le_readUpTo _)

end Side

/-- The fetches of a careful iteration leave no gap in front of the window, and none in it
when they read something. -/
theorem fetchWindow_follows (cfg : InboxReaderConfig) (firstMessageBlock : Nat) (follows : Follows h t p)
    (answers : Answers h height l1) (covers : Covers h p scan.fromBlock) (below : scan.fromBlock ≤ height)
    (checked : check l1 height t = .ok (found, sequencer) t₁) (missing : nothingMissing found sequencer = false) :
    ∃ p', Follows h (final (fetchWindow cfg l1 firstMessageBlock (scan.toBlock height) found sequencer scan t₁)) p' ∧
      (Careful h l1 firstMessageBlock height scan t → Covers h p' scan.fromBlock ∧
        ∀ added fetched t', fetchWindow cfg l1 firstMessageBlock (scan.toBlock height) found sequencer scan t₁ =
          .ok (added, fetched) t' → fetched.scan = scan ∧
            (found.reorging = false → sequencer.reorging = false → 0 < added + fetched.batchesLen →
              Covers h p' (scan.toBlock height + 1))) := by
  obtain ⟨added, t₂, p₂, fetched, follows₂, read⟩ :=
    fetchMissingDelayed_read follows answers covers below checked
  have path : Fetches l1 height scan t found sequencer added t₂ := ⟨⟨t₁, checked, fetched⟩, missing⟩
  rw [fetchWindow, bind_ok fetched, final_bind_pure, fetchMissingBatches]
  cases made : sequencer.missing || sequencer.reorging with
  | false =>
    rw [if_neg Bool.false_ne_true]
    refine ⟨p₂, follows₂, fun careful => ⟨read.covers, fun added' fetched' t' ran => ?_⟩⟩
    cases ran
    rw [Bool.or_eq_false_iff] at made
    refine ⟨rfl, fun quiet _ some => ?_⟩
    have some : 0 < added := some
    exact careful.keeps follows read some quiet (.inr made.1)
  | true =>
    rw [if_pos rfl]
    obtain ⟨p', follows', front, side⟩ := fetchBatches_follows follows₂ answers cfg firstMessageBlock scan
      (scan.toBlock height) sequencer.seenCount
    refine ⟨p', follows', fun careful => ?_⟩
    have has (window : List SequencerInboxBatch) (u : InboxTracker)
        (ready : Readies l1 firstMessageBlock (scan.toBlock height) scan t₂ window u) :
        HasBatches h u scan.fromBlock :=
      (careful.ready follows answers follows₂ read ready).hasBatches_iff.mpr read.covers.batches
    refine ⟨front read.covers has, fun added' fetched' t' ran => ?_⟩
    obtain ⟨outcome, t₃, ran, same⟩ := bind_eq_ok.mp ran
    cases same
    cases side _ _ ran read.covers.delayed has with
    | idle nothing =>
      refine ⟨rfl, fun quiet _ some => ?_⟩
      have some : 0 < added := some
      rcases nothing with failed | empty
      · exact careful.keeps follows read some quiet (.inl failed)
      · exact ⟨read.reach.resolve_left (read.written some).1, empty.trans read.covers.batches⟩
    | stored ready follows₃ enough covers₃ reached =>
      refine ⟨rfl, fun _ _ _ => ⟨?_, reached⟩⟩
      have reads := careful.reads follows read ready.looked
      rwa [enough reads]
    | @handed u p₃ _ len seen first rest ready follows₃ enough covers₃ more accepted taken refused =>
      refine ⟨rfl, fun quiet quiet' some => ?_⟩
      have some : 0 < added + len := some
      have missing' : sequencer.missing = true := by rwa [quiet', Bool.or_false] at made
      have counted : isOk (InboxTracker.addSequencerBatchesAndStream (first :: rest) u) = true ∨ 0 < added := by
        rcases Nat.eq_zero_or_pos added with none | some'
        · exact .inl (accepted.mp (by omega))
        · exact .inr some'
      have reads := careful.reads follows read ready.looked
      rw [taken (careful.taken _ _ _ _ _ _ _ path quiet quiet' missing' ready counted), enough reads]
      exact ⟨reads, le_rfl⟩

/-- A careful iteration drops nothing in front of its window, and passes nothing that is not stored. -/
theorem iterate_follows (follows : Follows h r.tracker p) (answers : Answers h height l1)
    (covers : Covers h p scan.fromBlock) (below : scan.fromBlock ≤ height) :
    ∃ p', Follows h (final (iterate cfg latestMode l1 height scan r)).tracker p' ∧
      (Careful h l1 r.firstMessageBlock height scan r.tracker → Covers h p' scan.fromBlock ∧
        ∀ scan' r', iterate cfg latestMode l1 height scan r = .ok scan' r' → Covers h p' scan'.fromBlock) := by
  obtain ⟨found, sequencer, t₁, checked, follows₁, behind, behind'⟩ := follows.check answers rfl
  cases missing : nothingMissing found sequencer with
  | true =>
    have first : withTracker (onTracker (check l1 height)) r =
        .ok (found, sequencer) { r with tracker := t₁ } := zoom_ok (onTracker_ok checked)
    rw [iterate, bind_read, bind_ok first]
    dsimp only
    rw [missing, if_pos rfl, bind_update]
    simp only [nothingMissing, behind, behind', Bool.and_eq_true, Bool.not_eq_true', decide_eq_false_iff_not,
      not_lt] at missing
    have whole : Covers h (p.write h (h.delayedBefore (height + 1)) (min p.delayed (h.delayedBefore (height + 1))))
        (height + 1) := ⟨Nat.le_min.mpr ⟨missing.1.1.1, le_rfl⟩, missing.1.2⟩
    refine ⟨_, follows₁, fun _ => ⟨whole.mono (by omega), fun scan' r' ran => ?_⟩⟩
    cases ran
    exact whole.mono (Nat.min_le_left _ _)
  | false =>
    obtain ⟨p', follows', window⟩ := fetchWindow_follows cfg r.firstMessageBlock
      follows answers covers below checked missing
    refine ⟨p', ?_, fun careful => ⟨(window careful).1, fun scan' r' ran => ?_⟩⟩
    · rw [iterate_final checked missing]
      exact follows'
    · obtain ⟨added, fetched, t', fetches, _, moved⟩ := iterate_eq_ok checked missing ran
      obtain ⟨front, reached⟩ := window careful
      obtain ⟨same, reached⟩ := reached added fetched t' fetches
      rw [same] at moved
      rcases nextScan_fromBlock moved with back | ⟨quiet, some, on⟩
      · exact front.mono back
      · rw [Bool.or_eq_false_iff] at quiet
        exact (reached quiet.1 quiet.2 some).mono on

end
end InboxReader
end NitroRs
