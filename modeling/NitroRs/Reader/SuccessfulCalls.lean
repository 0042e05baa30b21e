import NitroRs.Reader.BatchFailures

/-! Iterations whose calls to L1 all succeed, over a tracker that holds a part of the history.
Nothing reorgs, and a window without anything missing is read again or left alone. -/
namespace NitroRs
open KeyValue Outcome

section
variable [Externals]

/-- The calls at a height succeed, and L1 answers with the history. -/
structure Succeeds (h : L1History) (height : Nat) (l1 : L1Calls) : Prop extends InboxReader.Answers h height l1 where
  messageLookup : ∀ fromBlock toBlock,
    ∃ messages, l1.delayedBridge.lookupMessagesInRange fromBlock toBlock = .ok messages
  batchLookup : ∀ fromBlock toBlock, ∃ batches, l1.sequencerInbox.lookupBatchesInRange fromBlock toBlock = .ok batches
  messageAccumulator : ∀ i, i < h.delayedBefore (height + 1) →
    l1.delayedBridge.getAccumulator i height = .ok (accumulator (h.delayed.take (i + 1)))
  batchAccumulator : ∀ i b, i < h.batchesBefore (height + 1) → h.batches[i]? = some b →
    l1.sequencerInbox.getAccumulator i height = .ok b.afterInboxAcc
  data : ∀ b ∈ h.batches, Fetchable l1.sequencerInbox b

variable {h : L1History} {t t' : InboxTracker} {p : Progress} {l : Ledger} {l1 : L1Calls} {height : Nat}

namespace InboxReader

/-- The sequencer check compares the last batch that both sides count. -/
theorem checkSequencer_reorging (represents : Represents t l) {inbox : SequencerInbox} {seen : Nat}
    (counted : inbox.getBatchCount height = .ok seen) {found : SequencerCheck}
    (checked : checkSequencer inbox height t = .ok found t')
    (agrees : ∀ i m, i < seen → l.batches[i]? = some m → inbox.getAccumulator i height = .ok m.accumulator) :
    found.reorging = false := by
  rw [checkSequencer, counted] at checked
  dsimp only at checked
  rw [bind_ok represents.getBatchCount] at checked
  split at checked
  · rename_i some
    obtain ⟨acc, t₁, read, same⟩ := bind_eq_ok.mp checked
    cases same
    rcases represents.getBatchMetadata (min l.batches.length seen - 1) with
      ⟨m, t₂, here, found, _⟩ | ⟨missing, _⟩
    · have read' : InboxTracker.getBatchAcc (min l.batches.length seen - 1) t = .ok m.accumulator t₂ := bind_ok found
      cases read.symm.trans read'
      rw [agrees _ m (by omega) here]
      exact decide_eq_false fun differs => differs rfl
    · rw [List.getElem?_eq_none_iff] at missing
      omega
  · cases checked
    rfl

end InboxReader

namespace Follows
open InboxReader

/-- Neither side reorgs: the tracker agrees with L1 as far as it goes. -/
theorem check_quiet (follows : Follows h t p) (succeeds : Succeeds h height l1) {found : DelayedCheck}
    {sequencer : SequencerCheck} (checked : InboxReader.check l1 height t = .ok (found, sequencer) t') :
    found.reorging = false ∧ sequencer.reorging = false := by
  obtain ⟨l, represents, batches⟩ := follows.ledger
  have counted : (l1.delayedBridge.getMessageCount height).toOption.getD 0 = h.delayedBefore (height + 1) := by
    rw [succeeds.messageCount]
    rfl
  have length : (h.delayed.take p.delayed).length = p.delayed := List.length_take_of_le follows.delayedLe
  constructor
  · rw [(check_holds follows.delayed counted checked).2, length]
    rw [decide_eq_false_iff_not]
    rintro ⟨some, differs⟩
    apply differs
    rw [succeeds.messageAccumulator _ (by omega), Nat.sub_add_cancel some, List.take_take,
      Nat.min_eq_left (Nat.min_le_left _ _)]
    rfl
  · obtain ⟨found', t₁, first, rest⟩ := bind_eq_ok.mp checked
    obtain ⟨sequencer', t₂, second, same⟩ := bind_eq_ok.mp rest
    cases same
    obtain ⟨represents₁, _⟩ := checkDelayed_represents represents (follows.word represents) counted first
    refine checkSequencer_reorging represents₁ succeeds.batchCount second fun i m inside here => ?_
    have stored : l.batches[i]? = some m := by
      obtain ⟨later, whole⟩ : l.batchesUpTo (h.delayedBefore (height + 1)) <+: l.batches := List.takeWhile_prefix _
      rw [← whole]
      exact (List.getElem?_append_left (List.getElem?_eq_some_iff.mp here).1).trans here
    have entry := congrArg (fun bs => bs[i]?) batches
    simp only [List.getElem?_map, stored] at entry
    obtain ⟨b, there, recorded⟩ := Option.map_eq_some_iff.mp entry.symm
    have listed : h.batches[i]? = some b := by
      rw [List.getElem?_take] at there
      split at there
      · exact there
      · contradiction
    rw [succeeds.batchAccumulator i b inside listed]
    exact congrArg Except.ok (congrArg Prod.fst recorded)

/-- The batches of a lookup have their data. -/
theorem fetchData (succeeds : Succeeds h height l1) {lo hi : Nat} {batches : List SequencerInboxBatch}
    (looked : l1.sequencerInbox.lookupBatchesInRange lo hi = .ok batches) :
    ∃ good, InboxReader.fetchData l1.sequencerInbox batches = .ok good := by
  refine ⟨_, (fetchData_eq_ok_iff _).mpr ⟨fun b member => ?_, rfl⟩⟩
  have emitted := (succeeds.batches _ _ _ looked).mem_iff.mp member
  exact succeeds.data b (List.mem_filter.mp emitted).1

/-- The batch side ends well. -/
theorem fetchBatches (follows : Follows h t p) (succeeds : Succeeds h height l1) (cfg : InboxReaderConfig)
    (firstMessageBlock : Nat) (scan : Scan) (toBlock seenCount : Nat) :
    ∃ fetched t', InboxReader.fetchBatches cfg l1 firstMessageBlock scan toBlock seenCount t = .ok fetched t' := by
  obtain ⟨batches, looked⟩ := succeeds.batchLookup scan.fromBlock toBlock
  have found : (l1.sequencerInbox.lookupBatchesInRange scan.fromBlock toBlock).toOption.getD [] = batches := by
    rw [looked]
    rfl
  rw [InboxReader.fetchBatches, found]
  cases batches with
  | nil => exact ⟨_, _, rfl⟩
  | cons b later =>
    obtain ⟨good, data⟩ := Follows.fetchData succeeds looked
    obtain ⟨t₁, backfilled, side⟩ :=
      follows.backfill succeeds.backfill firstMessageBlock scan.fromBlock toBlock good
    obtain ⟨p₁, follows₁⟩ : ∃ p₁, Follows h t₁ p₁ := by
      rcases side with rfl | ⟨_, _, _, _, follows₁⟩
      · exact ⟨p, follows⟩
      · exact ⟨_, follows₁⟩
    obtain ⟨u, expected, _⟩ := follows₁.expectedBatch
    dsimp only
    rw [data, bind_lift_ok, bind_ok backfilled]
    cases window : filterFrom p₁.batches (sortBatches good) with
    | nil =>
      obtain ⟨fetched, passed⟩ : ∃ fetched,
          ingestBatches cfg firstMessageBlock scan seenCount good t₁ = .ok fetched u := by
        rw [ingestBatches, bind_ok expected, window]
        dsimp only
        split
        · exact ⟨_, rfl⟩
        · exact ⟨_, rfl⟩
      exact ⟨_, _, onTracker_ok passed⟩
    | cons first rest =>
      obtain ⟨len, seen, ingested, _⟩ := ingestBatches_cons cfg firstMessageBlock seenCount scan expected window
      exact ⟨_, _, onTracker_ok ingested⟩

/-- Batches are found only where the range has some. -/
theorem looked_some {lo hi : Nat} {batches : List SequencerInboxBatch} (answers : Answers h height l1)
    (looked : l1.sequencerInbox.lookupBatchesInRange lo hi = .ok batches) (some : batches ≠ []) :
    h.batchesBefore lo < h.batchesBefore (hi + 1) := by
  have length := (answers.batches _ _ _ looked).length_eq
  rw [L1History.batchesIn_length] at length
  have := List.length_pos_iff.mpr some
  omega

/-- A batch that is found stands in the history. -/
theorem mem_looked {lo hi : Nat} {batches : List SequencerInboxBatch} (answers : Answers h height l1)
    (looked : l1.sequencerInbox.lookupBatchesInRange lo hi = .ok batches) {b : SequencerInboxBatch}
    (member : b ∈ batches) : ∃ i, i < h.batchesBefore (hi + 1) ∧ h.batches[i]? = some b := by
  have emitted := (answers.batches _ _ _ looked).mem_iff.mp member
  rw [L1History.batchesIn_eq] at emitted
  obtain ⟨i, here⟩ := List.mem_iff_getElem?.mp emitted
  rw [List.getElem?_drop, List.getElem?_take] at here
  split at here
  · exact ⟨_, ‹_›, here⟩
  · contradiction

/-- Batches that are stored are looked at, and passed over. -/
theorem fetchBatches_stored (follows : Follows h t p) (succeeds : Succeeds h height l1) (cfg : InboxReaderConfig)
    (firstMessageBlock : Nat) (scan : Scan) {toBlock : Nat} (seenCount : Nat)
    (stored : h.batchesBefore (toBlock + 1) ≤ max p.batches (h.batchesBefore scan.fromBlock)) :
    ∃ t', InboxReader.fetchBatches cfg l1 firstMessageBlock scan toBlock seenCount t = .ok ⟨scan, 0, seenCount⟩ t' ∧
      Follows h t' p := by
  obtain ⟨l, represents, recorded⟩ := follows.ledger
  obtain ⟨batches, looked⟩ := succeeds.batchLookup scan.fromBlock toBlock
  by_cases empty : batches = []
  · refine ⟨t, ?_, follows⟩
    rw [InboxReader.fetchBatches, looked, empty]
    rfl
  · have inside : h.batchesBefore (toBlock + 1) ≤ p.batches := by
      have some := looked_some succeeds.toAnswers looked empty
      omega
    obtain ⟨good, data⟩ := Follows.fetchData succeeds looked
    have enough (b : SequencerInboxBatch) (member : b ∈ batches) : b.afterDelayedCount ≤ l.delayed.length := by
      obtain ⟨i, reached, here⟩ := mem_looked succeeds.toAnswers looked member
      have entry := congrArg (fun bs => bs[i]?) recorded
      simp only [List.getElem?_map, List.getElem?_take, if_pos (reached.trans_le inside), here] at entry
      obtain ⟨m, there, same⟩ := Option.map_eq_some_iff.mp entry
      have reads : m.delayedMessageCount = b.afterDelayedCount := congrArg Prod.snd same
      rw [← reads]
      exact l.bounded m (List.mem_of_getElem? there)
    obtain ⟨u, expected, follows'⟩ := follows.expectedBatch
    obtain ⟨g, member, number⟩ := exists_good succeeds.toAnswers looked empty data
    have past : (h.batches.take (h.batchesBefore (toBlock + 1))).drop p.batches = [] := by
      apply List.drop_eq_nil_of_le
      rw [List.length_take_of_le L1History.batchesBefore_le]
      exact inside
    have bare := looked_bare succeeds.toAnswers looked data p.batches
    rw [past, List.map_nil, ite_self, List.map_eq_nil_iff] at bare
    refine ⟨u, ?_, follows'⟩
    rw [fetchBatches_eq represents cfg firstMessageBlock seenCount looked empty data enough]
    exact onTracker_ok (ingestBatches_nil cfg firstMessageBlock seenCount scan expected bare
      ⟨g, member, number.le.trans inside⟩)

/-- Behind messages that are all there, the batch side goes up to the end of the window at most. -/
theorem fetchBatches_reread (follows : Follows h t p) (succeeds : Succeeds h height l1) (cfg : InboxReaderConfig)
    (firstMessageBlock : Nat) (scan : Scan) {toBlock : Nat} (seenCount : Nat)
    (start : h.delayedBefore scan.fromBlock ≤ p.delayed) (read : h.delayedBefore (toBlock + 1) ≤ p.delayed)
    (front : h.batchesBefore scan.fromBlock < h.batchesBefore (toBlock + 1) →
      h.batchesBefore scan.fromBlock ≤ p.batches) :
    ∃ fetched t' p', InboxReader.fetchBatches cfg l1 firstMessageBlock scan toBlock seenCount t = .ok fetched t' ∧
      Follows h t' p' ∧ p'.delayed = p.delayed ∧ p'.batches ≤ max p.batches (h.batchesBefore (toBlock + 1)) := by
  obtain ⟨fetched, t', ran⟩ := follows.fetchBatches succeeds cfg firstMessageBlock scan toBlock seenCount
  obtain ⟨p', follows', _, side⟩ := fetchBatches_follows follows succeeds.toAnswers cfg firstMessageBlock scan toBlock
    seenCount
  rw [ran, final_ok] at follows'
  have has (window : List SequencerInboxBatch) (u : InboxTracker)
      (ready : Readies l1 firstMessageBlock toBlock scan t window u) : HasBatches h u scan.fromBlock := by
    obtain ⟨p₁, follows₁, enough, _⟩ := ready.follows follows succeeds.toAnswers
    obtain ⟨batches, _, _, _, looked, nonempty, _⟩ := ready.path
    rw [enough read] at follows₁
    exact follows₁.hasBatches_iff.mpr (front (looked_some succeeds.toAnswers looked nonempty))
  refine ⟨fetched, t', p', ran, follows', ?_⟩
  cases side _ _ ran start has with
  | idle nothing => exact ⟨rfl, Nat.le_max_left _ _⟩
  | stored ready follows₁ enough covers reached =>
    rw [enough read]
    exact ⟨rfl, Nat.le_max_left _ _⟩
  | @handed u p₁ _ _ _ first rest ready follows₁ enough covers more accepted taken refused =>
    by_cases takes : Takes u (first :: rest)
    · rw [taken takes, enough read]
      exact ⟨rfl, Nat.le_max_right _ _⟩
    · rw [refused takes, enough read]
      exact ⟨rfl, Nat.le_max_left _ _⟩

end Follows

namespace InboxReader
variable {cfg : InboxReaderConfig} {scan : Scan} {r : InboxReader} {found : DelayedCheck} {sequencer : SequencerCheck}

theorem iterate_ok (latestMode : Bool) {added : Nat} {fetched : Fetched}
    (checked : check l1 height r.tracker = .ok (found, sequencer) t)
    (missing : nothingMissing found sequencer = false)
    (window : fetchWindow cfg l1 r.firstMessageBlock (scan.toBlock height) found sequencer scan t =
      .ok (added, fetched) t')
    {scan' : Scan} (moved : nextScan cfg r.firstMessageBlock (scan.toBlock height)
      (found.reorging || sequencer.reorging) (added + fetched.batchesLen) fetched.scan = .ok scan') :
    ∃ r', iterate cfg latestMode l1 height scan r = .ok scan' r' ∧ r'.tracker = t' := by
  have first : withTracker (onTracker (check l1 height)) r =
      .ok (found, sequencer) { r with tracker := t } := zoom_ok (onTracker_ok checked)
  have second : withTracker (fetchWindow cfg l1 r.firstMessageBlock
      (min (saturate (scan.fromBlock + scan.blocksToFetch)) height) found sequencer scan)
      { r with tracker := t } = .ok (added, fetched) { r with tracker := t' } := zoom_ok window
  rw [Scan.toBlock] at moved
  rw [iterate, bind_read, bind_ok first]
  dsimp only
  rw [missing]
  simp only [Bool.false_eq_true, if_false]
  rw [bind_ok second, bind_update, moved]
  exact ⟨_, rfl, rfl⟩

end InboxReader

/-- What the checks leave of a progress: the messages and the batches up to L1's count. -/
def Progress.checked (h : L1History) (p : Progress) (height : Nat) : Progress :=
  p.write h (h.delayedBefore (height + 1)) (min p.delayed (h.delayedBefore (height + 1)))

/-- The blocks of a range hold nothing that is missing. -/
structure Progress.Clean (h : L1History) (p : Progress) (fromBlock toBlock : Nat) : Prop where
  delayed : h.delayedBefore (toBlock + 1) ≤ max p.delayed (h.delayedBefore fromBlock)
  batches : h.batchesBefore (toBlock + 1) ≤ max p.batches (h.batchesBefore fromBlock)

/-- Something up to a block is missing. -/
def Progress.Short (h : L1History) (p : Progress) (height : Nat) : Prop :=
  p.delayed < h.delayedBefore (height + 1) ∨ p.batches < h.batchesBefore (height + 1)

/-- Stored messages that the window reads again, while others are missing. -/
def Progress.Rereads (h : L1History) (p : Progress) (height : Nat) (scan : Scan) : Prop :=
  p.delayed < h.delayedBefore (height + 1) ∧
    h.delayedBefore scan.fromBlock < h.delayedBefore (scan.toBlock height + 1)

namespace InboxReader
variable {scan : Scan} {r : InboxReader}

omit [Externals] in
/-- The checks do not change what is missing up to the height. -/
theorem clean_checked {fromBlock toBlock : Nat} (clean : p.Clean h fromBlock toBlock) (inside : toBlock ≤ height) :
    (p.checked h height).Clean h fromBlock toBlock := by
  obtain ⟨delayed, batches⟩ := clean
  have inside : toBlock + 1 ≤ height + 1 := Nat.succ_le_succ inside
  have counted := L1History.delayedBefore_mono (h := h) inside
  have read := (L1History.batchesBefore_mono inside).trans (h.batchesBefore_le_readUpTo (height + 1))
  constructor
  · change _ ≤ max (min p.delayed (h.delayedBefore (height + 1))) _
    omega
  · change _ ≤ max (min p.batches (h.readUpTo (h.delayedBefore (height + 1)))) _
    omega

/-- Stored messages are read again: those of the window, and the batches that come with them. -/
theorem fetchWindow_rereads (cfg : InboxReaderConfig) (firstMessageBlock : Nat) (follows : Follows h t p)
    (succeeds : Succeeds h height l1) {found : DelayedCheck} (sequencer : SequencerCheck)
    (missing : found.missing = true)
    (some : h.delayedBefore scan.fromBlock < h.delayedBefore (scan.toBlock height + 1))
    (clean : p.Clean h scan.fromBlock (scan.toBlock height)) :
    ∃ added fetched t' p', fetchWindow cfg l1 firstMessageBlock (scan.toBlock height) found sequencer scan t =
        .ok (added, fetched) t' ∧ 0 < added ∧ Follows h t' p' ∧
      p'.delayed = h.delayedBefore (scan.toBlock height + 1) ∧
      p'.batches ≤ max p.batches (h.batchesBefore (scan.toBlock height + 1)) := by
  obtain ⟨stored, stored'⟩ := clean
  obtain ⟨added, t₁, ran, ⟨_, _, none⟩ | ⟨positive, _, _, follows₁⟩⟩ :=
    follows.fetchDelayed succeeds.messages scan.fromBlock (scan.toBlock height)
  · rcases none with ⟨e, failed⟩ | empty | behind
    · obtain ⟨messages, looked⟩ := succeeds.messageLookup scan.fromBlock (scan.toBlock height)
      cases failed.symm.trans looked
    · omega
    · omega
  have first : fetchMissingDelayed l1 found scan.fromBlock (scan.toBlock height) t = .ok added t₁ := by
    rw [fetchMissingDelayed, missing]
    exact ran
  cases made : sequencer.missing || sequencer.reorging with
  | false =>
    refine ⟨added, ⟨scan, 0, sequencer.seenCount⟩, t₁, _, ?_, positive, follows₁, rfl, ?_⟩
    · rw [fetchWindow, bind_ok first, fetchMissingBatches, made]
      rfl
    · exact (Nat.min_le_left _ _).trans (Nat.le_max_left _ _)
  | true =>
    have front (more : h.batchesBefore scan.fromBlock < h.batchesBefore (scan.toBlock height + 1)) :
        h.batchesBefore scan.fromBlock ≤ min p.batches (h.readUpTo (h.delayedBefore scan.fromBlock)) :=
      Nat.le_min.mpr ⟨by omega, h.batchesBefore_le_readUpTo _⟩
    obtain ⟨fetched, t₂, p', ran', follows₂, delayed, batches⟩ := follows₁.fetchBatches_reread succeeds cfg
      firstMessageBlock scan sequencer.seenCount some.le le_rfl front
    refine ⟨added, fetched, t₂, p', ?_, positive, follows₂, delayed, batches.trans ?_⟩
    · rw [fetchWindow, bind_ok first, fetchMissingBatches, made, if_pos rfl, bind_ok ran']
      rfl
    · exact Nat.max_le.mpr ⟨(Nat.min_le_left _ _).trans (Nat.le_max_left _ _), Nat.le_max_right _ _⟩

/-- Without messages to read again a window without anything missing leaves no trace. -/
theorem fetchWindow_passes (cfg : InboxReaderConfig) (firstMessageBlock : Nat) (follows : Follows h t p)
    (succeeds : Succeeds h height l1) {found : DelayedCheck} (sequencer : SequencerCheck)
    (quiet : found.reorging = false) (none : found.missing = true →
      h.delayedBefore (scan.toBlock height + 1) ≤ h.delayedBefore scan.fromBlock)
    (clean : p.Clean h scan.fromBlock (scan.toBlock height)) :
    ∃ seen t', fetchWindow cfg l1 firstMessageBlock (scan.toBlock height) found sequencer scan t =
      .ok (0, ⟨scan, 0, seen⟩) t' ∧ Follows h t' p := by
  have first : fetchMissingDelayed l1 found scan.fromBlock (scan.toBlock height) t = .ok 0 t := by
    rw [fetchMissingDelayed, quiet, Bool.or_false]
    cases missing : found.missing with
    | false => rfl
    | true =>
      have empty := none missing
      obtain ⟨added, t₁, ran, ⟨rfl, rfl, _⟩ | ⟨_, _, some, _⟩⟩ :=
        follows.fetchDelayed succeeds.messages scan.fromBlock (scan.toBlock height)
      · exact ran
      · omega
  cases made : sequencer.missing || sequencer.reorging with
  | false =>
    refine ⟨sequencer.seenCount, t, ?_, follows⟩
    rw [fetchWindow, bind_ok first, fetchMissingBatches, made]
    rfl
  | true =>
    obtain ⟨t₁, ran, follows₁⟩ := follows.fetchBatches_stored succeeds cfg firstMessageBlock scan sequencer.seenCount
      clean.batches
    refine ⟨sequencer.seenCount, t₁, ?_, follows₁⟩
    rw [fetchWindow, bind_ok first, fetchMissingBatches, made, if_pos rfl, bind_ok ran]
    rfl

/-- A window without anything missing: it is passed when it reads messages again, and left
where it is when it does not. -/
theorem iterate_clean (cfg : InboxReaderConfig) (latestMode : Bool) (follows : Follows h r.tracker p)
    (succeeds : Succeeds h height l1) (short : p.Short h height)
    (clean : p.Clean h scan.fromBlock (scan.toBlock height)) :
    (p.Rereads h height scan ∧ ∃ blocksToFetch have_ r' p',
      iterate cfg latestMode l1 height scan r =
        .ok ⟨saturate (scan.toBlock height + 1), nextBlocksToFetch cfg blocksToFetch have_⟩ r' ∧
      Follows h r'.tracker p' ∧ p'.delayed = h.delayedBefore (scan.toBlock height + 1) ∧
      p'.batches ≤ max p.batches (h.batchesBefore (scan.toBlock height + 1))) ∨
    (¬ p.Rereads h height scan ∧ ∃ r',
      iterate cfg latestMode l1 height scan r =
        .ok ⟨scan.fromBlock, nextBlocksToFetch cfg scan.blocksToFetch 0⟩ r' ∧
      Follows h r'.tracker (p.checked h height)) := by
  obtain ⟨found, sequencer, t₁, checked, follows₁, behind, behind'⟩ := follows.check succeeds.toAnswers rfl
  obtain ⟨quiet, quiet'⟩ := follows.check_quiet succeeds checked
  have clean₁ := clean_checked clean (Nat.min_le_right _ _ : scan.toBlock height ≤ height)
  have missing : nothingMissing found sequencer = false := by
    rcases short with fewer | fewer
    · simp [nothingMissing, behind, fewer]
    · simp [nothingMissing, behind', (Nat.min_le_left _ _).trans_lt fewer]
  by_cases rereads : p.Rereads h height scan
  · left
    obtain ⟨added, fetched, t', p', window, positive, follows', delayed, batches⟩ := fetchWindow_rereads cfg
      r.firstMessageBlock follows₁ succeeds sequencer (behind.trans (decide_eq_true rereads.1)) rereads.2 clean₁
    have moved : nextScan cfg r.firstMessageBlock (scan.toBlock height) (found.reorging || sequencer.reorging)
        (added + fetched.batchesLen) fetched.scan = .ok ⟨saturate (scan.toBlock height + 1),
          nextBlocksToFetch cfg fetched.scan.blocksToFetch (added + fetched.batchesLen)⟩ := by
      rw [quiet, quiet', nextScan, Bool.or_false, if_neg Bool.false_ne_true, if_pos (by omega)]
    obtain ⟨r', ran, same⟩ := iterate_ok latestMode checked missing window moved
    refine ⟨rereads, _, _, r', p', ran, same ▸ follows', delayed, batches.trans ?_⟩
    exact Nat.max_le.mpr ⟨(Nat.min_le_left _ _).trans (Nat.le_max_left _ _), Nat.le_max_right _ _⟩
  · right
    have none (lacking : found.missing = true) :
        h.delayedBefore (scan.toBlock height + 1) ≤ h.delayedBefore scan.fromBlock := by
      rw [behind, decide_eq_true_eq] at lacking
      exact not_lt.mp fun some => rereads ⟨lacking, some⟩
    obtain ⟨seen, t', window, follows'⟩ := fetchWindow_passes cfg r.firstMessageBlock follows₁ succeeds sequencer
      quiet none clean₁
    have moved : nextScan cfg r.firstMessageBlock (scan.toBlock height) (found.reorging || sequencer.reorging)
        (0 + 0) scan = .ok ⟨scan.fromBlock, nextBlocksToFetch cfg scan.blocksToFetch 0⟩ := by
      rw [quiet, quiet', nextScan, Bool.or_false, if_neg Bool.false_ne_true, if_neg (by omega)]
    obtain ⟨r', ran, same⟩ := iterate_ok latestMode checked missing window moved
    exact ⟨rereads, r', ran, same ▸ follows'⟩

end InboxReader
end
end NitroRs
