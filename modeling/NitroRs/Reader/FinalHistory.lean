import NitroRs.Reader.ScanRuns
import NitroRs.Streamer.Execution

/-! The reader over an L1 that may reorg above the blocks it reads: what is stored, whatever calls
fail and whenever the process stops, is a part of the final history. -/
namespace NitroRs
open KeyValue Outcome TransactionStreamer

/-- The texts of `read_mode`. Every text but two reads finalized blocks. -/
inductive ReadMode where
  | latest
  | safe
  | finalized
  deriving DecidableEq

def ReadMode.parse (readMode : String) : ReadMode :=
  if readMode = "latest" then .latest else if readMode = "safe" then .safe else .finalized

/-- What ends the loop in the wait for a block. -/
inductive WaitError where
  /-- the error of a call to L1 -/
  | l1 (cause : Error)
  /-- "unable to fetch latest {read_mode} block" -/
  | noBlock

section
variable [Externals] {h : L1History} {t : InboxTracker} {p : Progress} {db : Db}

/-- What the streamer does leaves the tracker's part. -/
theorem Follows.of_frame (follows : Follows h t p) (frame : Agree .tracker t.db db) (tidy : NothingPastCount db) :
    Follows h { t with db } p := by
  obtain ⟨l, represents, batches⟩ := follows.ledger
  exact ⟨follows.delayedLe, follows.batchesLe, follows.delayed.of_agree frame,
    ⟨l, represents.of_agree frame, batches⟩, tidy⟩

theorem Follows.execute (follows : Follows h t p) (op : StreamerOp) :
    Follows h { t with db := op.execute t.db } p :=
  follows.of_frame (op.execute_frame t.db) (op.execute_tidy follows.tidy)

theorem Follows.storeResult (follows : Follows h t p) (msgIdx : Nat) (res : MessageResult) :
    Follows h { t with db := t.db.write (TransactionStreamer.storeResult msgIdx res) } p := by
  have foreign : ∀ op ∈ TransactionStreamer.storeResult msgIdx res, DbOp.owner op ≠ .tracker := by
    intro op member
    rw [List.mem_singleton.mp member]
    exact Owner.noConfusion
  refine follows.of_frame (.write foreign) fun i past => ?_
  have kept : (t.db.write (TransactionStreamer.storeResult msgIdx res)).get .message = t.db.get .message := by
    apply t.db.get_write_of_untouched
    intro op member
    rw [List.mem_singleton.mp member]
    exact fun same => Table.noConfusion (Place.table.inj same)
  exact (congrFun kept i).trans (follows.tidy i past)

end

namespace InboxReader

/-- The wait in latest mode, over the numbers of the headers that arrive and of the last header
where none does. -/
def awaitLatest (cfg : InboxReaderConfig) (firstMessageBlock fromBlock : Nat) :
    List (Except Error Nat) → Except WaitError (Option (Nat × Nat))
  | [] => .ok none
  | .error e :: _ => .error (.l1 e)
  | .ok latest :: later =>
    match latestWindow cfg firstMessageBlock latest fromBlock with
    | some window => .ok (some window)
    | none => awaitLatest cfg firstMessageBlock fromBlock later

/-- The wait for a safe or finalized block behind the scan position. -/
def awaitFinal (fromBlock : Nat) : List (Except Error Nat) → Except WaitError (Option (Nat × Nat))
  | [] => .ok none
  | .error e :: _ => .error (.l1 e)
  | .ok blockNum :: later =>
    if blockNum = 0 then .error .noBlock
    else if blockNum ≤ fromBlock then awaitFinal fromBlock later
    else .ok (some (fromBlock, blockNum))

/-- A position past the block behind the first answer goes back to that answer. -/
def clampFrom (fromBlock : Nat) : List (Except Error Nat) → Nat
  | .ok blockNum :: _ => if blockNum + 1 < fromBlock then blockNum else fromBlock
  | _ => fromBlock

/-- The window of an iteration: where it starts and the height it works at. The list has what L1
answers about its latest, safe or finalized block; without enough answers the loop still waits. -/
def readWindow (mode : ReadMode) (cfg : InboxReaderConfig) (firstMessageBlock fromBlock : Nat)
    (answers : List (Except Error Nat)) : Except WaitError (Option (Nat × Nat)) :=
  match mode with
  | .latest => awaitLatest cfg firstMessageBlock fromBlock answers
  | .safe | .finalized => awaitFinal (clampFrom fromBlock answers) answers

/-- Behind the wait the height is a number that L1 has answered. -/
theorem awaitFinal_answered {fromBlock from₀ height : Nat} {answers : List (Except Error Nat)}
    (waited : awaitFinal fromBlock answers = .ok (some (from₀, height))) :
    .ok height ∈ answers ∧ from₀ = fromBlock ∧ from₀ < height := by
  induction answers with
  | nil => cases waited
  | cons answer later ih =>
    cases answer with
    | error e => cases waited
    | ok blockNum =>
      rw [awaitFinal] at waited
      split at waited
      · contradiction
      · split at waited
        · obtain ⟨member, same, before⟩ := ih waited
          exact ⟨List.mem_cons_of_mem _ member, same, before⟩
        · rename_i past
          cases waited
          exact ⟨List.mem_cons_self, rfl, not_le.mp past⟩

/-- In safe and finalized mode the reader works at a block that L1 has called safe or finalized. -/
theorem readWindow_final {mode : ReadMode} {cfg : InboxReaderConfig} {firstMessageBlock fromBlock from₀ height : Nat}
    {answers : List (Except Error Nat)} (final : mode ≠ .latest)
    (window : readWindow mode cfg firstMessageBlock fromBlock answers = .ok (some (from₀, height))) :
    .ok height ∈ answers ∧ from₀ < height := by
  cases mode with
  | latest => exact absurd rfl final
  | safe | finalized =>
    obtain ⟨member, _, before⟩ := awaitFinal_answered window
    exact ⟨member, before⟩

/-- A lookup that fails past a height. -/
def upTo {α : Type} (height : Nat) (lookup : Nat → Nat → Except Error α) (fromBlock toBlock : Nat) : Except Error α :=
  if toBlock ≤ height then lookup fromBlock toBlock else .error .rpc

theorem upTo_of_le {α : Type} {height toBlock : Nat} (lookup : Nat → Nat → Except Error α) (fromBlock : Nat)
    (inside : toBlock ≤ height) : upTo height lookup fromBlock toBlock = lookup fromBlock toBlock :=
  if_pos inside

theorem upTo_eq_ok {α : Type} {height fromBlock toBlock : Nat} {lookup : Nat → Nat → Except Error α} {found : α}
    (looked : upTo height lookup fromBlock toBlock = .ok found) :
    toBlock ≤ height ∧ lookup fromBlock toBlock = .ok found := by
  unfold upTo at looked
  split at looked
  · rename_i inside
    exact ⟨inside, looked⟩
  · contradiction

section
variable [Externals]

/-- What L1 says of the blocks up to a height is final. Of higher blocks it may say anything, and so
it may about its counts and its accumulators; any call may fail. -/
structure Truthful (h : L1History) (height : Nat) (l1 : L1Calls) : Prop where
  messages : Reports h (upTo height l1.delayedBridge.lookupMessagesInRange)
  backfill : Reports h (upTo height l1.backfill)
  batches : ∀ fromBlock toBlock batches, toBlock ≤ height →
    l1.sequencerInbox.lookupBatchesInRange fromBlock toBlock = .ok batches →
    batches.Perm (h.batchesIn fromBlock toBlock)

end

/-- An L1 with the counts of a history, and without the blocks past a height. -/
def seen (h : L1History) (height : Nat) (l1 : L1Calls) : L1Calls where
  delayedBridge := { l1.delayedBridge with
    getMessageCount := fun _ => .ok (h.delayedBefore (height + 1))
    lookupMessagesInRange := upTo height l1.delayedBridge.lookupMessagesInRange }
  backfill := upTo height l1.backfill
  sequencerInbox := { l1.sequencerInbox with
    getBatchCount := fun _ => .ok (h.batchesBefore (height + 1))
    lookupBatchesInRange := upTo height l1.sequencerInbox.lookupBatchesInRange }

theorem fetchData_seen (h : L1History) (height : Nat) (l1 : L1Calls) (batches : List SequencerInboxBatch) :
    fetchData (seen h height l1).sequencerInbox batches = fetchData l1.sequencerInbox batches := by
  induction batches with
  | nil => rfl
  | cons b later ih =>
    rw [fetchData, fetchData, ih]
    rfl

section
variable [Externals] {h : L1History} {height : Nat} {l1 : L1Calls}

theorem Truthful.answers (truthful : Truthful h height l1) : Answers h height (seen h height l1) where
  messageCount := rfl
  batchCount := rfl
  messages := truthful.messages
  backfill := truthful.backfill
  batches fromBlock toBlock batches looked := by
    obtain ⟨inside, found⟩ := upTo_eq_ok looked
    exact truthful.batches fromBlock toBlock batches inside found

theorem fetchDelayed_seen {lookup : Nat → Nat → Except Error (List DelayedInboxMessage)} {fromBlock toBlock : Nat}
    (inside : toBlock ≤ height) :
    fetchDelayed (upTo height lookup) fromBlock toBlock = fetchDelayed lookup fromBlock toBlock := by
  rw [fetchDelayed, fetchDelayed, upTo_of_le lookup fromBlock inside]

/-- A backfill ends at the block of one of the batches. -/
theorem backfillDelayed_seen {lookup : Nat → Nat → Except Error (List DelayedInboxMessage)}
    {firstMessageBlock fromBlock toBlock : Nat} {good : List SequencerInboxBatch}
    (inside : toBlock ≤ height) (posted : ∀ b ∈ good, b.parentChainBlockNumber ≤ height) :
    backfillDelayed (upTo height lookup) firstMessageBlock fromBlock toBlock good =
      backfillDelayed lookup firstMessageBlock fromBlock toBlock good := by
  have last : (good.map (·.parentChainBlockNumber)).max?.getD toBlock ≤ height := by
    cases top : (good.map (·.parentChainBlockNumber)).max? with
    | none => exact inside
    | some n =>
      obtain ⟨b, member, rfl⟩ := List.mem_map.mp (List.max?_mem top)
      exact posted b member
  simp only [backfillDelayed, fetchDelayed_seen last]

/-- The data of a window that is looked up comes from its blocks. -/
theorem Truthful.posted (truthful : Truthful h height l1) {fromBlock toBlock : Nat} (inside : toBlock ≤ height)
    {batches good : List SequencerInboxBatch}
    (looked : l1.sequencerInbox.lookupBatchesInRange fromBlock toBlock = .ok batches)
    (data : fetchData l1.sequencerInbox batches = .ok good) : ∀ b ∈ good, b.parentChainBlockNumber ≤ height := by
  intro b member
  have looked' : (seen h height l1).sequencerInbox.lookupBatchesInRange (Scan.mk fromBlock 0).fromBlock toBlock =
      .ok batches := (upTo_of_le _ _ inside).trans looked
  have data' := (fetchData_seen h height l1 batches).trans data
  obtain ⟨_, before, _⟩ := mem_good truthful.answers looked' data' member
  omega

/-- An iteration does not look past its height. -/
theorem Truthful.fetchBatches_seen (truthful : Truthful h height l1) (cfg : InboxReaderConfig)
    (firstMessageBlock : Nat) (scan : Scan) {toBlock : Nat} (inside : toBlock ≤ height) (seenCount : Nat) :
    fetchBatches cfg (seen h height l1) firstMessageBlock scan toBlock seenCount =
      fetchBatches cfg l1 firstMessageBlock scan toBlock seenCount := by
  have same : (seen h height l1).sequencerInbox.lookupBatchesInRange scan.fromBlock toBlock =
      l1.sequencerInbox.lookupBatchesInRange scan.fromBlock toBlock := upTo_of_le _ _ inside
  unfold fetchBatches
  rw [same]
  cases looked : l1.sequencerInbox.lookupBatchesInRange scan.fromBlock toBlock with
  | error e => rfl
  | ok batches =>
    cases batches with
    | nil => rfl
    | cons b later =>
      have found : (Except.ok (b :: later) : Except Error (List SequencerInboxBatch)).toOption.getD [] =
        b :: later := rfl
      rw [found]
      dsimp only
      rw [fetchData_seen]
      cases data : fetchData l1.sequencerInbox (b :: later) with
      | error e => rfl
      | ok good =>
        funext t
        rw [bind_lift_ok, bind_lift_ok]
        exact congrArg (fun x => (x >>= fun _ => onTracker (ingestBatches cfg firstMessageBlock scan seenCount good)) t)
          (backfillDelayed_seen inside (truthful.posted inside looked data))

/-- The tracker holds a part of the history. -/
def Followed (h : L1History) (t : InboxTracker) : Prop := ∃ p, Follows h t p

theorem checkDelayed_keeps (bridge : DelayedBridge) (height : Nat) :
    Keeps (Followed h) (checkDelayed bridge height) := by
  rintro t ⟨p, follows⟩
  obtain ⟨l, represents, batches⟩ := follows.ledger
  obtain ⟨t', holds, checked⟩ := checkDelayed_holds follows.delayed bridge height rfl
  obtain ⟨represents', frame, _⟩ := checkDelayed_represents represents (follows.word represents) rfl checked
  rw [checked]
  rw [List.take_take, Nat.min_comm] at holds
  exact ⟨_, follows.cut ((Nat.min_le_left _ _).trans follows.delayedLe) batches holds represents' rfl frame⟩

theorem checkSequencer_follows (inbox : SequencerInbox) (height : Nat) :
    Keeps (Followed h) (checkSequencer inbox height) := by
  rintro t ⟨p, follows⟩
  obtain ⟨l, represents, _⟩ := follows.ledger
  have db := (checkSequencer_db inbox height t).trans represents.repaired
  exact ⟨p, follows.of_db db (checkSequencer_keeps inbox height t represents)⟩

/-- Whatever the counts and the accumulators say, the checks leave a part of the history. -/
theorem check_keeps (l1 : L1Calls) (height : Nat) : Keeps (Followed h) (check l1 height) :=
  .bind (checkDelayed_keeps _ _) fun _ => .bind (checkSequencer_follows _ _) fun _ => .of_final fun _ => rfl

theorem Truthful.fetchDelayed_keeps {lookup : Nat → Nat → Except Error (List DelayedInboxMessage)}
    (reports : Reports h (upTo height lookup)) {fromBlock toBlock : Nat} (inside : toBlock ≤ height) :
    Keeps (Followed h) (fetchDelayed lookup fromBlock toBlock) := by
  rintro t ⟨p, follows⟩
  rw [← fetchDelayed_seen inside]
  obtain ⟨_, t', ran, ⟨_, rfl, _⟩ | ⟨_, _, _, follows'⟩⟩ := follows.fetchDelayed reports fromBlock toBlock
  · rw [ran]
    exact ⟨p, follows⟩
  · rw [ran]
    exact ⟨_, follows'⟩

theorem Truthful.fetchMissingDelayed_keeps (truthful : Truthful h height l1) (found : DelayedCheck)
    (fromBlock : Nat) {toBlock : Nat} (inside : toBlock ≤ height) :
    Keeps (Followed h) (fetchMissingDelayed l1 found fromBlock toBlock) := by
  unfold fetchMissingDelayed
  split
  · exact Truthful.fetchDelayed_keeps truthful.messages inside
  · exact .of_final fun _ => rfl

theorem Truthful.fetchMissingBatches_keeps (truthful : Truthful h height l1) (cfg : InboxReaderConfig)
    (firstMessageBlock : Nat) (sequencer : SequencerCheck) (scan : Scan) {toBlock : Nat} (inside : toBlock ≤ height) :
    Keeps (Followed h) (fetchMissingBatches cfg l1 firstMessageBlock sequencer scan toBlock) := by
  unfold fetchMissingBatches
  split
  · rintro t ⟨p, follows⟩
    rw [← truthful.fetchBatches_seen cfg firstMessageBlock scan inside]
    obtain ⟨p', follows', _⟩ := fetchBatches_follows follows truthful.answers cfg firstMessageBlock scan toBlock
      sequencer.seenCount
    exact ⟨p', follows'⟩
  · exact .of_final fun _ => rfl

theorem Truthful.fetchWindow_keeps (truthful : Truthful h height l1) (cfg : InboxReaderConfig)
    (firstMessageBlock : Nat) (found : DelayedCheck) (sequencer : SequencerCheck) (scan : Scan) {toBlock : Nat}
    (inside : toBlock ≤ height) :
    Keeps (Followed h) (fetchWindow cfg l1 firstMessageBlock toBlock found sequencer scan) :=
  .bind (truthful.fetchMissingDelayed_keeps found _ inside) fun _ =>
    .bind (truthful.fetchMissingBatches_keeps cfg firstMessageBlock sequencer scan inside) fun _ => .of_final fun _ => rfl

/-- An iteration leaves a part of the history, however it ends. -/
theorem Truthful.iterate_keeps (truthful : Truthful h height l1) (cfg : InboxReaderConfig) (latestMode : Bool)
    (scan : Scan) : Keeps (fun r => Followed h r.tracker) (iterate cfg latestMode l1 height scan) := by
  intro r followed
  have checked := check_keeps l1 height r.tracker followed
  cases ran : check l1 height r.tracker with
  | error e t =>
    have failed : withTracker (onTracker (check l1 height)) r = .error (.inbox e) { r with tracker := t } :=
      zoom_error (onTracker_error ran)
    rw [iterate, bind_read, bind_error failed]
    rwa [ran] at checked
  | ok found t =>
    obtain ⟨found, sequencer⟩ := found
    rw [ran, final_ok] at checked
    cases missing : nothingMissing found sequencer with
    | true =>
      have done : withTracker (onTracker (check l1 height)) r = .ok (found, sequencer) { r with tracker := t } :=
        zoom_ok (onTracker_ok ran)
      rw [iterate, bind_read, bind_ok done]
      dsimp only
      rw [missing, if_pos rfl, bind_update]
      exact checked
    | false =>
      rw [iterate_final ran missing]
      exact truthful.fetchWindow_keeps cfg r.firstMessageBlock found sequencer scan (Nat.min_le_right _ _) t checked

/-- The databases that an iteration leaves when the process stops in it, between two commits. -/
inductive StopsAt (l1 : L1Calls) (height : Nat) (scan : Scan) (r : InboxReader) : Db → Prop
  | apart {t : InboxTracker} (leaves : Leaves l1 height scan r t) : StopsAt l1 height scan r t.db
  /-- the messages of a window are stored and its batches are not -/
  | streamed {found : DelayedCheck} {sequencer : SequencerCheck} {added c : Nat} {t u t' : InboxTracker}
      {first : SequencerInboxBatch} {rest : List SequencerInboxBatch} {out : List MessageWithMetadataAndBlockInfo}
      (fetches : Fetches l1 height scan r.tracker found sequencer added t)
      (ready : Readies l1 r.firstMessageBlock (scan.toBlock height) scan t (first :: rest) u)
      (streams : Streams u (first :: rest) c out t') :
      StopsAt l1 height scan r (StreamerOp.execute t'.db (.addConfirmed c out none))

variable {t u : InboxTracker} {p : Progress} {scan : Scan} {r : InboxReader} {db : Db}

theorem Truthful.fetches_follows (truthful : Truthful h height l1) {found : DelayedCheck} {sequencer : SequencerCheck}
    {added : Nat} (fetches : Fetches l1 height scan r.tracker found sequencer added t)
    (followed : Followed h r.tracker) : Followed h t := by
  obtain ⟨t₁, checked, fetched⟩ := fetches.path
  have followed₁ := check_keeps l1 height r.tracker followed
  rw [checked] at followed₁
  have inside : scan.toBlock height ≤ height := Nat.min_le_right _ _
  have followed₂ := truthful.fetchMissingDelayed_keeps found scan.fromBlock inside t₁ followed₁
  rwa [fetched] at followed₂

theorem Truthful.readies_follows (truthful : Truthful h height l1) {firstMessageBlock : Nat}
    {window : List SequencerInboxBatch} (ready : Readies l1 firstMessageBlock (scan.toBlock height) scan t window u)
    (followed : Followed h t) : Followed h u := by
  obtain ⟨p, follows⟩ := followed
  have inside : scan.toBlock height ≤ height := Nat.min_le_right _ _
  obtain ⟨batches, good, t', n, looked, some, data, backfilled, expected, rfl⟩ := ready.path
  rw [← backfillDelayed_seen inside (truthful.posted inside looked data)] at backfilled
  have ready' : Readies (seen h height l1) firstMessageBlock (scan.toBlock height) scan t
      (filterFrom n (sortBatches good)) u :=
    ⟨batches, good, t', n, (upTo_of_le _ _ inside).trans looked, some, (fetchData_seen ..).trans data, backfilled,
      expected, rfl⟩
  obtain ⟨p', follows', _⟩ := ready'.follows follows truthful.answers
  exact ⟨p', follows'⟩

/-- The state in which the streamer gets the messages of a window. -/
theorem Streams.follows {first : SequencerInboxBatch} {rest : List SequencerInboxBatch} {c : Nat}
    {out : List MessageWithMetadataAndBlockInfo} {t' : InboxTracker} (streams : Streams u (first :: rest) c out t')
    (follows : Follows h u p) : t'.db = u.db := by
  obtain ⟨l, represents, _⟩ := follows.ledger
  obtain ⟨u', db, _, outcome⟩ := ingest_cases u first rest
  rw [represents.repaired, or_self] at db
  rcases outcome with ⟨none, _⟩ | ⟨_, _, _, unique, _⟩
  · exact absurd streams (none c out t')
  · rw [(unique c out t' streams).2.2, db]

/-- Wherever the process stops, a new one finds a part of the history. -/
theorem Truthful.stopsAt_follows (truthful : Truthful h height l1) (stops : StopsAt l1 height scan r db)
    (followed : Followed h r.tracker) : Followed h (InboxTracker.restart db) := by
  cases stops with
  | @apart t leaves =>
    have followed' : Followed h t := by
      cases leaves with
      | checked => exact check_keeps l1 height r.tracker followed
      | fetched fetches => exact truthful.fetches_follows fetches followed
      | ready fetches ready => exact truthful.readies_follows ready (truthful.fetches_follows fetches followed)
      | ended cfg => exact truthful.iterate_keeps cfg true scan r followed
    obtain ⟨p, follows⟩ := followed'
    exact ⟨p, follows.restart⟩
  | @streamed _ _ _ c t u t' first rest out fetches ready streams =>
    obtain ⟨p, follows⟩ := truthful.readies_follows ready (truthful.fetches_follows fetches followed)
    have restarted := (follows.execute (.addConfirmed c out none)).restart
    exact ⟨p, by rw [Streams.follows streams follows]; exact restarted⟩

/-- A node with an inbox reader, in any mode, and its scan position. L1 may change between two
iterations and within one, above the height of the iteration. The feed, the RPC backend and the
engine use the streamer meanwhile. -/
inductive NodeRun (h : L1History) : InboxReader → Scan → Prop
  | start {db : Db} {cfg : InboxReaderConfig} {fromBlock : Nat} (fresh : Fresh db) (tidy : NothingPastCount db)
      (next : getNextBlockToRead (new (InboxTracker.restart db) h.firstMessageBlock) = .ok fromBlock) :
      NodeRun h (new (InboxTracker.restart db) h.firstMessageBlock) ⟨fromBlock, cfg.defaultBlocksToRead⟩
  | iterate {r r' : InboxReader} {scan scan' : Scan} {mode : ReadMode} {cfg : InboxReaderConfig} {l1 : L1Calls}
      {answers : List (Except Error Nat)} {fromBlock height : Nat} (run : NodeRun h r scan)
      (window : readWindow mode cfg r.firstMessageBlock scan.fromBlock answers = .ok (some (fromBlock, height)))
      (truthful : Truthful h height l1)
      (ran : InboxReader.iterate cfg (mode == .latest) l1 height ⟨fromBlock, scan.blocksToFetch⟩ r = .ok scan' r') :
      NodeRun h r' scan'
  /-- the error ends the reader, and the rest of the node goes on -/
  | failed {r r' : InboxReader} {scan : Scan} {mode : ReadMode} {cfg : InboxReaderConfig} {l1 : L1Calls}
      {answers : List (Except Error Nat)} {fromBlock height : Nat} {e : ReaderError} (run : NodeRun h r scan)
      (window : readWindow mode cfg r.firstMessageBlock scan.fromBlock answers = .ok (some (fromBlock, height)))
      (truthful : Truthful h height l1)
      (ran : InboxReader.iterate cfg (mode == .latest) l1 height ⟨fromBlock, scan.blocksToFetch⟩ r = .error e r') :
      NodeRun h r' scan
  | streamer {r : InboxReader} {scan : Scan} (run : NodeRun h r scan) (op : StreamerOp) :
      NodeRun h { r with tracker := { r.tracker with db := op.execute r.tracker.db } } scan
  | executed {r : InboxReader} {scan : Scan} (run : NodeRun h r scan) (msgIdx : Nat) (res : MessageResult) :
      NodeRun h { r with tracker := { r.tracker with db := r.tracker.db.write (storeResult msgIdx res) } } scan
  | restart {r : InboxReader} {scan : Scan} {cfg : InboxReaderConfig} {db : Db} {fromBlock : Nat}
      (run : NodeRun h r scan)
      (stops : db = r.tracker.db ∨ ∃ mode cfg l1 answers fromBlock height,
        readWindow mode cfg r.firstMessageBlock scan.fromBlock answers = .ok (some (fromBlock, height)) ∧
          Truthful h height l1 ∧ StopsAt l1 height ⟨fromBlock, scan.blocksToFetch⟩ r db)
      (next : getNextBlockToRead (new (InboxTracker.restart db) h.firstMessageBlock) = .ok fromBlock) :
      NodeRun h (new (InboxTracker.restart db) h.firstMessageBlock) ⟨fromBlock, cfg.defaultBlocksToRead⟩

theorem NodeRun.followed (run : NodeRun h r scan) : Followed h r.tracker := by
  induction run with
  | start fresh tidy next => exact ⟨⟨0, 0⟩, follows_fresh h fresh tidy⟩
  | @iterate r r' scan scan' mode cfg l1 answers fromBlock height run window truthful ran ih
  | @failed r r' scan mode cfg l1 answers fromBlock height e run window truthful ran ih =>
    have followed := truthful.iterate_keeps cfg (mode == .latest) ⟨fromBlock, scan.blocksToFetch⟩ r ih
    rwa [ran] at followed
  | streamer run op ih =>
    obtain ⟨p, follows⟩ := ih
    exact ⟨p, follows.execute op⟩
  | executed run msgIdx res ih =>
    obtain ⟨p, follows⟩ := ih
    exact ⟨p, follows.storeResult msgIdx res⟩
  | restart run stops next ih =>
    rcases stops with rfl | ⟨_, _, _, _, _, _, _, truthful, stops⟩
    · obtain ⟨p, follows⟩ := ih
      exact ⟨p, follows.restart⟩
    · exact truthful.stopsAt_follows stops ih

end

section Samples
open Codecs

end Samples
end InboxReader
end NitroRs
