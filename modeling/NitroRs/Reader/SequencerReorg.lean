import NitroRs.Reader.Iteration
import NitroRs.Inbox.Recovery

/-! A sequencer reorg. The filter starts at the batch after the last stored one, so a stored
batch is only replaced when the delayed side of the iteration has dropped it before. -/
namespace NitroRs
open KeyValue Outcome TransactionStreamer

theorem get_write_batchOps_below {pos i : Nat} (below : i < pos) (metas : List BatchMetadata)
    (db : Db) (last : BatchMetadata) :
    (db.write (InboxTracker.batchOps last (numberFrom pos metas))).get .sequencerBatchMeta i =
      db.get .sequencerBatchMeta i := by
  induction metas generalizing pos db last with
  | nil => rfl
  | cons m metas ih =>
    have index {db : Db} : (db.write (if last.delayedMessageCount < m.delayedMessageCount then
        [.put .delayedSequenced m.delayedMessageCount pos] else [])).get .sequencerBatchMeta i =
          db.get .sequencerBatchMeta i := by
      split <;> simp
    rw [numberFrom, InboxTracker.batchOps, List.cons_append, Store.write_cons, Store.write_append,
      ih (by omega), index, Store.get_apply_put, if_neg (by omega)]

section
variable [Externals] {t t' : InboxTracker} {first : SequencerInboxBatch} {rest : List SequencerInboxBatch}

/-- Recording batches leaves the ones in front of them. -/
theorem addSequencerBatches_below {i : Nat} (below : i < first.sequenceNumber) :
    (final (InboxTracker.addSequencerBatches (first :: rest) t)).db.get .sequencerBatchMeta i =
      t.db.get .sequencerBatchMeta i := by
  cases added : InboxTracker.addSequencerBatches (first :: rest) t with
  | error e t' => rw [final_error, addSequencerBatches_error added]
  | ok _ t' =>
    obtain ⟨m, t₀, metas, _, checked, described, db⟩ := InboxTracker.addSequencerBatches_eq_recorded added
    obtain ⟨ms, rfl, _⟩ := describeBatches_eq_ok checked described
    rw [final_ok, db]
    simp only [InboxTracker.recorded, Store.write_append, Store.write_cons, Store.write_nil,
      Store.get_apply_setCount]
    rw [get_write_batchOps_below below, Store.get_write_deleteFrom_of_ne _ _ _ (by decide),
      Store.get_write_deleteFrom_of_eq (fun _ => rfl), if_neg (by omega)]

/-- The tracker stores a window: the call ends well, with the window aligned and with a
first batch that gives a message. -/
def Takes (t : InboxTracker) : List SequencerInboxBatch → Prop
  | [] => False
  | first :: rest => isOk (InboxTracker.addSequencerBatchesAndStream (first :: rest) t) = true ∧
      t.Aligned first.sequenceNumber ∧ ¬ OpensUnknown first

/-- Up to the streamer's part a call has changed no batch. -/
theorem ingest_batches (t : InboxTracker) (first : SequencerInboxBatch) (rest : List SequencerInboxBatch) :
    (final (InboxTracker.addSequencerBatchesAndStream (first :: rest) t)).db.get .sequencerBatchMeta =
        t.db.get .sequencerBatchMeta ∨
      (∃ c out t₂, Streams t (first :: rest) c out t₂) ∧
        ∃ t₁, t₁.db.get .sequencerBatchMeta = t.db.get .sequencerBatchMeta ∧
          InboxTracker.addSequencerBatchesAndStream (first :: rest) t =
            InboxTracker.addSequencerBatches (first :: rest) t₁ := by
  obtain ⟨t₂, db, _, outcome⟩ := ingest_cases t first rest
  have same : t₂.db.get .sequencerBatchMeta = t.db.get .sequencerBatchMeta := congrFun (get_of_repaired db) _
  rcases outcome with ⟨_, ended⟩ | ⟨c, out, streams, _, reached⟩
  · left
    rw [final_of_ended ended, same]
  · have frame := (StreamerOp.addConfirmed c out none).execute_frame t₂.db
    simp only [StreamerOp.execute, StreamerOp.call] at frame
    cases appended : addConfirmedMessagesAndEndBatch c out none t₂.db with
    | error e db' =>
      left
      rw [appended] at frame
      rw [reached, bind_error (InboxTracker.onStreamer_error appended), final_error, ← same]
      exact frame.get _ rfl
    | ok _ db' =>
      right
      rw [appended] at frame
      refine ⟨⟨c, out, t₂, streams⟩, { t₂ with db := db' }, ?_, ?_⟩
      · rw [← same]
        exact frame.get _ rfl
      · rw [reached, bind_ok (InboxTracker.onStreamer_ok appended)]

theorem Takes.stored (takes : Takes t (first :: rest)) : ∀ b ∈ first :: rest, ∃ m,
    (final (InboxTracker.addSequencerBatchesAndStream (first :: rest) t)).db.get .sequencerBatchMeta
      b.sequenceNumber = some m ∧ m.accumulator = b.afterInboxAcc := by
  obtain ⟨ended, aligned, known⟩ := takes
  obtain ⟨_, accepted⟩ := eq_ok_of_isOk ended
  exact ((accepted_ingested_iff accepted).mpr (.inl ⟨aligned, known⟩)).1

theorem not_takes_unchanged (refused : ¬ Takes t (first :: rest)) :
    (final (InboxTracker.addSequencerBatchesAndStream (first :: rest) t)).db.get .sequencerBatchMeta =
      t.db.get .sequencerBatchMeta := by
  rcases ingest_batches t first rest with same | ⟨streams, t₁, same, recorded⟩
  · exact same
  · rw [← same]
    cases ran : InboxTracker.addSequencerBatchesAndStream (first :: rest) t with
    | error e t' => rw [final_error, addSequencerBatches_error (recorded ▸ ran)]
    | ok _ t' => exact absurd ⟨by rw [ran]; rfl, (streams_iff ran).mp streams⟩ refused

theorem ingest_below {i : Nat} (below : i < first.sequenceNumber) :
    (final (InboxTracker.addSequencerBatchesAndStream (first :: rest) t)).db.get .sequencerBatchMeta i =
      t.db.get .sequencerBatchMeta i := by
  rcases ingest_batches t first rest with same | ⟨_, t₁, same, recorded⟩
  · rw [same]
  · rw [recorded, addSequencerBatches_below below, same]

end

namespace InboxReader

/-- The delayed count up to which the delayed side of an iteration leaves what batches
read: L1's count, or the first of the messages that it adds again. -/
def leftUpTo (l1 : L1Calls) (height fromBlock toBlock added : Nat) : Nat :=
  let count := (l1.delayedBridge.getMessageCount height).toOption.getD 0
  match added, l1.delayedBridge.lookupMessagesInRange fromBlock toBlock with
  | _ + 1, .ok (first :: _) => min count (keptUpTo first.seqNum)
  | _, _ => count

section
variable [Externals] {t t' : InboxTracker} {l : Ledger}

omit [Externals] in
theorem batchesUpTo_addDelayed (l : Ledger) (count pos : Nat) (ds : List DelayedMessage) :
    ((l.cut count).addDelayed pos ds).batches = l.batchesUpTo (min count (keptUpTo pos)) := by
  change Ascending.upTo _ (keptUpTo pos) (Ascending.upTo _ count l.batches) = Ascending.upTo _ _ l.batches
  simp only [Ascending.upTo, List.takeWhile_takeWhile]
  congr 1
  funext m
  simp [Bool.and_comm]

/-- The delayed side of an iteration leaves the first batches of the ledger. -/
theorem fetchMissingDelayed_represents {l1 : L1Calls} {height fromBlock toBlock added count : Nat}
    (counted : (l1.delayedBridge.getMessageCount height).toOption.getD 0 = count)
    (represents : Represents t (l.cut count)) {found : DelayedCheck}
    (fetched : fetchMissingDelayed l1 found fromBlock toBlock t = .ok added t') :
    ∃ l', Represents t' l' ∧ l'.batches = l.batchesUpTo (leftUpTo l1 height fromBlock toBlock added) ∧
      Agree .streamer t.db t'.db := by
  have nothing : leftUpTo l1 height fromBlock toBlock 0 = count := counted
  unfold fetchMissingDelayed at fetched
  split at fetched
  · rcases fetchDelayed_represents represents fetched with
      ⟨rfl, rfl⟩ | ⟨first, rest, ds, looked, rfl, _, _, represents', frame⟩
    · exact ⟨_, represents, by rw [nothing]; rfl, .refl _ _⟩
    · refine ⟨_, represents', ?_, frame⟩
      have again : leftUpTo l1 height fromBlock toBlock (rest.length + 1) = min count (keptUpTo first.seqNum) := by
        simp only [leftUpTo, looked, counted]
      rw [batchesUpTo_addDelayed, again]
  · cases fetched
    exact ⟨_, represents, by rw [nothing]; rfl, .refl _ _⟩

omit [Externals] in
theorem sequenceNumber_of_numbered {chain : List SequencerInboxBatch} {i : Nat} {b : SequencerInboxBatch}
    (numbered : chain.map (·.sequenceNumber) = List.range chain.length) (here : chain[i]? = some b) :
    b.sequenceNumber = i := by
  have at_i := congrArg (fun numbers => numbers[i]?) numbered
  rw [List.getElem?_map, here, List.getElem?_range (List.getElem?_eq_some_iff.mp here).1] at at_i
  exact Option.some.inj at_i

omit [Externals] in
theorem numbered_drop {chain : List SequencerInboxBatch} (numbered : chain.map (·.sequenceNumber) =
    List.range chain.length) (n : Nat) :
    (chain.drop n).map (·.sequenceNumber) = List.range' n (chain.length - n) := by
  rw [List.map_drop, numbered, List.range_eq_range', List.drop_range']
  simp

omit [Externals] in
/-- The filter leaves L1's batches from the expected one on, when the window starts early enough. -/
theorem window_bare {chain batches good : List SequencerInboxBatch} {inbox : SequencerInbox} {start : Nat}
    (numbered : chain.map (·.sequenceNumber) = List.range chain.length) (words : Numbered chain)
    (all : batches.Perm (chain.drop start)) (data : fetchData inbox batches = .ok good) (expected : Nat) :
    (filterFrom expected (sortBatches good)).map SequencerInboxBatch.bare =
      if start ≤ expected then (chain.drop expected).map SequencerInboxBatch.bare else [] := by
  have bare := fetchData_bare data
  have later := numbered_drop numbered start
  have numbers : good.map (·.sequenceNumber) = batches.map (·.sequenceNumber) := by
    have same := congrArg (List.map (·.sequenceNumber)) bare
    simpa only [List.map_map, Function.comp_def, SequencerInboxBatch.bare] using same
  have sorted : (sortBatches good).map (·.sequenceNumber) = List.range' start (chain.length - start) := by
    apply sortBatches_range
    rw [numbers, ← later]
    exact all.map _
  have ascends {bs : List SequencerInboxBatch}
      (numbers : bs.map (·.sequenceNumber) = List.range' start (chain.length - start)) :
      (bs.map SequencerInboxBatch.bare).Pairwise fun a b => a.sequenceNumber < b.sequenceNumber := by
    have ascending : (bs.map (·.sequenceNumber)).Pairwise (· < ·) := numbers ▸ List.pairwise_lt_range' _
    rw [List.pairwise_map] at ascending ⊢
    exact ascending
  have whole : (sortBatches good).map SequencerInboxBatch.bare = (chain.drop start).map SequencerInboxBatch.bare := by
    refine List.Perm.eq_of_pairwise (fun a b _ _ one two => absurd one (Nat.lt_asymm two)) (ascends sorted)
      (ascends later) ?_
    refine ((List.perm_insertionSort _ good).map _).trans ?_
    rw [bare]
    exact all.map _
  have sortedWords : Numbered (sortBatches good) := by
    intro b member
    have number : b.sequenceNumber ∈ (chain.drop start).map (·.sequenceNumber) := by
      rw [later, ← sorted]
      exact List.mem_map_of_mem member
    obtain ⟨b', listed, same⟩ := List.mem_map.mp number
    exact same ▸ words b' (List.mem_of_mem_drop listed)
  rw [filterFrom_range sorted sortedWords]
  split
  · rename_i inside
    rw [List.map_drop, whole, ← List.map_drop, List.drop_drop, Nat.add_sub_cancel' inside]
  · rfl

omit [Externals] in
/-- The window by its numbers and accumulators. -/
theorem window_spec {chain batches good : List SequencerInboxBatch} {inbox : SequencerInbox} {start : Nat}
    (numbered : chain.map (·.sequenceNumber) = List.range chain.length) (words : Numbered chain)
    (all : batches.Perm (chain.drop start)) (data : fetchData inbox batches = .ok good) (expected : Nat) :
    (∀ b ∈ filterFrom expected (sortBatches good), ∃ b', chain[b.sequenceNumber]? = some b' ∧
      b'.afterInboxAcc = b.afterInboxAcc) ∧
    (filterFrom expected (sortBatches good)).map (·.sequenceNumber) =
      if start ≤ expected then List.range' expected (chain.length - expected) else [] := by
  have bare := window_bare numbered words all data expected
  constructor
  · intro b member
    have known : b.bare ∈ (filterFrom expected (sortBatches good)).map SequencerInboxBatch.bare :=
      List.mem_map_of_mem member
    rw [bare] at known
    split at known
    · obtain ⟨b', listed, same⟩ := List.mem_map.mp known
      obtain ⟨i, there⟩ := List.mem_iff_getElem?.mp (List.mem_of_mem_drop listed)
      have position : b.bare.sequenceNumber = i := by
        rw [← same, ← sequenceNumber_of_numbered numbered there]
        rfl
      refine ⟨b', position ▸ there, ?_⟩
      change b'.bare.afterInboxAcc = b.bare.afterInboxAcc
      rw [same]
    · contradiction
  · have numbers := congrArg (List.map (·.sequenceNumber)) bare
    split at numbers
    · rename_i inside
      rw [if_pos inside]
      have later := numbered_drop numbered expected
      simpa only [List.map_map, Function.comp_def, SequencerInboxBatch.bare, later] using numbers
    · rename_i outside
      rw [if_neg outside]
      simpa only [List.map_map, Function.comp_def, SequencerInboxBatch.bare, List.map_nil] using numbers

omit [Externals] in
/-- A truncation drops the batches that read past it. -/
theorem length_batchesUpTo_le_iff {mine : BatchMetadata} {k : Nat} (stored : l.batches[k]? = some mine) (count : Nat) :
    (l.batchesUpTo count).length ≤ k ↔ count < mine.delayedMessageCount := by
  have kept : k < (Ascending.upTo (·.delayedMessageCount) count l.batches).length ↔
      mine.delayedMessageCount ≤ count := by
    rw [Ascending.lt_length_upTo l.sorted, stored]
    simp only [Option.some.injEq, exists_eq_left']
  rw [← Nat.not_lt, Ledger.batchesUpTo, kept, Nat.not_le]

omit [Externals] in
/-- A window with batches starts at the expected one. -/
theorem window_first {first : SequencerInboxBatch} {later : List SequencerInboxBatch} {start expected n : Nat}
    (numbers : (first :: later).map (·.sequenceNumber) = if start ≤ expected then List.range' expected n else []) :
    (first :: later).map (·.sequenceNumber) = List.range' expected n ∧ first.sequenceNumber = expected := by
  split at numbers
  · refine ⟨numbers, ?_⟩
    have head := congrArg List.head? numbers
    rw [List.map_cons, List.head?_cons, List.head?_range'] at head
    split at head
    · contradiction
    · exact Option.some.inj head
  · contradiction

/-- A window of the rest of the chain that is taken leaves the chain's batches there. -/
theorem takes_repairs {chain later : List SequencerInboxBatch} {first : SequencerInboxBatch} {expected k : Nat}
    (takes : Takes t (first :: later))
    (listed : ∀ b ∈ first :: later, ∃ b', chain[b.sequenceNumber]? = some b' ∧ b'.afterInboxAcc = b.afterInboxAcc)
    (numbers : (first :: later).map (·.sequenceNumber) = List.range' expected (chain.length - expected))
    (reached : expected ≤ k) (i : Nat) (b : SequencerInboxBatch) (beyond : k ≤ i) (here : chain[i]? = some b) :
    ∃ m, (final (InboxTracker.addSequencerBatchesAndStream (first :: later) t)).db.get .sequencerBatchMeta i = some m ∧
      m.accumulator = b.afterInboxAcc := by
  have inside := (List.getElem?_eq_some_iff.mp here).1
  have covered : i ∈ (first :: later).map (·.sequenceNumber) := by
    rw [numbers, List.mem_range'_1]
    omega
  obtain ⟨b', member, rfl⟩ := List.mem_map.mp covered
  obtain ⟨m, found, agrees⟩ := takes.stored b' member
  obtain ⟨b'', there, same⟩ := listed b' member
  cases here.symm.trans there
  exact ⟨m, found, agrees.trans same.symm⟩

/-- The tracker behind an iteration with a sequencer reorg: the window is ingested. -/
theorem iterate_reorging {cfg : InboxReaderConfig} {latestMode : Bool} {l1 : L1Calls} {height : Nat} {scan : Scan}
    {r : InboxReader} {found : DelayedCheck} {sequencer : SequencerCheck} {t₁ t₂ : InboxTracker} {toBlock added : Nat}
    (checked : check l1 height r.tracker = .ok (found, sequencer) t₁) (flagged : sequencer.reorging = true)
    (window : toBlock = min (saturate (scan.fromBlock + scan.blocksToFetch)) height)
    (fetched : fetchMissingDelayed l1 found scan.fromBlock toBlock t₁ = .ok added t₂) (represents : Represents t₂ l)
    {batches good : List SequencerInboxBatch}
    (looked : l1.sequencerInbox.lookupBatchesInRange scan.fromBlock toBlock = .ok batches) (nonempty : batches ≠ [])
    (data : fetchData l1.sequencerInbox batches = .ok good)
    (enough : ∀ b ∈ batches, b.afterDelayedCount ≤ l.delayed.length) :
    (final (iterate cfg latestMode l1 height scan r)).tracker =
      final (ingestBatches cfg r.firstMessageBlock scan sequencer.seenCount good t₂) := by
  rw [iterate_final checked (by simp [nothingMissing, flagged]), ← window, fetchWindow, bind_ok fetched,
    fetchMissingBatches, flagged, Bool.or_true, if_pos rfl, final_bind_pure,
    fetchBatches_eq represents cfg r.firstMessageBlock sequencer.seenCount looked nonempty data enough, final_onTracker]

/-- The batches from `k` on are repaired exactly when the delayed side of the iteration has
dropped batch `k` and the tracker then takes the window. -/
theorem reorg_repaired_iff {cfg : InboxReaderConfig} {latestMode : Bool} {l1 : L1Calls} {height : Nat}
    {scan : Scan} {r : InboxReader} (represents : Represents r.tracker l) (counted : l.delayed.length < 2 ^ 64)
    {chain : List SequencerInboxBatch}
    (numbered : chain.map (·.sequenceNumber) = List.range chain.length) (words : Numbered chain)
    {k : Nat} {mine : BatchMetadata}
    {theirs : SequencerInboxBatch} (stored : r.tracker.db.get .sequencerBatchMeta k = some mine)
    (listed : chain[k]? = some theirs) (differs : mine.accumulator ≠ theirs.afterInboxAcc)
    {found : DelayedCheck} {sequencer : SequencerCheck} {t₁ t₂ u : InboxTracker}
    (checked : check l1 height r.tracker = .ok (found, sequencer) t₁) (flagged : sequencer.reorging = true)
    {toBlock added start n : Nat}
    (window : toBlock = min (saturate (scan.fromBlock + scan.blocksToFetch)) height)
    (fetched : fetchMissingDelayed l1 found scan.fromBlock toBlock t₁ = .ok added t₂)
    {batches good : List SequencerInboxBatch}
    (looked : l1.sequencerInbox.lookupBatchesInRange scan.fromBlock toBlock = .ok batches)
    (all : batches.Perm (chain.drop start)) (covers : start ≤ k)
    (data : fetchData l1.sequencerInbox batches = .ok good)
    (enough : ∀ b ∈ batches, ∀ count, InboxTracker.getDelayedCount t₂.db = .ok count →
      b.afterDelayedCount ≤ count)
    (expected : expectedBatch t₂ = .ok n u) :
    (∀ i b, k ≤ i → chain[i]? = some b → ∃ m,
      (final (iterate cfg latestMode l1 height scan r)).tracker.db.get .sequencerBatchMeta i = some m ∧
        m.accumulator = b.afterInboxAcc) ↔
      leftUpTo l1 height scan.fromBlock toBlock added < mine.delayedMessageCount ∧
        Takes u (filterFrom n (sortBatches good)) := by
  obtain ⟨represents₁, _⟩ := check_represents represents counted rfl checked
  obtain ⟨l₂, represents₂, left, _⟩ := fetchMissingDelayed_represents rfl represents₁ fetched
  obtain ⟨u', ran, db, _⟩ := expectedBatch_represents represents₂
  cases expected.symm.trans ran
  have ours : l.batches[k]? = some mine := (represents.metas k).symm.trans stored
  have dropped : l₂.batches.length ≤ k ↔
      leftUpTo l1 height scan.fromBlock toBlock added < mine.delayedMessageCount :=
    left ▸ length_batchesUpTo_le_iff ours _
  have metas (i : Nat) : u.db.get .sequencerBatchMeta i = l₂.batches[i]? := by
    rw [db, represents₂.metas]
  have nonempty : batches ≠ [] := by
    rintro rfl
    have inside := (List.getElem?_eq_some_iff.mp listed).1
    have none := congrArg List.length all.nil_eq
    rw [List.length_drop, List.length_nil] at none
    omega
  have enough₂ : ∀ b ∈ batches, b.afterDelayedCount ≤ l₂.delayed.length := fun b member =>
    enough b member _ represents₂.getDelayedCount
  -- while the old batch `k` is there, the chain's is not
  have unrepaired {t' : InboxTracker}
      (same : t'.db.get .sequencerBatchMeta k = u.db.get .sequencerBatchMeta k) :
      ¬ ∀ i b, k ≤ i → chain[i]? = some b → ∃ m, t'.db.get .sequencerBatchMeta i = some m ∧
        m.accumulator = b.afterInboxAcc := by
    intro repaired
    obtain ⟨m, found, agrees⟩ := repaired k theirs le_rfl listed
    rw [same, metas, left, Ledger.batchesUpTo, Ascending.getElem?_upTo l.sorted ours] at found
    split at found
    · cases found
      exact differs agrees
    · contradiction
  obtain ⟨theirAccs, numbers⟩ := window_spec numbered words all data l₂.batches.length
  rw [← dropped, iterate_reorging checked flagged window fetched represents₂ looked nonempty data enough₂,
    ingestBatches_final ran]
  cases remaining : filterFrom l₂.batches.length (sortBatches good) with
  | nil => exact iff_of_false (unrepaired rfl) fun both => both.2
  | cons first later =>
    rw [remaining] at theirAccs numbers
    obtain ⟨numbers, number⟩ := window_first numbers
    by_cases past : l₂.batches.length ≤ k
    · by_cases takes : Takes u (first :: later)
      · exact iff_of_true (takes_repairs takes theirAccs numbers past) ⟨past, takes⟩
      · exact iff_of_false (unrepaired (congrFun (not_takes_unchanged takes) k)) fun both => takes both.2
    · exact iff_of_false (unrepaired (ingest_below (by omega))) fun both => past both.1

end

section Samples
open Codecs

/-- A hash of 32 ones. -/
def ones : B256 := ⟨List.replicate 32 1, List.length_replicate⟩

/-- L1 with one batch, as it is there now, and with nothing else. -/
def newBatch : SequencerInboxBatch := { batch 0 0 [] with
  afterInboxAcc := ones
  dataLocation := 1
  serialized := [] }

def reorgedL1 : L1Calls where
  delayedBridge := {
    getMessageCount := fun _ => .ok 0
    getAccumulator := fun _ _ => .error .rpc
    lookupMessagesInRange := fun _ _ => .ok [] }
  backfill := fun _ _ => .ok []
  sequencerInbox := {
    getBatchCount := fun _ => .ok 1
    getAccumulator := fun _ _ => .ok newBatch.afterInboxAcc
    lookupBatchesInRange := fun _ _ => .ok [newBatch]
    getSequencerMessageBytesInBlock := fun _ _ _ hash => .ok (rlpEncodeVec [0, 9], hash)
    getTxInput := fun _ => .error .rpc }

/-- A reader with a batch that L1 had before. -/
def staleReader : InboxReader where
  tracker := final (InboxTracker.addSequencerBatchesAndStream [batch 0 0 [[0, 7]]] initialTracker)
  firstMessageBlock := 0
  caughtUp := false
  lastSeenBatchCount := 0
  lastReadBatchCount := 0

def defaultConfig : InboxReaderConfig := ⟨0, 1, 200, 500, 5000⟩

/-- Batch 0 is still the old one after the iteration. -/
theorem stale_batch_stays : ¬ ∀ i b, 0 ≤ i → [newBatch][i]? = some b → ∃ m,
    (final (iterate defaultConfig true reorgedL1 10 ⟨1, 200⟩ staleReader)).tracker.db.get
      .sequencerBatchMeta i = some m ∧ m.accumulator = b.afterInboxAcc := by
  intro repaired
  have old : (final (iterate defaultConfig true reorgedL1 10 ⟨1, 200⟩ staleReader)).tracker.db.get
      .sequencerBatchMeta 0 = some ⟨.zero, 1, 0, 0⟩ := by decide +kernel
  obtain ⟨m, found, agrees⟩ := repaired 0 newBatch le_rfl rfl
  cases old.symm.trans found
  exact absurd agrees (by decide)

/-- A batch that reads the only delayed message, as the tracker has it and as L1 has it after a reorg. -/
def oldSecondBatch : SequencerInboxBatch := { batch 1 1 [] with afterDelayedAcc := accumulator [zeroMessage] }

def newSecondBatch : SequencerInboxBatch := { oldSecondBatch with
  afterInboxAcc := ones
  dataLocation := 1
  serialized := [] }

/-- L1 has a second delayed message too, so both are added again. -/
def repairingL1 : L1Calls where
  delayedBridge := {
    getMessageCount := fun _ => .ok 2
    getAccumulator := fun i _ => .ok (accumulator (List.replicate (i + 1) zeroMessage))
    lookupMessagesInRange := fun _ _ =>
      .ok [⟨0, .zero, zeroMessage.msg⟩, ⟨1, accumulator [zeroMessage], zeroMessage.msg⟩] }
  backfill := fun _ _ => .ok []
  sequencerInbox := {
    getBatchCount := fun _ => .ok 2
    getAccumulator := fun _ _ => .ok newSecondBatch.afterInboxAcc
    lookupBatchesInRange := fun _ _ => .ok [newSecondBatch]
    getSequencerMessageBytesInBlock := fun _ _ _ hash => .ok (rlpEncodeVec [0, 9], hash)
    getTxInput := fun _ => .error .rpc }

/-- A tracker with the message and two batches, of which the streamer has the first. -/
def oldTracker : InboxTracker :=
  final (InboxTracker.addSequencerBatches [oldSecondBatch]
    (final (InboxTracker.addSequencerBatchesAndStream [batch 0 0 [[0, 7]]]
      (final (InboxTracker.addDelayedMessages (delayedInputs 0 .zero [zeroMessage]) none initialTracker)))))

def oldReader : InboxReader := { staleReader with tracker := oldTracker }

theorem oldReader_tracker : oldReader.tracker = oldTracker := by rw [oldReader]

theorem steady_of_empty {t : InboxTracker} {b : SequencerInboxBatch} {m : BatchMetadata}
    (before : storedPrevious t.db b.sequenceNumber = some m) (enough : m.delayedMessageCount ≤ b.afterDelayedCount) :
    Steady t.db [b] := by
  intro m' found
  cases before.symm.trans found
  simpa [Nondecreasing] using enough

theorem oldReader_represents : ∃ l, Represents oldReader.tracker l := by
  rw [oldReader_tracker]
  have fresh : CombinedReachable initialTracker := .init (.refl _ _) fun i _ => Store.get_empty _ _
  have delayed := fresh.step (.tracker (.addDelayedMessages (delayedInputs 0 .zero [zeroMessage])))
  have first := delayed.step (.ingest [batch 0 0 [[0, 7]]] (steady_of_empty rfl le_rfl))
  have second := first.step (.tracker (.addSequencerBatches [oldSecondBatch]
    (steady_of_empty (m := ⟨.zero, 1, 0, 0⟩) (by decide +kernel) (by decide))))
  exact second.coherent.1

theorem oldReader_batch : oldReader.tracker.db.get .sequencerBatchMeta 1 = some ⟨.zero, 2, 1, 0⟩ := by decide +kernel

/-- Whether the window starts where the message store ends and its first batch gives a message. -/
def startsThere (u : InboxTracker) : List SequencerInboxBatch → Bool
  | [] => false
  | first :: rest =>
    isOk (InboxTracker.addSequencerBatchesAndStream (first :: rest) u) &&
    (match InboxTracker.previousMetadata first.sequenceNumber u with
      | .ok m _ => u.db.count .messageCount == some m.messageCount
      | .error .. => false) &&
    match parseSequencerMessage first.serialized with
    | .ok seq => !(seq.segments.find? isSubmessage).any isUnknown
    | .error _ => true

theorem takes_of_startsThere {u : InboxTracker} {batches : List SequencerInboxBatch}
    (starts : startsThere u batches = true) : Takes u batches := by
  cases batches with
  | nil => contradiction
  | cons first rest =>
    simp only [startsThere, Bool.and_eq_true] at starts
    obtain ⟨⟨ok, aligned⟩, known⟩ := starts
    refine ⟨ok, ?_, ?_⟩
    · split at aligned
      · rename_i m t₁ previous
        exact ⟨m, t₁, _, previous, beq_iff_eq.mp aligned, .inl rfl⟩
      · contradiction
    · rintro ⟨seq, parsed, unknown⟩
      rw [parsed] at known
      simp only [unknown] at known
      contradiction

/-- The iteration adds both messages again and takes L1's second batch. -/
theorem replaced_batch_repaired : ∃ m,
    (final (iterate defaultConfig true repairingL1 10 ⟨1, 200⟩ oldReader)).tracker.db.get .sequencerBatchMeta 1 =
      some m ∧ m.accumulator = newSecondBatch.afterInboxAcc := by
  obtain ⟨l, represents⟩ := oldReader_represents
  have counted : l.delayed.length < 2 ^ 64 := by
    have one : oldReader.tracker.db.count .delayedMessageCount = some 1 := by decide +kernel
    rw [Option.some.inj (represents.delayedCount.symm.trans one)]
    decide
  have checked := ok_of_value (show value? (check repairingL1 10 oldReader.tracker) =
    some (⟨false, true⟩, ⟨true, false, 2, 2⟩) by decide +kernel)
  have fetched := ok_of_value (show value? (fetchMissingDelayed repairingL1 ⟨false, true⟩ 1 10
    (final (check repairingL1 10 oldReader.tracker))) = some 2 by decide +kernel)
  have expected := ok_of_value (show value? (expectedBatch (final (fetchMissingDelayed repairingL1 ⟨false, true⟩ 1 10
    (final (check repairingL1 10 oldReader.tracker))))) = some 1 by decide +kernel)
  have reads : InboxTracker.getDelayedCount (final (fetchMissingDelayed repairingL1 ⟨false, true⟩ 1 10
    (final (check repairingL1 10 oldReader.tracker)))).db = .ok 2 := by decide +kernel
  have listed : [batch 0 0 [[0, 7]], newSecondBatch][1]? = some newSecondBatch := rfl
  have words : Numbered [batch 0 0 [[0, 7]], newSecondBatch] := by
    intro b member
    rcases List.mem_pair.mp member with rfl | rfl
    · decide
    · decide
  have differs : (BatchMetadata.mk .zero 2 1 0).accumulator ≠ newSecondBatch.afterInboxAcc := by decide
  have left : leftUpTo repairingL1 10 1 10 2 < 1 := by decide
  refine (reorg_repaired_iff represents counted rfl words oldReader_batch listed differs checked rfl rfl fetched rfl
    (.refl _) (Nat.le_refl 1) rfl ?_ expected).mpr
    ⟨left, takes_of_startsThere (by decide +kernel)⟩ 1 newSecondBatch le_rfl listed
  intro b member count stored
  cases List.mem_singleton.mp member
  cases reads.symm.trans stored
  decide

end Samples
end InboxReader
end NitroRs
