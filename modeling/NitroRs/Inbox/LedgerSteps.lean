import NitroRs.Inbox.Ledger

/-! Each tracker operation does to its tables what it should do to the ledger
that they represent. -/
namespace NitroRs
open KeyValue Outcome
open Checked (wrappingAdd64)

variable [Externals] {t : InboxTracker} {l : Ledger} {n : Nat}

/-- The batch tables after the immediate deletion of `set_delayed_count_reorg_and_write_batch`. -/
structure BatchesCut (t' : InboxTracker) (batches : List BatchMetadata) : Prop where
  metas : ∀ i, t'.db.get .sequencerBatchMeta i = batches[i]?
  cache : ∀ k m, t'.batchMetaCache.peek k = some m → batches[k]? = some m

theorem deleteBatchMetadata_cut (represents : RepresentsWith n t l) (count : Nat) :
    ∃ t', InboxTracker.deleteBatchMetadataStartingAt count t = .ok () t' ∧
      t'.db = t.db.write (t.db.deleteFrom .sequencerBatchMeta count) ∧
      BatchesCut t' (l.batches.take count) ∧ Agree .streamer t.db t'.db ∧
      ∀ table, table ≠ .sequencerBatchMeta → t'.db.get table = t.db.get table := by
  obtain ⟨t', deleted, db, metas, cache⟩ := InboxTracker.deleteBatchMetadataStartingAt_spec count t
  have cut (j : Nat) : (l.batches.take count)[j]? = if count ≤ j then none else l.batches[j]? := by
    rw [List.getElem?_take]
    by_cases past : count ≤ j
    · rw [if_pos past, if_neg (by omega)]
    · rw [if_neg past, if_pos (by omega)]
  refine ⟨t', deleted, db, ⟨?_, ?_⟩, ?_, ?_⟩
  · intro j
    rw [metas, cut, represents.metas]
  · intro k m hit
    rw [cache] at hit
    split at hit
    · contradiction
    · rename_i kept
      have stored := represents.cache k m hit
      have inside : ¬ count ≤ k := fun past => kept ⟨past, by simp [Store.has, stored]⟩
      rw [cut, if_neg inside, ← represents.metas, stored]
  · rw [db]
    exact Agree.write fun op member => by rw [owner_of_deleteFrom op member]; decide
  · intro table other
    rw [db, Store.get_write_deleteFrom_of_ne _ _ _ other]

/-- The entries that `add_delayed_messages` queues. -/
def delayedPuts : Nat → B256 → List DelayedMessage → List DbOp
  | _, _, [] => []
  | pos, acc, d :: ds =>
      .put .rlpDelayedMessage pos (acc.val ++ d.bytes) :: delayedPuts (pos + 1) (accumulate acc d) ds

theorem delayedPuts_place (pos : Nat) (acc : B256) (ds : List DelayedMessage) :
    ∀ op ∈ delayedPuts pos acc ds, op.place = .table .rlpDelayedMessage := by
  induction ds generalizing pos acc with
  | nil => exact fun op member => nomatch member
  | cons d ds ih =>
    intro op member
    rcases List.mem_cons.mp member with rfl | later
    · rfl
    · exact ih _ _ op later

theorem delayedPuts_off (pos : Nat) (acc : B256) (ds : List DelayedMessage) :
    OffBatchSide (delayedPuts pos acc ds) := by
  intro op member
  rw [delayedPuts_place pos acc ds op member]
  decide

theorem get_write_delayedPuts (db : Db) (pos : Nat) (acc : B256) (ds : List DelayedMessage) (j : Nat) :
    (db.write (delayedPuts pos acc ds)).get .rlpDelayedMessage j =
      if pos ≤ j ∧ j < pos + ds.length then
        (ds[j - pos]?).map fun d => ((ds.take (j - pos)).foldl accumulate acc).val ++ d.bytes
      else db.get .rlpDelayedMessage j := by
  induction ds generalizing db pos acc with
  | nil =>
    rw [if_neg (by simp)]
    rfl
  | cons d ds ih =>
    rw [delayedPuts, Store.write_cons, ih, Store.get_apply_put]
    simp only [List.length_cons]
    rcases Nat.lt_trichotomy j pos with below | rfl | above
    · rw [if_neg (by omega), if_neg (by omega), if_neg (by omega)]
    · rw [if_neg (by omega), if_pos rfl, if_pos (by omega), Nat.sub_self]
      rfl
    · obtain ⟨k, rfl⟩ : ∃ k, j = pos + 1 + k := ⟨j - (pos + 1), by omega⟩
      have shift : pos + 1 + k - pos = k + 1 := by omega
      have shift' : pos + 1 + k - (pos + 1) = k := by omega
      rw [shift, shift']
      by_cases inside : k < ds.length
      · rw [if_pos (by omega), if_pos (by omega)]
        rfl
      · rw [if_neg (by omega), if_neg (by omega), if_neg (by omega)]

/-- The delayed side of a ledger after those operations. -/
structure DelayedSet (n : Nat) (db : Db) (l : Ledger) : Prop where
  delayedCount : db.count .delayedMessageCount = some n
  entries : ∀ i, db.get .rlpDelayedMessage i = l.entry i
  noLegacy : ∀ i, db.get .legacyDelayedMessage i = none

theorem addDelayed_entry {pos : Nat} {ds : List DelayedMessage} (inside : pos ≤ l.delayed.length ∨ ds = [])
    (j : Nat) : (l.addDelayed pos ds).entry j =
      if pos + ds.length ≤ j then none
      else if pos ≤ j then
        (ds[j - pos]?).map fun d =>
          ((ds.take (j - pos)).foldl accumulate (accumulator (l.delayed.take pos))).val ++ d.bytes
      else l.entry j := by
  unfold Ledger.entry Ledger.addDelayed
  simp only
  rcases inside with inside | rfl
  · have front : (l.delayed.take pos).length = pos := List.length_take_of_le inside
    split
    · rw [List.getElem?_eq_none (by simp only [List.length_append, front]; omega)]
      rfl
    · split
      · rw [List.getElem?_append_right (by omega), front, List.take_append,
          List.take_of_length_le (by omega), front]
        simp only [accumulator, List.foldl_append]
      · rw [List.getElem?_append_left (by omega), List.take_append_of_le_length (by omega),
          List.take_take, List.getElem?_take, if_pos (by omega), Nat.min_eq_left (by omega)]
  · rw [List.append_nil, List.length_nil, Nat.add_zero, List.getElem?_take]
    by_cases past : pos ≤ j
    · rw [if_neg (by omega), if_pos past]
      rfl
    · rw [if_pos (by omega), if_neg past, if_neg past, List.take_take, Nat.min_eq_left (by omega)]

theorem RepresentsWith.delayedSet (represents : RepresentsWith n t l) : DelayedSet n t.db l :=
  ⟨represents.delayedCount, represents.entries, represents.noLegacy⟩

/-- The delayed side does not see changes of the batch side. -/
theorem DelayedSet.write {db : Db} (set : DelayedSet n db l) {ops : List DbOp} (side : OnBatchSide ops) :
    DelayedSet n (db.write ops) l := by
  constructor
  · rw [db.count_write_of_untouched (side.untouched (by decide)), set.delayedCount]
  · intro i
    rw [db.get_write_of_untouched (side.untouched (by decide)), set.entries]
  · intro i
    rw [db.get_write_of_untouched (side.untouched (by decide)), set.noLegacy]

theorem delayedOps_set {before db : Db} (set : DelayedSet n before l) {pos : Nat}
    {ds : List DelayedMessage} (inside : pos ≤ l.delayed.length ∨ ds = [])
    (same : ∀ table, table ≠ .sequencerBatchMeta → db.get table = before.get table) :
    DelayedSet (pos + ds.length) (db.write (delayedOps before (delayedPuts pos (accumulator (l.delayed.take pos)) ds)
      (pos + ds.length))) (l.addDelayed pos ds) := by
  have puts := delayedPuts_place pos (accumulator (l.delayed.take pos)) ds
  simp only [delayedOps, Store.write_append]
  constructor
  · simp
  · intro i
    rw [addDelayed_entry inside]
    simp only [Store.write_cons, Store.write_nil, Store.get_apply_setCount]
    rw [Store.get_write_deleteFrom_of_ne _ _ _ (by decide),
      Store.get_write_deleteFrom_of_ne _ _ _ (by decide), Store.get_write_deleteFrom,
      get_write_delayedPuts, same _ (by decide), set.entries]
    by_cases past : pos + ds.length ≤ i
    · rw [if_pos past, if_neg (show ¬ (pos ≤ i ∧ i < pos + ds.length) by omega)]
      cases found : l.entry i <;> simp [past, Store.has, set.entries, found]
    · rw [if_neg past, if_neg (by omega)]
      by_cases new : pos ≤ i
      · rw [if_pos ⟨new, by omega⟩, if_pos new]
      · rw [if_neg (by omega), if_neg new]
  · intro i
    simp only [Store.write_cons, Store.write_nil, Store.get_apply_setCount]
    rw [Store.get_write_deleteFrom, Store.get_write_deleteFrom_of_ne _ _ _ (by decide),
      Store.get_write_deleteFrom_of_ne _ _ _ (by decide),
      Store.get_write_of_untouched _ fun op member => by rw [puts op member]; decide,
      same _ (by decide), set.noLegacy]
    simp

/-- These operations touch nothing of the batch side. -/
theorem delayedOps_place (db : Db) (pos new : Nat) (acc : B256) (ds : List DelayedMessage) :
    ∀ op ∈ delayedOps db (delayedPuts pos acc ds) new,
      op.place ∈ [.table .rlpDelayedMessage, .table .parentChainBlockNumber,
        .table .legacyDelayedMessage, .counter .delayedMessageCount] := by
  intro op member
  simp only [delayedOps, List.mem_append, List.mem_singleton] at member
  rcases member with (((puts | rlp) | parent) | legacy) | rfl
  · rw [delayedPuts_place pos acc ds op puts]
    decide
  · rw [db.deleteFrom_place _ _ op rlp]
    decide
  · rw [db.deleteFrom_place _ _ op parent]
    decide
  · rw [db.deleteFrom_place _ _ op legacy]
    decide
  · simp [Op.place]

theorem delayedOps_owner (db : Db) (pos new : Nat) (acc : B256) (ds : List DelayedMessage) :
    ∀ op ∈ delayedOps db (delayedPuts pos acc ds) new, DbOp.owner op = .tracker := by
  intro op member
  have place := delayedOps_place db pos new acc ds op member
  simp only [List.mem_cons, List.not_mem_nil, or_false] at place
  rcases place with place | place | place | place <;> rw [DbOp.owner, place] <;> rfl

/-- A tracker whose two sides hold the parts of a ledger represents it. -/
theorem RepresentsWith.of_parts {t' : InboxTracker} {l' : Ledger} (delayed : DelayedSet n t'.db l')
    (batchCount : t'.db.count .sequencerBatchCount = some l'.batches.length)
    (cut : BatchesCut t' l'.batches)
    (index : ∀ k i, t'.db.get .delayedSequenced k = some i ↔
      Ascending.Rises BatchMetadata.delayedMessageCount l'.batches k i) : RepresentsWith n t' l' where
  delayedCount := delayed.delayedCount
  batchCount := batchCount
  entries := delayed.entries
  noLegacy := delayed.noLegacy
  metas := cut.metas
  index := index
  cache k m hit := (cut.metas k).trans (cut.cache k m hit)

theorem setDelayedCount_represents (represents : RepresentsWith n t l) {pos : Nat}
    {ds : List DelayedMessage} (inside : pos ≤ l.delayed.length ∨ ds = []) :
    ∃ t' ops, InboxTracker.setDelayedCountReorgAndWriteBatch
        (delayedPuts pos (accumulator (l.delayed.take pos)) ds) pos (pos + ds.length) true t =
          .ok ops t' ∧
      RepresentsWith (pos + ds.length) { t' with db := t'.db.write ops } (l.addDelayed pos ds) ∧
      Agree .streamer t.db (t'.db.write ops) := by
  have owned := delayedOps_owner t.db pos (pos + ds.length) (accumulator (l.delayed.take pos)) ds
  have tables := represents.batchTables.after_delayed pos (pos + ds.length)
    (delayedPuts_off pos (accumulator (l.delayed.take pos)) ds)
  unfold delayedWrites at tables
  unfold InboxTracker.setDelayedCountReorgAndWriteBatch
  simp only [bind_read, if_neg (show ¬ pos + ds.length < pos by omega)]
  cases range : t.db.range .delayedSequenced (wrappingAdd64 pos 1) with
  | nil =>
    have kept : l.batchesUpTo (keptUpTo pos) = l.batches := represents.batchTables.none_dropped range
    have set := delayedOps_set represents.delayedSet inside fun _ _ => rfl
    simp only [range] at tables
    refine ⟨t, _, rfl, ?_, ?_⟩
    · refine RepresentsWith.of_parts set tables.count ⟨tables.metas, ?_⟩ tables.index
      intro k m hit
      simpa only [Ledger.addDelayed, kept, represents.metas] using represents.cache k m hit
    · exact Agree.write fun op member => by
        rw [owned op member]
        decide
  | cons entry rest =>
    obtain ⟨k, first⟩ := entry
    obtain rfl : first = (l.batchesUpTo (keptUpTo pos)).length := represents.batchTables.first_dropped range
    obtain ⟨t', deleted, db, cut, frame, same⟩ :=
      deleteBatchMetadata_cut represents (l.batchesUpTo (keptUpTo pos)).length
    have prefixed : l.batches.take (l.batchesUpTo (keptUpTo pos)).length = l.batchesUpTo (keptUpTo pos) :=
      Ascending.upTo_eq_take.symm
    rw [prefixed] at cut
    have set := delayedOps_set represents.delayedSet inside same
    have side : OnBatchSide (t.db.deleteFrom .delayedSequenced (wrappingAdd64 pos 1) ++
        [.setCount .sequencerBatchCount (l.batchesUpTo (keptUpTo pos)).length]) :=
      (onBatchSide_deleteFrom _ _ (.inr rfl)).append (onBatchSide_setCount _)
    refine ⟨t', delayedOps t.db (delayedPuts pos (accumulator (l.delayed.take pos)) ds)
      (pos + ds.length) ++ t.db.deleteFrom .delayedSequenced (wrappingAdd64 pos 1) ++
      [.setCount .sequencerBatchCount (l.batchesUpTo (keptUpTo pos)).length], ?_, ?_, ?_⟩
    · simp only [Bool.not_true, Bool.false_eq_true, if_false, bind_ok deleted]
      rfl
    · simp only [range] at tables
      rw [Store.write_append, ← db] at tables
      have set := set.write side
      rw [← Store.write_append, ← List.append_assoc] at set
      exact RepresentsWith.of_parts set tables.count ⟨tables.metas, cut.cache⟩ tables.index
    · apply frame.trans
      apply Agree.write
      intro op member
      rw [List.append_assoc] at member
      rcases List.mem_append.mp member with delayed | index
      · rw [owned op delayed]
        decide
      · exact side.owner op index

/-- The messages of a list as the reader passes them. -/
def delayedInputs : Nat → B256 → List DelayedMessage → List DelayedInput
  | _, _, [] => []
  | pos, acc, d :: ds => (pos, acc, d.bytes) :: delayedInputs (pos + 1) (accumulate acc d) ds

@[simp] theorem length_delayedInputs (pos : Nat) (acc : B256) (ds : List DelayedMessage) :
    (delayedInputs pos acc ds).length = ds.length := by
  induction ds generalizing pos acc with
  | nil => rfl
  | cons d ds ih => simp only [delayedInputs, List.length_cons, ih]

theorem queueDelayed_delayedInputs (pos : Nat) (acc : B256) (ds : List DelayedMessage) :
    InboxTracker.queueDelayed pos acc (delayedInputs pos acc ds) = .ok (delayedPuts pos acc ds) := by
  induction ds generalizing pos acc with
  | nil => rfl
  | cons d ds ih =>
    have step : hashAfter acc (delayedMessageBodyHash d.msg).val = accumulate acc d := rfl
    simp only [delayedInputs, InboxTracker.queueDelayed, ne_eq, not_true_eq_false, if_false, d.parsed,
      step, ih]
    rfl

/-- What the checks of `add_delayed_messages` accept is a list of parsed messages
that continues the accumulator. -/
theorem inputs_of_queueDelayed {pos : Nat} {acc : B256} {inputs : List DelayedInput} {ops : List DbOp}
    (queued : InboxTracker.queueDelayed pos acc inputs = .ok ops) :
    ∃ ds : List DelayedMessage, inputs = delayedInputs pos acc ds ∧ ops = delayedPuts pos acc ds := by
  induction inputs generalizing pos acc ops with
  | nil =>
    cases queued
    exact ⟨[], rfl, rfl⟩
  | cons input rest ih =>
    obtain ⟨seqnum, beforeAcc, bytes⟩ := input
    simp only [InboxTracker.queueDelayed] at queued
    split at queued
    · contradiction
    · rename_i here
      obtain rfl := not_not.mp here
      split at queued
      · contradiction
      · rename_i msg parsed
        split at queued
        · contradiction
        · rename_i matching
          obtain rfl := not_not.mp matching
          cases tail : InboxTracker.queueDelayed (seqnum + 1)
            (hashAfter acc (delayedMessageBodyHash msg).val) rest with
          | error e =>
            rw [tail] at queued
            contradiction
          | ok ops' =>
            rw [tail] at queued
            cases queued
            obtain ⟨ds, rfl, rfl⟩ := ih tail
            exact ⟨⟨bytes, msg, parsed⟩ :: ds, rfl, rfl⟩

theorem queueDelayed_eq_ok {pos : Nat} {acc : B256} {inputs : List DelayedInput} {ops : List DbOp}
    (queued : InboxTracker.queueDelayed pos acc inputs = .ok ops) :
    ∃ ds : List DelayedMessage, ds.length = inputs.length ∧ ops = delayedPuts pos acc ds := by
  obtain ⟨ds, rfl, puts⟩ := inputs_of_queueDelayed queued
  exact ⟨ds, (length_delayedInputs pos acc ds).symm, puts⟩

theorem previousAccumulator_of_le (represents : RepresentsWith n t l) {pos : Nat}
    (inside : pos ≤ l.delayed.length) :
    InboxTracker.previousAccumulator t.db .zero pos = .ok (accumulator (l.delayed.take pos)) := by
  cases pos with
  | zero => rfl
  | succ pos =>
    rw [InboxTracker.previousAccumulator, if_neg (Nat.succ_ne_zero pos), Nat.add_sub_cancel,
      represents.getDelayedAcc, if_pos (show pos < l.delayed.length from inside)]

theorem previousAccumulator_of_lt (represents : RepresentsWith n t l) {pos : Nat}
    (outside : l.delayed.length < pos) :
    InboxTracker.previousAccumulator t.db .zero pos = .error .missingPreviousDelayed := by
  rw [InboxTracker.previousAccumulator, if_neg (by omega), represents.getDelayedAcc,
    if_neg (by omega)]

omit [Externals] in
theorem writeBatch_apply (ops : List DbOp) (t : InboxTracker) :
    InboxTracker.writeBatch ops t = .ok () { t with db := t.db.write ops } := rfl

omit [Externals] in
theorem skipBefore_head {firstKeep pos : Nat} {acc acc' before : B256} {bytes : Bytes}
    {messages rest : List DelayedInput}
    (kept : InboxTracker.skipBefore firstKeep acc messages = (acc', (pos, before, bytes) :: rest)) :
    firstKeep ≤ pos ∧ (pos = 0 → acc' = acc) := by
  induction messages generalizing acc with
  | nil => cases kept
  | cons input messages ih =>
    obtain ⟨front, beforeAcc, data⟩ := input
    simp only [InboxTracker.skipBefore] at kept
    split at kept
    · have behind := (ih kept).1
      exact ⟨behind, fun init => by omega⟩
    · cases kept
      exact ⟨by omega, fun init => if_neg (by omega)⟩

/-- Snap sync only leaves messages out. -/
theorem addDelayedMessages_snapSync (t : InboxTracker) (messages : List DelayedInput)
    (snapSync : Option SnapSyncConfig) :
    InboxTracker.addDelayedMessages messages snapSync t =
      InboxTracker.addDelayedMessages (InboxTracker.snapSyncSkip snapSync messages).2 none t := by
  have starts (startAcc before : B256) (bytes : Bytes) (rest : List DelayedInput) (pos : Nat)
      (kept : InboxTracker.snapSyncSkip snapSync messages = (startAcc, (pos, before, bytes) :: rest)) :
      InboxTracker.previousAccumulator t.db startAcc pos =
        InboxTracker.previousAccumulator t.db .zero pos := by
    rw [InboxTracker.previousAccumulator, InboxTracker.previousAccumulator]
    split
    · rename_i init
      unfold InboxTracker.snapSyncSkip at kept
      split at kept
      · split at kept
        · rw [(skipBefore_head kept).2 init]
        · rw [(Prod.mk.inj kept).1]
      · rw [(Prod.mk.inj kept).1]
    · rfl
  rw [InboxTracker.addDelayedMessages, InboxTracker.addDelayedMessages, bind_read, bind_read]
  rcases skipped : InboxTracker.snapSyncSkip snapSync messages with
    ⟨startAcc, _ | ⟨⟨pos, before, bytes⟩, rest⟩⟩
  · rfl
  · simp only [InboxTracker.snapSyncSkip, starts startAcc before bytes rest pos skipped]

/-- Messages that continue the stored ones are queued. -/
theorem addDelayedMessages_continuing {pos : Nat} {acc : B256} {ds : List DelayedMessage}
    (previous : InboxTracker.previousAccumulator t.db .zero pos = .ok acc) (some : ds ≠ []) :
    InboxTracker.addDelayedMessages (delayedInputs pos acc ds) none t =
      (InboxTracker.setDelayedCountReorgAndWriteBatch (delayedPuts pos acc ds) pos (pos + ds.length) true
        >>= InboxTracker.writeBatch) t := by
  obtain ⟨d, ds, rfl⟩ := List.exists_cons_of_ne_nil some
  have queued := queueDelayed_delayedInputs pos acc (d :: ds)
  have length := length_delayedInputs pos acc (d :: ds)
  rw [delayedInputs] at queued length ⊢
  rw [InboxTracker.addDelayedMessages, bind_read]
  simp only [InboxTracker.snapSyncSkip]
  rw [previous, bind_lift_ok, queued, bind_lift_ok, length]

/-- A list is rejected, empty or continues the stored messages. -/
theorem addDelayedMessages_inputs (t : InboxTracker) (inputs : List DelayedInput) :
    (∃ e, InboxTracker.addDelayedMessages inputs none t = .error e t) ∨ inputs = [] ∨
    ∃ pos acc ds, ds ≠ [] ∧ InboxTracker.previousAccumulator t.db .zero pos = .ok acc ∧
      inputs = delayedInputs pos acc ds := by
  cases inputs with
  | nil => exact .inr (.inl rfl)
  | cons input rest =>
    obtain ⟨pos, before, bytes⟩ := input
    rw [InboxTracker.addDelayedMessages, bind_read]
    simp only [InboxTracker.snapSyncSkip]
    cases previous : InboxTracker.previousAccumulator t.db .zero pos with
    | error e => exact .inl ⟨e, rfl⟩
    | ok acc =>
      rw [bind_lift_ok]
      cases queued : InboxTracker.queueDelayed pos acc ((pos, before, bytes) :: rest) with
      | error e => exact .inl ⟨e, rfl⟩
      | ok ops =>
        obtain ⟨ds, given, _⟩ := inputs_of_queueDelayed queued
        refine .inr (.inr ⟨pos, acc, ds, ?_, previous, given⟩)
        rintro rfl
        contradiction

/-- `add_delayed_messages` either fails and changes nothing, or replaces the
delayed messages from its first position on. -/
theorem addDelayedMessages_represents (represents : RepresentsWith n t l) (inputs : List DelayedInput) :
    (∃ e, InboxTracker.addDelayedMessages inputs none t = .error e t) ∨
    (inputs = [] ∧ InboxTracker.addDelayedMessages inputs none t = .ok () t) ∨
    ∃ pos before bytes rest ds t', inputs = (pos, before, bytes) :: rest ∧
      InboxTracker.addDelayedMessages inputs none t = .ok () t' ∧ pos ≤ l.delayed.length ∧
      inputs = delayedInputs pos (accumulator (l.delayed.take pos)) ds ∧
      Represents t' (l.addDelayed pos ds) ∧ Agree .streamer t.db t'.db := by
  rcases addDelayedMessages_inputs t inputs with
    rejected | rfl | ⟨pos, acc, ds, some, previous, rfl⟩
  · exact .inl rejected
  · exact .inr (.inl ⟨rfl, rfl⟩)
  · have inside : pos ≤ l.delayed.length := by
      by_contra outside
      rw [previousAccumulator_of_lt represents (by omega)] at previous
      contradiction
    cases (previousAccumulator_of_le represents inside).symm.trans previous
    obtain ⟨t', ops, set, represents', frame⟩ := setDelayedCount_represents represents (.inl inside : _ ∨ ds = [])
    rw [← Ledger.length_addDelayed inside] at represents'
    have added := (addDelayedMessages_continuing previous some).trans
      ((bind_ok set).trans (writeBatch_apply ops t'))
    obtain ⟨d, ds, rfl⟩ := List.exists_cons_of_ne_nil some
    exact .inr (.inr ⟨pos, _, d.bytes, _, d :: ds, _, rfl, added, inside, rfl, represents', frame⟩)

/-- A delayed reorg sets any count that it is called with. -/
theorem reorgDelayedTo_represents (represents : RepresentsWith n t l) (count : Nat) :
    ∃ t', InboxTracker.reorgDelayedTo count t = .ok () t' ∧
      RepresentsWith count t' (l.reorgDelayed count) ∧ Agree .streamer t.db t'.db := by
  obtain ⟨t', ops, set, represents', frame⟩ :=
    setDelayedCount_represents represents (.inr rfl : count ≤ _ ∨ ([] : List DelayedMessage) = [])
  refine ⟨_, ?_, represents', frame⟩
  unfold InboxTracker.reorgDelayedTo
  exact (bind_ok set).trans (writeBatch_apply _ _)

/-- To a count that has been reached, it cuts the ledger. -/
theorem reorgDelayedTo_inside (represents : RepresentsWith n t l) {count : Nat} (inside : count ≤ l.delayed.length) :
    ∃ t', InboxTracker.reorgDelayedTo count t = .ok () t' ∧
      Represents t' (l.reorgDelayed count) ∧ Agree .streamer t.db t'.db := by
  obtain ⟨t', reorged, represents', frame⟩ := reorgDelayedTo_represents represents count
  have length : (l.reorgDelayed count).delayed.length = count := Ledger.length_addDelayed inside
  refine ⟨t', reorged, ?_, frame⟩
  rw [Represents, length]
  exact represents'

/-- The metadata in front of a batch, if it is stored. -/
def Ledger.previous (l : Ledger) : Nat → Option BatchMetadata
  | 0 => some .zero
  | pos + 1 => l.batches[pos]?

omit [Externals] in
theorem Ledger.previous_eq_some {pos : Nat} {m : BatchMetadata} (found : l.previous pos = some m) :
    pos ≤ l.batches.length ∧
      Ascending.before BatchMetadata.delayedMessageCount l.batches pos = m.delayedMessageCount := by
  cases pos with
  | zero =>
    cases found
    exact ⟨Nat.zero_le _, rfl⟩
  | succ pos =>
    have found : l.batches[pos]? = some m := found
    exact ⟨(List.getElem?_eq_some_iff.mp found).1, by simp only [Ascending.before, found]; rfl⟩

theorem previousMetadata_represents (represents : RepresentsWith n t l) (pos : Nat) :
    (∃ m t', l.previous pos = some m ∧ InboxTracker.previousMetadata pos t = .ok m t' ∧
      t'.db = t.db ∧ RepresentsWith n t' l) ∨
    (l.previous pos = none ∧ ∃ e, InboxTracker.previousMetadata pos t = .error e t) := by
  cases pos with
  | zero => exact .inl ⟨.zero, t, rfl, rfl, rfl, represents⟩
  | succ pos =>
    unfold InboxTracker.previousMetadata
    rw [if_pos (Nat.succ_pos pos), Nat.add_sub_cancel]
    rcases represents.getBatchMetadata pos with found | ⟨missing, failed⟩
    · exact .inl found
    · exact .inr ⟨missing, _, failed⟩

/-- The batches that pass the checks are numbered on from the first, and every
delayed message that they read is stored. -/
theorem checkBatches_eq_ok (represents : RepresentsWith n t l) {pos : Nat} {acc : B256}
    {batches : List SequencerInboxBatch}
    (checked : InboxTracker.checkBatches t.db pos acc batches = .ok ()) :
    ∀ b ∈ batches, b.afterDelayedCount ≤ l.delayed.length := by
  induction batches generalizing pos acc with
  | nil => exact fun b member => nomatch member
  | cons first later ih =>
    simp only [InboxTracker.checkBatches] at checked
    split at checked
    · contradiction
    · split at checked
      · contradiction
      · split at checked
        · contradiction
        · rename_i matching
          intro b member
          rcases List.mem_cons.mp member with rfl | member
          · by_contra outside
            apply matching
            refine ⟨by omega, ?_⟩
            rw [represents.getDelayedAcc, if_neg (by omega)]
            exact Option.some_ne_none _ |>.symm
          · exact ih checked b member

/-- The metadata of the batches, numbered on from the first: each entry is made
from its batch and the entry before it. -/
theorem describeBatches_eq_ok {db : Db} {pos : Nat} {acc : B256} {last : BatchMetadata}
    {batches : List SequencerInboxBatch} {metas : List (Nat × BatchMetadata)}
    (checked : InboxTracker.checkBatches db pos acc batches = .ok ())
    (described : InboxTracker.describeBatches last batches = .ok metas) :
    ∃ ms, metas = numberFrom pos ms ∧
      ms.map (·.delayedMessageCount) = batches.map (·.afterDelayedCount) ∧
      ∀ i b, batches[i]? = some b → b.sequenceNumber = pos + i ∧ ∃ prev seq,
        (last :: ms)[i]? = some prev ∧ parseSequencerMessage b.serialized = .ok seq ∧
        ms[i]? = some (InboxTracker.batchMetadata prev b seq) := by
  induction batches generalizing pos acc last metas with
  | nil =>
    cases described
    exact ⟨[], rfl, rfl, fun i b here => nomatch here⟩
  | cons b later ih =>
    simp only [InboxTracker.checkBatches] at checked
    split at checked
    · contradiction
    · rename_i here
      split at checked
      · contradiction
      · split at checked
        · contradiction
        · simp only [InboxTracker.describeBatches] at described
          split at described
          · contradiction
          · rename_i seq parsed
            cases tail : InboxTracker.describeBatches (InboxTracker.batchMetadata last b seq) later with
            | error e =>
              rw [tail] at described
              contradiction
            | ok rest =>
              rw [tail] at described
              cases described
              obtain ⟨ms, rfl, counts, entries⟩ := ih checked tail
              refine ⟨InboxTracker.batchMetadata last b seq :: ms, ?_, ?_, ?_⟩
              · rw [numberFrom, not_not.mp here]
              · rw [List.map_cons, List.map_cons, counts]
                rfl
              · intro i b' found
                cases i with
                | zero =>
                  cases found
                  exact ⟨not_not.mp here, last, seq, rfl, parsed, rfl⟩
                | succ i =>
                  obtain ⟨number, entry⟩ := entries i b' found
                  exact ⟨by omega, entry⟩

/-- The delayed counts of a list of batches never decrease, starting from `read`. -/
def Nondecreasing (read : Nat) (batches : List SequencerInboxBatch) : Prop :=
  (read :: batches.map (·.afterDelayedCount)).Pairwise (· ≤ ·)

omit [Externals] in
/-- New batches with such counts continue the ones in front of them. -/
theorem sorted_append {old : List BatchMetadata} {pos : Nat} {m : BatchMetadata}
    {batches : List SequencerInboxBatch} {metas : List BatchMetadata}
    (sorted : Ascending.Sorted BatchMetadata.delayedMessageCount old) (inside : pos ≤ old.length)
    (before : Ascending.before BatchMetadata.delayedMessageCount old pos = m.delayedMessageCount)
    (counts : metas.map (·.delayedMessageCount) = batches.map (·.afterDelayedCount))
    (steady : Nondecreasing m.delayedMessageCount batches) :
    Ascending.Sorted BatchMetadata.delayedMessageCount (old.take pos ++ metas) := by
  rw [Nondecreasing, ← counts, List.pairwise_cons] at steady
  refine List.pairwise_append.mpr ⟨sorted.sublist (List.take_sublist _ _),
    List.pairwise_map.mp steady.2, ?_⟩
  intro x front y new
  obtain ⟨i, short, rfl⟩ := List.mem_take_iff_getElem.mp front
  have low := Ascending.le_before sorted (List.getElem?_eq_getElem (by omega)) (show i < pos by omega)
    inside
  rw [before] at low
  exact low.trans (steady.1 _ (List.mem_map.mpr ⟨y, new, rfl⟩))

/-- The tables after the batches from a position on are replaced. -/
theorem writeBatches_represents (represents : RepresentsWith n t l) {pos : Nat} {m : BatchMetadata}
    (found : l.previous pos = some m) (metas : List BatchMetadata)
    (sorted : Ascending.Sorted BatchMetadata.delayedMessageCount (l.batches.take pos ++ metas))
    (bounded : ∀ m ∈ metas, m.delayedMessageCount ≤ l.delayed.length) {ops : List DbOp}
    (queued : ops = t.db.deleteFrom .delayedSequenced (m.delayedMessageCount + 1) ++
      InboxTracker.batchOps m (numberFrom pos metas) ++
      [.setCount .sequencerBatchCount (pos + metas.length)]) :
    ∃ t', InboxTracker.deleteBatchMetadataStartingAt (pos + metas.length) t = .ok () t' ∧
      RepresentsWith n ⟨t'.db.write ops, (numberFrom pos metas).foldl
        (fun cache entry => cache.put entry.1 entry.2) t'.batchMetaCache⟩
        (l.addBatches pos metas sorted bounded) ∧ Agree .streamer t.db (t'.db.write ops) := by
  obtain ⟨inside, before⟩ := Ledger.previous_eq_some found
  have front : (l.batches.take pos).length = pos := List.length_take_of_le inside
  obtain ⟨t', deleted, db, cut, frame, same⟩ :=
    deleteBatchMetadata_cut represents (pos + metas.length)
  have tables := represents.batchTables.after_batches inside before metas sorted
  rw [← queued, Store.write_append, ← db] at tables
  have side : OnBatchSide ops := by
    rw [queued]
    exact ((onBatchSide_deleteFrom _ _ (.inr rfl)).append (batchOps_place _ _)).append
      (onBatchSide_setCount _)
  have delayed : DelayedSet n t'.db l := by
    rw [db]
    exact represents.delayedSet.write (onBatchSide_deleteFrom _ _ (.inl rfl))
  refine ⟨t', deleted, ?_, frame.trans (Agree.write side.owner)⟩
  have untouched := delayed.write side
  refine RepresentsWith.of_parts ⟨untouched.delayedCount, untouched.entries, untouched.noLegacy⟩
    tables.count ⟨tables.metas, ?_⟩ tables.index
  intro k m' hit
  simp only [Ledger.addBatches]
  rcases Lru.LruCache.peek_foldl_put _ _ hit with new | ⟨absent, old⟩
  · obtain ⟨past, here⟩ := mem_numberFrom.mp new
    rw [List.getElem?_append_right (by omega), front]
    exact here
  · have old := cut.cache k m' old
    rw [List.getElem?_take] at old
    split at old
    · rename_i short
      have below : k < pos := by
        by_contra past
        apply absent
        have here : metas[k - pos]? = some metas[k - pos] :=
          List.getElem?_eq_getElem (by omega)
        exact List.mem_map.mpr ⟨(k, _), mem_numberFrom.mpr ⟨by omega, here⟩, rfl⟩
      rw [List.getElem?_append_left (by omega), List.getElem?_take, if_pos below]
      exact old
    · contradiction

/-- `add_sequencer_batches` either fails and keeps the tables, or replaces the
batches from its first sequence number on. -/
theorem addSequencerBatches_represents (represents : RepresentsWith n t l)
    {first : SequencerInboxBatch} {rest : List SequencerInboxBatch}
    (steady : ∀ m, l.previous first.sequenceNumber = some m →
      Nondecreasing m.delayedMessageCount (first :: rest)) :
    (∃ e t', InboxTracker.addSequencerBatches (first :: rest) t = .error e t' ∧ t'.db = t.db ∧
      RepresentsWith n t' l) ∨
    ∃ m metas t', ∃ sorted bounded, l.previous first.sequenceNumber = some m ∧
      InboxTracker.describeBatches m (first :: rest) =
        .ok (numberFrom first.sequenceNumber metas) ∧
      InboxTracker.addSequencerBatches (first :: rest) t = .ok () t' ∧
      RepresentsWith n t' (l.addBatches first.sequenceNumber metas sorted bounded) ∧
      Agree .streamer t.db t'.db := by
  unfold InboxTracker.addSequencerBatches
  rcases previousMetadata_represents represents first.sequenceNumber with
    ⟨m, t₀, found, read, db, represents₀⟩ | ⟨missing, e, failed⟩
  swap
  · exact .inl ⟨e, t, bind_error failed, rfl, represents⟩
  simp only [bind_ok read, bind_read]
  cases checked : InboxTracker.checkBatches t₀.db first.sequenceNumber m.accumulator
    (first :: rest) with
  | error e => exact .inl ⟨e, t₀, rfl, db, represents₀⟩
  | ok _ =>
    rw [bind_lift_ok]
    cases described : InboxTracker.describeBatches m (first :: rest) with
    | error e => exact .inl ⟨e, t₀, rfl, db, represents₀⟩
    | ok numbered =>
      rw [bind_lift_ok]
      right
      obtain ⟨metas, rfl, counts, _⟩ := describeBatches_eq_ok checked described
      have length : metas.length = (first :: rest).length := by
        simpa using congrArg List.length counts
      obtain ⟨inside, before⟩ := Ledger.previous_eq_some found
      have sorted := sorted_append l.sorted inside before counts (steady m found)
      have bounded : ∀ m' ∈ metas, m'.delayedMessageCount ≤ l.delayed.length := by
        intro m' member
        have count : m'.delayedMessageCount ∈ (first :: rest).map (·.afterDelayedCount) := by
          rw [← counts]
          exact List.mem_map_of_mem member
        obtain ⟨b, member, same⟩ := List.mem_map.mp count
        exact same ▸ checkBatches_eq_ok represents₀ checked b member
      obtain ⟨t', deleted, represents', frame⟩ :=
        writeBatches_represents represents₀ found metas sorted bounded rfl
      refine ⟨m, metas, _, sorted, bounded, found, described, ?_, represents', db ▸ frame⟩
      rw [← length, bind_ok deleted, bind_ok (writeBatch_apply _ _), update_apply]

/-- `reorg_batches_to_db` either fails and keeps the tables, or cuts the batches. -/
theorem reorgBatchesToDb_represents (represents : RepresentsWith n t l) (count : Nat) :
    (∃ e, InboxTracker.reorgBatchesToDb count t = .error e t) ∨
    ∃ messages t', InboxTracker.reorgBatchesToDb count t = .ok messages t' ∧ count ≤ l.batches.length ∧
      RepresentsWith n t' (l.reorgBatches count) ∧ Agree .streamer t.db t'.db := by
  unfold InboxTracker.reorgBatchesToDb
  rcases previousMetadata_represents represents count with ⟨m, t₀, found, read, db, represents₀⟩ |
    ⟨missing, e, failed⟩
  · obtain ⟨t', deleted, represents', frame⟩ := writeBatches_represents represents₀ found [] _ _ rfl
    refine .inr ⟨m.messageCount, _, ?_, (Ledger.previous_eq_some found).1, represents', ?_⟩
    · have deleted : InboxTracker.deleteBatchMetadataStartingAt count t₀ = .ok () t' := deleted
      rw [bind_ok (mapError_ok read), bind_read, bind_ok deleted, bind_ok (writeBatch_apply _ _)]
      simp only [numberFrom, InboxTracker.batchOps, List.append_nil, List.length_nil, Nat.add_zero]
      rfl
    · rw [← db]
      exact frame
  · exact .inl ⟨_, bind_error (mapError_error failed)⟩

end NitroRs
