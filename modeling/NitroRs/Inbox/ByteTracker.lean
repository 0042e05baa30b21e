import NitroRs.Inbox.SledTracker

/-! The tracker on bytes does what it does on the tables, call by call, unless an addition
overflows or a slice of the multiplexer is out of range. -/
namespace NitroRs
open Checked KeyValue Outcome Simulation

/-- The tables in bytes, and the same cache, whose entries hold numbers of 64 bits. -/
structure PersistedTracker (rlp : AlloyRlp) (s : SledTracker) (t : InboxTracker) : Prop where
  db : Persisted rlp s.db t.db
  cache : s.batchMetaCache = t.batchMetaCache
  cached : ∀ i metadata, t.batchMetaCache.peek i = some metadata → metadata.Fits

/-- A delayed message of the source, whose sequence number is a `u64`. -/
def DelayedInput.Fits (m : DelayedInput) : Prop := m.1 < 2 ^ 64

/-- A batch of the source, whose numbers are `u64`s. -/
structure SequencerInboxBatch.Fits (b : SequencerInboxBatch) : Prop where
  sequenceNumber : b.sequenceNumber < 2 ^ 64
  afterDelayedCount : b.afterDelayedCount < 2 ^ 64
  parentChainBlockNumber : b.parentChainBlockNumber < 2 ^ 64

namespace SledTracker
variable {rlp : AlloyRlp} {s : SledTracker} {t : InboxTracker} {tree : SledDb} {db : Db} {i n start : Nat}

/-- The queue of the tables, in bytes. -/
def Queued (rlp : AlloyRlp) (batch : SledBatch) (ops : List DbOp) : Prop :=
  batch = ⟨ops.map (storageEncoding rlp).op⟩ ∧ ∀ op ∈ ops, DbOp.Fits op

section Queue
variable {batch : SledBatch} {ops : List DbOp}

theorem Queued.nil : Queued rlp .new [] := ⟨rfl, List.forall_mem_nil _⟩

theorem Queued.put (queued : Queued rlp batch ops) (c : Counter) (small : n < 2 ^ 64) :
    Queued rlp (batch.put c.key (rlp.u64.encode (.ofNat n))) (ops ++ [.setCount c n]) := by
  obtain ⟨rfl, fits⟩ := queued
  refine ⟨?_, List.forall_mem_append.mpr ⟨fits, List.forall_mem_singleton.mpr small⟩⟩
  rw [List.map_append]
  rfl

theorem Queued.record (queued : Queued rlp batch ops) (t : Table) {v : t.Record} (small : i < 2 ^ 64) (fits : t.Fits v) :
    Queued rlp (batch.put (dbKey t.keyPrefix (.ofNat i)) ((storageEncoding rlp).record t v)) (ops ++ [.put t i v]) := by
  obtain ⟨rfl, all⟩ := queued
  refine ⟨?_, List.forall_mem_append.mpr ⟨all, List.forall_mem_singleton.mpr ⟨small, fits⟩⟩⟩
  rw [List.map_append]
  rfl

theorem Queued.deleteStartingAt (queued : Queued rlp batch ops) (persisted : Persisted rlp tree db) (t : Table)
    (small : start < 2 ^ 64) : ∃ batch', iterated (deleteStartingAt tree batch t.keyPrefix (uint64ToKey (.ofNat start))) =
      .ok batch' ∧ Queued rlp batch' (ops ++ db.deleteFrom t start) := by
  obtain ⟨rfl, fits⟩ := queued
  exact ⟨_, persisted.deleteStartingAt ops t small, rfl,
    List.forall_mem_append.mpr ⟨fits, persisted.deleteFrom_fits t start⟩⟩

end Queue

/-- The same batch is written on both sides. -/
theorem writeBatch_matches (same : PersistedTracker rlp s t) {batch : SledBatch} {ops : List DbOp}
    (queued : Queued rlp batch ops) : Matches (PersistedTracker rlp) Eq StorageError.Is
      (writeBatch batch s) (InboxTracker.writeBatch ops t) := by
  obtain ⟨rfl, fits⟩ := queued
  exact .ok ⟨same.db.write fits, same.cache, same.cached⟩ rfl

theorem zeroIfMissing_queued (persisted : Persisted rlp tree db) {batch : SledBatch} {ops : List DbOp}
    (queued : Queued rlp batch ops) (c : Counter) :
    Queued rlp (zeroIfMissing rlp tree c.key batch) (ops ++ InboxTracker.zeroIfMissing db c) := by
  rw [zeroIfMissing, InboxTracker.zeroIfMissing, persisted.has_count]
  cases db.count c with
  | none => exact queued.put c (Nat.two_pow_pos 64)
  | some n =>
    change Queued rlp batch (ops ++ [])
    rwa [List.append_nil]

theorem initializeTracker_matches (same : PersistedTracker rlp s t) : Matches (PersistedTracker rlp) Eq StorageError.Is
    (initializeTracker rlp s) (InboxTracker.initializeTracker t) := by
  have delayed := zeroIfMissing_queued same.db Queued.nil .delayedMessageCount
  have batches := zeroIfMissing_queued same.db delayed .sequencerBatchCount
  have messages := zeroIfMissing_queued same.db batches .messageCount
  exact writeBatch_matches same messages

section Delayed

theorem has_get (persisted : Persisted rlp tree db) (t : Table) (small : i < 2 ^ 64) :
    tree.has (dbKey t.keyPrefix (.ofNat i)) = (db.get t i).isSome ∧
      ∀ v, db.get t i = some v → tree.get (dbKey t.keyPrefix (.ofNat i)) = .ok ((storageEncoding rlp).record t v) := by
  refine ⟨persisted.has_record t small, fun v found => ?_⟩
  rw [SledDb.get, persisted.record t small, found]
  rfl

theorem getDelayedAcc_eq [Externals] (persisted : Persisted rlp tree db) (small : i < 2 ^ 64) :
    getDelayedAcc tree i = InboxTracker.getDelayedAcc db i := by
  obtain ⟨has, value⟩ := has_get persisted .rlpDelayedMessage small
  obtain ⟨has', value'⟩ := has_get persisted .legacyDelayedMessage small
  simp only [Table.keyPrefix] at has value has' value'
  rw [getDelayedAcc, InboxTracker.getDelayedAcc, has]
  cases found : db.get .rlpDelayedMessage i with
  | some data =>
    rw [value data found]
    rfl
  | none =>
    simp only [Option.isSome_none, Bool.false_eq_true, if_false, has']
    cases found' : db.get .legacyDelayedMessage i with
    | some data =>
      rw [value' data found']
      rfl
    | none => rfl

theorem legacyGetDelayedMessageAndAccumulator_eq (persisted : Persisted rlp tree db) (small : i < 2 ^ 64) :
    legacyGetDelayedMessageAndAccumulator tree i = InboxTracker.legacyGetDelayedMessageAndAccumulator db i := by
  have stored := persisted.record .legacyDelayedMessage small
  rw [Table.keyPrefix] at stored
  rw [legacyGetDelayedMessageAndAccumulator, InboxTracker.legacyGetDelayedMessageAndAccumulator, SledDb.get, stored]
  cases db.get .legacyDelayedMessage i <;> rfl

theorem getDelayedMessageAccumulatorAndParentChainBlockNumber_eq (persisted : Persisted rlp tree db)
    (small : i < 2 ^ 64) : getDelayedMessageAccumulatorAndParentChainBlockNumber tree i =
      InboxTracker.getDelayedMessageAccumulatorAndParentChainBlockNumber db i := by
  obtain ⟨has, value⟩ := has_get persisted .rlpDelayedMessage small
  obtain ⟨has', value'⟩ := has_get persisted .parentChainBlockNumber small
  simp only [Table.keyPrefix] at has value has' value'
  rw [getDelayedMessageAccumulatorAndParentChainBlockNumber,
    InboxTracker.getDelayedMessageAccumulatorAndParentChainBlockNumber, has,
    legacyGetDelayedMessageAndAccumulator_eq persisted small]
  cases found : db.get .rlpDelayedMessage i with
  | none => rfl
  | some data =>
    rw [value data found]
    change (InboxTracker.splitEntry .new data >>= _) = (InboxTracker.splitEntry .new data >>= _)
    cases InboxTracker.splitEntry .new data with
    | error e => rfl
    | ok entry =>
      obtain ⟨acc, msg⟩ := entry
      change (parentChainBlock tree i msg >>= _) = _
      rw [parentChainBlock, has']
      cases found' : db.get .parentChainBlockNumber i with
      | none => rfl
      | some v =>
        rw [value' v found']
        change ((if v.length ≠ 8 then Except.error _ else Except.ok _) >>= _) = (if v.length ≠ 8 then _ else _)
        split <;> rfl

theorem getDelayedMessage_eq (persisted : Persisted rlp tree db) (small : i < 2 ^ 64) :
    getDelayedMessage tree i = InboxTracker.getDelayedMessage db i := by
  rw [getDelayedMessage, InboxTracker.getDelayedMessage,
    getDelayedMessageAccumulatorAndParentChainBlockNumber_eq persisted small]

end Delayed

section Metadata

theorem getBatchMetadata_matches (lawful : rlp.Lawful) (same : PersistedTracker rlp s t) (small : i < 2 ^ 64) :
    Matches (PersistedTracker rlp) (fun a b => a = b ∧ b.Fits) StorageError.Is
      (getBatchMetadata rlp i s) (InboxTracker.getBatchMetadata i t) := by
  obtain ⟨tree, cache⟩ := s
  obtain ⟨db, cache'⟩ := t
  obtain ⟨persisted, rfl, cached⟩ := same
  obtain ⟨has, value⟩ := has_get persisted .sequencerBatchMeta small
  rw [Table.keyPrefix] at has value
  unfold getBatchMetadata InboxTracker.getBatchMetadata
  rw [bind_read, bind_read]
  have first := cache.get_fst i
  have kept (j : Nat) := cache.peek_get i j
  generalize cache.get i = looked at first kept ⊢
  obtain ⟨hit, moved⟩ := looked
  cases hit with
  | some metadata =>
    refine .ok ⟨persisted, rfl, fun j other found => ?_⟩ ⟨rfl, cached i metadata first.symm⟩
    exact cached j other ((kept j).symm.trans found)
  | none =>
    simp only [has]
    cases found : db.get .sequencerBatchMeta i with
    | none => exact .error ⟨persisted, rfl, cached⟩ rfl
    | some metadata =>
      have fits : metadata.Fits := persisted.records .sequencerBatchMeta i metadata found
      simp only [Option.isSome_some, Bool.not_true, Bool.false_eq_true, if_false, SledDb.read, value metadata found,
        onBytes_ok, bind_lift_ok]
      change Matches _ _ _ ((lift (decoded (BatchMetadata.decode rlp (metadata.encode rlp))) >>= _) _) _
      rw [BatchMetadata.decode_encode lawful fits]
      refine .ok ⟨persisted, rfl, fun j other here => ?_⟩ ⟨rfl, fits⟩
      rcases Lru.LruCache.peek_put moved here with ⟨_, rfl⟩ | ⟨_, old⟩
      · exact fits
      · exact cached j other ((kept j).symm.trans old)

theorem getBatchMessageCount_matches (lawful : rlp.Lawful) (same : PersistedTracker rlp s t) (small : i < 2 ^ 64) :
    Matches (PersistedTracker rlp) Eq StorageError.Is (getBatchMessageCount rlp i s)
      (InboxTracker.getBatchMessageCount i t) := by
  refine .bind (getBatchMetadata_matches lawful same small) fun a b s' t' related equal => ?_
  obtain ⟨rfl, _⟩ := equal
  exact .ok related rfl

theorem repairCount_eq (persisted : Persisted rlp tree db) (small : n ≤ 2 ^ 64) :
    repairCount tree n = InboxTracker.repairCount db n := by
  induction n with
  | zero => rfl
  | succ n ih =>
    have here := persisted.has_record .sequencerBatchMeta (i := n) (by omega)
    rw [Table.keyPrefix] at here
    rw [repairCount, InboxTracker.repairCount, here, ih (by omega)]

theorem repairCount_le (db : Db) (n : Nat) : InboxTracker.repairCount db n ≤ n := by
  induction n with
  | zero => exact Nat.le_refl 0
  | succ n ih =>
    rw [InboxTracker.repairCount]
    split
    · exact Nat.le_refl _
    · exact ih.trans (Nat.le_succ n)

theorem getBatchCount_matches (lawful : rlp.Lawful) (same : PersistedTracker rlp s t) :
    Matches (PersistedTracker rlp) (fun a b => a = b ∧ b < 2 ^ 64) StorageError.Is (getBatchCount rlp s)
      (InboxTracker.getBatchCount t) := by
  have stored := same.db.readU64 lawful .sequencerBatchCount
  rw [Counter.key] at stored
  unfold getBatchCount InboxTracker.getBatchCount
  rw [bind_read, bind_read, stored, Db.readCount]
  cases found : t.db.count .sequencerBatchCount with
  | none => exact .error same rfl
  | some n =>
    have small := same.db.counts .sequencerBatchCount n found
    rw [onBytes_ok, bind_lift_ok, bind_lift_ok, repairCount_eq same.db (Nat.le_of_lt small)]
    have less := repairCount_le t.db n
    generalize InboxTracker.repairCount t.db n = repaired at less ⊢
    change Matches _ _ _ ((if repaired = n then _ else _ : EStateM (Stop StorageError) SledTracker Nat) s)
      ((if repaired = n then _ else _ : EStateM Error InboxTracker Nat) t)
    by_cases kept : repaired = n
    · rw [if_pos kept, if_pos kept]
      exact .ok same ⟨rfl, small⟩
    · rw [if_neg kept, if_neg kept]
      have written : Queued rlp (SledBatch.new.put sequencerBatchCountKey (rlp.u64.encode (.ofNat repaired)))
          [.setCount .sequencerBatchCount repaired] := Queued.nil.put .sequencerBatchCount (less.trans_lt small)
      refine .bind (writeBatch_matches same written) fun _ _ s' t' related _ => ?_
      exact .ok related ⟨rfl, less.trans_lt small⟩

/-- The index is read back from the key of its entry. -/
theorem popIndex_recordKey (small : i < 2 ^ 64) (cache : Lru.LruCache Nat BatchMetadata) :
    popIndex (Table.recordKey .sequencerBatchMeta i) cache = cache.pop i := by
  have width : (Table.recordKey .sequencerBatchMeta i).length = sequencerBatchMetaPrefix.length + 8 := by
    rw [Table.recordKey, dbKey, List.length_append, uint64ToKey, u64Be8_length]
    rfl
  have index : ((Table.recordKey .sequencerBatchMeta i).drop sequencerBatchMetaPrefix.length).take 8 =
      u64Be8 (.ofNat i) := by
    rw [Table.recordKey, dbKey, Table.keyPrefix, List.drop_left, uint64ToKey]
    exact List.take_of_length_le (by rw [u64Be8_length])
  have number : BigEndian.value (u64Be8 (.ofNat i)) = i := by rw [value_u64Be8, UInt64.toNat_ofNat_of_lt' small]
  simp only [popIndex, if_pos (Nat.le_of_eq width.symm), index, number]

theorem deleteBatchMetadataStartingAt_matches (same : PersistedTracker rlp s t) (small : start < 2 ^ 64) :
    Matches (PersistedTracker rlp) Eq StorageError.Is (deleteBatchMetadataStartingAt start s)
      (InboxTracker.deleteBatchMetadataStartingAt start t) := by
  obtain ⟨tree, cache⟩ := s
  obtain ⟨db, cache'⟩ := t
  obtain ⟨persisted, rfl, cached⟩ := same
  obtain ⟨it, error, loop⟩ := persisted.encodes.forEach .sequencerBatchMeta small
    (fun key _ (acc : SledBatch × Lru.LruCache Nat BatchMetadata) =>
      (.ok (acc.1.delete key, popIndex key acc.2) : Except (Stop StorageError) _)) (.new, cache)
  have folded (entries : List (Nat × BatchMetadata)) (inside : ∀ entry ∈ entries, entry.1 < 2 ^ 64) (batch : SledBatch)
      (cache : Lru.LruCache Nat BatchMetadata) :
      (entries.foldlM (fun (acc : SledBatch × Lru.LruCache Nat BatchMetadata) entry =>
        (.ok (acc.1.delete (Table.recordKey .sequencerBatchMeta entry.1),
          popIndex (Table.recordKey .sequencerBatchMeta entry.1) acc.2) : Except (Stop StorageError) _))
        (batch, cache)) =
      .ok (⟨batch.ops ++ entries.map fun entry => .del (Table.recordKey .sequencerBatchMeta entry.1)⟩,
        entries.foldl (fun cache entry => cache.pop entry.1) cache) := by
    induction entries generalizing batch cache with
    | nil =>
      rw [List.map_nil, List.append_nil]
      rfl
    | cons entry entries ih =>
      obtain ⟨here, later⟩ := List.forall_mem_cons.mp inside
      rw [List.foldlM_cons, popIndex_recordKey here]
      refine (ih later (batch.delete _) (cache.pop entry.1)).trans ?_
      simp only [SledBatch.delete, List.append_assoc, List.singleton_append, List.map_cons, List.foldl_cons]
  have inside : ∀ entry ∈ db.range .sequencerBatchMeta start, entry.1 < 2 ^ 64 := fun entry member =>
    persisted.encodes.inside member
  rw [folded _ inside] at loop
  have dels : Queued rlp ⟨(db.range .sequencerBatchMeta start).map fun entry =>
      .del (Table.recordKey .sequencerBatchMeta entry.1)⟩ (db.deleteFrom .sequencerBatchMeta start) := by
    refine ⟨?_, persisted.deleteFrom_fits _ start⟩
    rw [Store.deleteFrom, List.map_map]
    rfl
  have step : deleteBatchMetadataStartingAt start ⟨tree, cache⟩ = writeBatch ⟨(db.range .sequencerBatchMeta start).map
      fun entry => .del (Table.recordKey .sequencerBatchMeta entry.1)⟩
      ⟨tree, (db.range .sequencerBatchMeta start).foldl (fun cache entry => cache.pop entry.1) cache⟩ := by
    unfold deleteBatchMetadataStartingAt
    rw [bind_read]
    change (lift ((SledIter.new tree sequencerBatchMetaPrefix (uint64ToKey (.ofNat start))).forEach _ _) >>= _) _ = _
    rw [Table.keyPrefix] at loop
    rw [loop]
    obtain ⟨_, _, _, _⟩ := it
    cases error
    rfl
  rw [step, dels.1]
  refine .ok ⟨persisted.write dels.2, rfl, fun j metadata found => ?_⟩ rfl
  rw [Lru.LruCache.peek_foldl_pop] at found
  split at found
  · contradiction
  · exact cached j metadata found

end Metadata

section Reorg
variable {batch : SledBatch} {ops : List DbOp} {first count : Nat}

theorem cutDelayed_queued (persisted : Persisted rlp tree db) (queued : Queued rlp batch ops) (small : count < 2 ^ 64) :
    ∃ batch', cutDelayed rlp tree batch count = .ok batch' ∧ Queued rlp batch' (ops ++
      db.deleteFrom .rlpDelayedMessage count ++ db.deleteFrom .parentChainBlockNumber count ++
      db.deleteFrom .legacyDelayedMessage count ++ [.setCount .delayedMessageCount count]) := by
  obtain ⟨one, first, queued⟩ := queued.deleteStartingAt persisted .rlpDelayedMessage small
  obtain ⟨two, second, queued⟩ := queued.deleteStartingAt persisted .parentChainBlockNumber small
  obtain ⟨three, third, queued⟩ := queued.deleteStartingAt persisted .legacyDelayedMessage small
  simp only [Table.keyPrefix] at first second third
  refine ⟨_, ?_, queued.put .delayedMessageCount small⟩
  simp only [cutDelayed, first, second, third, bind, Except.bind]
  rfl

/-- The loop over the batches that are undone, where that is allowed: the first one is kept in mind. -/
theorem reorgEntries_ok (lawful : rlp.Lawful) (entries : List (Nat × Nat))
    (inside : ∀ entry ∈ entries, entry.1 < 2 ^ 64 ∧ entry.2 < 2 ^ 64) (acc : SledBatch × Option Nat) :
    (entries.foldlM (fun acc entry => reorgEntry rlp count true (Table.recordKey .delayedSequenced entry.1)
        (rlp.u64.encode (.ofNat entry.2)) acc) acc) =
      .ok (⟨acc.1.ops ++ entries.map fun entry => .del (Table.recordKey .delayedSequenced entry.1)⟩,
        acc.2.or (entries.head?.map Prod.snd)) := by
  induction entries generalizing acc with
  | nil =>
    rw [List.map_nil, List.append_nil, List.head?_nil, Option.map_none, Option.or_none]
    rfl
  | cons entry entries ih =>
    obtain ⟨here, later⟩ := List.forall_mem_cons.mp inside
    have step : reorgEntry rlp count true (Table.recordKey .delayedSequenced entry.1) (rlp.u64.encode (.ofNat entry.2))
        acc = .ok (acc.1.delete (Table.recordKey .delayedSequenced entry.1), acc.2.or (some entry.2)) := by
      rw [reorgEntry, lawful.u64.decode_encode_nil]
      change Except.ok (_, acc.2.or (some (UInt64.ofNat entry.2).toNat)) = _
      rw [UInt64.toNat_ofNat_of_lt' here.2]
    rw [List.foldlM_cons, step]
    refine (ih later (acc.1.delete _, _)).trans ?_
    simp only [SledBatch.delete, List.append_assoc, List.singleton_append, List.map_cons, List.head?_cons,
      Option.map_some, Option.or_assoc, Option.some_or]

/-- Where it is not allowed, the first of them is the error. -/
theorem reorgEntry_disabled (lawful : rlp.Lawful) {seqnum : Nat} (small : seqnum < 2 ^ 64) (key : Bytes)
    (acc : SledBatch × Option Nat) : reorgEntry rlp count false key (rlp.u64.encode (.ofNat seqnum)) acc =
      .error (.error (.node (.batchReorgDisabled seqnum count))) := by
  rw [reorgEntry, lawful.u64.decode_encode_nil]
  change Except.error (Stop.error (StorageError.node (.batchReorgDisabled (UInt64.ofNat seqnum).toNat count))) = _
  rw [UInt64.toNat_ofNat_of_lt' small]

theorem setDelayedCountReorgAndWriteBatch_matches (lawful : rlp.Lawful) (same : PersistedTracker rlp s t)
    (queued : Queued rlp batch ops) (small : count < 2 ^ 64) (canReorgBatches : Bool) :
    Matches (PersistedTracker rlp) (Queued rlp) StorageError.Is
      (setDelayedCountReorgAndWriteBatch rlp batch first count canReorgBatches s)
      (InboxTracker.setDelayedCountReorgAndWriteBatch ops first count canReorgBatches t) := by
  unfold setDelayedCountReorgAndWriteBatch InboxTracker.setDelayedCountReorgAndWriteBatch
  rw [bind_read, bind_read]
  by_cases past : count < first
  · rw [if_pos past, if_pos past]
    exact .error same rfl
  · rw [if_neg past, if_neg past]
    obtain ⟨cut, filled, queued⟩ := cutDelayed_queued same.db queued small
    rw [filled, bind_lift_ok]
    refine .ofPanic_bind fun next added => ?_
    obtain ⟨inside, rfl⟩ := add64_eq_ok.mp added
    rw [wrappingAdd64_of_lt inside]
    have entries (acc : SledBatch × Option Nat) := same.db.encodes.forEach .delayedSequenced inside
      (reorgEntry rlp count canReorgBatches) acc
    have fits : ∀ entry ∈ t.db.range .delayedSequenced (first + 1), entry.1 < 2 ^ 64 ∧ entry.2 < 2 ^ 64 :=
      fun entry member => ⟨same.db.encodes.inside member,
        same.db.records .delayedSequenced entry.1 entry.2 (Store.mem_range.mp member).2⟩
    have deleted := same.db.deleteFrom_fits .delayedSequenced (first + 1)
    have whole : t.db.deleteFrom .delayedSequenced (first + 1) =
        (t.db.range .delayedSequenced (first + 1)).map fun entry => .del .delayedSequenced entry.1 := rfl
    rw [whole] at deleted ⊢
    generalize t.db.range .delayedSequenced (first + 1) = undone at entries fits deleted ⊢
    obtain ⟨⟨iter, current, failure, keyPrefix⟩, error, loop⟩ := entries (cut, none)
    cases error
    simp only [Table.keyPrefix] at loop
    rw [loop]
    cases undone with
    | nil =>
      exact .ok same queued
    | cons entry later =>
      obtain ⟨j, seqnum⟩ := entry
      obtain ⟨⟨index, number⟩, _⟩ := List.forall_mem_cons.mp fits
      cases canReorgBatches with
      | false =>
        rw [List.foldlM_cons]
        change Matches _ _ _ ((lift (((reorgEntry rlp count false _ (rlp.u64.encode (.ofNat seqnum)) _) >>= _).map _) >>= _)
          s) _
        rw [reorgEntry_disabled lawful number]
        exact .error same rfl
      | true =>
        have looped := @reorgEntries_ok rlp count lawful ((j, seqnum) :: later) fits (cut, none)
        change List.foldlM (fun acc (entry : Nat × Nat) => reorgEntry rlp count true
          (Table.recordKey .delayedSequenced entry.1) ((storageEncoding rlp).record .delayedSequenced entry.2) acc) _ _ =
          _ at looped
        rw [looped]
        change Matches _ _ _ ((deleteBatchMetadataStartingAt seqnum >>= _) s) _
        refine .bind (deleteBatchMetadataStartingAt_matches same number) fun _ _ s' t' related _ => ?_
        refine .ok related ?_
        have dels : Queued rlp ⟨cut.ops ++ ((j, seqnum) :: later).map fun entry =>
            .del (Table.recordKey .delayedSequenced entry.1)⟩ _ := ⟨?_, List.forall_mem_append.mpr ⟨queued.2, deleted⟩⟩
        · exact dels.put .sequencerBatchCount number
        · simp only [queued.1, List.map_append, List.map_map]
          rfl

theorem reorgDelayedTo_matches (lawful : rlp.Lawful) (same : PersistedTracker rlp s t) (small : count < 2 ^ 64) :
    Matches (PersistedTracker rlp) Eq StorageError.Is (reorgDelayedTo rlp count s)
      (InboxTracker.reorgDelayedTo count t) :=
  .bind (setDelayedCountReorgAndWriteBatch_matches lawful same .nil small true) fun _ _ _ _ related queued =>
    writeBatch_matches related queued

end Reorg

section Additions

theorem skipBefore_eq {firstKeep : Nat} {acc : B256} {messages : List DelayedInput} {kept : B256 × List DelayedInput}
    (ran : skipBefore firstKeep acc messages = .ok kept) : kept = InboxTracker.skipBefore firstKeep acc messages := by
  induction messages generalizing acc with
  | nil =>
    cases ran
    rfl
  | cons m rest ih =>
    obtain ⟨pos, beforeAcc, bytes⟩ := m
    obtain ⟨next, added, ran⟩ := except_bind_eq_ok.mp ran
    obtain ⟨_, rfl⟩ := add64_eq_ok.mp added
    rw [InboxTracker.skipBefore]
    by_cases below : pos < firstKeep
    · rw [if_pos below] at ran ⊢
      exact ih ran
    · rw [if_neg below] at ran ⊢
      cases ran
      rfl

theorem snapSyncSkip_eq {snapSync : Option SnapSyncConfig} {messages : List DelayedInput}
    {kept : B256 × List DelayedInput} (ran : snapSyncSkip snapSync messages = .ok kept) :
    kept = InboxTracker.snapSyncSkip snapSync messages := by
  cases snapSync with
  | none =>
    cases ran
    rfl
  | some cfg =>
    cases messages with
    | nil =>
      cases ran
      rfl
    | cons m rest =>
      obtain ⟨pos, beforeAcc, bytes⟩ := m
      rw [InboxTracker.snapSyncSkip]
      change (if cfg.enabled ∧ pos < cfg.delayedCount then _ else _) = _ at ran
      by_cases skips : cfg.enabled ∧ pos < cfg.delayedCount
      · rw [if_pos skips, if_pos (Nat.zero_lt_of_lt skips.2)] at ran
        rw [if_pos skips]
        exact skipBefore_eq ran
      · rw [if_neg skips] at ran ⊢
        cases ran
        rfl

theorem skipBefore_subset (firstKeep : Nat) (acc : B256) (messages : List DelayedInput) :
    ∀ m ∈ (InboxTracker.skipBefore firstKeep acc messages).2, m ∈ messages := by
  induction messages generalizing acc with
  | nil => exact fun m member => member
  | cons m rest ih =>
    intro other member
    rw [InboxTracker.skipBefore] at member
    by_cases below : m.1 < firstKeep
    · rw [if_pos below] at member
      exact List.mem_cons_of_mem _ (ih _ other member)
    · rw [if_neg below] at member
      exact member

theorem snapSyncSkip_subset (snapSync : Option SnapSyncConfig) (messages : List DelayedInput) :
    ∀ m ∈ (InboxTracker.snapSyncSkip snapSync messages).2, m ∈ messages := by
  intro m member
  unfold InboxTracker.snapSyncSkip at member
  split at member
  · split at member
    · exact skipBefore_subset _ _ _ m member
    · exact member
  · exact member

variable [Externals] {batch : SledBatch} {ops : List DbOp} {messages : List DelayedInput} {pos : Nat}

theorem queueDelayed_agrees (queued : Queued rlp batch ops) (small : pos < 2 ^ 64) (nextAcc : B256) :
    Agrees (fun a new => Queued rlp a.1 (ops ++ new) ∧ a.2 = pos + messages.length ∧ a.2 < 2 ^ 64) StorageError.Is
      (queueDelayed pos nextAcc messages batch) (InboxTracker.queueDelayed pos nextAcc messages) := by
  induction messages generalizing batch ops pos nextAcc with
  | nil =>
    refine .ok ⟨?_, rfl, small⟩
    rwa [List.append_nil]
  | cons m rest ih =>
    obtain ⟨seqnum, beforeAcc, bytes⟩ := m
    rw [queueDelayed, InboxTracker.queueDelayed]
    by_cases other : seqnum ≠ pos
    · rw [if_pos other, if_pos other]
      exact .error rfl
    · obtain rfl := Decidable.not_not.mp other
      rw [if_neg other, if_neg other]
      cases parseIncomingL1MessageLegacy bytes with
      | error e => exact .error rfl
      | ok msg =>
        change Agrees _ _ (if nextAcc ≠ beforeAcc then _ else _) (if nextAcc ≠ beforeAcc then _ else _)
        by_cases mismatch : nextAcc ≠ beforeAcc
        · rw [if_pos mismatch, if_pos mismatch]
          exact .error rfl
        · rw [if_neg mismatch, if_neg mismatch]
          refine .ofPanic_bind fun next added => ?_
          obtain ⟨inside, rfl⟩ := add64_eq_ok.mp added
          have more := queued.record .rlpDelayedMessage (v := nextAcc.val ++ bytes) small trivial
          have later := @ih _ _ (seqnum + 1) more inside (hashAfter nextAcc (delayedMessageBodyHash msg).val)
          refine .second_bind later fun a new agree => ?_
          obtain ⟨filled, length, word⟩ := agree
          refine .ok ⟨?_, ?_, word⟩
          · rwa [List.append_assoc] at filled
          · rw [length, List.length_cons, Nat.add_assoc, Nat.add_comm 1]

theorem previousAccumulator_eq (persisted : Persisted rlp tree db) (startAcc : B256) (small : pos < 2 ^ 64) :
    previousAccumulator tree startAcc pos = InboxTracker.previousAccumulator db startAcc pos := by
  rw [previousAccumulator, InboxTracker.previousAccumulator]
  rcases Nat.eq_zero_or_pos pos with rfl | some
  · rfl
  · have read : getDelayedAcc tree (pos - 1) = InboxTracker.getDelayedAcc db (pos - 1) :=
      getDelayedAcc_eq persisted (by omega)
    rw [if_pos some, if_neg (by omega)]
    cases acc : InboxTracker.getDelayedAcc db (pos - 1) with
    | ok prev => simp only [read, acc]
    | error e => simp only [read, acc]

theorem addDelayedMessages_matches (lawful : rlp.Lawful) (same : PersistedTracker rlp s t)
    (fits : ∀ m ∈ messages, DelayedInput.Fits m) (snapSync : Option SnapSyncConfig) :
    Matches (PersistedTracker rlp) Eq StorageError.Is (addDelayedMessages rlp messages snapSync s)
      (InboxTracker.addDelayedMessages messages snapSync t) := by
  unfold addDelayedMessages InboxTracker.addDelayedMessages
  rw [bind_read, bind_read]
  refine .ofPanic_bind fun kept skipped => ?_
  obtain rfl := snapSyncSkip_eq skipped
  have inside : ∀ m ∈ (InboxTracker.snapSyncSkip snapSync messages).2, DelayedInput.Fits m := fun m member =>
    fits m (snapSyncSkip_subset snapSync messages m member)
  generalize InboxTracker.snapSyncSkip snapSync messages = kept at inside ⊢
  obtain ⟨startAcc, kept⟩ := kept
  cases kept with
  | nil => exact .ok same rfl
  | cons m rest =>
    obtain ⟨pos, beforeAcc, bytes⟩ := m
    have small : pos < 2 ^ 64 := inside _ List.mem_cons_self
    change Matches _ _ _ ((lift (onBytes (previousAccumulator s.db startAcc pos)) >>= _) s)
      ((lift (InboxTracker.previousAccumulator t.db startAcc pos) >>= _) t)
    rw [previousAccumulator_eq same.db startAcc small]
    refine .bind (.lift (agrees_onBytes _) same) fun acc acc' s' t' related equal => ?_
    subst acc'
    have queue := @queueDelayed_agrees rlp _ .new [] ((pos, beforeAcc, bytes) :: rest) pos .nil small acc
    refine .bind (.lift queue related) fun queue new s' t' related filled => ?_
    obtain ⟨queued, length, word⟩ := filled
    rw [← length]
    refine .bind (setDelayedCountReorgAndWriteBatch_matches lawful related queued word true) ?_
    exact fun _ _ _ _ related queued => writeBatch_matches related queued

end Additions

section Batches
variable [Externals] {batch : SledBatch} {ops : List DbOp} {batches : List SequencerInboxBatch} {pos : Nat}

theorem checkBatches_agrees (persisted : Persisted rlp tree db) (small : pos < 2 ^ 64) (nextAcc : B256)
    (fits : ∀ b ∈ batches, SequencerInboxBatch.Fits b) :
    Agrees (fun a (_ : Unit) => a = pos + batches.length ∧ a < 2 ^ 64) StorageError.Is
      (checkBatches tree pos nextAcc batches) (InboxTracker.checkBatches db pos nextAcc batches) := by
  induction batches generalizing pos nextAcc with
  | nil => exact .ok ⟨rfl, small⟩
  | cons b later ih =>
    obtain ⟨here, rest⟩ := List.forall_mem_cons.mp fits
    rw [checkBatches, InboxTracker.checkBatches]
    by_cases gap : b.sequenceNumber ≠ pos
    · rw [if_pos gap, if_pos gap]
      exact .error rfl
    · rw [if_neg gap, if_neg gap]
      by_cases fork : nextAcc ≠ b.beforeInboxAcc
      · rw [if_pos fork, if_pos fork]
        exact .error rfl
      · have below : b.afterDelayedCount - 1 < 2 ^ 64 := (Nat.sub_le _ _).trans_lt here.afterDelayedCount
        rw [if_neg fork, if_neg fork, getDelayedAcc_eq persisted below]
        by_cases apart : 0 < b.afterDelayedCount ∧
            (InboxTracker.getDelayedAcc db (b.afterDelayedCount - 1)).toOption ≠ some b.afterDelayedAcc
        · rw [if_pos apart, if_pos apart]
          exact .error rfl
        · rw [if_neg apart, if_neg apart]
          refine .ofPanic_bind fun next added => ?_
          obtain ⟨inside, rfl⟩ := add64_eq_ok.mp added
          refine (ih inside _ rest).mono fun a _ agree => ⟨?_, agree.2⟩
          rw [agree.1, List.length_cons, Nat.add_assoc, Nat.add_comm 1]

/-- The queue and the cache entries of the loop, behind those that are there already. -/
theorem describeBatches_agrees (queued : Queued rlp batch ops) (last : BatchMetadata)
    (fits : ∀ b ∈ batches, SequencerInboxBatch.Fits b) (toCache : List (Nat × BatchMetadata)) :
    Agrees (fun a metas => Queued rlp a.1 (ops ++ InboxTracker.batchOps last metas) ∧ a.2 = toCache ++ metas ∧
        ∀ entry ∈ metas, entry.2.Fits) StorageError.Is
      (describeBatches rlp last batches batch toCache) (InboxTracker.describeBatches last batches) := by
  induction batches generalizing batch ops last toCache with
  | nil =>
    refine .ok ⟨?_, (List.append_nil _).symm, List.forall_mem_nil _⟩
    change Queued rlp batch (ops ++ [])
    rwa [List.append_nil]
  | cons b later ih =>
    obtain ⟨here, rest⟩ := List.forall_mem_cons.mp fits
    rw [describeBatches, InboxTracker.describeBatches]
    cases parseSequencerMessage b.serialized with
    | error e => exact .error rfl
    | ok seq =>
      rw [onBytes_ok]
      refine .ofPanic_bind fun sum added => .ofPanic_bind fun msgCount counted => ?_
      obtain ⟨_, rfl⟩ := add64_eq_ok.mp added
      obtain ⟨small, rfl⟩ := add64_eq_ok.mp counted
      change Agrees _ _ (describeBatches rlp (InboxTracker.batchMetadata last b seq) later _ _)
        (InboxTracker.describeBatches (InboxTracker.batchMetadata last b seq) later >>= _)
      have narrow : (InboxTracker.batchMetadata last b seq).Fits := ⟨small, here.afterDelayedCount, here.parentChainBlockNumber⟩
      have filled := queued.record .sequencerBatchMeta here.sequenceNumber narrow
      have indexed : Queued rlp (if last.delayedMessageCount < b.afterDelayedCount then
          (batch.put (dbKey sequencerBatchMetaPrefix (.ofNat b.sequenceNumber))
            ((InboxTracker.batchMetadata last b seq).encode rlp)).put
              (dbKey delayedSequencedPrefix (.ofNat b.afterDelayedCount)) (rlp.u64.encode (.ofNat b.sequenceNumber))
        else batch.put (dbKey sequencerBatchMetaPrefix (.ofNat b.sequenceNumber))
          ((InboxTracker.batchMetadata last b seq).encode rlp))
        ((ops ++ [.put .sequencerBatchMeta b.sequenceNumber (InboxTracker.batchMetadata last b seq)]) ++
          if last.delayedMessageCount < b.afterDelayedCount then
            [.put .delayedSequenced b.afterDelayedCount b.sequenceNumber] else []) := by
        by_cases newer : last.delayedMessageCount < b.afterDelayedCount
        · rw [if_pos newer, if_pos newer]
          exact filled.record .delayedSequenced here.afterDelayedCount here.sequenceNumber
        · rw [if_neg newer, if_neg newer, List.append_nil]
          exact filled
      refine .second_bind (ih indexed _ rest _) fun a metas agree => ?_
      obtain ⟨all, cached, small⟩ := agree
      refine .ok ⟨?_, ?_, List.forall_mem_cons.mpr ⟨narrow, small⟩⟩
      · have regroup (xs ys zs : List DbOp) (op : DbOp) : xs ++ [op] ++ ys ++ zs = xs ++ (op :: ys ++ zs) := by simp
        rw [regroup] at all
        exact all
      · rw [List.append_assoc] at cached
        exact cached

omit [Externals] in
theorem previousMetadata_matches (lawful : rlp.Lawful) (same : PersistedTracker rlp s t) (small : pos < 2 ^ 64) :
    Matches (PersistedTracker rlp) (fun a b => a = b ∧ b.Fits) StorageError.Is
      (previousMetadata rlp pos s) (InboxTracker.previousMetadata pos t) := by
  unfold previousMetadata InboxTracker.previousMetadata
  by_cases later : 0 < pos
  · rw [if_pos later, if_pos later]
    exact getBatchMetadata_matches lawful same (by omega)
  · rw [if_neg later, if_neg later]
    have zero : 0 < 2 ^ 64 := Nat.two_pow_pos 64
    exact .ok same ⟨rfl, zero, zero, zero⟩

theorem addSequencerBatches_matches (lawful : rlp.Lawful) (same : PersistedTracker rlp s t)
    (fits : ∀ b ∈ batches, SequencerInboxBatch.Fits b) : Matches (PersistedTracker rlp) Eq StorageError.Is
      (addSequencerBatches rlp batches s) (InboxTracker.addSequencerBatches batches t) := by
  cases batches with
  | nil => exact .ok same rfl
  | cons first later =>
    have small := (fits first List.mem_cons_self).sequenceNumber
    unfold addSequencerBatches InboxTracker.addSequencerBatches
    refine .bind (previousMetadata_matches lawful same small) fun prevMeta _ s' t' related equal => ?_
    obtain ⟨rfl, narrow⟩ := equal
    rw [bind_read, bind_read]
    refine .ofPanic_bind fun next added => ?_
    obtain ⟨inside, rfl⟩ := add64_eq_ok.mp added
    obtain ⟨queue, filled, queued⟩ := Queued.nil.deleteStartingAt related.db .delayedSequenced inside
    simp only [Table.keyPrefix] at filled
    rw [filled, bind_lift_ok]
    refine .bind (.lift (checkBatches_agrees related.db small _ fits) related) fun pos _ s₁ t₁ related₁ behind => ?_
    obtain ⟨length, word⟩ := behind
    refine .bind (.lift (describeBatches_agrees queued prevMeta fits []) related₁) fun described metas s₂ t₂ related₂ all => ?_
    obtain ⟨batch, toCache⟩ := described
    obtain ⟨queued, cached, narrowed⟩ := all
    rw [List.nil_append] at cached
    subst cached
    rw [← length]
    refine .bind (deleteBatchMetadataStartingAt_matches related₂ word) fun _ _ s₃ t₃ related₃ _ => ?_
    refine .bind (writeBatch_matches related₃ (queued.put .sequencerBatchCount word)) fun _ _ s₄ t₄ related₄ _ => ?_
    have cache : toCache.foldl (fun cache entry => cache.put entry.1 entry.2) s₄.batchMetaCache =
        toCache.foldl (fun cache entry => cache.put entry.1 entry.2) t₄.batchMetaCache := by rw [related₄.cache]
    refine .ok ⟨related₄.db, cache, fun i metadata found => ?_⟩ rfl
    rcases Lru.LruCache.peek_foldl_put toCache _ found with member | ⟨_, old⟩
    · exact narrowed _ member
    · exact related₄.cached i metadata old

omit [Externals] in
theorem reorgBatchesToDb_matches (lawful : rlp.Lawful) (same : PersistedTracker rlp s t) (small : pos < 2 ^ 64) :
    Matches (PersistedTracker rlp) Eq StorageError.Is (reorgBatchesToDb rlp pos s)
      (InboxTracker.reorgBatchesToDb pos t) := by
  unfold reorgBatchesToDb InboxTracker.reorgBatchesToDb
  have causes (e : StorageError) (f : Error) (is : e.Is f) : (futureBatch e).Is (.reorgToFutureBatch f) := by
    rw [is]
    rfl
  refine .bind (.mapCause (previousMetadata_matches lawful same small) causes) fun prevMeta _ s' t' related equal => ?_
  obtain ⟨rfl, _⟩ := equal
  rw [bind_read, bind_read]
  refine .ofPanic_bind fun next added => ?_
  obtain ⟨inside, rfl⟩ := add64_eq_ok.mp added
  obtain ⟨queue, filled, queued⟩ := Queued.nil.deleteStartingAt related.db .delayedSequenced inside
  simp only [Table.keyPrefix] at filled
  rw [filled, bind_lift_ok]
  refine .bind (deleteBatchMetadataStartingAt_matches related small) fun _ _ s₁ t₁ related₁ _ => ?_
  refine .bind (writeBatch_matches related₁ (queued.put .sequencerBatchCount small)) fun _ _ s₂ t₂ related₂ _ => ?_
  exact .ok related₂ rfl

omit [Externals] in
theorem searchBatches_matches (lawful : rlp.Lawful) (same : PersistedTracker rlp s t) (fuel low high : Nat) :
    Matches (PersistedTracker rlp) Eq StorageError.Is
      (searchBatches rlp pos fuel low high s) (InboxTracker.searchBatches pos fuel low high t) := by
  induction fuel generalizing s t low high with
  | zero => exact .error same rfl
  | succ fuel ih =>
    rw [searchBatches, InboxTracker.searchBatches]
    refine .ofPanic_bind fun sum added => ?_
    obtain ⟨word, rfl⟩ := add64_eq_ok.mp added
    have middle : (low + high) / 2 < 2 ^ 64 := by omega
    refine .bind (getBatchMessageCount_matches lawful same middle) fun count _ s' t' related equal => ?_
    subst equal
    by_cases less : count < pos
    · rw [if_pos less, if_pos less]
      refine .ofPanic_bind fun next added => ?_
      obtain ⟨_, rfl⟩ := add64_eq_ok.mp added
      by_cases found : high = (low + high) / 2 + 1
      · rw [if_pos found, if_pos found]
        exact .ok related rfl
      · rw [if_neg found, if_neg found]
        exact ih related _ _
    · rw [if_neg less, if_neg less]
      by_cases level : count = pos
      · rw [if_pos level, if_pos level]
        refine .ofPanic_bind fun next added => ?_
        obtain ⟨_, rfl⟩ := add64_eq_ok.mp added
        exact .ok related rfl
      · rw [if_neg level, if_neg level]
        refine .ofPanic_bind fun next added => ?_
        obtain ⟨_, rfl⟩ := add64_eq_ok.mp added
        by_cases found : count = pos + 1 ∨ (low + high) / 2 = low
        · rw [if_pos found, if_pos found]
          exact .ok related rfl
        · rw [if_neg found, if_neg found, if_neg fun same => found (.inr same)]
          exact ih related _ _

end Batches

end SledTracker
end NitroRs
