import NitroRs.Inbox.Crash

/-! The batch metadata cache. Whatever is called and whatever the cache evicts, an
entry that it holds is the one that the database stores. -/
namespace NitroRs
open KeyValue Outcome
open Checked (wrappingAdd64)

def CacheCoherent (t : InboxTracker) : Prop :=
  ∀ k m, t.batchMetaCache.peek k = some m → t.db.get .sequencerBatchMeta k = some m

section
variable {t t' : InboxTracker}

theorem CacheCoherent.metadataAt (coherent : CacheCoherent t) (i : Nat) :
    t.metadataAt i = t.db.get .sequencerBatchMeta i := by
  rw [InboxTracker.metadataAt]
  cases hit : t.batchMetaCache.peek i with
  | none => rfl
  | some m => rw [coherent i m hit, Option.some_or]

/-- An entry may stay in the cache as long as its record stays. -/
theorem CacheCoherent.of_kept (coherent : CacheCoherent t)
    (cached : ∀ k m, t'.batchMetaCache.peek k = some m → t.batchMetaCache.peek k = some m ∧
      t'.db.get .sequencerBatchMeta k = t.db.get .sequencerBatchMeta k) : CacheCoherent t' := by
  intro k m hit
  obtain ⟨old, kept⟩ := cached k m hit
  rw [kept]
  exact coherent k m old

theorem CacheCoherent.getBatchMetadata (coherent : CacheCoherent t) (i : Nat) :
    (∃ m t', t.db.get .sequencerBatchMeta i = some m ∧ InboxTracker.getBatchMetadata i t = .ok m t' ∧
      t'.db = t.db ∧ CacheCoherent t') ∨
    (t.db.get .sequencerBatchMeta i = none ∧
      InboxTracker.getBatchMetadata i t = .error (.noBatchMetadata i) t) := by
  rcases InboxTracker.getBatchMetadata_cases i t with ⟨m, cache, here, found, learned⟩ | ⟨missing, failed⟩
  · refine .inl ⟨m, _, (coherent.metadataAt i).symm.trans here, found, rfl, fun k w hit => ?_⟩
    exact (coherent.metadataAt k).symm.trans (learned k w hit)
  · exact .inr ⟨(coherent.metadataAt i).symm.trans missing, failed⟩

theorem CacheCoherent.previousMetadata (coherent : CacheCoherent t) (pos : Nat) :
    (∃ m t', InboxTracker.previousMetadata pos t = .ok m t' ∧ t'.db = t.db ∧ CacheCoherent t') ∨
    ∃ e, InboxTracker.previousMetadata pos t = .error e t := by
  cases pos with
  | zero => exact .inl ⟨.zero, t, rfl, rfl, coherent⟩
  | succ pos =>
    rcases coherent.getBatchMetadata pos with ⟨m, t', _, found, db, coherent'⟩ | ⟨_, failed⟩
    · exact .inl ⟨m, t', found, db, coherent'⟩
    · exact .inr ⟨_, failed⟩

/-! Each operation keeps the cache in step. -/

theorem getBatchMetadata_coherent (i : Nat) : Keeps CacheCoherent (InboxTracker.getBatchMetadata i) := by
  intro t coherent
  rcases coherent.getBatchMetadata i with ⟨m, t', _, found, _, coherent'⟩ | ⟨_, failed⟩
  · rwa [found]
  · rwa [failed]

theorem getBatchCount_coherent : Keeps CacheCoherent InboxTracker.getBatchCount := by
  intro t coherent
  rcases InboxTracker.getBatchCount_spec t with ⟨n, _, read⟩ | ⟨_, failed⟩
  · rw [read]
    refine coherent.of_kept fun k m hit => ⟨hit, ?_⟩
    exact congrFun (congrFun (InboxTracker.repaired_spec t.db).1 _) k
  · rwa [failed]

theorem writeBatch_coherent {ops : List DbOp} (untouched : ∀ op ∈ ops, op.place ≠ .table .sequencerBatchMeta) :
    Keeps CacheCoherent (InboxTracker.writeBatch ops) := by
  intro t coherent
  refine coherent.of_kept fun k m hit => ⟨hit, ?_⟩
  exact congrFun (t.db.get_write_of_untouched untouched) k

/-- An entry whose record is deleted is popped with it. -/
theorem deleteBatchMetadata_coherent (start : Nat) :
    Keeps CacheCoherent (InboxTracker.deleteBatchMetadataStartingAt start) := by
  intro t coherent
  obtain ⟨t', deleted, _, stored, cached⟩ := InboxTracker.deleteBatchMetadataStartingAt_spec start t
  rw [deleted]
  refine coherent.of_kept fun k m hit => ?_
  rw [final_ok, cached] at hit
  split at hit
  · contradiction
  · rename_i kept
    refine ⟨hit, ?_⟩
    have below : ¬ start ≤ k := fun past => kept ⟨past, by simp [Store.has, coherent k m hit]⟩
    rw [final_ok, stored, if_neg below]

/-- New metadata is written and cached under the same numbers. -/
theorem CacheCoherent.writeBatches (coherent : CacheCoherent t) {ops : List DbOp} (pos : Nat)
    (metas : List BatchMetadata)
    (written : ∀ k, (t.db.write ops).get .sequencerBatchMeta k =
      if pos ≤ k ∧ k < pos + metas.length then metas[k - pos]? else t.db.get .sequencerBatchMeta k) :
    CacheCoherent ⟨t.db.write ops, (numberFrom pos metas).foldl
      (fun cache entry => cache.put entry.1 entry.2) t.batchMetaCache⟩ := by
  intro k m hit
  rcases Lru.LruCache.peek_foldl_put _ _ hit with new | ⟨absent, old⟩
  · obtain ⟨past, here⟩ := mem_numberFrom.mp new
    have inside := (List.getElem?_eq_some_iff.mp here).1
    simp only [written, if_pos (show pos ≤ k ∧ k < pos + metas.length by omega), here]
  · have outside : ¬ (pos ≤ k ∧ k < pos + metas.length) := by
      rintro ⟨past, inside⟩
      have here : metas[k - pos]? = some metas[k - pos] := List.getElem?_eq_getElem (by omega)
      exact absent (List.mem_map.mpr ⟨(k, _), mem_numberFrom.mpr ⟨past, here⟩, rfl⟩)
    simp only [written, if_neg outside]
    exact coherent k m old

/-- The queue that the call returns leaves the metadata alone. -/
theorem setDelayedCount_coherent {batch : List DbOp} {first new : Nat} (inside : first ≤ new)
    (untouched : ∀ op ∈ batch, op.place ≠ .table .sequencerBatchMeta) (coherent : CacheCoherent t) :
    ∃ ops t', InboxTracker.setDelayedCountReorgAndWriteBatch batch first new true t = .ok ops t' ∧
      CacheCoherent t' ∧ ∀ op ∈ ops, op.place ≠ .table .sequencerBatchMeta := by
  have queued : ∀ op ∈ delayedOps t.db batch new, op.place ≠ .table .sequencerBatchMeta := by
    intro op member
    simp only [delayedOps, List.mem_append, List.mem_singleton] at member
    rcases member with (((old | rlp) | parent) | legacy) | rfl
    · exact untouched op old
    · simp [t.db.deleteFrom_place _ _ op rlp]
    · simp [t.db.deleteFrom_place _ _ op parent]
    · simp [t.db.deleteFrom_place _ _ op legacy]
    · simp [Op.place]
  unfold InboxTracker.setDelayedCountReorgAndWriteBatch
  simp only [bind_read, if_neg (not_lt.mpr inside)]
  cases t.db.range .delayedSequenced (wrappingAdd64 first 1) with
  | nil => exact ⟨_, t, rfl, coherent, queued⟩
  | cons entry rest =>
    obtain ⟨_, batchSeqNum⟩ := entry
    have cut := deleteBatchMetadata_coherent batchSeqNum t coherent
    obtain ⟨t', deleted, _⟩ := InboxTracker.deleteBatchMetadataStartingAt_spec batchSeqNum t
    rw [deleted] at cut
    refine ⟨delayedOps t.db batch new ++ t.db.deleteFrom .delayedSequenced (wrappingAdd64 first 1) ++
      [.setCount .sequencerBatchCount batchSeqNum], t', ?_, cut, ?_⟩
    · simp only [Bool.not_true, Bool.false_eq_true, if_false, bind_ok deleted]
      rfl
    · intro op member
      simp only [List.mem_append, List.mem_singleton] at member
      rcases member with (delayed | index) | rfl
      · exact queued op delayed
      · simp [t.db.deleteFrom_place _ _ op index]
      · simp [Op.place]

theorem reorgDelayedTo_coherent (count : Nat) : Keeps CacheCoherent (InboxTracker.reorgDelayedTo count) := by
  intro t coherent
  obtain ⟨ops, t', set, coherent', untouched⟩ :=
    setDelayedCount_coherent le_rfl (fun _ member => absurd member List.not_mem_nil) coherent
  rw [InboxTracker.reorgDelayedTo, bind_ok set]
  exact writeBatch_coherent untouched t' coherent'

theorem reorgBatchesToDb_coherent (count : Nat) :
    Keeps CacheCoherent (InboxTracker.reorgBatchesToDb count) := by
  intro t coherent
  rw [InboxTracker.reorgBatchesToDb]
  rcases coherent.previousMetadata count with ⟨m, t₁, read, _, coherent₁⟩ | ⟨e, failed⟩
  swap
  · rwa [bind_error (mapError_error failed)]
  have cut := deleteBatchMetadata_coherent count t₁ coherent₁
  obtain ⟨t₂, deleted, _⟩ := InboxTracker.deleteBatchMetadataStartingAt_spec count t₁
  rw [deleted] at cut
  rw [bind_ok (mapError_ok read), bind_read, bind_ok deleted, bind_ok (writeBatch_apply _ _)]
  apply writeBatch_coherent _ t₂ cut
  intro op member
  rcases List.mem_append.mp member with index | counter
  · simp [t₁.db.deleteFrom_place _ _ op index]
  · simp [List.mem_singleton.mp counter, Op.place]

/-- No batch from the count on stays stored. -/
theorem reorgBatchesToDb_removes {count n : Nat} (reorged : InboxTracker.reorgBatchesToDb count t = .ok n t')
    {i : Nat} (past : count ≤ i) : t'.db.get .sequencerBatchMeta i = none := by
  rw [InboxTracker.reorgBatchesToDb] at reorged
  obtain ⟨m, t₁, _, reorged⟩ := bind_eq_ok.mp reorged
  obtain ⟨t₂, deleted, _, stored, _⟩ := InboxTracker.deleteBatchMetadataStartingAt_spec count t₁
  rw [bind_read, bind_ok deleted, bind_ok (writeBatch_apply _ _)] at reorged
  cases reorged
  simp only [Store.write_append, Store.write_cons, Store.write_nil, Store.get_apply_setCount]
  rw [Store.get_write_deleteFrom_of_ne _ _ _ (by decide), stored, if_pos past]

section
variable [Externals]

theorem addDelayedMessages_coherent (messages : List DelayedInput) (snapSync : Option SnapSyncConfig) :
    Keeps CacheCoherent (InboxTracker.addDelayedMessages messages snapSync) := by
  intro t coherent
  rw [addDelayedMessages_snapSync]
  rcases addDelayedMessages_inputs t (InboxTracker.snapSyncSkip snapSync messages).2 with
    ⟨e, failed⟩ | empty | ⟨pos, acc, ds, some, previous, given⟩
  · rwa [failed]
  · rwa [empty]
  · have entries : ∀ op ∈ delayedPuts pos acc ds, op.place ≠ .table .sequencerBatchMeta := by
      intro op member
      simp [delayedPuts_place pos acc ds op member]
    obtain ⟨ops, t', set, coherent', untouched⟩ :=
      setDelayedCount_coherent (Nat.le_add_right pos _) entries coherent
    rw [given, addDelayedMessages_continuing previous some, bind_ok set]
    exact writeBatch_coherent untouched t' coherent'

theorem addSequencerBatches_coherent (batches : List SequencerInboxBatch) :
    Keeps CacheCoherent (InboxTracker.addSequencerBatches batches) := by
  intro t coherent
  cases batches with
  | nil => exact coherent
  | cons first rest =>
    rw [InboxTracker.addSequencerBatches]
    rcases coherent.previousMetadata first.sequenceNumber with ⟨m, t₁, read, _, coherent₁⟩ | ⟨e, failed⟩
    swap
    · rwa [bind_error failed]
    rw [bind_ok read, bind_read]
    cases checked : InboxTracker.checkBatches t₁.db first.sequenceNumber m.accumulator (first :: rest) with
    | error e => exact coherent₁
    | ok _ =>
      rw [bind_lift_ok]
      cases described : InboxTracker.describeBatches m (first :: rest) with
      | error e => exact coherent₁
      | ok numbered =>
        obtain ⟨metas, rfl, _⟩ := describeBatches_eq_ok checked described
        have cut := deleteBatchMetadata_coherent (first.sequenceNumber + (first :: rest).length) t₁ coherent₁
        obtain ⟨t₂, deleted, _⟩ := InboxTracker.deleteBatchMetadataStartingAt_spec
          (first.sequenceNumber + (first :: rest).length) t₁
        rw [deleted] at cut
        rw [bind_lift_ok, bind_ok deleted, bind_ok (writeBatch_apply _ _), update_apply]
        apply CacheCoherent.writeBatches cut
        intro k
        simp only [final_ok, Store.write_append, Store.write_cons, Store.write_nil,
          Store.get_apply_setCount, get_write_batchOps]
        rw [Store.get_write_deleteFrom_of_ne _ _ _ (by decide)]

theorem update_coherent (u : TrackerUpdate) : Keeps CacheCoherent u.run := by
  cases u with
  | addDelayedMessages messages snapSync => exact addDelayedMessages_coherent messages snapSync
  | addSequencerBatches batches => exact addSequencerBatches_coherent batches
  | reorgDelayedTo count => exact reorgDelayedTo_coherent count
  | reorgBatchesToDb count => exact (reorgBatchesToDb_coherent count).bind fun _ => .of_final fun _ => rfl

/-- A call with any arguments, or the loss of any cache entry. -/
inductive CacheStep (t : InboxTracker) : InboxTracker → Prop where
  | update (u : TrackerUpdate) : CacheStep t (final (u.run t))
  | getBatchMetadata (seqnum : Nat) : CacheStep t (final (InboxTracker.getBatchMetadata seqnum t))
  | getBatchCount : CacheStep t (final (InboxTracker.getBatchCount t))
  | evict (seqnum : Nat) : CacheStep t { t with batchMetaCache := t.batchMetaCache.pop seqnum }

/-- The states of the runs that start with `initialize` on any database, with an
empty cache of any size. -/
inductive CacheReachable : InboxTracker → Prop where
  | init (db : Db) (cap : Nat) :
      CacheReachable (final (InboxTracker.initializeTracker ⟨db, .new cap⟩))
  | step {t t' : InboxTracker} : CacheReachable t → CacheStep t t' → CacheReachable t'

theorem CacheStep.coherent (coherent : CacheCoherent t) (step : CacheStep t t') : CacheCoherent t' := by
  cases step with
  | update u => exact update_coherent u t coherent
  | getBatchMetadata i => exact getBatchMetadata_coherent i t coherent
  | getBatchCount => exact getBatchCount_coherent t coherent
  | evict i =>
    refine coherent.of_kept fun k m hit => ⟨?_, rfl⟩
    rw [Lru.LruCache.peek_pop] at hit
    split at hit
    · contradiction
    · exact hit

theorem CacheReachable.coherent (reached : CacheReachable t) : CacheCoherent t := by
  induction reached with
  | init db cap =>
    obtain ⟨db', initialized, _⟩ := InboxTracker.initializeTracker_spec ⟨db, .new cap⟩
    rw [initialized]
    intro k m hit
    exact nomatch hit
  | step _ step ih => exact step.coherent ih

/-- Reads always answer with what is stored; a batch that an update removed, and
every batch past the count of a reorg, is an error from then on. -/
theorem cached_metadata_is_stored (reached : CacheReachable t) :
    (∀ k m, t.batchMetaCache.peek k = some m → t.db.get .sequencerBatchMeta k = some m) ∧
    (∀ i, (∃ m t', t.db.get .sequencerBatchMeta i = some m ∧
        InboxTracker.getBatchMetadata i t = .ok m t' ∧ t'.db = t.db) ∨
      (t.db.get .sequencerBatchMeta i = none ∧
        InboxTracker.getBatchMetadata i t = .error (.noBatchMetadata i) t)) ∧
    (∀ (u : TrackerUpdate) t' i, final (u.run t) = t' → t.db.has .sequencerBatchMeta i = true →
      t'.db.has .sequencerBatchMeta i = false →
      InboxTracker.getBatchMetadata i t' = .error (.noBatchMetadata i) t') ∧
    ∀ count n t' i, InboxTracker.reorgBatchesToDb count t = .ok n t' → count ≤ i →
      InboxTracker.getBatchMetadata i t' = .error (.noBatchMetadata i) t' := by
  have coherent := reached.coherent
  have missing {t' : InboxTracker} (held : CacheCoherent t') {i : Nat}
      (gone : t'.db.get .sequencerBatchMeta i = none) :
      InboxTracker.getBatchMetadata i t' = .error (.noBatchMetadata i) t' := by
    rcases held.getBatchMetadata i with ⟨m, _, stored, _⟩ | ⟨_, failed⟩
    · exact absurd (gone.symm.trans stored) (Option.some_ne_none m).symm
    · exact failed
  refine ⟨coherent, fun i => ?_, ?_, ?_⟩
  · rcases coherent.getBatchMetadata i with ⟨m, t', stored, found, db, _⟩ | none
    · exact .inl ⟨m, t', stored, found, db⟩
    · exact .inr none
  · rintro u t' i rfl _ gone
    exact missing (update_coherent u t coherent) (by simpa [Store.has] using gone)
  · intro count n t' i reorged past
    have held := reorgBatchesToDb_coherent count t coherent
    rw [reorged] at held
    exact missing held (reorgBatchesToDb_removes reorged past)

end
end

section Samples
open Codecs

/-- A tracker that has stored a batch and read its metadata. -/
def cachedBatch : InboxTracker := final (InboxTracker.getBatchMetadata 0
  (final (InboxTracker.addSequencerBatches [batch 0 0 [[0, 7]]] initialTracker)))

/-- A reorg removes the batch from the store and from the cache. -/
theorem reorged_batch_is_missing : (cachedBatch.batchMetaCache.peek 0).isSome = true ∧
    ∃ n t', InboxTracker.reorgBatchesToDb 0 cachedBatch = .ok n t' ∧
      InboxTracker.getBatchMetadata 0 t' = .error (.noBatchMetadata 0) t' := by
  have reached : CacheReachable cachedBatch :=
    .step (.step (.init .empty 1000) (.update (.addSequencerBatches [batch 0 0 [[0, 7]]])))
      (.getBatchMetadata 0)
  have done : isOk (InboxTracker.reorgBatchesToDb 0 cachedBatch) = true := by decide +kernel
  obtain ⟨n, reorged⟩ := eq_ok_of_isOk done
  obtain ⟨_, _, _, removed⟩ := cached_metadata_is_stored reached
  exact ⟨by decide +kernel, n, _, reorged, removed 0 n _ 0 reorged le_rfl⟩

end Samples
end NitroRs
