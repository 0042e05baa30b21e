import NitroRs.Inbox.Tracker

/-! What each tracker operation can do, from any state. -/
namespace NitroRs
open KeyValue Outcome

namespace InboxTracker

@[simp] theorem count_write_zeroIfMissing (db s : Db) (c d : Counter) :
    (s.write (zeroIfMissing db c)).count d =
      if d = c ∧ (db.count c).isNone then some 0 else s.count d := by
  unfold zeroIfMissing
  split <;> rename_i missing <;> simp [missing]

@[simp] theorem get_write_zeroIfMissing (db s : Db) (c : Counter) :
    (s.write (zeroIfMissing db c)).get = s.get := by
  unfold zeroIfMissing
  split <;> rfl

/-- `initialize` gives every counter a value and changes nothing else. -/
theorem initializeTracker_spec (t : InboxTracker) :
    ∃ db, initializeTracker t = .ok () { t with db } ∧ db.get = t.db.get ∧
      ∀ c, db.count c = some ((t.db.count c).getD 0) := by
  refine ⟨_, rfl, ?_, ?_⟩
  · simp only [Store.write_append, get_write_zeroIfMissing]
  · intro c
    cases known : t.db.count c <;> cases c <;> simp [known]

/-- What `get_batch_metadata` finds for a batch. -/
def metadataAt (t : InboxTracker) (seqnum : Nat) : Option BatchMetadata :=
  (t.batchMetaCache.peek seqnum).or (t.db.get .sequencerBatchMeta seqnum)

/-- A read changes nothing but the cache, which learns nothing new. -/
theorem getBatchMetadata_cases (seqnum : Nat) (t : InboxTracker) :
    (∃ m cache, t.metadataAt seqnum = some m ∧ getBatchMetadata seqnum t = .ok m ⟨t.db, cache⟩ ∧
      ∀ j v, cache.peek j = some v → t.metadataAt j = some v) ∨
    (t.metadataAt seqnum = none ∧ getBatchMetadata seqnum t = .error (.noBatchMetadata seqnum) t) := by
  have known {j : Nat} {v : BatchMetadata} (hit : t.batchMetaCache.peek j = some v) :
      t.metadataAt j = some v := by
    simp only [metadataAt, hit, Option.some_or]
  have hit := t.batchMetaCache.get_fst seqnum
  have same := fun j => t.batchMetaCache.peek_get seqnum j
  rcases read : t.batchMetaCache.get seqnum with ⟨found, cache⟩
  rw [read] at hit same
  cases found with
  | some m =>
    refine .inl ⟨m, cache, known hit.symm, ?_, fun j v peeked => known (same j ▸ peeked)⟩
    simp only [getBatchMetadata, bind_read, read]
    rfl
  | none =>
    cases stored : t.db.get .sequencerBatchMeta seqnum with
    | none =>
      refine .inr ⟨?_, ?_⟩
      · simp only [metadataAt, ← hit, stored, Option.none_or]
      · simp only [getBatchMetadata, bind_read, read, stored]
        rfl
    | some m =>
      have here : t.metadataAt seqnum = some m := by
        simp only [metadataAt, ← hit, stored, Option.none_or]
      refine .inl ⟨m, cache.put seqnum m, here, ?_, ?_⟩
      · simp only [getBatchMetadata, bind_read, read, stored]
        rfl
      · intro j v peeked
        rcases Lru.LruCache.peek_put cache peeked with ⟨rfl, rfl⟩ | ⟨_, old⟩
        · exact here
        · exact known (same j ▸ old)

theorem repairCount_self {db : Db} {n : Nat} (last : ∀ m, n = m + 1 → db.has .sequencerBatchMeta m) :
    repairCount db n = n := by
  cases n with
  | zero => rfl
  | succ n => simp only [repairCount, last n rfl, if_true]

theorem deleteBatchMetadataStartingAt_spec (start : Nat) (t : InboxTracker) :
    ∃ t', deleteBatchMetadataStartingAt start t = .ok () t' ∧
      t'.db = t.db.write (t.db.deleteFrom .sequencerBatchMeta start) ∧
      (∀ j, t'.db.get .sequencerBatchMeta j =
        if start ≤ j then none else t.db.get .sequencerBatchMeta j) ∧
      ∀ j, t'.batchMetaCache.peek j =
        if start ≤ j ∧ t.db.has .sequencerBatchMeta j then none else t.batchMetaCache.peek j := by
  refine ⟨_, rfl, rfl, fun j => Store.get_write_deleteFrom_of_eq (fun _ => rfl) start j, ?_⟩
  intro j
  simp only [Lru.LruCache.peek_foldl_pop Prod.fst, Store.mem_keys_range]

end InboxTracker
end NitroRs
