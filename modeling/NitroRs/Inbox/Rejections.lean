import NitroRs.Inbox.Crash

/-! What a rejected call leaves. Every error exit of the tracker's updates comes
before the first write, also before the deletions that are not queued. -/
namespace NitroRs
open KeyValue Outcome

section
variable {t t' : InboxTracker} {e : Error}

/-- Behind the check of its two counts the queue of a delayed reorg always succeeds. -/
theorem setDelayedCount_error {batch : List DbOp} {first new : Nat}
    (rejected : InboxTracker.setDelayedCountReorgAndWriteBatch batch first new true t = .error e t') :
    new < first ∧ t' = t := by
  by_cases inside : first ≤ new
  · obtain ⟨ops, t₁, set, _⟩ := TrackerUpdate.setDelayedCount_db batch inside t
    rw [set] at rejected
    contradiction
  · rw [InboxTracker.setDelayedCountReorgAndWriteBatch, bind_read, if_pos (by omega)] at rejected
    cases rejected
    exact ⟨by omega, rfl⟩

theorem reorgDelayedTo_not_error (count : Nat) : InboxTracker.reorgDelayedTo count t ≠ .error e t' := by
  intro rejected
  rcases bind_eq_error.mp rejected with failed | ⟨ops, t₁, _, written⟩
  · exact lt_irrefl count (setDelayedCount_error failed).1
  · contradiction

theorem reorgBatchesToDb_error {count : Nat}
    (rejected : InboxTracker.reorgBatchesToDb count t = .error e t') : t'.db = t.db := by
  rw [InboxTracker.reorgBatchesToDb] at rejected
  rcases InboxTracker.previousMetadata_spec count t with ⟨m, cache, _, previous⟩ | ⟨_, cause, failed⟩
  · obtain ⟨t₂, deleted, _⟩ := InboxTracker.deleteBatchMetadataStartingAt_spec count ⟨t.db, cache⟩
    rw [bind_ok (mapError_ok previous), bind_read, bind_ok deleted, bind_ok (writeBatch_apply _ _)]
      at rejected
    contradiction
  · rw [bind_error (mapError_error failed)] at rejected
    cases rejected
    rfl

variable [Externals]

theorem addDelayedMessages_error {messages : List DelayedInput} {snapSync : Option SnapSyncConfig}
    (rejected : InboxTracker.addDelayedMessages messages snapSync t = .error e t') : t' = t := by
  rw [InboxTracker.addDelayedMessages, bind_read] at rejected
  rcases kept : InboxTracker.snapSyncSkip snapSync messages with ⟨startAcc, _ | ⟨⟨pos, input⟩, rest⟩⟩
  · rw [kept] at rejected
    contradiction
  · rw [kept] at rejected
    rcases bind_eq_error.mp rejected with failed | ⟨nextAcc, t₁, found, rejected⟩
    · exact (lift_eq_error.mp failed).2.symm
    obtain ⟨_, rfl⟩ := lift_eq_ok.mp found
    rcases bind_eq_error.mp rejected with failed | ⟨batch, t₂, queued, rejected⟩
    · exact (lift_eq_error.mp failed).2.symm
    obtain ⟨_, rfl⟩ := lift_eq_ok.mp queued
    rcases bind_eq_error.mp rejected with failed | ⟨ops, t₃, _, written⟩
    · exact (setDelayedCount_error failed).2
    · contradiction

/-- A rejected update leaves the database as it was, in every state and for all arguments. -/
theorem rejected_update_keeps_database {u : TrackerUpdate} (rejected : u.run t = .error e t') :
    t'.db = t.db := by
  cases u with
  | addDelayedMessages messages snapSync => rw [addDelayedMessages_error rejected]
  | addSequencerBatches batches => exact addSequencerBatches_error rejected
  | reorgDelayedTo count => exact absurd rejected (reorgDelayedTo_not_error count)
  | reorgBatchesToDb count =>
    rcases bind_eq_error.mp rejected with failed | ⟨n, t₁, _, returned⟩
    · exact reorgBatchesToDb_error failed
    · contradiction

end

section Samples
open Codecs

/-- The second batch of a list has the wrong number: the first one is not written. -/
theorem misnumbered_batch_keeps_database : ∃ e t',
    (TrackerUpdate.addSequencerBatches [batch 0 0 [[0, 7]], batch 5 0 []]).run twoBatches = .error e t' ∧
      t'.db = twoBatches.db := by
  have failed : isOk ((TrackerUpdate.addSequencerBatches [batch 0 0 [[0, 7]], batch 5 0 []]).run
      twoBatches) = false := by decide +kernel
  obtain ⟨e, rejected⟩ := eq_error_of_not_isOk failed
  exact ⟨e, _, rejected, rejected_update_keeps_database rejected⟩

end Samples
end NitroRs
