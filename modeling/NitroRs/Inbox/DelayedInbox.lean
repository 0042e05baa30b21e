import NitroRs.Inbox.Crash

/-! The delayed inbox on its own. Whatever the batches are, its tables hold a list of
messages with their accumulators; only delayed messages and delayed reorgs change it. -/
namespace NitroRs
open KeyValue Outcome
open Checked (wrappingAdd64)

theorem Ledger.sorted_nil : Ascending.Sorted BatchMetadata.delayedMessageCount [] := .nil

/-- Delayed messages without batches. -/
def Ledger.ofDelayed (delayed : List DelayedMessage) : Ledger :=
  ⟨delayed, [], sorted_nil, fun _ member => nomatch member⟩

section
variable [Externals]

structure HoldsDelayed (db : Db) (delayed : List DelayedMessage) : Prop
    extends DelayedSet delayed.length db (.ofDelayed delayed) where
  noParentBlocks : ∀ i, db.get .parentChainBlockNumber i = none

variable {db : Db} {delayed : List DelayedMessage}

theorem HoldsDelayed.count (holds : HoldsDelayed db delayed) :
    InboxTracker.getDelayedCount db = .ok delayed.length := by
  simp only [InboxTracker.getDelayedCount, Db.readCount, holds.delayedCount]

theorem HoldsDelayed.getDelayedAcc (holds : HoldsDelayed db delayed) (i : Nat) :
    InboxTracker.getDelayedAcc db i =
      if i < delayed.length then .ok (accumulator (delayed.take (i + 1)))
      else .error (.noDelayedAccumulator i) :=
  getDelayedAcc_of_entries holds.entries holds.noLegacy i

theorem HoldsDelayed.getDelayedEntry (holds : HoldsDelayed db delayed) {i : Nat} {d : DelayedMessage}
    (here : delayed[i]? = some d) :
    InboxTracker.getDelayedMessageAccumulatorAndParentChainBlockNumber db i =
      .ok (d.msg, accumulator (delayed.take i), d.msg.header.blockNumber.toNat) := by
  have entry : db.get .rlpDelayedMessage i =
      some ((accumulator (delayed.take i)).val ++ d.bytes) := by
    rw [holds.entries, Ledger.entry, Ledger.ofDelayed, here, Option.map_some]
  simp only [InboxTracker.getDelayedMessageAccumulatorAndParentChainBlockNumber, entry, splitEntry_append,
    holds.noParentBlocks]
  rfl

theorem HoldsDelayed.getDelayedMessage (holds : HoldsDelayed db delayed) {i : Nat} {d : DelayedMessage}
    (here : delayed[i]? = some d) : InboxTracker.getDelayedMessage db i = .ok d.msg := by
  rw [InboxTracker.getDelayedMessage, holds.getDelayedEntry here]
  rfl

theorem HoldsDelayed.previousAccumulator (holds : HoldsDelayed db delayed) (pos : Nat) :
    InboxTracker.previousAccumulator db .zero pos =
      if pos ≤ delayed.length then .ok (accumulator (delayed.take pos))
      else .error .missingPreviousDelayed := by
  cases pos with
  | zero => rfl
  | succ pos =>
    rw [InboxTracker.previousAccumulator, if_neg (Nat.succ_ne_zero pos), Nat.add_sub_cancel,
      holds.getDelayedAcc]
    by_cases inside : pos < delayed.length
    · rw [if_pos inside, if_pos (show pos + 1 ≤ delayed.length from inside)]
    · rw [if_neg inside, if_neg (show ¬ pos + 1 ≤ delayed.length from inside)]

theorem HoldsDelayed.write (holds : HoldsDelayed db delayed) {ops : List DbOp} (side : OnBatchSide ops) :
    HoldsDelayed (db.write ops) delayed := by
  refine ⟨holds.toDelayedSet.write side, fun i => ?_⟩
  rw [db.get_write_of_untouched (side.untouched (by decide)), holds.noParentBlocks]

/-- The streamer keeps to its own side. -/
theorem HoldsDelayed.of_agree (holds : HoldsDelayed db delayed) {db' : Db} (frame : Agree .tracker db db') :
    HoldsDelayed db' delayed where
  delayedCount := by rw [frame.count _ rfl, holds.delayedCount]
  entries i := by rw [frame.get _ rfl, holds.entries]
  noLegacy i := by rw [frame.get _ rfl, holds.noLegacy]
  noParentBlocks i := by rw [frame.get _ rfl, holds.noParentBlocks]

theorem HoldsDelayed.repaired (holds : HoldsDelayed db delayed) :
    HoldsDelayed (InboxTracker.repaired db) delayed := by
  unfold InboxTracker.repaired
  split
  · exact holds
  · split
    · exact holds
    · exact holds.write (onBatchSide_setCount _)

/-- The messages from a position on are replaced. -/
theorem HoldsDelayed.replace (holds : HoldsDelayed db delayed) {pos : Nat} (inside : pos ≤ delayed.length)
    (ds : List DelayedMessage) :
    HoldsDelayed (db.write (delayedWrites db (delayedPuts pos (accumulator (delayed.take pos)) ds) pos
      (pos + ds.length))) (delayed.take pos ++ ds) := by
  have set {db' : Db} (same : ∀ table, table ≠ .sequencerBatchMeta → db'.get table = db.get table) :
      HoldsDelayed (db'.write (delayedOps db (delayedPuts pos (accumulator (delayed.take pos)) ds)
        (pos + ds.length))) (delayed.take pos ++ ds) := by
    have length : (delayed.take pos ++ ds).length = pos + ds.length := by simp [inside]
    refine ⟨length ▸ delayedOps_set (l := .ofDelayed delayed) holds.toDelayedSet (.inl inside) same, fun i => ?_⟩
    have puts := delayedPuts_place pos (accumulator (delayed.take pos)) ds
    simp only [delayedOps, Store.write_append, Store.write_cons, Store.write_nil,
      Store.get_apply_setCount]
    rw [Store.get_write_deleteFrom_of_ne _ _ _ (by decide), Store.get_write_deleteFrom,
      Store.get_write_deleteFrom_of_ne _ _ _ (by decide),
      Store.get_write_of_untouched _ fun op member => by rw [puts op member]; decide,
      same _ (by decide), holds.noParentBlocks]
    simp
  unfold delayedWrites
  cases db.range .delayedSequenced (wrappingAdd64 pos 1) with
  | nil => exact set fun _ _ => rfl
  | cons entry rest =>
    obtain ⟨_, batchSeqNum⟩ := entry
    dsimp only
    rw [Store.write_append, List.append_assoc, Store.write_append]
    apply HoldsDelayed.write
    · exact set fun table other => Store.get_write_deleteFrom_of_ne _ _ _ other
    · exact (onBatchSide_deleteFrom _ _ (.inr rfl)).append (onBatchSide_setCount _)

end

section
variable [Externals] {t t' : InboxTracker} {delayed : List DelayedMessage}

/-- Accepted messages replace the stored ones from their first position on. -/
theorem addDelayedMessages_holds (holds : HoldsDelayed t.db delayed) {pos : Nat}
    (inside : pos ≤ delayed.length) {ds : List DelayedMessage} (some : ds ≠ []) :
    ∃ t', InboxTracker.addDelayedMessages (delayedInputs pos (accumulator (delayed.take pos)) ds) none t =
        .ok () t' ∧
      t'.db = t.db.write (delayedWrites t.db (delayedPuts pos (accumulator (delayed.take pos)) ds) pos
        (pos + ds.length)) := by
  have previous := holds.previousAccumulator pos
  rw [if_pos inside] at previous
  obtain ⟨ops, t', set, db⟩ := TrackerUpdate.setDelayedCount_db
    (delayedPuts pos (accumulator (delayed.take pos)) ds) (Nat.le_add_right pos ds.length) t
  exact ⟨{ t' with db := t'.db.write ops }, (addDelayedMessages_continuing previous some).trans
    ((bind_ok set).trans (writeBatch_apply ops t')), db⟩

/-- A list is rejected, empty or accepted. -/
theorem addDelayedMessages_cases (holds : HoldsDelayed t.db delayed) (inputs : List DelayedInput) :
    (∃ e, InboxTracker.addDelayedMessages inputs none t = .error e t) ∨
    (inputs = [] ∧ InboxTracker.addDelayedMessages inputs none t = .ok () t) ∨
    ∃ pos ds, pos ≤ delayed.length ∧ ds ≠ [] ∧
      inputs = delayedInputs pos (accumulator (delayed.take pos)) ds := by
  rcases addDelayedMessages_inputs t inputs with
    rejected | rfl | ⟨pos, acc, ds, some, previous, rfl⟩
  · exact .inl rejected
  · exact .inr (.inl ⟨rfl, rfl⟩)
  · rw [holds.previousAccumulator] at previous
    split at previous
    · rename_i inside
      cases previous
      exact .inr (.inr ⟨pos, ds, inside, some, rfl⟩)
    · contradiction

theorem reorgDelayedTo_holds (holds : HoldsDelayed t.db delayed) {count : Nat}
    (inside : count ≤ delayed.length) :
    ∃ t', InboxTracker.reorgDelayedTo count t = .ok () t' ∧ HoldsDelayed t'.db (delayed.take count) := by
  obtain ⟨ops, t', set, db⟩ := TrackerUpdate.setDelayedCount_db [] le_rfl t
  refine ⟨{ t' with db := t'.db.write ops }, (bind_ok set).trans (writeBatch_apply _ _), ?_⟩
  have cut := holds.replace inside []
  rw [List.append_nil] at cut
  rw [db]
  exact cut

theorem writes_onBatchSide (batches : List SequencerInboxBatch) :
    OnBatchSide ((TrackerUpdate.addSequencerBatches batches).writes t) := by
  rcases TrackerUpdate.writes_addSequencerBatches t batches with
    nothing | ⟨first, rest, m, cache, metas, _, _, _, _, _, _, same⟩
  · rw [nothing]
    exact fun _ member => absurd member List.not_mem_nil
  · rw [same]
    exact (onBatchSide_deleteFrom _ _ (.inl rfl)).append
      (((onBatchSide_deleteFrom _ _ (.inr rfl)).append (batchOps_place _ _)).append
        (onBatchSide_setCount _))

theorem writes_reorg_onBatchSide (count : Nat) :
    OnBatchSide ((TrackerUpdate.reorgBatchesToDb count).writes t) := by
  rw [TrackerUpdate.writes]
  split
  · exact fun _ member => absurd member List.not_mem_nil
  · exact (onBatchSide_deleteFrom _ _ (.inl rfl)).append
      ((onBatchSide_deleteFrom _ _ (.inr rfl)).append (onBatchSide_setCount _))

theorem addSequencerBatches_holds (holds : HoldsDelayed t.db delayed) (batches : List SequencerInboxBatch) :
    HoldsDelayed (final (InboxTracker.addSequencerBatches batches t)).db delayed := by
  have db := TrackerUpdate.run_db t (.addSequencerBatches batches)
  rw [TrackerUpdate.run] at db
  rw [db]
  exact holds.write (writes_onBatchSide batches)

/-- The tracker's updates, with any batches: nothing here rests on what L1 promises
about them. -/
inductive DelayedStep (t : InboxTracker) : InboxTracker → Prop where
  | addDelayedMessages (inputs : List DelayedInput) :
      DelayedStep t (final (InboxTracker.addDelayedMessages inputs none t))
  | addSequencerBatches (batches : List SequencerInboxBatch) :
      DelayedStep t (final (InboxTracker.addSequencerBatches batches t))
  | reorgDelayedTo (count : Nat)
      (inside : ∀ n, InboxTracker.getDelayedCount t.db = .ok n → count ≤ n) :
      DelayedStep t (final (InboxTracker.reorgDelayedTo count t))
  | reorgBatchesToDb (count : Nat) : DelayedStep t (final (InboxTracker.reorgBatchesToDb count t))

inductive DelayedReachable : InboxTracker → Prop where
  | init {db : Db} : Fresh db → DelayedReachable (final (InboxTracker.initializeTracker (.new db)))
  | step {t t' : InboxTracker} : DelayedReachable t → DelayedStep t t' → DelayedReachable t'

theorem DelayedStep.holds (holds : HoldsDelayed t.db delayed) (step : DelayedStep t t') :
    ∃ delayed', HoldsDelayed t'.db delayed' := by
  cases step with
  | addDelayedMessages inputs =>
    rcases addDelayedMessages_cases holds inputs with ⟨e, failed⟩ | ⟨_, same⟩ | ⟨pos, ds, inside, some, rfl⟩
    · exact ⟨delayed, by rwa [failed]⟩
    · exact ⟨delayed, by rwa [same]⟩
    · obtain ⟨t', added, db⟩ := addDelayedMessages_holds holds inside some
      refine ⟨delayed.take pos ++ ds, ?_⟩
      rw [added, final_ok, db]
      exact holds.replace inside ds
  | addSequencerBatches batches => exact ⟨delayed, addSequencerBatches_holds holds batches⟩
  | reorgDelayedTo count inside =>
    obtain ⟨t', reorged, cut⟩ := reorgDelayedTo_holds holds (inside _ holds.count)
    exact ⟨_, by rwa [reorged]⟩
  | reorgBatchesToDb count =>
    refine ⟨delayed, ?_⟩
    have db := TrackerUpdate.run_db t (.reorgBatchesToDb count)
    have same : (final ((TrackerUpdate.reorgBatchesToDb count).run t)).db =
        (final (InboxTracker.reorgBatchesToDb count t)).db := by
      rw [TrackerUpdate.run]
      cases ran : InboxTracker.reorgBatchesToDb count t with
      | ok n t' => rw [bind_ok ran]; rfl
      | error e t' => rw [bind_error ran]; rfl
    rw [← same, db]
    exact holds.write (writes_reorg_onBatchSide count)

theorem DelayedReachable.holds (reached : DelayedReachable t) : ∃ delayed, HoldsDelayed t.db delayed := by
  induction reached with
  | init fresh =>
    refine ⟨[], ?_⟩
    have represents := initializeTracker_represents fresh
    refine ⟨⟨represents.delayedCount, represents.entries, represents.noLegacy⟩, fun i => ?_⟩
    obtain ⟨db', initialized, same, _⟩ := InboxTracker.initializeTracker_spec (.new _)
    rw [initialized, final_ok, same, InboxTracker.new, fresh.get _ rfl]
    exact Store.get_empty _ _
  | step _ step ih =>
    obtain ⟨delayed, holds⟩ := ih
    exact step.holds holds

end
end NitroRs
