import NitroRs.Inbox.Recovery
import NitroRs.Lib.Cut

/-! A crash inside an update of the tracker: the single-key writes of each call in
their order, and which prefixes of them a restart can live with. -/
namespace NitroRs
open KeyValue Outcome
open Checked (wrappingAdd64)

/-- A call that updates the tracker's tables. -/
inductive TrackerUpdate where
  | addDelayedMessages (messages : List DelayedInput) (snapSync : Option SnapSyncConfig)
  | addSequencerBatches (batches : List SequencerInboxBatch)
  | reorgDelayedTo (count : Nat)
  | reorgBatchesToDb (count : Nat)

namespace TrackerUpdate
variable [Externals]

def run : TrackerUpdate → EStateM Error InboxTracker Unit
  | addDelayedMessages messages snapSync => InboxTracker.addDelayedMessages messages snapSync
  | addSequencerBatches batches => InboxTracker.addSequencerBatches batches
  | reorgDelayedTo count => InboxTracker.reorgDelayedTo count
  | reorgBatchesToDb count => do
    let _ ← InboxTracker.reorgBatchesToDb count
    return ()

/-- The single-key writes of a call in the order in which they reach the database. -/
def writes (t : InboxTracker) : TrackerUpdate → List DbOp
  | addDelayedMessages messages snapSync =>
    match InboxTracker.snapSyncSkip snapSync messages with
    | (_, []) => []
    | (startAcc, (pos, beforeAcc, bytes) :: rest) =>
      match InboxTracker.previousAccumulator t.db startAcc pos with
      | .error _ => []
      | .ok nextAcc =>
        match InboxTracker.queueDelayed pos nextAcc ((pos, beforeAcc, bytes) :: rest) with
        | .error _ => []
        | .ok batch => delayedWrites t.db batch pos (pos + (rest.length + 1))
  | addSequencerBatches [] => []
  | addSequencerBatches (first :: rest) =>
    match InboxTracker.previousMetadata first.sequenceNumber t with
    | .error _ _ => []
    | .ok m _ =>
      match InboxTracker.checkBatches t.db first.sequenceNumber m.accumulator (first :: rest),
          InboxTracker.describeBatches m (first :: rest) with
      | .ok _, .ok metas =>
        t.db.deleteFrom .sequencerBatchMeta (first.sequenceNumber + (rest.length + 1)) ++
          (t.db.deleteFrom .delayedSequenced (m.delayedMessageCount + 1) ++
            InboxTracker.batchOps m metas ++
            [.setCount .sequencerBatchCount (first.sequenceNumber + (rest.length + 1))])
      | _, _ => []
  | reorgDelayedTo count => delayedWrites t.db [] count count
  | reorgBatchesToDb count =>
    match InboxTracker.previousMetadata count t with
    | .error _ _ => []
    | .ok m _ => t.db.deleteFrom .sequencerBatchMeta count ++
        (t.db.deleteFrom .delayedSequenced (m.delayedMessageCount + 1) ++
          [.setCount .sequencerBatchCount count])

/-- Delayed messages write nothing, or continue an accumulator that the tracker has. -/
theorem writes_addDelayedMessages (t : InboxTracker) (messages : List DelayedInput)
    (snapSync : Option SnapSyncConfig) : (addDelayedMessages messages snapSync).writes t = [] ∨
      ∃ pos startAcc acc ds, InboxTracker.previousAccumulator t.db startAcc pos = .ok acc ∧
        (addDelayedMessages messages snapSync).writes t =
          delayedWrites t.db (delayedPuts pos acc ds) pos (pos + ds.length) := by
  rw [writes]
  rcases InboxTracker.snapSyncSkip snapSync messages with ⟨startAcc, _ | ⟨⟨pos, beforeAcc, bytes⟩, rest⟩⟩
  · exact .inl rfl
  · dsimp only
    cases previous : InboxTracker.previousAccumulator t.db startAcc pos with
    | error e => exact .inl rfl
    | ok acc =>
      dsimp only
      cases queued : InboxTracker.queueDelayed pos acc ((pos, beforeAcc, bytes) :: rest) with
      | error e => exact .inl rfl
      | ok batch =>
        obtain ⟨ds, length, rfl⟩ := queueDelayed_eq_ok queued
        rw [List.length_cons] at length
        exact .inr ⟨pos, startAcc, acc, ds, previous, by rw [length]⟩

/-- Batches write nothing, or the metadata that their loop describes. -/
theorem writes_addSequencerBatches (t : InboxTracker) (batches : List SequencerInboxBatch) :
    (addSequencerBatches batches).writes t = [] ∨ ∃ first rest m cache metas, batches = first :: rest ∧
      t.metadataBefore first.sequenceNumber = some m ∧
      InboxTracker.previousMetadata first.sequenceNumber t = .ok m ⟨t.db, cache⟩ ∧
      InboxTracker.checkBatches t.db first.sequenceNumber m.accumulator batches = .ok () ∧
      InboxTracker.describeBatches m batches = .ok (numberFrom first.sequenceNumber metas) ∧
      metas.map (·.delayedMessageCount) = batches.map (·.afterDelayedCount) ∧
      (addSequencerBatches batches).writes t =
        t.db.deleteFrom .sequencerBatchMeta (first.sequenceNumber + metas.length) ++
          (t.db.deleteFrom .delayedSequenced (m.delayedMessageCount + 1) ++
            InboxTracker.batchOps m (numberFrom first.sequenceNumber metas) ++
            [.setCount .sequencerBatchCount (first.sequenceNumber + metas.length)]) := by
  cases batches with
  | nil => exact .inl rfl
  | cons first rest =>
    rw [writes]
    rcases InboxTracker.previousMetadata_spec first.sequenceNumber t with
      ⟨m, cache, before, previous⟩ | ⟨_, e, failed⟩
    · rw [previous]
      dsimp only
      cases checked : InboxTracker.checkBatches t.db first.sequenceNumber m.accumulator (first :: rest) with
      | error e => exact .inl rfl
      | ok _ =>
        cases described : InboxTracker.describeBatches m (first :: rest) with
        | error e => exact .inl rfl
        | ok numbered =>
          obtain ⟨metas, rfl, counts, _⟩ := describeBatches_eq_ok checked described
          have length : metas.length = rest.length + 1 := by simpa using congrArg List.length counts
          exact .inr ⟨first, rest, m, cache, metas, rfl, before, previous, checked, described, counts,
            by rw [length]⟩
    · rw [failed]
      exact .inl rfl

omit [Externals] in
/-- With batches that may be reorged the queue never fails. -/
theorem setDelayedCount_db (batch : List DbOp) {first new : Nat} (inside : first ≤ new)
    (t : InboxTracker) :
    ∃ ops t', InboxTracker.setDelayedCountReorgAndWriteBatch batch first new true t = .ok ops t' ∧
      t'.db.write ops = t.db.write (delayedWrites t.db batch first new) := by
  unfold InboxTracker.setDelayedCountReorgAndWriteBatch delayedWrites
  simp only [bind_read, if_neg (not_lt.mpr inside)]
  cases t.db.range .delayedSequenced (wrappingAdd64 first 1) with
  | nil => exact ⟨_, t, rfl, rfl⟩
  | cons entry rest =>
    obtain ⟨_, batchSeqNum⟩ := entry
    obtain ⟨t', deleted, db, _⟩ := InboxTracker.deleteBatchMetadataStartingAt_spec batchSeqNum t
    refine ⟨delayedOps t.db batch new ++ t.db.deleteFrom .delayedSequenced (wrappingAdd64 first 1) ++
      [.setCount .sequencerBatchCount batchSeqNum], t', ?_, ?_⟩
    · simp only [Bool.not_true, Bool.false_eq_true, if_false, bind_ok deleted]
      rfl
    · rw [db, ← Store.write_append]

theorem addDelayedMessages_db (t : InboxTracker) (messages : List DelayedInput) (snapSync : Option SnapSyncConfig) :
    (final ((addDelayedMessages messages snapSync).run t)).db =
      t.db.write ((addDelayedMessages messages snapSync).writes t) := by
  rw [run, InboxTracker.addDelayedMessages, bind_read, writes]
  rcases InboxTracker.snapSyncSkip snapSync messages with ⟨startAcc, _ | ⟨⟨pos, beforeAcc, bytes⟩, rest⟩⟩
  · rfl
  · dsimp only
    cases InboxTracker.previousAccumulator t.db startAcc pos with
    | error e => rfl
    | ok nextAcc =>
      rw [bind_lift_ok]
      dsimp only
      cases InboxTracker.queueDelayed pos nextAcc ((pos, beforeAcc, bytes) :: rest) with
      | error e => rfl
      | ok batch =>
        rw [bind_lift_ok]
        dsimp only
        obtain ⟨ops, t', set, db⟩ := setDelayedCount_db batch
          (show pos ≤ pos + (rest.length + 1) by omega) t
        rw [List.length_cons, bind_ok set, writeBatch_apply]
        exact db

theorem addSequencerBatches_db (t : InboxTracker) (batches : List SequencerInboxBatch) :
    (final ((addSequencerBatches batches).run t)).db = t.db.write ((addSequencerBatches batches).writes t) := by
  cases batches with
  | nil => rfl
  | cons first rest =>
    rw [run, InboxTracker.addSequencerBatches, writes]
    rcases InboxTracker.previousMetadata_spec first.sequenceNumber t with
      ⟨m, cache, _, previous⟩ | ⟨_, e, failed⟩
    swap
    · rw [bind_error failed, failed]
      rfl
    rw [bind_ok previous, bind_read, previous]
    dsimp only
    cases InboxTracker.checkBatches t.db first.sequenceNumber m.accumulator (first :: rest) with
    | error e => rfl
    | ok _ =>
      rw [bind_lift_ok]
      cases InboxTracker.describeBatches m (first :: rest) with
      | error e => rfl
      | ok metas =>
        obtain ⟨t₂, deleted, db, _⟩ := InboxTracker.deleteBatchMetadataStartingAt_spec
          (first.sequenceNumber + (first :: rest).length) ⟨t.db, cache⟩
        rw [bind_lift_ok, bind_ok deleted, bind_ok (writeBatch_apply _ _), update_apply, final_ok]
        simp only [db, Store.write_append, List.length_cons]

theorem reorgBatchesToDb_db (t : InboxTracker) (count : Nat) :
    (final ((reorgBatchesToDb count).run t)).db = t.db.write ((reorgBatchesToDb count).writes t) := by
  rw [run, InboxTracker.reorgBatchesToDb, writes]
  rcases InboxTracker.previousMetadata_spec count t with
    ⟨m, cache, _, previous⟩ | ⟨_, e, failed⟩
  swap
  · rw [bind_error (bind_error (mapError_error failed)), failed]
    rfl
  obtain ⟨t₂, deleted, db, _⟩ :=
    InboxTracker.deleteBatchMetadataStartingAt_spec count ⟨t.db, cache⟩
  rw [previous]
  have ran : (do
      let prevBatchMeta ← mapError .reorgToFutureBatch (InboxTracker.previousMetadata count)
      let t ← read
      InboxTracker.deleteBatchMetadataStartingAt count
      InboxTracker.writeBatch (t.db.deleteFrom .delayedSequenced
        (prevBatchMeta.delayedMessageCount + 1) ++ [.setCount .sequencerBatchCount count])
      return prevBatchMeta.messageCount : EStateM Error InboxTracker Nat) t =
      .ok m.messageCount { t₂ with db := t₂.db.write (t.db.deleteFrom .delayedSequenced
        (m.delayedMessageCount + 1) ++ [.setCount .sequencerBatchCount count]) } := by
    rw [bind_ok (mapError_ok previous), bind_read, bind_ok deleted, bind_ok (writeBatch_apply _ _),
      pure_apply]
  rw [bind_ok ran, pure_apply, final_ok]
  simp only [db, Store.write_append]

/-- A call leaves the database that its writes make, from any state. -/
theorem run_db (t : InboxTracker) (u : TrackerUpdate) :
    (final (u.run t)).db = t.db.write (u.writes t) := by
  cases u with
  | addDelayedMessages messages snapSync => exact addDelayedMessages_db t messages snapSync
  | addSequencerBatches batches => exact addSequencerBatches_db t batches
  | reorgDelayedTo count =>
    obtain ⟨ops, t', set, db⟩ := setDelayedCount_db [] le_rfl t
    rw [run, InboxTracker.reorgDelayedTo, bind_ok set, writeBatch_apply]
    exact db
  | reorgBatchesToDb count => exact reorgBatchesToDb_db t count

end TrackerUpdate
/-- The cut falls between two deletions of batch metadata. -/
def CutsMetadata (ops : List DbOp) (k : Nat) : Prop :=
  (∃ i, .del .sequencerBatchMeta i ∈ ops.take k) ∧ ∃ i, .del .sequencerBatchMeta i ∈ ops.drop k

/-- The cut falls behind the first deletion of a delayed message and in front of the
new delayed count. -/
def CutsDelayed (ops : List DbOp) (k : Nat) : Prop :=
  (∃ i, .del .rlpDelayedMessage i ∈ ops.take k) ∧ ∃ n, .setCount .delayedMessageCount n ∈ ops.drop k

theorem repairCount_le (db : Db) (n : Nat) : InboxTracker.repairCount db n ≤ n := by
  induction n with
  | zero => exact le_rfl
  | succ n ih =>
    rw [InboxTracker.repairCount]
    split
    · exact le_rfl
    · exact ih.trans (Nat.le_succ n)

theorem has_of_repairCount {db : Db} {n i : Nat} (last : InboxTracker.repairCount db n = i + 1) :
    db.has .sequencerBatchMeta i = true := by
  induction n with
  | zero => contradiction
  | succ n ih =>
    rw [InboxTracker.repairCount] at last
    split at last
    · rename_i here
      rwa [← Nat.succ.inj last]
    · exact ih last

/-- The probe comes out below the first missing batch if nothing is stored behind it. -/
theorem repairCount_full {db : Db} {c p : Nat}
    (below : ∀ i, i < p → i < c → db.has .sequencerBatchMeta i = true)
    (above : ∀ i, p ≤ i → i < c → db.has .sequencerBatchMeta i = false) :
    ∀ i < InboxTracker.repairCount db c, db.has .sequencerBatchMeta i = true := by
  intro i inside
  have bound := repairCount_le db c
  obtain ⟨j, last⟩ : ∃ j, InboxTracker.repairCount db c = j + 1 :=
    ⟨InboxTracker.repairCount db c - 1, by omega⟩
  have here := has_of_repairCount last
  by_cases past : p ≤ j
  · rw [above j past (by omega)] at here
    contradiction
  · exact below i (by omega) (by omega)

/-- The writes of a call to the metadata table and the batch count, in their order:
the entries from `p` on are deleted, the ones up to `p` written, then the count. -/
inductive BatchWrites (db : Db) (n : Nat) : List DbOp → Prop where
  | none : BatchWrites db n []
  | some (p : Nat) (puts : List DbOp)
      (written : ∀ op ∈ puts, ∃ i m, op = .put .sequencerBatchMeta i m ∧ i < p)
      (filled : ∀ i, n ≤ i → i < p → ∃ m, .put .sequencerBatchMeta i m ∈ puts) :
      BatchWrites db n (db.deleteFrom .sequencerBatchMeta p ++
        (puts ++ [.setCount .sequencerBatchCount p]))

/-- The batch side of the database. -/
def batchPlaces : List (Place Counter Table) :=
  [.table .sequencerBatchMeta, .counter .sequencerBatchCount]

theorem mem_deleteFrom {db : Db} {t : Table} {start : Nat} {op : DbOp} :
    op ∈ db.deleteFrom t start ↔ ∃ i, op = .del t i ∧ start ≤ i ∧ db.has t i = true := by
  simp only [Store.deleteFrom, List.mem_map, ← Store.mem_keys_range, Prod.exists, exists_and_right,
    exists_eq_right]
  constructor
  · rintro ⟨i, ⟨v, member⟩, rfl⟩
    exact ⟨i, rfl, v, member⟩
  · rintro ⟨i, rfl, v, member⟩
    exact ⟨i, ⟨v, member⟩, rfl⟩

/-- What part of the writes to the batch side leaves there. -/
structure BatchState (n : Nat) (done : List DbOp) (s : Db) : Prop where
  kept : ∀ i, .del .sequencerBatchMeta i ∉ done →
    (i < n ∨ ∃ m, .put .sequencerBatchMeta i m ∈ done) → s.has .sequencerBatchMeta i = true
  gone : ∀ i, .del .sequencerBatchMeta i ∈ done → (∀ m, .put .sequencerBatchMeta i m ∉ done) →
    s.has .sequencerBatchMeta i = false
  unset : (∀ c, .setCount .sequencerBatchCount c ∉ done) → s.count .sequencerBatchCount = some n
  set : ∀ c, .setCount .sequencerBatchCount c ∈ done →
    (∀ c', .setCount .sequencerBatchCount c' ∈ done → c' = c) →
      s.count .sequencerBatchCount = some c

theorem batchState_write {db : Db} {n : Nat} (ops : List DbOp)
    (count : db.count .sequencerBatchCount = some n)
    (metas : ∀ i, db.has .sequencerBatchMeta i = true ↔ i < n) :
    BatchState n (focus batchPlaces ops) (db.write ops) := by
  have del (i : Nat) : .del .sequencerBatchMeta i ∈ focus batchPlaces ops ↔
      .del .sequencerBatchMeta i ∈ ops := by simp [mem_focus, batchPlaces, Op.place]
  have put (i : Nat) (m : BatchMetadata) : .put .sequencerBatchMeta i m ∈ focus batchPlaces ops ↔
      .put .sequencerBatchMeta i m ∈ ops := by simp [mem_focus, batchPlaces, Op.place]
  have set (c : Nat) : .setCount .sequencerBatchCount c ∈ focus batchPlaces ops ↔
      .setCount .sequencerBatchCount c ∈ ops := by simp [mem_focus, batchPlaces, Op.place]
  constructor
  · intro i kept found
    rw [del] at kept
    simp only [put] at found
    obtain ⟨v, here, _⟩ := Store.exists_get_write (P := fun _ => True) kept (fun _ _ => trivial)
      (found.imp_left fun below => by
        obtain ⟨v, here⟩ := Option.isSome_iff_exists.mp ((metas i).mpr below)
        exact ⟨v, here, trivial⟩)
    rw [Store.has, here, Option.isSome_some]
  · intro i gone unwritten
    simp only [put] at unwritten
    rw [Store.has, Store.get_write_eq_none unwritten (.inr ((del i).mp gone)), Option.isSome_none]
  · intro unset
    rw [Store.count_write_of_untouched, count]
    rintro (⟨c, v⟩ | _ | _) member place
    · cases place
      exact unset v ((set v).mpr member)
    · contradiction
    · contradiction
  · intro c reached only
    apply Store.count_write_eq fun c' member => only c' ((set c').mpr member)
    exact .inr ((set c).mp reached)

/-- Recovery finds the batches that the batch count has. -/
def BatchesSurvive (s : Db) : Prop := ∃ c, s.count .sequencerBatchCount = some c ∧
  ∀ i < InboxTracker.repairCount s c, s.has .sequencerBatchMeta i = true

section Batches
variable {db s : Db} {n p : Nat} {done left puts : List DbOp}

/-- What a write up to the count can be. -/
theorem write_up_to_count (written : ∀ op ∈ puts, ∃ i m, op = .put .sequencerBatchMeta i m ∧ i < p)
    (cut : puts ++ [.setCount .sequencerBatchCount p] = done ++ left) {op : DbOp}
    (member : op ∈ db.deleteFrom .sequencerBatchMeta p ++ done) :
    (∃ i, op = .del .sequencerBatchMeta i ∧ p ≤ i) ∨ (∃ i m, op = .put .sequencerBatchMeta i m ∧ i < p) ∨
      op = .setCount .sequencerBatchCount p := by
  rcases List.mem_append.mp member with del | behind
  · obtain ⟨i, rfl, past, _⟩ := mem_deleteFrom.mp del
    exact .inl ⟨i, rfl, past⟩
  · have inside : op ∈ puts ++ [.setCount .sequencerBatchCount p] := by
      rw [cut]
      exact List.mem_append_left _ behind
    rcases List.mem_append.mp inside with put | set
    · exact .inr (.inl (written op put))
    · exact .inr (.inr (List.mem_singleton.mp set))

/-- With all deletions done, the batches up to `p` are there, and the probe gets to them. -/
theorem survive_deleted (metas : ∀ i, db.has .sequencerBatchMeta i = true ↔ i < n)
    (written : ∀ op ∈ puts, ∃ i m, op = .put .sequencerBatchMeta i m ∧ i < p)
    (filled : ∀ i, n ≤ i → i < p → ∃ m, .put .sequencerBatchMeta i m ∈ puts)
    (state : BatchState n (db.deleteFrom .sequencerBatchMeta p ++ done) s)
    (cut : puts ++ [.setCount .sequencerBatchCount p] = done ++ left) : BatchesSurvive s := by
  have shape {op : DbOp} (member : op ∈ db.deleteFrom .sequencerBatchMeta p ++ done) :=
    write_up_to_count written cut member
  have kept (i : Nat) (below : i < p) :
      .del .sequencerBatchMeta i ∉ db.deleteFrom .sequencerBatchMeta p ++ done := by
    intro member
    obtain ⟨_, ⟨⟩, past⟩ | ⟨_, _, ⟨⟩, _⟩ | ⟨⟨⟩⟩ := shape member
    omega
  by_cases set : .setCount .sequencerBatchCount p ∈ done
  · -- the count comes last, so all entries below it are written
    have all : ∀ op ∈ puts, op ∈ done := by
      rcases List.append_eq_append_iff.mp cut with ⟨rest, same, _⟩ | ⟨rest, same, _⟩
      · rw [same]
        exact fun op member => List.mem_append_left _ member
      · exfalso
        obtain ⟨_, _, put, _⟩ := written _ (by rw [same]; exact List.mem_append_left _ set)
        contradiction
    refine ⟨p, state.set p (List.mem_append_right _ set) fun c member => ?_, ?_⟩
    · obtain ⟨_, ⟨⟩, _⟩ | ⟨_, _, ⟨⟩, _⟩ | same := shape member
      cases same
      rfl
    · apply repairCount_full (p := p)
      · intro i below _
        apply state.kept i (kept i below)
        by_cases old : i < n
        · exact .inl old
        · obtain ⟨m, put⟩ := filled i (by omega) below
          exact .inr ⟨m, List.mem_append_right _ (all _ put)⟩
      · exact fun i above below => by omega
  · refine ⟨n, state.unset fun c member => ?_, ?_⟩
    · obtain ⟨_, ⟨⟩, _⟩ | ⟨_, _, ⟨⟩, _⟩ | same := shape member
      cases same
      rcases List.mem_append.mp member with del | other
      · obtain ⟨_, ⟨⟩, _⟩ := mem_deleteFrom.mp del
      · exact set other
    · apply repairCount_full (p := p)
      · exact fun i below old => state.kept i (kept i below) (.inl old)
      · intro i above old
        apply state.gone i (List.mem_append_left _ (mem_deleteFrom.mpr ⟨i, rfl, above, (metas i).mpr old⟩))
        intro m member
        obtain ⟨_, ⟨⟩, _⟩ | ⟨_, _, ⟨⟩, below⟩ | ⟨⟨⟩⟩ := shape member
        omega

/-- The deletions go upwards, so with some done and some not the last batch is still
there, above a hole. -/
theorem not_survive_torn (metas : ∀ i, db.has .sequencerBatchMeta i = true ↔ i < n)
    (cut : db.deleteFrom .sequencerBatchMeta p = done ++ left) (some : done ≠ []) (more : left ≠ [])
    (state : BatchState n done s) : ¬ BatchesSurvive s := by
  rintro ⟨c, counted, full⟩
  have deletes (op : DbOp) (member : op ∈ done ++ left) :
      ∃ i, op = .del .sequencerBatchMeta i ∧ p ≤ i ∧ i < n := by
    rw [← cut] at member
    obtain ⟨i, same, past, here⟩ := mem_deleteFrom.mp member
    exact ⟨i, same, past, (metas i).mp here⟩
  have ascending (i j : Nat) (first : .del .sequencerBatchMeta i ∈ done)
      (second : .del .sequencerBatchMeta j ∈ left) : i < j := by
    have sorted : (done ++ left).Pairwise fun a b : DbOp =>
        ∀ i j, a = .del .sequencerBatchMeta i → b = .del .sequencerBatchMeta j → i < j := by
      rw [← cut, Store.deleteFrom, List.pairwise_map]
      refine (db.range_sorted .sequencerBatchMeta p).imp fun above i j here there => ?_
      cases here
      cases there
      exact above
    exact (List.pairwise_append.mp sorted).2.2 _ first _ second i j rfl rfl
  obtain ⟨first, firstDone⟩ := List.exists_mem_of_ne_nil done some
  obtain ⟨second, secondLeft⟩ := List.exists_mem_of_ne_nil left more
  obtain ⟨i, rfl, pastI, belowI⟩ := deletes first (List.mem_append_left _ firstDone)
  obtain ⟨j, rfl, _, belowJ⟩ := deletes second (List.mem_append_right _ secondLeft)
  have unset : s.count .sequencerBatchCount = .some n := by
    apply state.unset
    intro c' member
    obtain ⟨_, ⟨⟩, _⟩ := deletes _ (List.mem_append_left _ member)
  cases counted.symm.trans unset
  have lastLeft : .del .sequencerBatchMeta (n - 1) ∉ done := by
    intro member
    have := ascending (n - 1) j member secondLeft
    omega
  have top : InboxTracker.repairCount s n = n := by
    apply InboxTracker.repairCount_self
    intro m last
    rw [last, Nat.add_sub_cancel] at lastLeft
    exact state.kept m lastLeft (.inl (by omega))
  have hole := state.gone i firstDone fun m member => by
    obtain ⟨_, ⟨⟩, _⟩ := deletes _ (List.mem_append_left _ member)
  rw [full i (by omega)] at hole
  contradiction

/-- A cut of the writes to the batch side can be recovered from unless it falls
between two deletions. -/
theorem batches_survive_iff (metas : ∀ i, db.has .sequencerBatchMeta i = true ↔ i < n)
    (shape : BatchWrites db n (done ++ left)) (state : BatchState n done s) :
    BatchesSurvive s ↔
      ¬ ((∃ i, .del .sequencerBatchMeta i ∈ done) ∧ ∃ i, .del .sequencerBatchMeta i ∈ left) := by
  have untouched (nothing : done = []) : BatchesSurvive s := by
    subst nothing
    refine ⟨n, state.unset (by simp), repairCount_full (p := n) ?_ ?_⟩
    · exact fun i below _ => state.kept i (by simp) (.inl below)
    · exact fun i above below => by omega
  generalize whole : done ++ left = ops at shape
  cases shape with
  | none =>
    obtain ⟨rfl, rfl⟩ := List.append_eq_nil_iff.mp whole
    exact iff_of_true (untouched rfl) (by simp)
  | some p puts written filled =>
    have behind {i : Nat} : .del .sequencerBatchMeta i ∉ puts ++ [.setCount .sequencerBatchCount p] := by
      intro member
      rcases List.mem_append.mp member with put | set
      · obtain ⟨_, _, ⟨⟩, _⟩ := written _ put
      · exact nomatch List.mem_singleton.mp set
    rcases List.append_eq_append_iff.mp whole with ⟨more, dels, rfl⟩ | ⟨rest, rfl, cut⟩
    · by_cases some : done = []
      · exact iff_of_true (untouched some) (by simp [some])
      · by_cases all : more = []
        · subst all
          rw [List.append_nil] at dels
          rw [List.nil_append]
          refine iff_of_true (@survive_deleted db s n p [] _ puts metas written filled ?_ rfl) ?_
          · rwa [List.append_nil, dels]
          · rintro ⟨_, i, member⟩
            exact behind member
        · refine iff_of_false (not_survive_torn metas dels some all state) (not_not.mpr ?_)
          obtain ⟨first, firstDone⟩ := List.exists_mem_of_ne_nil done some
          obtain ⟨second, secondMore⟩ := List.exists_mem_of_ne_nil more all
          obtain ⟨i, rfl, _⟩ := mem_deleteFrom.mp (dels ▸ List.mem_append_left more firstDone)
          obtain ⟨j, rfl, _⟩ := mem_deleteFrom.mp (dels ▸ List.mem_append_right done secondMore)
          exact ⟨⟨i, firstDone⟩, j, List.mem_append_left _ secondMore⟩
    · refine iff_of_true (survive_deleted metas written filled state cut) ?_
      rintro ⟨_, i, member⟩
      exact behind (cut ▸ List.mem_append_right rest member)

end Batches

section Delayed
variable [Externals]

/-- An entry whose accumulator can be read. -/
def SoundEntry (data : Bytes) : Prop := ∃ acc, InboxTracker.accumulatorAfter .plain data = .ok acc

/-- The writes of a call to the delayed entries and their count, in their order: new
entries below `p`, the deletions from `p` on, then the count. -/
inductive DelayedWrites (db : Db) : List DbOp → Prop where
  | none : DelayedWrites db []
  | some (p : Nat) (puts : List DbOp)
      (written : ∀ op ∈ puts, ∃ i data, op = .put .rlpDelayedMessage i data ∧ i < p ∧ SoundEntry data) :
      DelayedWrites db (puts ++ db.deleteFrom .rlpDelayedMessage p ++
        [.setCount .delayedMessageCount p])

theorem DelayedWrites.sound {db : Db} {ops : List DbOp} {i : Nat} {data : Bytes}
    (shape : DelayedWrites db ops) (put : .put .rlpDelayedMessage i data ∈ ops) : SoundEntry data := by
  cases shape with
  | none => exact nomatch put
  | some p puts written =>
    rw [List.mem_append, List.mem_append, List.mem_singleton] at put
    rcases put with (put | del) | set
    · obtain ⟨_, _, ⟨⟩, _, sound⟩ := written _ put
      exact sound
    · obtain ⟨_, del, _⟩ := mem_deleteFrom.mp del
      contradiction
    · contradiction

/-- The delayed side of the database. -/
def delayedPlaces : List (Place Counter Table) :=
  [.table .rlpDelayedMessage, .counter .delayedMessageCount]

/-- What part of the writes to the delayed side leaves there. -/
structure DelayedState (n : Nat) (done : List DbOp) (s : Db) : Prop where
  kept : ∀ i, .del .rlpDelayedMessage i ∉ done →
    (i < n ∨ ∃ data, .put .rlpDelayedMessage i data ∈ done) →
      ∃ acc, InboxTracker.getDelayedAcc s i = .ok acc
  gone : ∀ i, n ≤ i ∨ .del .rlpDelayedMessage i ∈ done →
    (∀ data, .put .rlpDelayedMessage i data ∉ done) →
      ¬ ∃ acc, InboxTracker.getDelayedAcc s i = .ok acc
  unset : (∀ c, .setCount .delayedMessageCount c ∉ done) → s.count .delayedMessageCount = some n
  set : ∀ c, .setCount .delayedMessageCount c ∈ done →
    (∀ c', .setCount .delayedMessageCount c' ∈ done → c' = c) →
      s.count .delayedMessageCount = some c

/-- Every message that the delayed count has can be read. -/
def DelayedSurvive (s : Db) : Prop := ∃ c, s.count .delayedMessageCount = some c ∧
  ∀ i < c, ∃ acc, InboxTracker.getDelayedAcc s i = .ok acc

theorem delayedState_write {t : InboxTracker} {l : Ledger} (represents : Represents t l)
    {ops : List DbOp} (noLegacy : ∀ i data, .put .legacyDelayedMessage i data ∉ ops)
    (sound : ∀ i data, .put .rlpDelayedMessage i data ∈ ops → SoundEntry data) :
    DelayedState l.delayed.length (focus delayedPlaces ops) (t.db.write ops) := by
  have del (i : Nat) : .del .rlpDelayedMessage i ∈ focus delayedPlaces ops ↔
      .del .rlpDelayedMessage i ∈ ops := by simp [mem_focus, delayedPlaces, Op.place]
  have put (i : Nat) (data : Bytes) : .put .rlpDelayedMessage i data ∈ focus delayedPlaces ops ↔
      .put .rlpDelayedMessage i data ∈ ops := by simp [mem_focus, delayedPlaces, Op.place]
  have set (c : Nat) : .setCount .delayedMessageCount c ∈ focus delayedPlaces ops ↔
      .setCount .delayedMessageCount c ∈ ops := by simp [mem_focus, delayedPlaces, Op.place]
  have old (i : Nat) (below : i < l.delayed.length) :
      ∃ data, t.db.get .rlpDelayedMessage i = some data ∧ SoundEntry data := by
    have here : l.delayed[i]? = some l.delayed[i] := List.getElem?_eq_getElem below
    refine ⟨_, (represents.entries i).trans (by rw [Ledger.entry, here, Option.map_some]), ?_⟩
    rw [SoundEntry, InboxTracker.accumulatorAfter, splitEntry_append]
    exact ⟨_, rfl⟩
  constructor
  · intro i kept found
    rw [del] at kept
    simp only [put] at found
    obtain ⟨data, here, acc, read⟩ :=
      Store.exists_get_write kept (sound i) (found.imp_left fun below => old i below)
    exact ⟨acc, by rw [InboxTracker.getDelayedAcc, here]; exact read⟩
  · rintro i gone unwritten ⟨acc, read⟩
    simp only [put] at unwritten
    have missing : (t.db.write ops).get .rlpDelayedMessage i = none := by
      apply Store.get_write_eq_none unwritten
      refine gone.imp (fun past => ?_) (del i).mp
      rw [represents.entries, Ledger.entry, List.getElem?_eq_none past, Option.map_none]
    have noEntry := Store.get_write_eq_none (noLegacy i) (.inl (represents.noLegacy i))
    rw [InboxTracker.getDelayedAcc, missing, noEntry] at read
    contradiction
  · intro unset
    rw [Store.count_write_of_untouched, represents.delayedCount]
    rintro (⟨c, v⟩ | _ | _) member place
    · cases place
      exact unset v ((set v).mpr member)
    · contradiction
    · contradiction
  · intro c reached only
    apply Store.count_write_eq fun c' member => only c' ((set c').mpr member)
    exact .inr ((set c).mp reached)

variable {db s : Db} {n p : Nat} {done left puts : List DbOp}

/-- What a write before the count can be. -/
theorem write_before_count (inside : ∀ i, db.has .rlpDelayedMessage i = true → i < n)
    (written : ∀ op ∈ puts, ∃ i data, op = .put .rlpDelayedMessage i data ∧ i < p ∧ SoundEntry data) {op : DbOp}
    (member : op ∈ puts ++ db.deleteFrom .rlpDelayedMessage p) :
    (∃ i data, op = .put .rlpDelayedMessage i data ∧ i < p) ∨
      ∃ i, op = .del .rlpDelayedMessage i ∧ p ≤ i ∧ i < n := by
  rcases List.mem_append.mp member with put | del
  · obtain ⟨i, data, rfl, below, _⟩ := written _ put
    exact .inl ⟨i, data, rfl, below⟩
  · obtain ⟨i, rfl, past, here⟩ := mem_deleteFrom.mp del
    exact .inr ⟨i, rfl, past, inside i here⟩

/-- Without the count, everything is there but what has been deleted. -/
theorem DelayedState.survive_uncounted (state : DelayedState n done s)
    (unset : ∀ c, .setCount .delayedMessageCount c ∉ done)
    (gone : ∀ i, .del .rlpDelayedMessage i ∈ done → i < n ∧ ∀ data, .put .rlpDelayedMessage i data ∉ done) :
    DelayedSurvive s ↔ ¬ ∃ i, .del .rlpDelayedMessage i ∈ done := by
  constructor
  · rintro ⟨c, counted, full⟩ ⟨i, del⟩
    cases counted.symm.trans (state.unset unset)
    obtain ⟨below, unwritten⟩ := gone i del
    exact state.gone i (.inr del) unwritten (full i below)
  · intro safe
    exact ⟨n, state.unset unset, fun i below => state.kept i (fun del => safe ⟨i, del⟩) (.inl below)⟩

/-- With the count, everything below it is there unless it is past the entries. -/
theorem DelayedState.survive_counted (state : DelayedState n done s)
    (counted : .setCount .delayedMessageCount p ∈ done)
    (only : ∀ c, .setCount .delayedMessageCount c ∈ done → c = p)
    (past : ∀ i, .del .rlpDelayedMessage i ∈ done → p ≤ i) :
    DelayedSurvive s ↔ ¬ ∃ i, n ≤ i ∧ i < p ∧ ∀ data, .put .rlpDelayedMessage i data ∉ done := by
  have reached := state.set p counted only
  constructor
  · rintro ⟨c, counted', full⟩ ⟨i, beyond, below, missing⟩
    cases counted'.symm.trans reached
    exact state.gone i (.inl beyond) missing (full i below)
  · intro covered
    refine ⟨p, reached, fun i below => state.kept i (fun del => ?_) ?_⟩
    · exact absurd (past i del) (Nat.not_le.mpr below)
    · by_contra missing
      obtain ⟨beyond, none⟩ := not_or.mp missing
      exact covered ⟨i, Nat.not_lt.mp beyond, below, fun data member => none ⟨data, member⟩⟩

/-- A cut of the writes to the delayed side can be recovered from unless deletions
are done and the count is not, or the count is past the entries. -/
theorem delayed_survive_iff {ops : List DbOp}
    (inside : ∀ i, db.has .rlpDelayedMessage i = true → i < n)
    (shape : DelayedWrites db ops) (whole : done ++ left = ops) (state : DelayedState n done s) :
    DelayedSurvive s ↔
      ¬ ((∃ i, .del .rlpDelayedMessage i ∈ done) ∧ ∃ c, .setCount .delayedMessageCount c ∈ left) ∧
      ¬ ∃ c, .setCount .delayedMessageCount c ∈ done ∧
        ∃ i, n ≤ i ∧ i < c ∧ ∀ data, .put .rlpDelayedMessage i data ∉ ops := by
  cases shape with
  | none =>
    obtain ⟨rfl, rfl⟩ := List.append_eq_nil_iff.mp whole
    exact iff_of_true ⟨n, state.unset (by simp), fun i below => state.kept i (by simp) (.inl below)⟩
      (by simp)
  | some p puts written =>
    have before {op : DbOp} (member : op ∈ puts ++ db.deleteFrom .rlpDelayedMessage p) :=
      write_before_count inside written member
    have noCount {c : Nat} : .setCount .delayedMessageCount c ∉ puts ++ db.deleteFrom .rlpDelayedMessage p := by
      intro member
      obtain ⟨_, _, ⟨⟩, _⟩ | ⟨_, ⟨⟩, _⟩ := before member
    have deleted {i : Nat} (member : .del .rlpDelayedMessage i ∈ puts ++ db.deleteFrom .rlpDelayedMessage p) :
        p ≤ i ∧ i < n := by
      obtain ⟨_, _, ⟨⟩, _⟩ | ⟨_, ⟨⟩, within⟩ := before member
      exact within
    rcases List.prefix_concat_iff.mp ⟨left, whole⟩ with rfl | front
    · obtain rfl := List.append_right_eq_self.mp whole
      have only (c : Nat) (member : .setCount .delayedMessageCount c ∈
          puts ++ db.deleteFrom .rlpDelayedMessage p ++ [.setCount .delayedMessageCount p]) : c = p := by
        rcases List.mem_append.mp member with front | last
        · exact absurd front noCount
        · cases List.mem_singleton.mp last
          rfl
      have last : .setCount .delayedMessageCount p ∈
          puts ++ db.deleteFrom .rlpDelayedMessage p ++ [.setCount .delayedMessageCount p] :=
        List.mem_append_right _ (List.mem_singleton.mpr rfl)
      rw [state.survive_counted last only, and_iff_right (by simp)]
      · refine not_congr ⟨fun ⟨i, hole⟩ => ⟨p, last, i, hole⟩, ?_⟩
        rintro ⟨c, member, i, hole⟩
        exact ⟨i, only c member ▸ hole⟩
      · intro i member
        rcases List.mem_append.mp member with front | set
        · exact (deleted front).1
        · cases List.mem_singleton.mp set
    · obtain ⟨more, whole'⟩ := front
      have inFront {op : DbOp} (member : op ∈ done) : op ∈ puts ++ db.deleteFrom .rlpDelayedMessage p :=
        whole' ▸ List.mem_append_left more member
      have later : .setCount .delayedMessageCount p ∈ left := by
        rw [← whole', List.append_assoc, List.append_cancel_left_eq] at whole
        rw [whole]
        exact List.mem_append_right _ (List.mem_singleton.mpr rfl)
      rw [state.survive_uncounted fun c member => noCount (inFront member)]
      · rw [and_iff_left fun ⟨_, member, _⟩ => noCount (inFront member)]
        exact not_congr (and_iff_left ⟨p, later⟩).symm
      · intro i member
        obtain ⟨past, below⟩ := deleted (inFront member)
        refine ⟨below, fun data put => ?_⟩
        obtain ⟨_, _, ⟨⟩, under⟩ | ⟨_, ⟨⟩, _⟩ := before (inFront put)
        omega

end Delayed

/-- A restart on the database finds metadata for every batch that it counts and can
read the accumulator of every delayed message that it counts. -/
def Survives [Externals] (db : Db) : Prop :=
  ∃ c t n, InboxTracker.getBatchCount (InboxTracker.restart db) = .ok c t ∧
    (∀ i < c, t.db.has .sequencerBatchMeta i = true) ∧
    InboxTracker.getDelayedCount t.db = .ok n ∧
    ∀ i < n, ∃ acc, InboxTracker.getDelayedAcc t.db i = .ok acc

theorem survives_iff [Externals] {db : Db}
    (batchCount : (db.count .sequencerBatchCount).isSome = true)
    (delayedCount : (db.count .delayedMessageCount).isSome = true) :
    Survives db ↔ BatchesSurvive db ∧ DelayedSurvive db := by
  obtain ⟨c, counted⟩ := Option.isSome_iff_exists.mp batchCount
  obtain ⟨n, delayed⟩ := Option.isSome_iff_exists.mp delayedCount
  obtain ⟨tables, counters, _⟩ := restart_spec db
  obtain ⟨repairedTables, repairedCounters, _⟩ :=
    InboxTracker.repaired_spec (InboxTracker.restart db).db
  have probe : InboxTracker.repairCount (InboxTracker.restart db).db c = InboxTracker.repairCount db c :=
    InboxTracker.repairCount_congr (fun i => by rw [Store.has, Store.has, tables]) c
  have ran : InboxTracker.getBatchCount (InboxTracker.restart db) =
      .ok (InboxTracker.repairCount db c) { InboxTracker.restart db with
        db := InboxTracker.repaired (InboxTracker.restart db).db } := by
    rcases InboxTracker.getBatchCount_spec (InboxTracker.restart db) with ⟨c', some, ran⟩ | ⟨none, _⟩
    · rw [counters, counted, Option.getD_some] at some
      cases some
      rw [ran, probe]
    · rw [counters] at none
      contradiction
  have read : InboxTracker.getDelayedCount (InboxTracker.repaired (InboxTracker.restart db).db) =
      .ok n := by
    rw [InboxTracker.getDelayedCount, Db.readCount, repairedCounters _ (by decide), counters, delayed]
    rfl
  have same := repairedTables.trans tables
  have accs := InboxTracker.getDelayedAcc_congr same
  constructor
  · rintro ⟨_, _, _, ran', full, read', all⟩
    cases ran.symm.trans ran'
    cases read.symm.trans read'
    simp only [Store.has, same] at full
    rw [accs] at all
    exact ⟨⟨c, counted, full⟩, n, delayed, all⟩
  · rintro ⟨⟨c', counted', full⟩, n', delayed', all⟩
    cases counted.symm.trans counted'
    cases delayed.symm.trans delayed'
    refine ⟨_, _, n, ran, ?_, read, ?_⟩
    · simpa only [Store.has, same] using full
    · rwa [accs]

section Shapes

theorem focus_deleteFrom (places : List (Place Counter Table)) (db : Db) (t : Table) (start : Nat) :
    focus places (db.deleteFrom t start) = if .table t ∈ places then db.deleteFrom t start else [] := by
  split
  · rename_i inside
    exact focus_eq_self fun op member => by rwa [db.deleteFrom_place t start op member]
  · rename_i outside
    exact focus_eq_nil fun op member => by rwa [db.deleteFrom_place t start op member]

theorem focus_setCount (places : List (Place Counter Table)) (c : Counter) (n : Nat) :
    focus places [(.setCount c n : DbOp)] = if .counter c ∈ places then [.setCount c n] else [] := by
  split
  · rename_i inside
    exact focus_eq_self fun op member => by rwa [List.mem_singleton.mp member]
  · rename_i outside
    exact focus_eq_nil fun op member => by rwa [List.mem_singleton.mp member]

/-- The entries that the metadata loop queues. -/
def metadataPuts (metas : List (Nat × BatchMetadata)) : List DbOp :=
  metas.map fun entry => .put .sequencerBatchMeta entry.1 entry.2

theorem focus_batchOps (last : BatchMetadata) (metas : List (Nat × BatchMetadata)) :
    focus batchPlaces (InboxTracker.batchOps last metas) = metadataPuts metas := by
  induction metas generalizing last with
  | nil => rfl
  | cons entry metas ih =>
    obtain ⟨seqnum, m⟩ := entry
    have index : focus batchPlaces (if last.delayedMessageCount < m.delayedMessageCount then
        [(.put .delayedSequenced m.delayedMessageCount seqnum : DbOp)] else []) = [] := by
      apply focus_eq_nil
      intro op member
      split at member
      · rw [List.mem_singleton.mp member]
        simp [batchPlaces, Op.place]
      · exact absurd member List.not_mem_nil
    have front : focus batchPlaces [(.put .sequencerBatchMeta seqnum m : DbOp)] =
        [.put .sequencerBatchMeta seqnum m] :=
      focus_eq_self fun op member => by rw [List.mem_singleton.mp member]; exact List.mem_cons_self
    rw [InboxTracker.batchOps, ← List.singleton_append, focus_append, focus_append, ih, index, front]
    rfl

variable [Externals] {t : InboxTracker} {l : Ledger}

theorem metadataBefore_bound (represents : Represents t l) {pos : Nat} {m : BatchMetadata}
    (found : t.metadataBefore pos = some m) : pos ≤ l.batches.length := by
  cases pos with
  | zero => exact Nat.zero_le _
  | succ pos =>
    rw [InboxTracker.metadataBefore, represents.metadataAt] at found
    exact (List.getElem?_eq_some_iff.mp found).1

/-- What `set_delayed_count_reorg_and_write_batch` and its callers write. -/
theorem delayedWrites_shape (represents : Represents t l) (pos new : Nat) (acc : B256)
    (ds : List DelayedMessage) :
    BatchWrites t.db l.batches.length (focus batchPlaces
      (delayedWrites t.db (delayedPuts pos acc ds) pos new)) ∧
    focus delayedPlaces (delayedWrites t.db (delayedPuts pos acc ds) pos new) =
      delayedPuts pos acc ds ++ t.db.deleteFrom .rlpDelayedMessage new ++
        [.setCount .delayedMessageCount new] := by
  have puts := delayedPuts_place pos acc ds
  have batchSide : focus batchPlaces (delayedPuts pos acc ds) = [] :=
    focus_eq_nil fun op member => by rw [puts op member]; decide
  have delayedSide : focus delayedPlaces (delayedPuts pos acc ds) = delayedPuts pos acc ds :=
    focus_eq_self fun op member => by rw [puts op member]; decide
  have queue : focus batchPlaces (delayedOps t.db (delayedPuts pos acc ds) new) = [] ∧
      focus delayedPlaces (delayedOps t.db (delayedPuts pos acc ds) new) =
        delayedPuts pos acc ds ++ t.db.deleteFrom .rlpDelayedMessage new ++
          [.setCount .delayedMessageCount new] := by
    simp only [delayedOps, focus_append, focus_deleteFrom, focus_setCount, batchSide, delayedSide]
    simp [batchPlaces, delayedPlaces]
  rw [delayedWrites]
  cases range : t.db.range .delayedSequenced (wrappingAdd64 pos 1) with
  | nil =>
    refine ⟨?_, queue.2⟩
    rw [queue.1]
    exact .none
  | cons entry rest =>
    obtain ⟨k, batchSeqNum⟩ := entry
    have bound : batchSeqNum ≤ l.batches.length := by
      rw [represents.batchTables.first_dropped range]
      exact (List.takeWhile_sublist _).length_le
    dsimp only
    simp only [focus_append, focus_deleteFrom, focus_setCount, queue]
    constructor
    · have shape := @BatchWrites.some t.db l.batches.length batchSeqNum []
        (fun op member => absurd member List.not_mem_nil)
        (fun i past below => absurd (below.trans_le bound) (not_lt.mpr past))
      simpa [batchPlaces] using shape
    · simp [delayedPlaces]

theorem mem_delayedPuts {pos : Nat} {acc : B256} {ds : List DelayedMessage} {op : DbOp}
    (member : op ∈ delayedPuts pos acc ds) :
    ∃ i data, op = .put .rlpDelayedMessage i data ∧ i < pos + ds.length ∧ SoundEntry data := by
  induction ds generalizing pos acc with
  | nil => exact nomatch member
  | cons d ds ih =>
    rcases List.mem_cons.mp member with rfl | later
    · refine ⟨pos, _, rfl, by simp, ?_⟩
      rw [SoundEntry, InboxTracker.accumulatorAfter, splitEntry_append]
      exact ⟨_, rfl⟩
    · obtain ⟨i, data, same, below, sound⟩ := ih later
      refine ⟨i, data, same, ?_, sound⟩
      rw [List.length_cons]
      omega

theorem put_mem_delayedPuts {pos i : Nat} {acc : B256} {ds : List DelayedMessage} (above : pos ≤ i)
    (below : i < pos + ds.length) : ∃ data, .put .rlpDelayedMessage i data ∈ delayedPuts pos acc ds := by
  induction ds generalizing pos acc with
  | nil => simp at below; omega
  | cons d ds ih =>
    rcases above.eq_or_lt with rfl | above
    · exact ⟨_, List.mem_cons_self⟩
    · rw [List.length_cons] at below
      obtain ⟨data, member⟩ := @ih (pos + 1) (accumulate acc d) above (by omega)
      exact ⟨data, List.mem_cons_of_mem _ member⟩

end Shapes

/-- A reorg of the delayed messages to a count that is past them has got to the count. -/
def CountsPast [Externals] (t : InboxTracker) (l : Ledger) (u : TrackerUpdate) (k : Nat) : Prop :=
  ∃ n, u = .reorgDelayedTo n ∧ l.delayed.length < n ∧
    .setCount .delayedMessageCount n ∈ (u.writes t).take k

/-- What the writes of a call are, side by side. -/
structure Shaped [Externals] (t : InboxTracker) (l : Ledger) (u : TrackerUpdate) : Prop where
  batches : BatchWrites t.db l.batches.length (focus batchPlaces (u.writes t))
  delayed : DelayedWrites t.db (focus delayedPlaces (u.writes t))
  noLegacy : ∀ i data, .put .legacyDelayedMessage i data ∉ u.writes t
  covered : (∃ n, u = .reorgDelayedTo n) ∨ ∀ c, .setCount .delayedMessageCount c ∈ u.writes t →
    ∀ i, l.delayed.length ≤ i → i < c → ∃ data, .put .rlpDelayedMessage i data ∈ u.writes t

section Calls
variable [Externals] {t : InboxTracker} {l : Ledger}

theorem shaped_of_nil {u : TrackerUpdate} (nothing : u.writes t = []) : Shaped t l u := by
  constructor
  · rw [nothing]
    exact .none
  · rw [nothing]
    exact .none
  · simp [nothing]
  · exact .inr fun c member => by simp [nothing] at member

theorem delayedWrites_legacy (db : Db) (pos new : Nat) (acc : B256) (ds : List DelayedMessage) (i : Nat)
    (data : Bytes) :
    .put .legacyDelayedMessage i data ∉ delayedWrites db (delayedPuts pos acc ds) pos new := by
  have place : (Op.put .legacyDelayedMessage i data : DbOp).place = .table .legacyDelayedMessage := rfl
  have queue : .put .legacyDelayedMessage i data ∉ delayedOps db (delayedPuts pos acc ds) new := by
    intro member
    simp only [delayedOps, List.mem_append, mem_deleteFrom, List.mem_singleton] at member
    rcases member with (((put | ⟨_, same, _⟩) | ⟨_, same, _⟩) | ⟨_, same, _⟩) | same
    · obtain ⟨_, _, same, _⟩ := mem_delayedPuts put
      cases same
    all_goals cases same
  rw [delayedWrites]
  split
  · exact queue
  · simp only [List.mem_append, mem_deleteFrom, List.mem_singleton, queue]
    rintro (⟨_, same, _⟩ | (same | ⟨_, same, _⟩) | same)
    case inr.inl.inl => exact same
    all_goals cases same

theorem previousAccumulator_bound (represents : Represents t l) {startAcc acc : B256} {pos : Nat}
    (previous : InboxTracker.previousAccumulator t.db startAcc pos = .ok acc) :
    pos ≤ l.delayed.length := by
  cases pos with
  | zero => exact Nat.zero_le _
  | succ pos =>
    by_contra outside
    rw [InboxTracker.previousAccumulator, if_neg pos.succ_ne_zero, Nat.add_sub_cancel,
      represents.getDelayedAcc, if_neg (show ¬ pos < l.delayed.length from outside)] at previous
    contradiction

/-- A call that appends to or cuts the delayed messages. -/
theorem shaped_delayed (represents : Represents t l) {u : TrackerUpdate} (pos new : Nat) (acc : B256)
    (ds : List DelayedMessage) (fits : new = pos + ds.length)
    (same : u.writes t = delayedWrites t.db (delayedPuts pos acc ds) pos new)
    (covered : (∃ n, u = .reorgDelayedTo n) ∨ pos ≤ l.delayed.length) : Shaped t l u := by
  have shape := delayedWrites_shape represents pos new acc ds
  rw [← same] at shape
  refine ⟨shape.1, ?_, fun i data => ?_, covered.imp_right fun inside c member i past below => ?_⟩
  · rw [shape.2]
    refine .some new _ fun op member => ?_
    rw [fits]
    exact mem_delayedPuts member
  · rw [same]
    exact delayedWrites_legacy t.db pos new acc ds i data
  · have set : .setCount .delayedMessageCount c ∈ focus delayedPlaces (u.writes t) :=
      mem_focus.mpr ⟨member, by simp [delayedPlaces, Op.place]⟩
    rw [shape.2, List.mem_append, List.mem_append, List.mem_singleton] at set
    have last : c = new := by
      rcases set with (put | del) | set
      · obtain ⟨_, _, put, _⟩ := mem_delayedPuts put
        contradiction
      · obtain ⟨_, del, _⟩ := mem_deleteFrom.mp del
        contradiction
      · exact (Op.setCount.inj set).2
    obtain ⟨data, put⟩ : ∃ data, .put .rlpDelayedMessage i data ∈ delayedPuts pos acc ds :=
      put_mem_delayedPuts (by omega) (by omega)
    have written : .put .rlpDelayedMessage i data ∈ focus delayedPlaces (u.writes t) := by
      rw [shape.2, List.append_assoc]
      exact List.mem_append_left _ put
    exact ⟨data, (mem_focus.mp written).1⟩

/-- A call that cuts or appends to the batches leaves the delayed side alone. -/
theorem shaped_batches {u : TrackerUpdate} (p start : Nat) {index puts : List DbOp}
    (same : u.writes t = t.db.deleteFrom .sequencerBatchMeta p ++
      (t.db.deleteFrom .delayedSequenced start ++ index ++ [.setCount .sequencerBatchCount p]))
    (places : ∀ op ∈ index, op.place ∈ [.table .sequencerBatchMeta, .table .delayedSequenced,
      .counter .sequencerBatchCount])
    (queued : focus batchPlaces index = puts)
    (written : ∀ op ∈ puts, ∃ i m, op = .put .sequencerBatchMeta i m ∧ i < p)
    (filled : ∀ i, l.batches.length ≤ i → i < p → ∃ m, .put .sequencerBatchMeta i m ∈ puts) :
    Shaped t l u := by
  have none : focus delayedPlaces index = [] := by
    refine focus_eq_nil fun op member inside => ?_
    have place := places op member
    simp only [delayedPlaces, List.mem_cons, List.not_mem_nil, or_false] at inside place
    rcases inside with delayed | delayed <;> simp [delayed] at place
  have batches : focus batchPlaces (u.writes t) = t.db.deleteFrom .sequencerBatchMeta p ++
      (puts ++ [.setCount .sequencerBatchCount p]) := by
    rw [same]
    simp only [focus_append, focus_deleteFrom, focus_setCount, queued]
    simp [batchPlaces]
  have delayed : focus delayedPlaces (u.writes t) = [] := by
    rw [same]
    simp only [focus_append, focus_deleteFrom, focus_setCount, none]
    simp [delayedPlaces]
  refine ⟨batches ▸ .some p puts written filled, delayed ▸ .none, fun i data member => ?_,
    .inr fun c member => ?_⟩
  · rw [same, List.mem_append, List.mem_append, List.mem_append, List.mem_singleton] at member
    rcases member with del | (del | put) | set
    · obtain ⟨_, del, _⟩ := mem_deleteFrom.mp del
      contradiction
    · obtain ⟨_, del, _⟩ := mem_deleteFrom.mp del
      contradiction
    · have place := places _ put
      simp [Op.place] at place
    · contradiction
  · have inside : .setCount .delayedMessageCount c ∈ focus delayedPlaces (u.writes t) :=
      mem_focus.mpr ⟨member, by simp [delayedPlaces, Op.place]⟩
    rw [delayed] at inside
    exact absurd inside List.not_mem_nil

theorem shaped (represents : Represents t l) (u : TrackerUpdate) : Shaped t l u := by
  cases u with
  | addDelayedMessages messages snapSync =>
    rcases TrackerUpdate.writes_addDelayedMessages t messages snapSync with
      nothing | ⟨pos, startAcc, acc, ds, previous, same⟩
    · exact shaped_of_nil nothing
    · exact shaped_delayed represents pos (pos + ds.length) acc ds rfl same
        (.inr (previousAccumulator_bound represents previous))
  | addSequencerBatches batches =>
    rcases TrackerUpdate.writes_addSequencerBatches t batches with
      nothing | ⟨first, rest, m, cache, metas, rfl, before, _, _, _, _, same⟩
    · exact shaped_of_nil nothing
    · have bound := metadataBefore_bound represents before
      refine shaped_batches (first.sequenceNumber + metas.length) (m.delayedMessageCount + 1) same
        (batchOps_place m (numberFrom first.sequenceNumber metas)) (focus_batchOps m _) ?_
        fun i past below => ?_
      · intro op member
        obtain ⟨⟨i, entry⟩, here, rfl⟩ := List.mem_map.mp member
        obtain ⟨above, found⟩ := mem_numberFrom.mp here
        have inside := (List.getElem?_eq_some_iff.mp found).1
        exact ⟨i, entry, rfl, by omega⟩
      · have inside : i - first.sequenceNumber < metas.length := by omega
        refine ⟨metas[i - first.sequenceNumber], List.mem_map.mpr ⟨(i, _), ?_, rfl⟩⟩
        exact mem_numberFrom.mpr ⟨by omega, List.getElem?_eq_getElem inside⟩
  | reorgDelayedTo count =>
    exact shaped_delayed represents count count .zero [] rfl rfl (.inl ⟨count, rfl⟩)
  | reorgBatchesToDb count =>
    rcases InboxTracker.previousMetadata_spec count t with
      ⟨m, cache, before, previous⟩ | ⟨_, e, failed⟩
    · have bound := metadataBefore_bound represents before
      refine @shaped_batches _ t l _ count (m.delayedMessageCount + 1) [] [] ?_
        (fun op member => nomatch member) rfl (fun op member => nomatch member)
        fun i past below => ?_
      · rw [TrackerUpdate.writes, previous, List.append_nil]
      · omega
    · exact shaped_of_nil (by rw [TrackerUpdate.writes, failed])

/-- Only a reorg of the delayed messages sets a count without the entries below it. -/
theorem uncovered_iff (represents : Represents t l) (u : TrackerUpdate) (k : Nat) :
    (∃ c, .setCount .delayedMessageCount c ∈ (u.writes t).take k ∧
      ∃ i, l.delayed.length ≤ i ∧ i < c ∧ ∀ data, .put .rlpDelayedMessage i data ∉ u.writes t) ↔
    CountsPast t l u k := by
  have reorg (n : Nat) : focus delayedPlaces ((TrackerUpdate.reorgDelayedTo n).writes t) =
      t.db.deleteFrom .rlpDelayedMessage n ++ [.setCount .delayedMessageCount n] :=
    (delayedWrites_shape represents n n .zero []).2
  constructor
  · rintro ⟨c, set, i, past, below, missing⟩
    have member := List.mem_of_mem_take set
    rcases (shaped represents u).covered with ⟨n, rfl⟩ | covered
    · have last : .setCount .delayedMessageCount c ∈ t.db.deleteFrom .rlpDelayedMessage n ++
          [.setCount .delayedMessageCount n] := by
        rw [← reorg n]
        exact mem_focus.mpr ⟨member, by simp [delayedPlaces, Op.place]⟩
      rcases List.mem_append.mp last with del | same
      · obtain ⟨_, del, _⟩ := mem_deleteFrom.mp del
        contradiction
      · cases List.mem_singleton.mp same
        exact ⟨c, rfl, past.trans_lt below, set⟩
    · obtain ⟨data, put⟩ := covered c member i past below
      exact absurd put (missing data)
  · rintro ⟨n, rfl, past, set⟩
    refine ⟨n, set, l.delayed.length, le_rfl, past, fun data put => ?_⟩
    have inside : .put .rlpDelayedMessage l.delayed.length data ∈ t.db.deleteFrom .rlpDelayedMessage n ++
        [.setCount .delayedMessageCount n] := by
      rw [← reorg n]
      exact mem_focus.mpr ⟨put, by simp [delayedPlaces, Op.place]⟩
    rcases List.mem_append.mp inside with del | same
    · obtain ⟨_, del, _⟩ := mem_deleteFrom.mp del
      contradiction
    · cases List.mem_singleton.mp same

/-- A restart behind any prefix of a call's writes recovers unless the prefix stops
between two deletions of batch metadata, between the deletion of a delayed message and
the new delayed count, or has raised the delayed count past the messages. -/
theorem update_survives_iff (represents : Represents t l) (u : TrackerUpdate) (k : Nat) :
    Survives (t.db.write ((u.writes t).take k)) ↔
      ¬ CutsMetadata (u.writes t) k ∧ ¬ CutsDelayed (u.writes t) k ∧ ¬ CountsPast t l u k := by
  have shape := shaped represents u
  have metas (i : Nat) : t.db.has .sequencerBatchMeta i = true ↔ i < l.batches.length := by
    simp [Store.has, represents.metas]
  have inside (i : Nat) (here : t.db.has .rlpDelayedMessage i = true) : i < l.delayed.length := by
    obtain ⟨_, found⟩ := Option.isSome_iff_exists.mp here
    rw [represents.entries, Ledger.entry, Option.map_eq_some_iff] at found
    obtain ⟨_, known, _⟩ := found
    exact (List.getElem?_eq_some_iff.mp known).1
  have sound (i : Nat) (data : Bytes) (put : .put .rlpDelayedMessage i data ∈ (u.writes t).take k) :
      SoundEntry data := by
    have member : .put .rlpDelayedMessage i data ∈ focus delayedPlaces (u.writes t) :=
      mem_focus.mpr ⟨List.mem_of_mem_take put, by simp [delayedPlaces, Op.place]⟩
    exact shape.delayed.sound member
  have batchSide := batchState_write ((u.writes t).take k) represents.batchCount metas
  have delayedSide := delayedState_write represents
    (fun i data put => shape.noLegacy i data (List.mem_of_mem_take put)) sound
  have batches : BatchWrites t.db l.batches.length _ :=
    focus_cut batchPlaces (u.writes t) k ▸ shape.batches
  rw [survives_iff (Store.count_write_isSome (by simp [represents.batchCount]) _)
      (Store.count_write_isSome (by simp [represents.delayedCount]) _),
    batches_survive_iff metas batches batchSide,
    delayed_survive_iff inside shape.delayed (focus_cut delayedPlaces (u.writes t) k).symm delayedSide,
    ← uncovered_iff represents]
  simp [CutsMetadata, CutsDelayed, mem_focus, batchPlaces, delayedPlaces, Op.place]

end Calls

section Samples
open Codecs

/-- The first delayed message. -/
def firstDelayed : TrackerUpdate := .addDelayedMessages [(0, .zero, List.replicate 113 0)] none

/-- A crash between its two writes, the entry and the count, is survived. -/
theorem first_delayed_message_cut : (firstDelayed.writes initialTracker).length = 2 ∧
    Survives (initialTracker.db.write ((firstDelayed.writes initialTracker).take 1)) := by
  have represents : Represents initialTracker .empty := initializeTracker_represents (.refl _ _)
  have kept : (firstDelayed.writes initialTracker).all (fun op => match op with
    | .del .. => false
    | _ => true) = true := by decide +kernel
  have undeleted (t : Table) (i : Nat) : .del t i ∉ (firstDelayed.writes initialTracker).take 1 := by
    intro member
    exact Bool.false_ne_true (List.all_eq_true.mp kept _ (List.mem_of_mem_take member))
  refine ⟨by decide +kernel, (update_survives_iff represents _ 1).mpr ⟨?_, ?_, ?_⟩⟩
  · rintro ⟨⟨i, member⟩, _⟩
    exact undeleted _ i member
  · rintro ⟨⟨i, member⟩, _⟩
    exact undeleted _ i member
  · rintro ⟨n, reorg, _⟩
    cases reorg

/-- A tracker with two batches. -/
def twoBatches : InboxTracker :=
  final (InboxTracker.addSequencerBatches [batch 0 0 [[0, 7]], batch 1 0 [[0, 8]]] initialTracker)

/-- A crash behind the first of two deletions leaves a batch count of 2 without the
metadata of batch 0. -/
theorem torn_reorg_not_survived : TrackerReachable twoBatches ∧ ¬ Survives (twoBatches.db.write
    (((TrackerUpdate.reorgBatchesToDb 0).writes twoBatches).take 1)) := by
  constructor
  · apply TrackerReachable.step (.init (.refl _ _))
    apply TrackerStep.addSequencerBatches
    rintro m ⟨⟩
    exact (by decide : List.Pairwise (· ≤ ·) [0, 0, 0])
  · rintro ⟨c, t, _, counted, full, _⟩
    have torn : (match InboxTracker.getBatchCount (InboxTracker.restart (twoBatches.db.write
        (((TrackerUpdate.reorgBatchesToDb 0).writes twoBatches).take 1))) with
      | .ok c t => decide (0 < c) && !t.db.has .sequencerBatchMeta 0
      | .error _ _ => false) = true := by decide +kernel
    rw [counted] at torn
    simp only [Bool.and_eq_true, decide_eq_true_eq, Bool.not_eq_true'] at torn
    rw [full 0 torn.1] at torn
    exact Bool.noConfusion torn.2

end Samples

end NitroRs
