import NitroRs.Reader.CaughtUp

/-! What the checking phase does to stored data when calls to L1 fail. A failed message
count reads as zero, and the tracker reorgs to it. -/
namespace NitroRs
open KeyValue Outcome
open Checked (wrappingAdd64)

/-- A batch that is at or after one that the index lists from the key behind a delayed count on. -/
def Beyond (db : Db) (count i : Nat) : Prop :=
  ∃ k b, wrappingAdd64 count 1 ≤ k ∧ db.get .delayedSequenced k = some b ∧ b ≤ i

/-- Nothing stored is lost but what lies beyond a delayed count that L1 reported. -/
structure Kept (reported : Option Nat) (t t' : InboxTracker) : Prop where
  delayed : ∀ i data, (∀ c ∈ reported, i < c) → t.db.get .rlpDelayedMessage i = some data →
    t'.db.get .rlpDelayedMessage i = some data
  legacy : ∀ i data, (∀ c ∈ reported, i < c) → t.db.get .legacyDelayedMessage i = some data →
    t'.db.get .legacyDelayedMessage i = some data
  batches : ∀ i m, (∀ c ∈ reported, ¬ Beyond t.db c i) → t.db.get .sequencerBatchMeta i = some m →
    t'.db.get .sequencerBatchMeta i = some m
  delayedCount : ∀ n, InboxTracker.getDelayedCount t.db = .ok n →
    ∃ n', InboxTracker.getDelayedCount t'.db = .ok n' ∧ (n ≤ n' ∨ ∃ c ∈ reported, c ≤ n')
  batchCount : ∀ n t₁, InboxTracker.getBatchCount t = .ok n t₁ →
    ∃ n' t₁', InboxTracker.getBatchCount t' = .ok n' t₁' ∧ ∀ i < n, (∀ c ∈ reported, ¬ Beyond t.db c i) →
      t.db.has .sequencerBatchMeta i → i < n'

section
variable {db : Db}

theorem lt_repairCount {i n : Nat} (inside : i < n) (stored : db.has .sequencerBatchMeta i) :
    i < InboxTracker.repairCount db n := by
  induction n with
  | zero => omega
  | succ n ih =>
    unfold InboxTracker.repairCount
    split
    · exact inside
    · rename_i missing
      apply ih
      have apart : i ≠ n := by
        rintro rfl
        exact missing stored
      omega

/-- The database after a delayed reorg. -/
def delayedCut (db : Db) (count : Nat) : Db := db.write (delayedWrites db [] count count)

theorem get_delayedCut {count : Nat} {table : Table}
    (kind : table = .rlpDelayedMessage ∨ table = .legacyDelayedMessage) (i : Nat) :
    (delayedCut db count).get table i = if count ≤ i then none else db.get table i := by
  have ops {db' : Db} (same : ∀ i, db'.get table i = db.get table i) :
      (db'.write (delayedOps db [] count)).get table i = if count ≤ i then none else db.get table i := by
    simp only [delayedOps, Store.write_append, Store.write_cons, Store.write_nil,
      Store.get_apply_setCount]
    rcases kind with rfl | rfl
    · rw [Store.get_write_deleteFrom_of_ne _ _ _ (by decide),
        Store.get_write_deleteFrom_of_ne _ _ _ (by decide)]
      exact Store.get_write_deleteFrom_of_eq same count i
    · apply Store.get_write_deleteFrom_of_eq
      intro i
      rw [Store.get_write_deleteFrom_of_ne _ _ _ (by decide),
        Store.get_write_deleteFrom_of_ne _ _ _ (by decide), same]
  unfold delayedCut delayedWrites
  cases db.range .delayedSequenced (wrappingAdd64 count 1) with
  | nil => exact ops fun _ => rfl
  | cons entry rest =>
    obtain ⟨_, batchSeqNum⟩ := entry
    have apart : table ≠ .delayedSequenced ∧ table ≠ .sequencerBatchMeta := by
      rcases kind with rfl | rfl <;> exact ⟨by decide, by decide⟩
    dsimp only
    rw [Store.write_append, Store.write_append, Store.write_append, Store.write_cons, Store.write_nil,
      Store.get_apply_setCount, Store.get_write_deleteFrom_of_ne _ _ _ apart.1]
    exact ops fun i => by rw [Store.get_write_deleteFrom_of_ne _ _ _ apart.2]

theorem delayedCut_delayedCount (db : Db) (count : Nat) :
    InboxTracker.getDelayedCount (delayedCut db count) = .ok count := by
  have counted {db' : Db} : (db'.write (delayedOps db [] count)).count .delayedMessageCount = some count := by
    simp [delayedOps]
  have kept : (delayedCut db count).count .delayedMessageCount = some count := by
    unfold delayedCut delayedWrites
    cases db.range .delayedSequenced (wrappingAdd64 count 1) with
    | nil => exact counted
    | cons entry rest =>
      dsimp only
      rw [Store.write_append, Store.write_append, Store.write_append, Store.write_cons, Store.write_nil,
        Store.count_apply_setCount, if_neg (by decide), Store.count_write_deleteFrom]
      exact counted
  rw [InboxTracker.getDelayedCount, Db.readCount, kept]

theorem Kept.refl (reported : Option Nat) (t : InboxTracker) : Kept reported t t where
  delayed _ _ _ stored := stored
  legacy _ _ _ stored := stored
  batches _ _ _ stored := stored
  delayedCount n counted := ⟨n, counted, .inl le_rfl⟩
  batchCount n t₁ counted := ⟨n, t₁, counted, fun _ inside _ _ => inside⟩

theorem getDelayedCount_repaired (db : Db) :
    InboxTracker.getDelayedCount (InboxTracker.repaired db) = InboxTracker.getDelayedCount db := by
  rw [InboxTracker.getDelayedCount, Db.readCount, (InboxTracker.repaired_spec db).2.1 _ (by decide)]
  rfl

/-- A repair of the batch count is not seen. -/
theorem Kept.repaired {reported : Option Nat} {t t' t'' : InboxTracker} (kept : Kept reported t t')
    (same : t''.db = t'.db ∨ t''.db = InboxTracker.repaired t'.db) : Kept reported t t'' := by
  obtain ⟨tables, _, _⟩ := InboxTracker.repaired_spec t'.db
  have get : t''.db.get = t'.db.get := by
    rcases same with same | same
    · rw [same]
    · rw [same, tables]
  have count : InboxTracker.getDelayedCount t''.db = InboxTracker.getDelayedCount t'.db := by
    rcases same with same | same
    · rw [same]
    · rw [same, getDelayedCount_repaired]
  have again : InboxTracker.repaired t''.db = InboxTracker.repaired t'.db := by
    rcases same with same | same
    · rw [same]
    · rw [same, InboxTracker.repaired_idem]
  constructor
  · rw [get]
    exact kept.delayed
  · rw [get]
    exact kept.legacy
  · rw [get]
    exact kept.batches
  · rw [count]
    exact kept.delayedCount
  · intro n t₁ counted
    obtain ⟨n', t₁', counted', inside⟩ := kept.batchCount n t₁ counted
    obtain ⟨t₁'', counted''⟩ := getBatchCount_eq_ok.mpr
      (again ▸ getBatchCount_eq_ok.mp ⟨t₁', counted'⟩)
    exact ⟨n', t₁'', counted'', inside⟩

variable [Externals]

/-- Batches in front of those that read past the count stay, and the batch count is set to
the first one that does not. -/
theorem delayedCut_batches (db : Db) (count : Nat) :
    (∀ i, ¬ Beyond db count i →
      (delayedCut db count).get .sequencerBatchMeta i = db.get .sequencerBatchMeta i) ∧
    (((delayedCut db count).get .sequencerBatchMeta = db.get .sequencerBatchMeta ∧
        (delayedCut db count).count .sequencerBatchCount = db.count .sequencerBatchCount) ∨
      ∃ k b, wrappingAdd64 count 1 ≤ k ∧ db.get .delayedSequenced k = some b ∧
        (delayedCut db count).count .sequencerBatchCount = some b) := by
  have off : ∀ op ∈ delayedOps db [] count, op.place ≠ .table .sequencerBatchMeta ∧
      op.place ≠ .counter .sequencerBatchCount := by
    intro op member
    have place := delayedOps_place db 0 count .zero [] op member
    constructor
    · intro same
      rw [same] at place
      simp at place
    · intro same
      rw [same] at place
      simp at place
  unfold delayedCut delayedWrites
  cases range : db.range .delayedSequenced (wrappingAdd64 count 1) with
  | nil =>
    have same := db.get_write_of_untouched fun op member => (off op member).1
    exact ⟨fun i _ => congrFun same i, .inl ⟨same,
      db.count_write_of_untouched fun op member => (off op member).2⟩⟩
  | cons entry rest =>
    obtain ⟨k, batchSeqNum⟩ := entry
    have listed : (k, batchSeqNum) ∈ db.range .delayedSequenced (wrappingAdd64 count 1) := by
      rw [range]
      exact List.mem_cons_self
    obtain ⟨past, found⟩ := Store.mem_range.mp listed
    dsimp only
    rw [Store.write_append, Store.write_append, Store.write_append, Store.write_cons, Store.write_nil]
    refine ⟨fun i inside => ?_, .inr ⟨k, batchSeqNum, past, found, ?_⟩⟩
    · have before : i < batchSeqNum := Nat.lt_of_not_le fun after => inside ⟨k, batchSeqNum, past, found, after⟩
      rw [Store.get_apply_setCount, Store.get_write_deleteFrom_of_ne _ _ _ (by decide),
        Store.get_write_of_untouched _ fun op member => (off op member).1,
        Store.get_write_deleteFrom_of_eq (fun _ => rfl), if_neg (by omega)]
    · rw [Store.count_apply_setCount, if_pos rfl]

/-- A delayed reorg to a reported count keeps what the report leaves. -/
theorem kept_delayedCut {t t' : InboxTracker} {count : Nat} (cut : t'.db = delayedCut t.db count) :
    Kept (some count) t t' := by
  have batches := delayedCut_batches t.db count
  rw [← cut] at batches
  have outside {p : Nat → Prop} (each : ∀ c ∈ some count, p c) : p count := each count rfl
  constructor
  · intro i data below stored
    rw [cut, get_delayedCut (.inl rfl), if_neg (by have := outside below; omega), stored]
  · intro i data below stored
    rw [cut, get_delayedCut (.inr rfl), if_neg (by have := outside below; omega), stored]
  · intro i m inside stored
    rw [batches.1 i (outside inside), stored]
  · intro n _
    exact ⟨count, by rw [cut, delayedCut_delayedCount], .inr ⟨count, rfl, le_rfl⟩⟩
  · intro n t₁ counted
    have before := getBatchCount_eq_ok.mp ⟨t₁, counted⟩
    rw [(InboxTracker.repaired_spec t.db).2.2] at before
    rcases batches.2 with ⟨metas, same⟩ | ⟨k, b, past, found, reset⟩
    · have after := (InboxTracker.repaired_spec t'.db).2.2
      have repairs : InboxTracker.repairCount t'.db = InboxTracker.repairCount t.db :=
        funext fun n => InboxTracker.repairCount_congr (fun i => by rw [Store.has, metas, Store.has]) n
      rw [same, repairs, before] at after
      obtain ⟨t₁', counted'⟩ := getBatchCount_eq_ok.mpr after
      exact ⟨n, t₁', counted', fun i inside _ _ => inside⟩
    · have after := (InboxTracker.repaired_spec t'.db).2.2
      rw [reset, Option.map_some] at after
      obtain ⟨t₁', counted'⟩ := getBatchCount_eq_ok.mpr after
      refine ⟨_, t₁', counted', fun i _ inside stored => lt_repairCount ?_ ?_⟩
      · exact Nat.lt_of_not_le fun reads => outside inside ⟨k, b, past, found, reads⟩
      · rw [Store.has, batches.1 i (outside inside)]
        exact stored

namespace InboxReader

/-- The delayed check writes nothing but a reorg to the count. -/
theorem checkDelayed_db (bridge : DelayedBridge) (height : Nat) (t : InboxTracker) {count : Nat}
    (counted : (bridge.getMessageCount height).toOption.getD 0 = count) :
    ((∀ n, InboxTracker.getDelayedCount t.db = .ok n → n ≤ count) ∧
      (final (checkDelayed bridge height t)).db = t.db) ∨
    ∃ n, InboxTracker.getDelayedCount t.db = .ok n ∧ count < n ∧
      (final (checkDelayed bridge height t)).db = delayedCut t.db count := by
  have rest {t' : InboxTracker} (missing : Bool) (checking : Nat) : (final ((if 0 < checking then do
        let t ← read
        let dbAcc ← lift (InboxTracker.getDelayedAcc t.db (checking - 1))
        return ⟨dbAcc ≠ (bridge.getAccumulator (checking - 1) height).toOption.getD .zero, missing⟩
      else return ⟨false, missing⟩ : EStateM Error InboxTracker DelayedCheck) t')).db = t'.db := by
    split
    · rw [bind_read]
      cases InboxTracker.getDelayedAcc t'.db (checking - 1) with
      | error e => rfl
      | ok acc => rfl
    · rfl
  unfold checkDelayed
  rw [counted, bind_read]
  cases ours : InboxTracker.getDelayedCount t.db with
  | error e => exact .inl ⟨nofun, rfl⟩
  | ok n =>
    rw [bind_lift_ok]
    unfold reorgToL1
    by_cases shorter : count < n
    · have cut := TrackerUpdate.run_db t (.reorgDelayedTo count)
      obtain ⟨ops, t', set, db⟩ := TrackerUpdate.setDelayedCount_db [] (le_refl count) t
      refine .inr ⟨n, rfl, shorter, ?_⟩
      have reorged : InboxTracker.reorgDelayedTo count t = .ok () { t' with db := t'.db.write ops } :=
        (bind_ok set).trans (writeBatch_apply _ _)
      rw [if_pos shorter, bind_ok reorged]
      exact (rest _ _).trans db
    · rw [if_neg shorter]
      refine .inl ⟨fun _ same => ?_, rest _ _⟩
      cases same
      omega

theorem check_db (l1 : L1Calls) (height : Nat) (t : InboxTracker) :
    (final (check l1 height t)).db = (final (checkDelayed l1.delayedBridge height t)).db ∨
      (final (check l1 height t)).db =
        InboxTracker.repaired (final (checkDelayed l1.delayedBridge height t)).db := by
  unfold check
  cases ran : checkDelayed l1.delayedBridge height t with
  | error e t' => exact .inl (by rw [bind_error ran]; rfl)
  | ok delayed t' =>
    rw [bind_ok ran, final_ok]
    exact .inr (InboxTracker.db_bind (checkSequencer_db l1.sequencerInbox height t') fun _ _ same => same)

/-- The checking phase keeps the stored data exactly when the delayed count was reported,
or there is no delayed message to lose. -/
theorem check_keeps_iff (l1 : L1Calls) (height : Nat) (t : InboxTracker) :
    Kept (l1.delayedBridge.getMessageCount height).toOption t (final (check l1 height t)) ↔
      (∃ c, l1.delayedBridge.getMessageCount height = .ok c) ∨
        ∀ n, InboxTracker.getDelayedCount t.db = .ok n → n = 0 := by
  have checked := check_db l1 height t
  cases reported : l1.delayedBridge.getMessageCount height with
  | ok c =>
    refine iff_of_true ?_ (.inl ⟨c, rfl⟩)
    have counted : (l1.delayedBridge.getMessageCount height).toOption.getD 0 = c := by rw [reported]; rfl
    rcases checkDelayed_db l1.delayedBridge height t counted with
      ⟨_, same⟩ | ⟨n, _, _, cut⟩
    · rw [same] at checked
      exact (Kept.refl _ t).repaired checked
    · exact (kept_delayedCut cut).repaired checked
  | error e =>
    have counted : (l1.delayedBridge.getMessageCount height).toOption.getD 0 = 0 := by rw [reported]; rfl
    rcases checkDelayed_db l1.delayedBridge height t counted with
      ⟨none, same⟩ | ⟨n, counted, some, cut⟩
    · rw [same] at checked
      exact iff_of_true ((Kept.refl _ t).repaired checked) (.inr fun n counted => by have := none n counted; omega)
    · refine iff_of_false (fun kept => ?_) ?_
      · obtain ⟨n', counted', enough | ⟨c, reported, _⟩⟩ := kept.delayedCount n counted
        · have zero : InboxTracker.getDelayedCount (final (check l1 height t)).db = .ok 0 := by
            rcases checked with same | same
            · rw [same, cut, delayedCut_delayedCount]
            · rw [same, getDelayedCount_repaired, cut, delayedCut_delayedCount]
          rw [zero] at counted'
          cases counted'
          omega
        · contradiction
      · rintro (⟨c, ok⟩ | none)
        · contradiction
        · exact absurd (none n counted) (by omega)

end InboxReader
end

section Samples
open Codecs InboxReader

/-- An L1 node that answers no call. -/
def silentL1 : L1Calls where
  delayedBridge := {
    getMessageCount := fun _ => .error .rpc
    getAccumulator := fun _ _ => .error .rpc
    lookupMessagesInRange := fun _ _ => .error .rpc }
  backfill := fun _ _ => .error .rpc
  sequencerInbox := {
    getBatchCount := fun _ => .error .rpc
    getAccumulator := fun _ _ => .error .rpc
    lookupBatchesInRange := fun _ _ => .error .rpc
    getSequencerMessageBytesInBlock := fun _ _ _ _ => .error .rpc
    getTxInput := fun _ => .error .rpc }

/-- A tracker with one delayed message. -/
def oneDelayed : InboxTracker := final (InboxTracker.addDelayedMessages
  (delayedInputs 0 .zero [zeroMessage]) none initialTracker)

/-- A message count that fails: the message is gone. -/
theorem silent_check_drops_message : ¬ Kept (silentL1.delayedBridge.getMessageCount 0).toOption oneDelayed
    (final (check silentL1 0 oneDelayed)) := by
  intro kept
  have one : InboxTracker.getDelayedCount oneDelayed.db = .ok 1 := by decide +kernel
  have zero : InboxTracker.getDelayedCount (final (check silentL1 0 oneDelayed)).db = .ok 0 := by
    decide +kernel
  obtain ⟨n, counted, enough | ⟨c, reported, _⟩⟩ := kept.delayedCount 1 one
  · cases zero.symm.trans counted
    omega
  · contradiction

end Samples
end NitroRs
