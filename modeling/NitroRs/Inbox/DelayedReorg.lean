import NitroRs.Inbox.Rereads

/-! A delayed reorg. The batches to drop are found by the first index entry past the new
count, and batches that read no new delayed messages have no entry of their own. -/
namespace NitroRs
open KeyValue Outcome
open Checked (wrappingAdd64)

/-- The delayed counts of the stored batches never decrease. -/
def SortedBatches (db : Db) : Prop :=
  ∀ i j m m', i < j → db.get .sequencerBatchMeta i = some m → db.get .sequencerBatchMeta j = some m' →
    m.delayedMessageCount ≤ m'.delayedMessageCount

/-- The first `k` of `c` batches are the longest prefix of those that read at most `n` delayed
messages. -/
structure LongestPrefix (db : Db) (n c k : Nat) : Prop where
  inside : k ≤ c
  low : ∀ i m, i < k → db.get .sequencerBatchMeta i = some m → m.delayedMessageCount ≤ n
  high : ∀ m, k < c → db.get .sequencerBatchMeta k = some m → n < m.delayedMessageCount

section
variable [Externals] {db : Db} {n c : Nat}

/-- The stored batches as a list. -/
theorem StorageInvariant.exists_batches (invariant : StorageInvariant db n c) :
    ∃ batches : List BatchMetadata, batches.length = c ∧
      ∀ i, db.get .sequencerBatchMeta i = batches[i]? := by
  have stored (i : Nat) : (db.get .sequencerBatchMeta i).isSome = true ↔ i < c := invariant.metas i
  refine ⟨List.ofFn fun i : Fin c => (db.get .sequencerBatchMeta i).get ((stored i).mpr i.isLt),
    List.length_ofFn, fun i => ?_⟩
  by_cases inside : i < c
  · rw [List.getElem?_eq_getElem (by rwa [List.length_ofFn]), List.getElem_ofFn, Option.some_get]
  · rw [List.getElem?_eq_none (by rw [List.length_ofFn]; omega)]
    exact Option.not_isSome_iff_eq_none.mp (mt (stored i).mp inside)

theorem StorageInvariant.batchTables (invariant : StorageInvariant db n c)
    (sorted : SortedBatches db) : ∃ batches, batches.length = c ∧ BatchTables db batches := by
  obtain ⟨batches, length, metas⟩ := invariant.exists_batches
  refine ⟨batches, length, ?_, ?_, metas, ?_⟩
  · refine List.pairwise_iff_getElem.mpr fun i j first second order => ?_
    exact sorted i j _ _ order ((metas i).trans (List.getElem?_eq_getElem first))
      ((metas j).trans (List.getElem?_eq_getElem second))
  · rw [invariant.batchCount, length]
  · intro k i
    rw [invariant.index]
    constructor
    · rintro ⟨inside, m, previous, here, found, reached, above⟩
      obtain ⟨previous', found', before⟩ := storedPrevious_of_metas metas (length ▸ inside.le)
      cases found.symm.trans found'
      exact ⟨m, (metas i).symm.trans here, reached,
        before BatchMetadata.delayedMessageCount rfl ▸ above⟩
    · rintro ⟨m, here, reached, above⟩
      have inside := (List.getElem?_eq_some_iff.mp here).1
      obtain ⟨previous, found, before⟩ := storedPrevious_of_metas metas inside.le
      exact ⟨length ▸ inside, m, previous, (metas i).trans here, found, reached,
        before BatchMetadata.delayedMessageCount rfl ▸ above⟩

theorem RepresentsWith.sortedBatches {t : InboxTracker} {l : Ledger} (represents : Represents t l) :
    SortedBatches t.db := by
  intro i j m m' order here there
  rw [represents.metas] at here there
  exact l.sorted.le here there order.le

omit [Externals] in
/-- The batches with low delayed counts are the longest such prefix. -/
theorem BatchTables.longestPrefix {batches : List BatchMetadata} (tables : BatchTables db batches)
    (n : Nat) : LongestPrefix db n batches.length
      (Ascending.upTo BatchMetadata.delayedMessageCount n batches).length := by
  constructor
  · exact (List.takeWhile_sublist _).length_le
  · intro i m inside here
    obtain ⟨m', found, low⟩ := (Ascending.lt_length_upTo tables.sorted).mp inside
    cases ((tables.metas i).symm.trans here).symm.trans found
    exact low
  · intro m inside here
    by_contra low
    have further := (Ascending.lt_length_upTo tables.sorted).mpr
      ⟨m, (tables.metas _).symm.trans here, not_lt.mp low⟩
    exact absurd further (lt_irrefl _)

omit [Externals] in
/-- The call itself succeeds whatever the tables hold. -/
theorem reorgDelayedTo_db (n : Nat) (t : InboxTracker) : ∃ t',
    InboxTracker.reorgDelayedTo n t = .ok () t' ∧ t'.db = t.db.write (delayedWrites t.db [] n n) := by
  obtain ⟨ops, t', set, db⟩ := TrackerUpdate.setDelayedCount_db [] le_rfl t
  exact ⟨_, (bind_ok set).trans (writeBatch_apply _ _), db⟩

/-- The tables with an entry for each delayed message. -/
def delayedTables : List Table := [.rlpDelayedMessage, .parentChainBlockNumber, .legacyDelayedMessage]

omit [Externals] in
theorem get_delayedOps_reorg (db s : Db) (n : Nat) {table : Table} (listed : table ∈ delayedTables)
    (same : s.get table = db.get table) (i : Nat) :
    (s.write (delayedOps db [] n)).get table i = if n ≤ i then none else db.get table i := by
  simp only [delayedTables, List.mem_cons, List.not_mem_nil, or_false] at listed
  simp only [delayedOps, List.nil_append, Store.write_append, Store.write_cons, Store.write_nil,
    Store.get_apply_setCount]
  rcases listed with rfl | rfl | rfl
  · rw [Store.get_write_deleteFrom_of_ne _ _ _ (by decide),
      Store.get_write_deleteFrom_of_ne _ _ _ (by decide),
      Store.get_write_deleteFrom_of_eq (congrFun same)]
  · rw [Store.get_write_deleteFrom_of_ne _ _ _ (by decide)]
    apply Store.get_write_deleteFrom_of_eq
    intro j
    rw [Store.get_write_deleteFrom_of_ne _ _ _ (by decide), same]
  · apply Store.get_write_deleteFrom_of_eq
    intro j
    rw [Store.get_write_deleteFrom_of_ne _ _ _ (by decide),
      Store.get_write_deleteFrom_of_ne _ _ _ (by decide), same]

omit [Externals] in
/-- The delayed side of the reorg, whatever the tables hold. -/
theorem delayedWrites_reorg (db : Db) (n : Nat) :
    (db.write (delayedWrites db [] n n)).count .delayedMessageCount = some n ∧
    ∀ table ∈ delayedTables, ∀ i, (db.write (delayedWrites db [] n n)).get table i =
      if n ≤ i then none else db.get table i := by
  unfold delayedWrites
  cases db.range .delayedSequenced (wrappingAdd64 n 1) with
  | nil => exact ⟨by simp [delayedOps], fun table listed => get_delayedOps_reorg db db n listed rfl⟩
  | cons entry rest =>
    obtain ⟨_, batchSeqNum⟩ := entry
    simp only [Store.write_append, Store.write_cons, Store.write_nil, Store.get_apply_setCount]
    refine ⟨by simp [delayedOps], fun table listed i => ?_⟩
    have apart : table ≠ .delayedSequenced ∧ table ≠ .sequencerBatchMeta := by
      constructor
      · rintro rfl
        simp [delayedTables] at listed
      · rintro rfl
        simp [delayedTables] at listed
    rw [Store.get_write_deleteFrom_of_ne _ _ _ apart.1]
    apply get_delayedOps_reorg _ _ _ listed
    funext j
    rw [Store.get_write_deleteFrom_of_ne _ _ _ apart.2]

/-- A delayed reorg keeps the entries below the count, and the longest prefix of the batches
that read no more than that. -/
theorem delayed_reorg_keeps_prefix {t : InboxTracker} {count : Nat}
    (invariant : StorageInvariant t.db count c) (sorted : SortedBatches t.db) (inside : n ≤ count)
    (word : n + 1 < 2 ^ 64) : ∃ t' k, InboxTracker.reorgDelayedTo n t = .ok () t' ∧
      InboxTracker.getDelayedCount t'.db = .ok n ∧
      (∀ i, t'.db.has .rlpDelayedMessage i ↔ i < n) ∧
      (∀ table ∈ delayedTables, ∀ i, t'.db.get table i =
        if i < n then t.db.get table i else none) ∧
      LongestPrefix t.db n c k ∧ InboxTracker.getBatchCount t' = .ok k t' ∧
      ∀ i, t'.db.get .sequencerBatchMeta i = if i < k then t.db.get .sequencerBatchMeta i else none := by
  obtain ⟨batches, length, tables⟩ := invariant.batchTables sorted
  obtain ⟨t', reorged, db⟩ := reorgDelayedTo_db n t
  obtain ⟨delayedCount, cut⟩ := delayedWrites_reorg t.db n
  have nothing : OffBatchSide ([] : List DbOp) := fun _ member => absurd member List.not_mem_nil
  have tables' := tables.after_delayed n n nothing
  rw [keptUpTo_of_lt word] at tables'
  rw [← db] at delayedCount cut tables'
  have kept (table : Table) (listed : table ∈ delayedTables) (i : Nat) : t'.db.get table i =
      if i < n then t.db.get table i else none := by
    rw [cut table listed]
    by_cases below : i < n
    · rw [if_neg (by omega), if_pos below]
    · rw [if_pos (by omega), if_neg below]
  refine ⟨t', _, reorged, ?_, ?_, kept, length ▸ tables.longestPrefix n, tables'.getBatchCount, ?_⟩
  · simp only [InboxTracker.getDelayedCount, Db.readCount, delayedCount]
  · intro i
    rw [Store.has, kept _ (by decide)]
    by_cases below : i < n
    · simpa [below, Store.has] using (invariant.entries i).mpr (below.trans_le inside)
    · simp [below]
  · intro i
    rw [tables'.metas, tables.metas, ← List.getElem?_take, ← Ascending.upTo_eq_take]

end

section Samples
open Codecs

/-- Two delayed messages, and batches behind none, one, again one and two of them. -/
def readBatches : InboxTracker := final (InboxTracker.addSequencerBatches
  [batch 0 0 [[0, 7]], { batch 1 1 [] with afterDelayedAcc := accumulator [zeroMessage] },
    { batch 2 1 [[0, 8]] with afterDelayedAcc := accumulator [zeroMessage] },
    { batch 3 2 [] with afterDelayedAcc := accumulator [zeroMessage, zeroMessage] }] twoDelayed)

theorem readBatches_reachable : TrackerReachable readBatches := by
  refine .step (.step (.init (.refl _ _)) (.addDelayedMessages _)) (.addSequencerBatches _ ?_)
  rintro m ⟨⟩
  exact (by decide : List.Pairwise (· ≤ ·) [0, 0, 1, 1, 2])

/-- Batch 2 has no index entry of its own and stays. -/
theorem readBatches_reorged : ∃ t', InboxTracker.reorgDelayedTo 1 readBatches = .ok () t' ∧
    InboxTracker.getBatchCount t' = .ok 3 t' := by
  obtain ⟨l, represents⟩ := readBatches_reachable.represents
  have stored : (readBatches.db.count .delayedMessageCount, readBatches.db.count .sequencerBatchCount,
      (List.range 4).map fun i => (readBatches.db.get .sequencerBatchMeta i).map
        (·.delayedMessageCount)) = (some 2, some 4, [some 0, some 1, some 1, some 2]) := by
    decide +kernel
  simp only [List.range_succ, List.range_zero, List.nil_append, List.cons_append, List.map_cons,
    List.map_nil, Prod.mk.injEq, List.cons.injEq, and_true, Option.map_eq_some_iff] at stored
  obtain ⟨delayed, batches, ⟨m₀, first, none⟩, ⟨m₁, second, one⟩, ⟨m₂, third, same⟩,
    ⟨m₃, fourth, two⟩⟩ := stored
  have invariant := represents.storageInvariant
  rw [Option.some.inj (represents.delayedCount.symm.trans delayed),
    Option.some.inj (represents.batchCount.symm.trans batches)] at invariant
  obtain ⟨t', k, reorged, _, _, _, longest, count, _⟩ :=
    delayed_reorg_keeps_prefix invariant represents.sortedBatches (n := 1) (by decide) (by decide)
  obtain rfl : k = 3 := by
    rcases Nat.lt_trichotomy k 3 with short | exactly | long
    · match k with
      | 0 => exact absurd (longest.high m₀ (by decide) first) (by omega)
      | 1 => exact absurd (longest.high m₁ (by decide) second) (by omega)
      | 2 => exact absurd (longest.high m₂ (by decide) third) (by omega)
    · exact exactly
    · exact absurd (longest.low 3 m₃ long fourth) (by omega)
  exact ⟨t', reorged, count⟩

end Samples

end NitroRs
