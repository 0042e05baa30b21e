import NitroRs.Inbox.TrackerSpec
import NitroRs.Lib.Ascending

/-! The batch side of the tracker's tables: the metadata of a list of batches, its
length, and the index of the batches that read delayed messages on. What each update
writes replaces this list by a prefix of it, or by a prefix and new batches, whatever
the delayed side holds. -/
namespace NitroRs
open KeyValue Outcome
open Checked (wrappingAdd64 wrappingAdd64_of_lt wrappingAdd64_le)

/-- The queue of `set_delayed_count_reorg_and_write_batch` up to the delayed count. -/
def delayedOps (db : Db) (batch : List DbOp) (newDelayedCount : Nat) : List DbOp :=
  batch ++ db.deleteFrom .rlpDelayedMessage newDelayedCount ++
    db.deleteFrom .parentChainBlockNumber newDelayedCount ++
    db.deleteFrom .legacyDelayedMessage newDelayedCount ++
    [.setCount .delayedMessageCount newDelayedCount]

/-- The writes of `set_delayed_count_reorg_and_write_batch` and of its caller: the
deletions of batch metadata come first, they are not queued. -/
def delayedWrites (db : Db) (batch : List DbOp) (firstNewDelayedMessagePos newDelayedCount : Nat) :
    List DbOp :=
  match db.range .delayedSequenced (wrappingAdd64 firstNewDelayedMessagePos 1) with
  | [] => delayedOps db batch newDelayedCount
  | (_, batchSeqNum) :: _ =>
    db.deleteFrom .sequencerBatchMeta batchSeqNum ++ (delayedOps db batch newDelayedCount ++
      db.deleteFrom .delayedSequenced (wrappingAdd64 firstNewDelayedMessagePos 1) ++
      [.setCount .sequencerBatchCount batchSeqNum])

/-- The delayed count up to which batches may have read when the delayed messages change from a
position on: the position, unless the key behind it wraps. -/
def keptUpTo (pos : Nat) : Nat := wrappingAdd64 pos 1 - 1

theorem keptUpTo_of_lt {pos : Nat} (word : pos + 1 < 2 ^ 64) : keptUpTo pos = pos := by
  rw [keptUpTo, wrappingAdd64_of_lt word, Nat.add_sub_cancel]

theorem keptUpTo_le (pos : Nat) : keptUpTo pos ≤ pos :=
  Nat.sub_le_of_le_add (wrappingAdd64_le pos 1)

/-- Operations on the batch side. -/
def OnBatchSide (ops : List DbOp) : Prop :=
  ∀ op ∈ ops, op.place ∈ [.table .sequencerBatchMeta, .table .delayedSequenced,
    .counter .sequencerBatchCount]

/-- Operations that leave the batch side alone. -/
def OffBatchSide (ops : List DbOp) : Prop :=
  ∀ op ∈ ops, op.place ∉ [.table .sequencerBatchMeta, .table .delayedSequenced,
    .counter .sequencerBatchCount]

section Sides
variable {ops ops' : List DbOp} {place : Place Counter Table}

theorem onBatchSide_deleteFrom (db : Db) (start : Nat) {t : Table}
    (side : t = .sequencerBatchMeta ∨ t = .delayedSequenced) : OnBatchSide (db.deleteFrom t start) := by
  intro op member
  rw [db.deleteFrom_place t start op member]
  rcases side with rfl | rfl <;> decide

theorem OnBatchSide.append (first : OnBatchSide ops) (second : OnBatchSide ops') :
    OnBatchSide (ops ++ ops') := by
  intro op member
  rcases List.mem_append.mp member with here | there
  · exact first op here
  · exact second op there

theorem onBatchSide_setCount (n : Nat) : OnBatchSide [.setCount .sequencerBatchCount n] := by
  intro op member
  simp [List.mem_singleton.mp member, Op.place]

theorem OnBatchSide.untouched (side : OnBatchSide ops) (other : place ∉ [.table .sequencerBatchMeta,
    .table .delayedSequenced, .counter .sequencerBatchCount]) : ∀ op ∈ ops, op.place ≠ place :=
  fun op member same => other (same ▸ side op member)

theorem OffBatchSide.untouched (off : OffBatchSide ops) (listed : place ∈ [.table .sequencerBatchMeta,
    .table .delayedSequenced, .counter .sequencerBatchCount]) : ∀ op ∈ ops, op.place ≠ place :=
  fun op member same => off op member (same ▸ listed)

/-- Operations on the batch side are the tracker's. -/
theorem OnBatchSide.owner (side : OnBatchSide ops) : ∀ op ∈ ops, DbOp.owner op ≠ .streamer := by
  intro op member
  have place := side op member
  simp only [List.mem_cons, List.not_mem_nil, or_false] at place
  rcases place with place | place | place <;> rw [DbOp.owner, place] <;> decide

end Sides

/-- Consecutive numbers for the elements of a list. -/
def numberFrom {α : Type} : Nat → List α → List (Nat × α)
  | _, [] => []
  | n, a :: as => (n, a) :: numberFrom (n + 1) as

theorem numberFrom_injective {α : Type} {n : Nat} {as bs : List α}
    (same : numberFrom n as = numberFrom n bs) : as = bs := by
  induction as generalizing n bs with
  | nil =>
    cases bs with
    | nil => rfl
    | cons b bs => contradiction
  | cons a as ih =>
    cases bs with
    | nil => contradiction
    | cons b bs =>
      simp only [numberFrom, List.cons.injEq, Prod.mk.injEq, true_and] at same
      rw [same.1, ih same.2]

theorem mem_numberFrom {α : Type} {n i : Nat} {as : List α} {a : α} :
    (i, a) ∈ numberFrom n as ↔ n ≤ i ∧ as[i - n]? = some a := by
  induction as generalizing n with
  | nil => simp [numberFrom]
  | cons b as ih =>
    rw [numberFrom, List.mem_cons, ih, Prod.mk.injEq]
    rcases Nat.lt_trichotomy i n with below | rfl | above
    · have apart : ¬ (n ≤ i) ∧ ¬ (n + 1 ≤ i) ∧ i ≠ n := by omega
      simp [apart]
    · simp [eq_comm]
    · obtain ⟨k, rfl⟩ : ∃ k, i = n + 1 + k := ⟨i - (n + 1), by omega⟩
      have shift : n + 1 + k - n = k + 1 := by omega
      have shift' : n + 1 + k - (n + 1) = k := by omega
      have apart : n + 1 + k ≠ n := by omega
      rw [shift, shift', List.getElem?_cons_succ]
      simp only [apart, false_and, false_or]
      constructor
      · exact fun found => ⟨by omega, found.2⟩
      · exact fun found => ⟨by omega, found.2⟩

/-- A list of batches is stored and indexed; entries from `top` on are gone. -/
structure Indexed (db : Db) (top : Nat) (batches : List BatchMetadata) : Prop where
  metas : ∀ i < batches.length, db.get .sequencerBatchMeta i = batches[i]?
  beyond : ∀ i, top ≤ i → db.get .sequencerBatchMeta i = none
  index : ∀ k i, db.get .delayedSequenced k = some i ↔
    Ascending.Rises BatchMetadata.delayedMessageCount batches k i

/-- The writes for one more batch: its metadata, and an index entry if its
delayed count grows. -/
theorem Indexed.step {db : Db} {top : Nat} {batches : List BatchMetadata} {last m : BatchMetadata}
    (stored : Indexed db top batches) (room : batches.length < top)
    (sorted : Ascending.Sorted BatchMetadata.delayedMessageCount (batches ++ [m]))
    (previous : Ascending.before BatchMetadata.delayedMessageCount batches batches.length =
      last.delayedMessageCount) :
    Indexed (db.write (.put .sequencerBatchMeta batches.length m ::
      if last.delayedMessageCount < m.delayedMessageCount then
        [.put .delayedSequenced m.delayedMessageCount batches.length] else [])) top (batches ++ [m]) := by
  have metas (i : Nat) : (db.write (.put .sequencerBatchMeta batches.length m ::
      if last.delayedMessageCount < m.delayedMessageCount then
        [.put .delayedSequenced m.delayedMessageCount batches.length] else [])).get
      .sequencerBatchMeta i =
        if batches.length = i then some m else db.get .sequencerBatchMeta i := by
    split <;> simp
  have index (k : Nat) : (db.write (.put .sequencerBatchMeta batches.length m ::
      if last.delayedMessageCount < m.delayedMessageCount then
        [.put .delayedSequenced m.delayedMessageCount batches.length] else [])).get
      .delayedSequenced k =
        if last.delayedMessageCount < m.delayedMessageCount ∧ m.delayedMessageCount = k then
          some batches.length else db.get .delayedSequenced k := by
    split <;> rename_i grows <;> simp [grows]
  constructor
  · intro i inside
    rw [List.length_append, List.length_singleton] at inside
    rw [metas]
    by_cases new : batches.length = i
    · rw [if_pos new, ← new, List.getElem?_append_right le_rfl, Nat.sub_self]
      rfl
    · rw [if_neg new, List.getElem?_append_left (by omega), stored.metas i (by omega)]
  · intro i past
    rw [metas, if_neg (by omega), stored.beyond i past]
  · intro k i
    rw [index, Ascending.rises_append_singleton, previous, ← stored.index]
    by_cases grows : last.delayedMessageCount < m.delayedMessageCount ∧ m.delayedMessageCount = k
    · obtain ⟨grows, rfl⟩ := grows
      rw [if_pos ⟨grows, rfl⟩]
      constructor
      · rintro ⟨rfl⟩
        exact .inr ⟨rfl, rfl, grows⟩
      · rintro (old | ⟨rfl, _, _⟩)
        · -- an older batch cannot have reached this count already
          obtain ⟨x, here, reached, _⟩ := (stored.index _ _).mp old
          have inside := (List.getElem?_eq_some_iff.mp here).1
          have low := Ascending.le_before (List.pairwise_append.mp sorted).1 here inside le_rfl
          omega
        · rfl
    · rw [if_neg grows]
      constructor
      · exact .inl
      · rintro (old | ⟨_, reached, above⟩)
        · exact old
        · exact absurd ⟨reached ▸ above, reached⟩ grows

/-- The writes of the whole loop. -/
theorem Indexed.run {db : Db} {batches metas : List BatchMetadata} {last : BatchMetadata}
    (stored : Indexed db (batches.length + metas.length) batches)
    (sorted : Ascending.Sorted BatchMetadata.delayedMessageCount (batches ++ metas))
    (previous : Ascending.before BatchMetadata.delayedMessageCount batches batches.length =
      last.delayedMessageCount) :
    Indexed (db.write (InboxTracker.batchOps last (numberFrom batches.length metas)))
      (batches.length + metas.length) (batches ++ metas) := by
  induction metas generalizing db batches last with
  | nil => simpa [numberFrom, InboxTracker.batchOps] using stored
  | cons m metas ih =>
    have first : Ascending.Sorted BatchMetadata.delayedMessageCount (batches ++ [m]) :=
      sorted.sublist ((List.Sublist.refl _).append (List.singleton_sublist.mpr List.mem_cons_self))
    have once := stored.step (by simp) first previous
    have length : (batches ++ [m]).length = batches.length + 1 := by simp
    have total : batches.length + (m :: metas).length = (batches ++ [m]).length + metas.length := by
      simp only [length, List.length_cons]
      omega
    rw [total] at once ⊢
    have last : Ascending.before BatchMetadata.delayedMessageCount (batches ++ [m])
        (batches ++ [m]).length = m.delayedMessageCount := by simp [Ascending.before]
    have rest := ih once (by simpa using sorted) last
    rw [length] at rest
    simpa only [numberFrom, InboxTracker.batchOps, List.cons_append, Store.write_cons,
      Store.write_append, List.append_assoc, List.nil_append, length] using rest

theorem batchOps_place (last : BatchMetadata) (metas : List (Nat × BatchMetadata)) :
    OnBatchSide (InboxTracker.batchOps last metas) := by
  induction metas generalizing last with
  | nil => exact fun op member => nomatch member
  | cons entry metas ih =>
    intro op member
    rw [InboxTracker.batchOps, List.mem_append, List.mem_cons] at member
    rcases member with (rfl | index) | later
    · simp [Op.place]
    · split at index
      · obtain rfl := List.mem_singleton.mp index
        simp [Op.place]
      · exact nomatch index
    · exact ih _ op later

/-- The queue touches the batch side only where the caller's part does. -/
theorem delayedOps_off (db : Db) {batch : List DbOp} (off : OffBatchSide batch) (newDelayedCount : Nat) :
    OffBatchSide (delayedOps db batch newDelayedCount) := by
  intro op member
  simp only [delayedOps, List.mem_append, List.mem_singleton] at member
  rcases member with (((queued | rlp) | parent) | legacy) | rfl
  · exact off op queued
  · rw [db.deleteFrom_place _ _ op rlp]
    decide
  · rw [db.deleteFrom_place _ _ op parent]
    decide
  · rw [db.deleteFrom_place _ _ op legacy]
    decide
  · simp [Op.place]

/-- The tables hold exactly a list of batches. -/
structure BatchTables (db : Db) (batches : List BatchMetadata) : Prop where
  sorted : Ascending.Sorted BatchMetadata.delayedMessageCount batches
  count : db.count .sequencerBatchCount = some batches.length
  metas : ∀ i, db.get .sequencerBatchMeta i = batches[i]?
  index : ∀ k i, db.get .delayedSequenced k = some i ↔
    Ascending.Rises BatchMetadata.delayedMessageCount batches k i

namespace BatchTables
variable {db db' : Db} {batches : List BatchMetadata}

/-- The stored count needs no repair. -/
theorem getBatchCount {t : InboxTracker} (tables : BatchTables t.db batches) :
    InboxTracker.getBatchCount t = .ok batches.length t := by
  have kept : InboxTracker.repairCount t.db batches.length = batches.length := by
    apply InboxTracker.repairCount_self
    intro m length
    have inside : m < batches.length := by omega
    simp only [Store.has, tables.metas, List.getElem?_eq_getElem inside, Option.isSome_some]
  simp only [InboxTracker.getBatchCount, bind_read, Db.readCount, tables.count, bind_lift_ok, kept,
    if_true]
  rfl

/-- A count that has an index entry is above the count of a batch, or above zero. -/
theorem key_pos (tables : BatchTables db batches) {k i : Nat} (stored : db.get .delayedSequenced k = some i) : 0 < k := by
  obtain ⟨_, _, _, above⟩ := (tables.index k i).mp stored
  exact Nat.zero_lt_of_lt above

/-- The first index entry from a key on names the first batch to drop. -/
theorem first_dropped (tables : BatchTables db batches) {start k i : Nat} {rest : List (Nat × Nat)}
    (range : db.range .delayedSequenced start = (k, i) :: rest) :
    i = (Ascending.upTo BatchMetadata.delayedMessageCount (start - 1) batches).length := by
  have sorted := db.range_sorted .delayedSequenced start
  rw [range] at sorted
  have first : (k, i) ∈ db.range .delayedSequenced start := by
    rw [range]
    exact List.mem_cons_self
  obtain ⟨above, stored⟩ := Store.mem_range.mp first
  have positive := tables.key_pos stored
  apply Ascending.first_rise tables.sorted (show start - 1 < k by omega) ((tables.index k i).mp stored)
  intro k' i' above' rises
  have member : (k', i') ∈ db.range .delayedSequenced start :=
    Store.mem_range.mpr ⟨by omega, (tables.index k' i').mpr rises⟩
  rw [range] at member
  rcases List.mem_cons.mp member with same | later
  · exact le_of_eq (congrArg Prod.fst same).symm
  · exact (List.rel_of_pairwise_cons sorted later).le

/-- Without such an entry no batch has to go. -/
theorem none_dropped (tables : BatchTables db batches) {start : Nat}
    (range : db.range .delayedSequenced start = []) :
    Ascending.upTo BatchMetadata.delayedMessageCount (start - 1) batches = batches := by
  have short : batches.length ≤
      (Ascending.upTo BatchMetadata.delayedMessageCount (start - 1) batches).length := by
    by_contra more
    have here := List.getElem?_eq_getElem (not_le.mp more)
    obtain ⟨above, rises⟩ := Ascending.rises_end tables.sorted here
    have stored := (tables.index _ _).mpr rises
    rw [Store.range_eq_nil.mp range _ (by omega)] at stored
    contradiction
  rw [Ascending.upTo_eq_take]
  exact List.take_of_length_le short

/-- The index after deleting its keys from one on. -/
theorem index_cut (tables : BatchTables db batches) (start : Nat)
    (same : db'.get .delayedSequenced = db.get .delayedSequenced) (k i : Nat) :
    (db'.write (db.deleteFrom .delayedSequenced start)).get .delayedSequenced k = some i ↔
      Ascending.Rises BatchMetadata.delayedMessageCount
        (Ascending.upTo BatchMetadata.delayedMessageCount (start - 1) batches) k i := by
  rw [Store.get_write_deleteFrom_of_eq (fun i => congrFun same i), Ascending.rises_upTo tables.sorted,
    ← tables.index]
  by_cases past : start ≤ k
  · rw [if_pos past]
    refine iff_of_false (fun none => nomatch none) ?_
    rintro ⟨low, stored⟩
    have positive := tables.key_pos stored
    omega
  · simp only [if_neg past, iff_and_self]
    omega

/-- The metadata after deleting its entries from a number on. -/
theorem metas_cut (tables : BatchTables db batches) (start i : Nat) :
    (db.write (db.deleteFrom .sequencerBatchMeta start)).get .sequencerBatchMeta i =
      (batches.take start)[i]? := by
  rw [Store.get_write_deleteFrom, tables.metas, List.getElem?_take]
  by_cases past : start ≤ i
  · cases here : batches[i]? with
    | none => simp
    | some m => simp [past, Store.has, tables.metas, here]
  · rw [if_neg (fun both => past both.1), if_pos (by omega)]

/-- Writes elsewhere leave the batches. -/
theorem write_off (tables : BatchTables db batches) {ops : List DbOp} (off : OffBatchSide ops) :
    BatchTables (db.write ops) batches := by
  constructor
  · exact tables.sorted
  · rw [db.count_write_of_untouched (off.untouched (by decide)), tables.count]
  · intro i
    rw [db.get_write_of_untouched (off.untouched (by decide)), tables.metas]
  · intro k i
    rw [db.get_write_of_untouched (off.untouched (by decide)), tables.index]

/-- A delayed reorg keeps the batches that read no delayed message from there on. -/
theorem after_delayed (tables : BatchTables db batches) {batch : List DbOp} (first new : Nat)
    (off : OffBatchSide batch) :
    BatchTables (db.write (delayedWrites db batch first new))
      (Ascending.upTo BatchMetadata.delayedMessageCount (keptUpTo first) batches) := by
  have queued := delayedOps_off db off new
  unfold delayedWrites keptUpTo
  cases range : db.range .delayedSequenced (wrappingAdd64 first 1) with
  | nil =>
    rw [tables.none_dropped range]
    exact tables.write_off queued
  | cons entry rest =>
    obtain ⟨k, seqnum⟩ := entry
    obtain rfl := tables.first_dropped range
    simp only [Store.write_append, Store.write_cons, Store.write_nil]
    constructor
    · exact tables.sorted.sublist (List.takeWhile_sublist _)
    · simp
    · intro i
      rw [Store.get_apply_setCount, Store.get_write_deleteFrom_of_ne _ _ _ (by decide),
        Store.get_write_of_untouched _ (queued.untouched (by decide)), tables.metas_cut,
        ← Ascending.upTo_eq_take]
    · intro k i
      rw [Store.get_apply_setCount]
      apply tables.index_cut
      funext j
      rw [Store.get_write_of_untouched _ (queued.untouched (by decide)),
        Store.get_write_deleteFrom_of_ne _ _ _ (by decide)]

/-- The batches from a position on are replaced: first the index is cut, then the
writes for the new batches extend it. -/
theorem after_batches (tables : BatchTables db batches) {pos : Nat} {m : BatchMetadata}
    (inside : pos ≤ batches.length)
    (previous : Ascending.before BatchMetadata.delayedMessageCount batches pos = m.delayedMessageCount)
    (metas : List BatchMetadata)
    (sorted : Ascending.Sorted BatchMetadata.delayedMessageCount (batches.take pos ++ metas)) :
    BatchTables (db.write (db.deleteFrom .sequencerBatchMeta (pos + metas.length) ++
      (db.deleteFrom .delayedSequenced (m.delayedMessageCount + 1) ++
        InboxTracker.batchOps m (numberFrom pos metas) ++
        [.setCount .sequencerBatchCount (pos + metas.length)]))) (batches.take pos ++ metas) := by
  have front : (batches.take pos).length = pos := List.length_take_of_le inside
  have total : (batches.take pos ++ metas).length = pos + metas.length := by
    rw [List.length_append, front]
  have start : Indexed ((db.write (db.deleteFrom .sequencerBatchMeta (pos + metas.length))).write
      (db.deleteFrom .delayedSequenced (m.delayedMessageCount + 1)))
      ((batches.take pos).length + metas.length) (batches.take pos) := by
    rw [front]
    constructor
    · intro i short
      rw [front] at short
      rw [Store.get_write_deleteFrom_of_ne _ _ _ (by decide), tables.metas_cut, List.getElem?_take,
        List.getElem?_take, if_pos short, if_pos (by omega)]
    · intro i past
      rw [Store.get_write_deleteFrom_of_ne _ _ _ (by decide), tables.metas_cut, List.getElem?_take,
        if_neg (by omega)]
    · intro k i
      rw [tables.index_cut _ (by funext j; rw [Store.get_write_deleteFrom_of_ne _ _ _ (by decide)]),
        Ascending.rises_upTo tables.sorted, Nat.add_sub_cancel, ← previous, ← Ascending.rises_take_iff tables.sorted inside]
  have last : Ascending.before BatchMetadata.delayedMessageCount (batches.take pos)
      (batches.take pos).length = m.delayedMessageCount := by
    rw [front, Ascending.before_take le_rfl, previous]
  have done := start.run sorted last
  rw [front] at done
  simp only [Store.write_append, Store.write_cons, Store.write_nil]
  constructor
  · exact sorted
  · rw [total, Store.count_apply_setCount, if_pos rfl]
  · intro i
    rw [Store.get_apply_setCount]
    by_cases short : i < pos + metas.length
    · exact done.metas i (by rw [total]; exact short)
    · rw [done.beyond i (by omega), List.getElem?_eq_none (by omega)]
  · intro k i
    rw [Store.get_apply_setCount]
    exact done.index k i

end BatchTables

end NitroRs
