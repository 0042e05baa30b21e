import NitroRs.Db.PrefixDeletion
import NitroRs.Primitives.Database

/-! The database as `sled` keeps it. A tree that encodes the tables still does after the same
batch, and the deletion of a range fills the same batch for both. -/
namespace NitroRs
open KeyValue Lexicographic

def Table.keyPrefix : Table → Bytes
  | .message => messagePrefix
  | .blockHashInputFeed => blockHashInputFeedPrefix
  | .blockMetadataInputFeed => blockMetadataInputFeedPrefix
  | .missingBlockMetadataInputFeed => missingBlockMetadataInputFeedPrefix
  | .messageResult => messageResultPrefix
  | .legacyDelayedMessage => legacyDelayedMessagePrefix
  | .rlpDelayedMessage => rlpDelayedMessagePrefix
  | .parentChainBlockNumber => parentChainBlockNumberPrefix
  | .sequencerBatchMeta => sequencerBatchMetaPrefix
  | .delayedSequenced => delayedSequencedPrefix

def Counter.key : Counter → Bytes
  | .messageCount => messageCountKey
  | .delayedMessageCount => delayedMessageCountKey
  | .sequencerBatchCount => sequencerBatchCountKey

def Table.recordKey (t : Table) (i : Nat) : Bytes := dbKey t.keyPrefix (.ofNat i)

/-- How records and counts are written. -/
structure Encoding where
  record : (t : Table) → t.Record → Bytes
  count : Nat → Bytes

def Encoding.op (enc : Encoding) : DbOp → SledOp
  | .setCount c n => .put c.key (enc.count n)
  | .put t i v => .put (t.recordKey i) (enc.record t v)
  | .del t i => .del (t.recordKey i)

/-- The index of an operation is a `u64`. -/
def DbOp.Indexed : DbOp → Prop
  | .setCount _ _ => True
  | .put _ i _ | .del _ i => i < 2 ^ 64

/-- A tree of the encoded records and counts. -/
structure Encodes (enc : Encoding) (tree : SledDb) (db : Db) : Prop where
  count : ∀ c, tree[Counter.key c]? = (db.count c).map enc.count
  record : ∀ t, ∀ i < 2 ^ 64, tree[Table.recordKey t i]? = (db.get t i).map (enc.record t)
  indexed : ∀ t i, 2 ^ 64 ≤ i → db.get t i = none
  known : ∀ key ∈ tree, KnownKey key

section Keys
variable {t u : Table} {c d : Counter} {i j : Nat}

theorem keyPrefix_mem (t : Table) : t.keyPrefix ∈ indexPrefixes := by
  cases t <;> decide

theorem keyPrefix_inj : t.keyPrefix = u.keyPrefix ↔ t = u := by
  refine ⟨fun same => ?_, congrArg _⟩
  cases t <;> cases u <;> first | rfl | exact absurd same (by decide)

theorem counterKey_mem (c : Counter) : c.key ∈ counterKeys := by
  cases c <;> decide

theorem counterKey_inj : c.key = d.key ↔ c = d := by
  refine ⟨fun same => ?_, congrArg _⟩
  cases c <;> cases d <;> first | rfl | exact absurd same (by decide)

theorem recordKey_ne_counterKey : t.recordKey i ≠ c.key := by
  intro same
  exact not_prefix_counter (keyPrefix_mem t) (counterKey_mem c) (same ▸ List.prefix_append _ _)

theorem recordKey_inj (left : i < 2 ^ 64) (right : j < 2 ^ 64) : t.recordKey i = u.recordKey j ↔ t = u ∧ i = j := by
  constructor
  · intro same
    have tables : t = u := by
      by_contra different
      exact dbKey_apart (keyPrefix_mem t) (keyPrefix_mem u) (fun equal => different (keyPrefix_inj.mp equal)) same
    subst tables
    refine ⟨rfl, ?_⟩
    rwa [Table.recordKey, Table.recordKey, dbKey_inj, ← UInt64.toNat_inj, UInt64.toNat_ofNat_of_lt' left,
      UInt64.toNat_ofNat_of_lt' right] at same
  · rintro ⟨rfl, rfl⟩
    rfl

end Keys

section Writes
variable {enc : Encoding} {tree : SledDb} {db : Db} {op : DbOp} {ops : List DbOp}

theorem encodes_empty (enc : Encoding) : Encodes enc .empty Store.empty where
  count _ := Std.ExtTreeMap.getElem?_empty
  record _ _ _ := by
    rw [Store.get_empty]
    exact Std.ExtTreeMap.getElem?_empty
  indexed _ _ _ := Store.get_empty ..
  known _ present := absurd present Std.ExtTreeMap.not_mem_empty

theorem known_apply {tree : SledDb} {op : SledOp} (known : ∀ key ∈ tree, KnownKey key)
    (puts : ∀ key value, op = .put key value → KnownKey key) : ∀ key ∈ SledOp.apply tree op, KnownKey key := by
  intro key present
  cases op with
  | put key' value =>
    rcases SledOp.mem_apply_put.mp present with rfl | old
    · exact puts key' value rfl
    · exact known key old
  | del key' => exact known key (SledOp.mem_apply_del.mp present).2

theorem knownKey_counterKey (c : Counter) : KnownKey c.key := .counter (counterKey_mem c)

theorem knownKey_recordKey (t : Table) (i : Nat) : KnownKey (t.recordKey i) := .indexed (keyPrefix_mem t) _

/-- A count is put beside the records and the other counts. -/
theorem Encodes.setCount (encodes : Encodes enc tree db) (c : Counter) (n : Nat) :
    Encodes enc (SledOp.apply tree (enc.op (.setCount c n))) (db.apply (.setCount c n)) where
  count d := by
    rw [Encoding.op, SledOp.getElem?_apply_put, Store.count_apply_setCount, encodes.count]
    by_cases same : d = c
    · rw [if_pos (congrArg Counter.key same.symm), if_pos same, Option.map_some]
    · rw [if_neg fun equal => same (counterKey_inj.mp equal).symm, if_neg same]
  record t i small := by
    rw [Encoding.op, SledOp.getElem?_apply_put, if_neg (Ne.symm recordKey_ne_counterKey), Store.get_apply_setCount]
    exact encodes.record t i small
  indexed t i large := by
    rw [Store.get_apply_setCount]
    exact encodes.indexed t i large
  known := by
    refine known_apply encodes.known fun key value same => ?_
    cases same
    exact knownKey_counterKey c

/-- A record is changed on both sides. -/
theorem Encodes.change (encodes : Encodes enc tree db) {tree' : SledDb} {db' : Db} {t : Table} {i : Nat}
    (small : i < 2 ^ 64) {new : Option t.Record}
    (lookup : ∀ key : Bytes, tree'[key]? = if t.recordKey i = key then new.map (enc.record t) else tree[key]?)
    (counts : db'.count = db.count) (here : ∀ j, db'.get t j = if i = j then new else db.get t j)
    (others : ∀ u, u ≠ t → db'.get u = db.get u) (known : ∀ key ∈ tree', KnownKey key) : Encodes enc tree' db' where
  count c := by
    rw [lookup, if_neg recordKey_ne_counterKey, counts]
    exact encodes.count c
  record u j inside := by
    rw [lookup]
    simp only [recordKey_inj small inside]
    by_cases tables : u = t
    · subst tables
      simp only [true_and, here, encodes.record u j inside]
      split <;> rfl
    · rw [if_neg fun both => tables both.1.symm, others u tables]
      exact encodes.record u j inside
  indexed u j large := by
    by_cases tables : u = t
    · subst tables
      rw [here, if_neg (by omega)]
      exact encodes.indexed u j large
    · rw [others u tables]
      exact encodes.indexed u j large
  known := known

theorem Encodes.put (encodes : Encodes enc tree db) {t : Table} {i : Nat} (small : i < 2 ^ 64) (v : t.Record) :
    Encodes enc (SledOp.apply tree (enc.op (.put t i v))) (db.apply (.put t i v)) := by
  refine @Encodes.change _ _ _ encodes _ _ t i small (some v) (fun key => SledOp.getElem?_apply_put ..)
    (Store.count_apply_put ..) (fun j => Store.get_apply_put ..)
    (fun u other => Store.get_apply_put_of_ne _ _ _ other) ?_
  refine known_apply encodes.known fun key value same => ?_
  cases same
  exact knownKey_recordKey t i

theorem Encodes.del (encodes : Encodes enc tree db) {t : Table} {i : Nat} (small : i < 2 ^ 64) :
    Encodes enc (SledOp.apply tree (enc.op (.del t i))) (db.apply (.del t i)) := by
  refine @Encodes.change _ _ _ encodes _ _ t i small none (fun key => SledOp.getElem?_apply_del ..)
    (Store.count_apply_del ..) (fun j => Store.get_apply_del ..) (fun u other => Store.get_apply_del_of_ne _ _ other) ?_
  refine known_apply encodes.known fun key value same => ?_
  cases same

/-- One operation on both sides. -/
theorem Encodes.apply (encodes : Encodes enc tree db) (op : DbOp) (indexed : op.Indexed) :
    Encodes enc (SledOp.apply tree (enc.op op)) (db.apply op) := by
  cases op with
  | setCount c n => exact encodes.setCount c n
  | put t i v => exact encodes.put indexed v
  | del t i => exact encodes.del indexed

end Writes

section Ranges
variable {enc : Encoding} {tree : SledDb} {db : Db} {t : Table} {start : Nat}

theorem Encodes.inside (encodes : Encodes enc tree db) {entry : Nat × t.Record} (member : entry ∈ db.range t start) :
    entry.1 < 2 ^ 64 := by
  obtain ⟨_, stored⟩ := Store.mem_range.mp member
  by_contra large
  rw [encodes.indexed t _ (Nat.le_of_not_lt large)] at stored
  contradiction

/-- The records of a table from an index on, in the order of their keys. -/
theorem Encodes.range_keys (encodes : Encodes enc tree db) (t : Table) {start : Nat} (small : start < 2 ^ 64) :
    ((tree.range (t.recordKey start)).filter fun entry => t.keyPrefix.isPrefixOf entry.1).map Prod.fst =
      (db.range t start).map fun entry => t.recordKey entry.1 := by
  refine eq_of_sorted ?_ ?_ fun key => ?_
  · exact List.pairwise_map.mpr ((tree.range_sorted _).filter _)
  · refine List.pairwise_map.mpr (List.Pairwise.imp_of_mem ?_ (db.range_sorted t start))
    intro a b first second order
    rw [Table.recordKey, Table.recordKey, compare_dbKey, UInt64.toNat_ofNat_of_lt' (encodes.inside first),
      UInt64.toNat_ofNat_of_lt' (encodes.inside second)]
    exact Nat.compare_eq_lt.mpr order
  · refine (mem_deleted_iff encodes.known (keyPrefix_mem t)).trans ?_
    simp only [List.mem_map, Prod.exists, Store.mem_range]
    constructor
    · rintro ⟨present, i, above, rfl⟩
      have stored := encodes.record t i.toNat i.toNat_lt
      rw [Table.recordKey, UInt64.ofNat_toNat] at stored
      obtain ⟨value, here⟩ := Option.isSome_iff_exists.mp (Std.ExtTreeMap.isSome_getElem?_iff_mem.mpr present)
      rw [here] at stored
      obtain ⟨v, found, _⟩ := Option.map_eq_some_iff.mp stored.symm
      rw [UInt64.le_iff_toNat_le, UInt64.toNat_ofNat_of_lt' small] at above
      exact ⟨i.toNat, v, ⟨above, found⟩, by rw [Table.recordKey, UInt64.ofNat_toNat]⟩
    · rintro ⟨i, v, ⟨above, found⟩, rfl⟩
      have inside := encodes.inside (Store.mem_range.mpr ⟨above, found⟩)
      refine ⟨?_, .ofNat i, ?_, rfl⟩
      · rw [← Std.ExtTreeMap.isSome_getElem?_iff_mem, encodes.record t i inside, found]
        rfl
      · rwa [UInt64.le_iff_toNat_le, UInt64.toNat_ofNat_of_lt' small, UInt64.toNat_ofNat_of_lt' inside]

/-- The entries of a table from an index on are its encoded records. -/
theorem Encodes.range_entries (encodes : Encodes enc tree db) (t : Table) {start : Nat} (small : start < 2 ^ 64) :
    ((tree.range (t.recordKey start)).filter fun entry => t.keyPrefix.isPrefixOf entry.1) =
      (db.range t start).map fun entry => (t.recordKey entry.1, enc.record t entry.2) := by
  have keys := encodes.range_keys t small
  have values : ∀ entry ∈ (tree.range (t.recordKey start)).filter fun entry => t.keyPrefix.isPrefixOf entry.1,
      entry = (entry.1, (tree[entry.1]?).getD []) := by
    intro entry member
    obtain ⟨found, _⟩ := mem_range.mp (List.mem_filter.mp member).1
    rw [found]
    rfl
  have records : ∀ entry ∈ db.range t start,
      (t.recordKey entry.1, enc.record t entry.2) = (t.recordKey entry.1, (tree[t.recordKey entry.1]?).getD []) := by
    intro entry member
    obtain ⟨_, found⟩ := Store.mem_range.mp member
    rw [encodes.record t entry.1 (encodes.inside member), found]
    rfl
  calc ((tree.range (t.recordKey start)).filter fun entry => t.keyPrefix.isPrefixOf entry.1)
      = ((tree.range (t.recordKey start)).filter fun entry => t.keyPrefix.isPrefixOf entry.1).map
          ((fun key => (key, (tree[key]?).getD [])) ∘ Prod.fst) := by
        exact (List.map_id' _).symm.trans (List.map_congr_left values)
    _ = (db.range t start).map ((fun key => (key, (tree[key]?).getD [])) ∘ fun entry => t.recordKey entry.1) := by
        rw [← List.map_map, keys, List.map_map]
    _ = (db.range t start).map fun entry => (t.recordKey entry.1, enc.record t entry.2) :=
        (List.map_congr_left records).symm

/-- A loop over the entries of a table from an index on. -/
theorem Encodes.forEach (encodes : Encodes enc tree db) (t : Table) {start : Nat} (small : start < 2 ^ 64)
    {ε β : Type} (body : Bytes → Bytes → β → Except ε β) (acc : β) :
    ∃ it : SledIter, it.error = none ∧
      (SledIter.new tree t.keyPrefix (uint64ToKey (.ofNat start))).forEach body acc =
        ((db.range t start).foldlM (fun acc entry => body (t.recordKey entry.1) (enc.record t entry.2) acc) acc).map
          fun acc => (it, acc) := by
  obtain ⟨it, error, same⟩ := @SledIter.forEach_eq ε β body
    (.new tree t.keyPrefix (uint64ToKey (.ofNat start))) _ rfl acc
  refine ⟨it, error, ?_⟩
  have entries := (tree.takeWhile_range t.keyPrefix (uint64ToKey (.ofNat start))).trans (encodes.range_entries t small)
  rw [same]
  refine congrArg (Except.map fun acc => (it, acc)) ?_
  refine (congrArg (List.foldlM (fun acc (entry : Bytes × Bytes) => body entry.1 entry.2 acc) acc) entries).trans ?_
  rw [List.foldlM_map]

/-- The deletion of a range fills the batch that it fills for the tables. -/
theorem Encodes.deleteStartingAt (encodes : Encodes enc tree db) (batch : SledBatch) (t : Table) {start : Nat}
    (small : start < 2 ^ 64) :
    deleteStartingAt tree batch t.keyPrefix (uint64ToKey (.ofNat start)) =
      .ok ⟨batch.ops ++ (db.deleteFrom t start).map enc.op⟩ := by
  have keys := congrArg (List.map SledOp.del) (encodes.range_keys t small)
  rw [List.map_map, List.map_map] at keys
  rw [deleteStartingAt_eq, Store.deleteFrom, List.map_map]
  exact congrArg (fun dels => Except.ok (SledBatch.mk (batch.ops ++ dels))) keys

end Ranges
end NitroRs
