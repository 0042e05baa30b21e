import NitroRs.Db.Sled

/-! The deletion of a range: of the records with a prefix it takes those from an index on, and
nothing else. -/
namespace NitroRs
open Lexicographic

variable {db : SledDb} {p key : Bytes} {i s : UInt64}

/-- The loop takes the keys up to the first one without the prefix. -/
theorem deleteEntries_eq {it : SledIter} {entries : List (Bytes × Bytes)} (rest : it.iter = entries.map .ok)
    (batch : SledBatch) : (deleteEntries it batch).1.error = it.error ∧ (deleteEntries it batch).2 =
      ⟨batch.ops ++
        (entries.takeWhile fun entry => it.keyPrefix.isPrefixOf entry.1).map fun entry => .del entry.1⟩ := by
  induction entries generalizing it batch with
  | nil =>
    rw [deleteEntries]
    simp only [SledIter.next, rest, List.map_nil, List.takeWhile_nil, List.append_nil, Bool.false_eq_true, if_false,
      and_self]
  | cons entry entries ih =>
    obtain ⟨k, v⟩ := entry
    rw [deleteEntries, List.takeWhile_cons]
    simp only [SledIter.next, rest, List.map_cons]
    by_cases has : it.keyPrefix.isPrefixOf k
    · simp only [has, Bool.not_true, Bool.false_eq_true, if_false, if_true]
      obtain ⟨error, filled⟩ := @ih { it with iter := entries.map .ok, current := some (k, v) } rfl (batch.delete k)
      refine ⟨error, filled.trans ?_⟩
      simp only [SledBatch.delete, List.append_assoc, List.singleton_append, List.map_cons]
    · simp only [has, Bool.not_false, if_true, Bool.false_eq_true, if_false, List.map_nil, List.append_nil, and_self]

/-- A loop over an iterator is one over the entries up to the first one without the prefix. -/
theorem SledIter.forEach_eq {ε β : Type} (body : Bytes → Bytes → β → Except ε β) {it : SledIter}
    {entries : List (Bytes × Bytes)} (rest : it.iter = entries.map .ok) (acc : β) :
    ∃ it' : SledIter, it'.error = it.error ∧ it.forEach body acc =
      ((entries.takeWhile fun entry => it.keyPrefix.isPrefixOf entry.1).foldlM
        (fun acc entry => body entry.1 entry.2 acc) acc).map fun acc => (it', acc) := by
  induction entries generalizing it acc with
  | nil =>
    refine ⟨it.next.2, by simp only [next, rest, List.map_nil], ?_⟩
    rw [forEach]
    simp only [next, rest, List.map_nil, Bool.false_eq_true, if_false]
    rfl
  | cons entry entries ih =>
    obtain ⟨k, v⟩ := entry
    rw [forEach, List.takeWhile_cons]
    simp only [next, rest, List.map_cons]
    by_cases has : it.keyPrefix.isPrefixOf k
    · simp only [has, Bool.not_true, Bool.false_eq_true, if_false, if_true, key, value]
      rw [List.foldlM_cons]
      cases body k v acc with
      | error e => exact ⟨it, rfl, rfl⟩
      | ok acc => exact @ih { it with iter := entries.map .ok, current := some (k, v) } rfl acc
    · simp only [has, Bool.not_false, if_true, Bool.false_eq_true, if_false]
      exact ⟨{ it with iter := entries.map .ok, current := none }, rfl, rfl⟩

theorem SledDb.range_sorted (db : SledDb) (start : Bytes) :
    (db.range start).Pairwise fun a b => compare a.1 b.1 = .lt :=
  List.Pairwise.filter _ Std.ExtTreeMap.ordered_keys_toList

theorem SledDb.takeWhile_range (db : SledDb) (p start : Bytes) :
    ((db.range (p ++ start)).takeWhile fun entry => p.isPrefixOf entry.1) =
      (db.range (p ++ start)).filter fun entry => p.isPrefixOf entry.1 := by
  have past : ∀ entry ∈ db.range (p ++ start), (compare p entry.1).isLE := by
    intro entry member
    have above := (List.mem_filter.mp member).2
    have front : (compare p (p ++ start)).isLE := by
      have order := compare_append_left p [] start
      rw [List.append_nil] at order
      rw [order]
      exact List.isLE_compare_nil_left
    exact Std.TransOrd.isLE_trans front above
  exact takeWhile_eq_filter (db.range_sorted _) past

theorem deleteStartingAt_eq (db : SledDb) (batch : SledBatch) (p start : Bytes) :
    deleteStartingAt db batch p start = .ok ⟨batch.ops ++
      ((db.range (p ++ start)).filter fun entry => p.isPrefixOf entry.1).map fun entry => .del entry.1⟩ := by
  obtain ⟨error, filled⟩ := @deleteEntries_eq (.new db p start) _ rfl batch
  simp only [deleteStartingAt, error, filled, ← SledDb.takeWhile_range]
  rfl

theorem getElem?_write_dels (db : SledDb) (keys : List Bytes) (key : Bytes) :
    ((keys.map SledOp.del).foldl SledOp.apply db)[key]? = if key ∈ keys then none else db[key]? := by
  induction keys generalizing db with
  | nil => rfl
  | cons k keys ih =>
    rw [List.map_cons, List.foldl_cons, ih, SledOp.getElem?_apply_del]
    simp only [List.mem_cons, eq_comm (a := k)]
    by_cases later : key ∈ keys
    · rw [if_pos later, if_pos (.inr later)]
    · rw [if_neg later]
      by_cases here : key = k
      · rw [if_pos here, if_pos (.inl here)]
      · rw [if_neg here, if_neg fun either => either.elim here later]

theorem mem_range {key start value : Bytes} : (key, value) ∈ db.range start ↔
    db[key]? = some value ∧ (compare start key).isLE := by
  rw [SledDb.range, List.mem_filter, Std.ExtTreeMap.mem_toList_iff_getElem?_eq_some]

/-- The keys that are taken: of those that are stored, the ones of the prefix from the index on. -/
theorem mem_deleted_iff (known : ∀ key ∈ db, KnownKey key) (member : p ∈ indexPrefixes) :
    key ∈ ((db.range (p ++ uint64ToKey s)).filter fun entry => p.isPrefixOf entry.1).map Prod.fst ↔
      key ∈ db ∧ ∃ i, s ≤ i ∧ key = dbKey p i := by
  have stored : key ∈ ((db.range (p ++ uint64ToKey s)).filter fun entry => p.isPrefixOf entry.1).map Prod.fst ↔
      key ∈ db ∧ (compare (dbKey p s) key).isLE ∧ p <+: key := by
    simp only [List.mem_map, List.mem_filter, Prod.exists, mem_range, List.isPrefixOf_iff_prefix, exists_and_right,
      exists_eq_right]
    rw [← Std.ExtTreeMap.isSome_getElem?_iff_mem, Option.isSome_iff_exists, and_assoc]
    rfl
  rw [stored]
  refine and_congr_right fun present => ?_
  constructor
  · rintro ⟨above, has⟩
    cases known key present with
    | counter counter => exact absurd has (not_prefix_counter member counter)
    | indexed member' i =>
      obtain rfl := (prefix_dbKey_iff member member').mp has
      rw [compare_dbKey, Nat.isLE_compare] at above
      exact ⟨i, UInt64.le_iff_toNat_le.mpr above, rfl⟩
  · rintro ⟨i, above, rfl⟩
    rw [compare_dbKey, Nat.isLE_compare]
    exact ⟨UInt64.le_iff_toNat_le.mp above, List.prefix_append _ _⟩

/-- The batch that is filled for a database, by what it leaves of the database. -/
theorem deleteStartingAt_lookup (known : ∀ key ∈ db, KnownKey key) (member : p ∈ indexPrefixes) (s : UInt64) :
    ∃ batch, deleteStartingAt db .new p (uint64ToKey s) = .ok batch ∧
      (∀ i, s ≤ i → (batch.write db)[dbKey p i]? = none) ∧
      ∀ key, (∀ i, s ≤ i → key ≠ dbKey p i) → (batch.write db)[key]? = db[key]? := by
  refine ⟨_, deleteStartingAt_eq db .new p _, ?_⟩
  have lookup (key : Bytes) := getElem?_write_dels db
    (((db.range (p ++ uint64ToKey s)).filter fun entry => p.isPrefixOf entry.1).map Prod.fst) key
  rw [List.map_map] at lookup
  constructor
  · intro i above
    refine (lookup (dbKey p i)).trans ?_
    by_cases present : dbKey p i ∈ db
    · exact if_pos ((mem_deleted_iff known member).mpr ⟨present, i, above, rfl⟩)
    · rw [Std.ExtTreeMap.getElem?_eq_none present, ite_self]
  · intro key apart
    refine (lookup key).trans (if_neg ?_)
    rw [mem_deleted_iff known member]
    rintro ⟨_, i, above, same⟩
    exact apart i above same

/-- What a new batch takes when it is written: the records of the prefix from the index on are
gone, and every smaller index, other prefix and counter is what it was. -/
theorem prefix_deletion_exact (known : ∀ key ∈ db, KnownKey key) (member : p ∈ indexPrefixes) (s : UInt64) :
    ∃ batch, deleteStartingAt db .new p (uint64ToKey s) = .ok batch ∧
      (∀ key, key ∈ batch.write db ↔ key ∈ db ∧ ∀ i, s ≤ i → key ≠ dbKey p i) ∧
      (∀ key ∈ batch.write db, (batch.write db)[key]? = db[key]?) ∧
      (∀ i < s, (batch.write db)[dbKey p i]? = db[dbKey p i]?) ∧
      (∀ q ∈ indexPrefixes, q ≠ p → ∀ i, (batch.write db)[dbKey q i]? = db[dbKey q i]?) ∧
      ∀ key ∈ counterKeys, (batch.write db)[key]? = db[key]? := by
  obtain ⟨batch, filled, gone, kept⟩ := deleteStartingAt_lookup known member s
  have left (key : Bytes) (present : key ∈ batch.write db) : ∀ i, s ≤ i → key ≠ dbKey p i := by
    rintro i above rfl
    rw [← Std.ExtTreeMap.isSome_getElem?_iff_mem, gone i above] at present
    contradiction
  refine ⟨batch, filled, fun key => ⟨fun present => ?_, fun ⟨present, apart⟩ => ?_⟩,
    fun key present => kept key (left key present), ?_, ?_, ?_⟩
  · refine ⟨?_, left key present⟩
    exact (SledDb.mem_congr (kept key (left key present))).mp present
  · exact (SledDb.mem_congr (kept key apart)).mpr present
  · intro i below
    refine kept _ fun j above same => ?_
    rw [dbKey_inj.mp same] at below
    exact absurd above (UInt64.not_le.mpr below)
  · intro q other different i
    exact kept _ fun j _ => dbKey_apart other member different
  · intro key counter
    refine kept _ fun j _ same => not_prefix_counter member counter ?_
    rw [same]
    exact List.prefix_append _ _

section Samples

/-- Two messages and their count. -/
def twoMessages : SledDb :=
  ((SledDb.empty.insert messageCountKey [2]).insert (dbKey messagePrefix 0) [7]).insert (dbKey messagePrefix 1) [8]

theorem second_message_deleted : ∃ batch, deleteStartingAt twoMessages .new messagePrefix (uint64ToKey 1) = .ok batch ∧
    dbKey messagePrefix 1 ∉ batch.write twoMessages ∧
    (batch.write twoMessages)[dbKey messagePrefix 0]? = some [7] ∧
    (batch.write twoMessages)[messageCountKey]? = some [2] := by
  have known : ∀ key ∈ twoMessages, KnownKey key := by
    intro key present
    simp only [twoMessages, Std.ExtTreeMap.mem_insert, Std.LawfulEqOrd.compare_eq_iff_eq, SledDb.empty,
      Std.ExtTreeMap.not_mem_empty, or_false] at present
    rcases present with rfl | rfl | rfl
    · exact .indexed (by decide) 1
    · exact .indexed (by decide) 0
    · exact .counter (by decide)
  obtain ⟨batch, filled, remaining, _, below, _, counters⟩ := prefix_deletion_exact known
    (by decide : messagePrefix ∈ indexPrefixes) 1
  refine ⟨batch, filled, fun present => ((remaining _).mp present).2 1 (by decide) rfl, ?_, ?_⟩
  · rw [below 0 (by decide)]
    decide +kernel
  · rw [counters _ (by decide)]
    decide +kernel

end Samples
end NitroRs
