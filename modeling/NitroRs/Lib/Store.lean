import Std.Data.ExtTreeMap
import Mathlib.Logic.Function.Basic

/-! A typed key-value store: counters and tables of indexed records, each table
with its own record type. Updates are queued as write batches, which are lists
of single-key operations applied in order. -/
namespace KeyValue

/-- Ordered records of one table, keyed by index. -/
abbrev Records (α : Type) := Std.ExtTreeMap Nat α

structure Store (Counter : Type) {Table : Type} (Record : Table → Type) where
  count : Counter → Option Nat
  table : (t : Table) → Records (Record t)

inductive Op (Counter : Type) {Table : Type} (Record : Table → Type) where
  | setCount (c : Counter) (n : Nat)
  | put (t : Table) (i : Nat) (v : Record t)
  | del (t : Table) (i : Nat)

variable {Counter Table : Type} {Record : Table → Type}

/-- Where an operation writes. -/
inductive Place (Counter Table : Type) where
  | counter (c : Counter)
  | table (t : Table)
  deriving DecidableEq

def Op.place : Op Counter Record → Place Counter Table
  | .setCount c _ => .counter c
  | .put t _ _ | .del t _ => .table t

namespace Store

def empty : Store Counter Record := ⟨fun _ => none, fun _ => ∅⟩

def get (s : Store Counter Record) (t : Table) (i : Nat) : Option (Record t) := (s.table t)[i]?

def has (s : Store Counter Record) (t : Table) (i : Nat) : Bool := (s.get t i).isSome

@[simp] theorem get_empty (t : Table) (i : Nat) :
    (empty : Store Counter Record).get t i = none := Std.ExtTreeMap.getElem?_empty

/-- Equal counters and equal lookups make equal stores. -/
theorem ext {s s' : Store Counter Record} (counts : ∀ c, s.count c = s'.count c)
    (lookups : ∀ t i, s.get t i = s'.get t i) : s = s' := by
  obtain ⟨count, table⟩ := s
  obtain ⟨count', table'⟩ := s'
  have sameCount : count = count' := funext counts
  have sameTable : table = table' := funext fun t => Std.ExtTreeMap.ext_getElem? (lookups t)
  rw [sameCount, sameTable]

theorem table_eq_of_get_eq {s s' : Store Counter Record} (same : s'.get = s.get) :
    s'.table = s.table := by
  funext t
  exact Std.ExtTreeMap.ext_getElem? fun i => congrFun (congrFun same t) i

/-- The records of a table from an index on, in index order. -/
def range (s : Store Counter Record) (t : Table) (start : Nat) : List (Nat × Record t) :=
  (s.table t).toList.filter (start ≤ ·.1)

theorem mem_range {s : Store Counter Record} {t : Table} {start i : Nat} {v : Record t} :
    (i, v) ∈ s.range t start ↔ start ≤ i ∧ s.get t i = some v := by
  simp only [range, List.mem_filter, Std.ExtTreeMap.mem_toList_iff_getElem?_eq_some,
    decide_eq_true_eq, get, and_comm]

theorem mem_keys_range {s : Store Counter Record} {t : Table} {start i : Nat} :
    i ∈ (s.range t start).map Prod.fst ↔ start ≤ i ∧ s.has t i := by
  simp only [List.mem_map, Prod.exists, mem_range, exists_and_right, exists_eq_right, has,
    Option.isSome_iff_exists]
  constructor
  · rintro ⟨v, bound, found⟩
    exact ⟨bound, v, found⟩
  · rintro ⟨bound, v, found⟩
    exact ⟨v, bound, found⟩

theorem range_sorted (s : Store Counter Record) (t : Table) (start : Nat) :
    (s.range t start).Pairwise (fun a b => a.1 < b.1) := by
  apply List.Pairwise.filter
  simpa only [Nat.compare_eq_lt] using Std.ExtTreeMap.ordered_keys_toList (t := s.table t)

theorem range_eq_nil {s : Store Counter Record} {t : Table} {start : Nat} :
    s.range t start = [] ↔ ∀ i, start ≤ i → s.get t i = none := by
  constructor
  · intro none i bound
    cases found : s.get t i with
    | none => rfl
    | some v =>
      have member := mem_range.mpr ⟨bound, found⟩
      rw [none] at member
      contradiction
  · intro none
    apply List.eq_nil_iff_forall_not_mem.mpr
    rintro ⟨i, v⟩ member
    obtain ⟨bound, found⟩ := mem_range.mp member
    rw [none i bound] at found
    contradiction

/-- Queue the deletion of every record that a table holds from an index on. -/
def deleteFrom (s : Store Counter Record) (t : Table) (start : Nat) : List (Op Counter Record) :=
  (s.range t start).map fun entry => .del t entry.1

theorem deleteFrom_place (s : Store Counter Record) (t : Table) (start : Nat) :
    ∀ op ∈ s.deleteFrom t start, op.place = .table t := by
  intro op member
  obtain ⟨entry, _, rfl⟩ := List.mem_map.mp member
  rfl

section Batch
variable [DecidableEq Counter] [DecidableEq Table]

def apply (s : Store Counter Record) : Op Counter Record → Store Counter Record
  | .setCount c n => { s with count := Function.update s.count c (some n) }
  | .put t i v => { s with table := Function.update s.table t ((s.table t).insert i v) }
  | .del t i => { s with table := Function.update s.table t ((s.table t).erase i) }

/-- The writes of a batch, one key at a time. -/
def write (s : Store Counter Record) (ops : List (Op Counter Record)) : Store Counter Record :=
  ops.foldl apply s

@[simp] theorem write_nil (s : Store Counter Record) : s.write [] = s := rfl

@[simp] theorem write_cons (s : Store Counter Record) (op : Op Counter Record)
    (ops : List (Op Counter Record)) : s.write (op :: ops) = (s.apply op).write ops := rfl

@[simp] theorem write_append (s : Store Counter Record) (ops ops' : List (Op Counter Record)) :
    s.write (ops ++ ops') = (s.write ops).write ops' := List.foldl_append

@[simp] theorem count_apply_setCount (s : Store Counter Record) (c d : Counter) (n : Nat) :
    (s.apply (.setCount c n)).count d = if d = c then some n else s.count d := by
  simp only [apply, Function.update_apply]

@[simp] theorem count_apply_put (s : Store Counter Record) (t : Table) (i : Nat) (v : Record t) :
    (s.apply (.put t i v)).count = s.count := rfl

@[simp] theorem count_apply_del (s : Store Counter Record) (t : Table) (i : Nat) :
    (s.apply (.del t i)).count = s.count := rfl

@[simp] theorem get_apply_setCount (s : Store Counter Record) (c : Counter) (n : Nat) :
    (s.apply (.setCount c n)).get = s.get := rfl

@[simp] theorem get_apply_put (s : Store Counter Record) (t : Table) (i j : Nat) (v : Record t) :
    (s.apply (.put t i v)).get t j = if i = j then some v else s.get t j := by
  simp only [get, apply, Function.update_self, Std.ExtTreeMap.getElem?_insert, Nat.compare_eq_eq]

@[simp] theorem get_apply_put_of_ne (s : Store Counter Record) {t u : Table} (i : Nat) (v : Record t)
    (other : u ≠ t) : (s.apply (.put t i v)).get u = s.get u := by
  funext j
  simp only [get, apply, Function.update_of_ne other]

@[simp] theorem get_apply_del (s : Store Counter Record) (t : Table) (i j : Nat) :
    (s.apply (.del t i)).get t j = if i = j then none else s.get t j := by
  simp only [get, apply, Function.update_self, Std.ExtTreeMap.getElem?_erase, Nat.compare_eq_eq]

@[simp] theorem get_apply_del_of_ne (s : Store Counter Record) {t u : Table} (i : Nat)
    (other : u ≠ t) : (s.apply (.del t i)).get u = s.get u := by
  funext j
  simp only [get, apply, Function.update_of_ne other]

/-- A batch leaves alone every table that none of its operations names. -/
theorem get_write_of_untouched (s : Store Counter Record) {ops : List (Op Counter Record)} {u : Table}
    (untouched : ∀ op ∈ ops, op.place ≠ .table u) : (s.write ops).get u = s.get u := by
  induction ops generalizing s with
  | nil => rfl
  | cons op ops ih =>
    rw [write_cons, ih _ fun o member => untouched o (List.mem_cons_of_mem _ member)]
    have here := untouched op List.mem_cons_self
    cases op with
    | setCount c n => rfl
    | put t i v => exact get_apply_put_of_ne s i v fun same => here (congrArg Place.table same.symm)
    | del t i => exact get_apply_del_of_ne s i fun same => here (congrArg Place.table same.symm)

/-- What a batch leaves in the tables does not depend on the counters. -/
theorem get_write_congr {s s' : Store Counter Record} (ops : List (Op Counter Record))
    (same : s'.get = s.get) : (s'.write ops).get = (s.write ops).get := by
  induction ops generalizing s s' with
  | nil => exact same
  | cons op ops ih =>
    apply ih
    have tables := table_eq_of_get_eq same
    cases op with
    | setCount c n => exact same
    | put t i v | del t i =>
      funext u j
      simp only [get, apply, tables]

theorem count_write_of_untouched (s : Store Counter Record) {ops : List (Op Counter Record)} {c : Counter}
    (untouched : ∀ op ∈ ops, op.place ≠ .counter c) : (s.write ops).count c = s.count c := by
  induction ops generalizing s with
  | nil => rfl
  | cons op ops ih =>
    rw [write_cons, ih _ fun o member => untouched o (List.mem_cons_of_mem _ member)]
    have here := untouched op List.mem_cons_self
    cases op with
    | setCount d n =>
      have other : c ≠ d := fun same => here (congrArg Place.counter same.symm)
      simp only [count_apply_setCount, if_neg other]
    | put t i v => rfl
    | del t i => rfl

theorem get_write_dels (s : Store Counter Record) (t : Table) (keys : List Nat) (j : Nat) :
    (s.write (keys.map (.del t))).get t j = if j ∈ keys then none else s.get t j := by
  induction keys generalizing s with
  | nil => simp
  | cons i keys ih =>
    rw [List.map_cons, write_cons, ih, get_apply_del]
    by_cases tail : j ∈ keys
    · simp [tail]
    · by_cases head : i = j
      · simp [head]
      · simp [tail, head, Ne.symm head]

/-- The queued deletions were computed from `s`; the batch may be written to a
store `s'` that has changed since. -/
@[simp] theorem get_write_deleteFrom (s s' : Store Counter Record) (t : Table) (start j : Nat) :
    (s'.write (s.deleteFrom t start)).get t j =
      if start ≤ j ∧ s.has t j then none else s'.get t j := by
  have keys : s.deleteFrom t start = ((s.range t start).map Prod.fst).map (.del t) := by
    simp only [deleteFrom, List.map_map, Function.comp_def]
  simp only [keys, get_write_dels, mem_keys_range]

/-- Deletions computed from a table that still reads the same. -/
theorem get_write_deleteFrom_of_eq {s s' : Store Counter Record} {t : Table}
    (same : ∀ i, s'.get t i = s.get t i) (start j : Nat) :
    (s'.write (s.deleteFrom t start)).get t j = if start ≤ j then none else s.get t j := by
  rw [get_write_deleteFrom, same]
  by_cases past : start ≤ j
  · cases found : s.get t j <;> simp [past, has, found]
  · simp [past]

@[simp] theorem get_write_deleteFrom_of_ne (s s' : Store Counter Record) {t u : Table} (start : Nat)
    (other : u ≠ t) : (s'.write (s.deleteFrom t start)).get u = s'.get u := by
  apply get_write_of_untouched
  intro op member
  rw [deleteFrom_place s t start op member]
  exact fun same => other (Place.table.inj same).symm

@[simp] theorem count_write_deleteFrom (s s' : Store Counter Record) (t : Table) (start : Nat) :
    (s'.write (s.deleteFrom t start)).count = s'.count := by
  funext c
  apply count_write_of_untouched
  intro op member
  rw [deleteFrom_place s t start op member]
  simp

end Batch
end Store
end KeyValue
