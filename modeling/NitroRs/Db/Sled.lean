import NitroRs.Db.DbKeys
import Std.Data.ExtTreeMap

/-! The `sled` database, its write batches and its iterators, and the deletion of a range. -/
namespace NitroRs

/-- A tree of `sled`: the entries are in the order of their keys. -/
abbrev SledDb := Std.ExtTreeMap Bytes Bytes

namespace SledDb

def empty : SledDb := ∅

def get (db : SledDb) (key : Bytes) : Except Error Bytes :=
  match db[key]? with
  | some v => .ok v
  | none => .error .notFound

def has (db : SledDb) (key : Bytes) : Bool := db.contains key

/-- `tree.range(key..)`. -/
def range (db : SledDb) (key : Bytes) : List (Bytes × Bytes) :=
  db.toList.filter fun entry => (compare key entry.1).isLE

end SledDb

inductive SledOp where
  | put (key value : Bytes)
  | del (key : Bytes)

def SledOp.apply (db : SledDb) : SledOp → SledDb
  | .put key value => db.insert key value
  | .del key => db.erase key

@[simp] theorem SledOp.getElem?_apply_put (db : SledDb) (key value other : Bytes) :
    (SledOp.apply db (.put key value))[other]? = if key = other then some value else db[other]? := by
  simp only [apply, Std.ExtTreeMap.getElem?_insert, Std.LawfulEqOrd.compare_eq_iff_eq]

@[simp] theorem SledOp.getElem?_apply_del (db : SledDb) (key other : Bytes) :
    (SledOp.apply db (.del key))[other]? = if key = other then none else db[other]? := by
  simp only [apply, Std.ExtTreeMap.getElem?_erase, Std.LawfulEqOrd.compare_eq_iff_eq]

theorem SledOp.mem_apply_put {db : SledDb} {key value other : Bytes} :
    other ∈ SledOp.apply db (.put key value) ↔ key = other ∨ other ∈ db := by
  rw [apply, Std.ExtTreeMap.mem_insert, Std.LawfulEqOrd.compare_eq_iff_eq]

theorem SledOp.mem_apply_del {db : SledDb} {key other : Bytes} :
    other ∈ SledOp.apply db (.del key) ↔ key ≠ other ∧ other ∈ db := by
  rw [apply, Std.ExtTreeMap.mem_erase, Ne, Ne, Std.LawfulEqOrd.compare_eq_iff_eq]

/-- Equal lookups find a key in both or in neither. -/
theorem SledDb.mem_congr {db db' : SledDb} {key : Bytes} (same : db'[key]? = db[key]?) : key ∈ db' ↔ key ∈ db := by
  rw [← Std.ExtTreeMap.isSome_getElem?_iff_mem, same, Std.ExtTreeMap.isSome_getElem?_iff_mem]

structure SledBatch where
  ops : List SledOp

namespace SledBatch

def new : SledBatch := ⟨[]⟩

def put (batch : SledBatch) (key value : Bytes) : SledBatch := ⟨batch.ops ++ [.put key value]⟩

def delete (batch : SledBatch) (key : Bytes) : SledBatch := ⟨batch.ops ++ [.del key]⟩

def write (batch : SledBatch) (db : SledDb) : SledDb := batch.ops.foldl SledOp.apply db

end SledBatch

/-- An iterator, with the entries that the tree has yet to give or fails to. -/
structure SledIter where
  iter : List (Except String (Bytes × Bytes))
  current : Option (Bytes × Bytes)
  error : Option String
  keyPrefix : Bytes

namespace SledIter

def new (db : SledDb) (keyPrefix start : Bytes) : SledIter where
  iter := (db.range (keyPrefix ++ start)).map .ok
  current := none
  error := none
  keyPrefix := keyPrefix

def next (it : SledIter) : Bool × SledIter :=
  match it.iter with
  | .ok (k, v) :: later =>
    if !it.keyPrefix.isPrefixOf k then (false, { it with iter := later, current := none })
    else (true, { it with iter := later, current := some (k, v) })
  | .error e :: later => (false, { it with iter := later, error := some e, current := none })
  | [] => (false, { it with current := none })

def key (it : SledIter) : Bytes :=
  match it.current with
  | some (k, _) => k
  | none => []

def value (it : SledIter) : Bytes :=
  match it.current with
  | some (_, v) => v
  | none => []

theorem next_shorter {it : SledIter} (more : it.next.1 = true) : it.next.2.iter.length < it.iter.length := by
  unfold next at more ⊢
  split
  · rename_i k v later rest
    rw [rest]
    split
    · exact Nat.lt_succ_self _
    · exact Nat.lt_succ_self _
  · rename_i e later rest
    rw [rest] at more
    contradiction
  · rename_i rest
    rw [rest] at more
    contradiction

end SledIter

/-- A `while it.next()` loop, with what its body carries from one entry to the next. -/
def SledIter.forEach {ε β : Type} (body : Bytes → Bytes → β → Except ε β) (it : SledIter) (acc : β) :
    Except ε (SledIter × β) :=
  if it.next.1 then do
    let acc ← body it.next.2.key it.next.2.value acc
    forEach body it.next.2 acc
  else .ok (it.next.2, acc)
termination_by it.iter.length
decreasing_by
  rename_i more
  exact SledIter.next_shorter more

/-- The `while` loop of `delete_starting_at`. -/
def deleteEntries (it : SledIter) (batch : SledBatch) : SledIter × SledBatch :=
  if it.next.1 then deleteEntries it.next.2 (batch.delete it.next.2.key) else (it.next.2, batch)
termination_by it.iter.length
decreasing_by
  rename_i more
  exact SledIter.next_shorter more

def deleteStartingAt (db : SledDb) (batch : SledBatch) (keyPrefix start : Bytes) : Except String SledBatch :=
  let (it, batch) := deleteEntries (.new db keyPrefix start) batch
  match it.error with
  | some err => .error err
  | none => .ok batch

end NitroRs
