import Mathlib.Tactic.Common
import Mathlib.Data.List.Basic

/-! A cache of bounded size that evicts the least recently used entry. -/
namespace Lru

/-- Entries with the most recently used one first. -/
structure LruCache (κ υ : Type) where
  cap : Nat
  entries : List (κ × υ)

namespace LruCache
variable {κ υ : Type} [DecidableEq κ]

def new (cap : Nat) : LruCache κ υ := ⟨cap, []⟩

def peek (c : LruCache κ υ) (k : κ) : Option υ := (c.entries.find? (·.1 = k)).map Prod.snd

def pop (c : LruCache κ υ) (k : κ) : LruCache κ υ :=
  { c with entries := c.entries.filter (·.1 ≠ k) }

def put (c : LruCache κ υ) (k : κ) (v : υ) : LruCache κ υ :=
  { c with entries := ((k, v) :: (c.pop k).entries).take c.cap }

/-- A hit moves its entry to the front. -/
def get (c : LruCache κ υ) (k : κ) : Option υ × LruCache κ υ :=
  match c.peek k with
  | none => (none, c)
  | some v => (some v, { c with entries := (k, v) :: (c.pop k).entries })

@[simp] theorem peek_new (cap : Nat) (k : κ) : (new cap : LruCache κ υ).peek k = none := rfl

theorem find_filter_ne (entries : List (κ × υ)) (k j : κ) :
    (entries.filter (·.1 ≠ k)).find? (·.1 = j) =
      if j = k then none else entries.find? (·.1 = j) := by
  induction entries with
  | nil => simp
  | cons entry entries ih =>
    by_cases dropped : entry.1 = k
    · rw [List.filter_cons_of_neg (by simp [dropped]), ih]
      by_cases same : j = k
      · simp only [if_pos same]
      · rw [if_neg same, if_neg same, List.find?_cons_of_neg]
        simpa [dropped] using fun h : k = j => same h.symm
    · rw [List.filter_cons_of_pos (by simp [dropped]), List.find?_cons, List.find?_cons, ih]
      by_cases found : entry.1 = j
      · have other : j ≠ k := fun same => dropped (found.trans same)
        simp [found, other]
      · simp [found]

@[simp] theorem peek_pop (c : LruCache κ υ) (k j : κ) :
    (c.pop k).peek j = if j = k then none else c.peek j := by
  simp only [peek, pop, find_filter_ne]
  split <;> rfl

/-- After `put`, a key is looked up to the new value or, unless evicted, as before. -/
theorem peek_put (c : LruCache κ υ) {k j : κ} {v w : υ} (found : (c.put k v).peek j = some w) :
    (j = k ∧ w = v) ∨ (j ≠ k ∧ c.peek j = some w) := by
  have whole : ((⟨c.cap, (k, v) :: (c.pop k).entries⟩ : LruCache κ υ)).peek j = some w := by
    simp only [peek, put, Option.map_eq_some_iff] at found ⊢
    obtain ⟨entry, hit, rfl⟩ := found
    exact ⟨entry, (List.take_prefix _ _).find?_eq_some hit, rfl⟩
  by_cases same : k = j
  · subst same
    left
    simpa [peek, eq_comm] using whole
  · right
    have tail : (c.pop k).peek j = some w := by simpa [peek, same] using whole
    rw [peek_pop, if_neg (Ne.symm same)] at tail
    exact ⟨Ne.symm same, tail⟩

theorem get_fst (c : LruCache κ υ) (k : κ) : (c.get k).1 = c.peek k := by
  unfold get
  cases c.peek k <;> rfl

/-- Reading reorders entries without changing any lookup. -/
@[simp] theorem peek_get (c : LruCache κ υ) (k j : κ) : (c.get k).2.peek j = c.peek j := by
  unfold get
  cases hit : c.peek k with
  | none => rfl
  | some v =>
    by_cases same : k = j
    · subst same
      simpa [peek] using hit.symm
    · have tail := peek_pop c k j
      rw [if_neg (Ne.symm same)] at tail
      simpa [peek, same] using tail

theorem peek_foldl_pop {γ : Type} (key : γ → κ) (xs : List γ) (c : LruCache κ υ) (j : κ) :
    (xs.foldl (fun c x => c.pop (key x)) c).peek j = if j ∈ xs.map key then none else c.peek j := by
  induction xs generalizing c with
  | nil => simp
  | cons x xs ih =>
    rw [List.foldl_cons, ih, peek_pop]
    by_cases tail : j ∈ xs.map key
    · simp [tail]
    · by_cases head : j = key x <;> simp [tail, head]

/-- A lookup after a sequence of `put`s answers with one of them or as before. -/
theorem peek_foldl_put (xs : List (κ × υ)) (c : LruCache κ υ) {j : κ} {w : υ}
    (found : (xs.foldl (fun c x => c.put x.1 x.2) c).peek j = some w) :
    (j, w) ∈ xs ∨ (j ∉ xs.map Prod.fst ∧ c.peek j = some w) := by
  induction xs generalizing c with
  | nil => exact .inr ⟨by simp, found⟩
  | cons x xs ih =>
    rcases ih (c.put x.1 x.2) found with later | ⟨absent, found⟩
    · exact .inl (List.mem_cons_of_mem _ later)
    · rcases peek_put c found with ⟨rfl, rfl⟩ | ⟨other, found⟩
      · exact .inl List.mem_cons_self
      · exact .inr ⟨by simp [other, absent], found⟩

end LruCache
end Lru
