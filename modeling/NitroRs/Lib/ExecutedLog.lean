import Mathlib.Data.List.Basic

/-! A log whose entries are executed in order: the results belong to a prefix of the entries. -/

structure ExecutedLog (α β : Type) where
  entries : List α
  results : List β
  executed : results.length ≤ entries.length

namespace ExecutedLog
variable {α β : Type} {l : ExecutedLog α β} {r : β}

def empty : ExecutedLog α β := ⟨[], [], Nat.le_refl _⟩

/-- How many entries have no result. -/
def pending (l : ExecutedLog α β) : Nat := l.entries.length - l.results.length

/-- The first entry without a result. -/
def next (l : ExecutedLog α β) : Option α := l.entries[l.results.length]?

def append (l : ExecutedLog α β) (xs : List α) : ExecutedLog α β where
  entries := l.entries ++ xs
  results := l.results
  executed := by
    rw [List.length_append]
    exact Nat.le_trans l.executed (Nat.le_add_right _ _)

/-- Drop the entries and the results from an index on. -/
def truncate (l : ExecutedLog α β) (n : Nat) : ExecutedLog α β where
  entries := l.entries.take n
  results := l.results.take n
  executed := by
    have executed := l.executed
    rw [List.length_take, List.length_take]
    omega

/-- The result of the next entry; nothing happens when there is none. -/
def record (l : ExecutedLog α β) (r : β) : ExecutedLog α β :=
  if more : l.results.length < l.entries.length then
    ⟨l.entries, l.results ++ [r], by rwa [List.length_append, List.length_singleton]⟩
  else l

theorem lt_of_next {x : α} (found : l.next = some x) : l.results.length < l.entries.length :=
  (List.getElem?_eq_some_iff.mp found).1

@[simp] theorem entries_append (xs : List α) : (l.append xs).entries = l.entries ++ xs := rfl

@[simp] theorem results_append (xs : List α) : (l.append xs).results = l.results := rfl

@[simp] theorem entries_truncate (n : Nat) : (l.truncate n).entries = l.entries.take n := rfl

@[simp] theorem results_truncate (n : Nat) : (l.truncate n).results = l.results.take n := rfl

theorem truncate_of_length_le {n : Nat} (whole : l.entries.length ≤ n) : l.truncate n = l := by
  obtain ⟨entries, results, executed⟩ := l
  simp only [truncate, mk.injEq]
  exact ⟨List.take_of_length_le whole, List.take_of_length_le (Nat.le_trans executed whole)⟩

@[simp] theorem entries_record (r : β) : (l.record r).entries = l.entries := by
  unfold record
  split <;> rfl

theorem results_record (more : l.results.length < l.entries.length) (r : β) :
    (l.record r).results = l.results ++ [r] := by
  rw [record, dif_pos more]

end ExecutedLog
