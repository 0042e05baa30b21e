import Mathlib.Data.List.Basic

/-! Windows of numbers, one after the other, and what is recorded at the numbers of a window. -/
namespace Cover

/-- Windows with both ends included: the first one starts at a number, each other one starts
right after the one in front of it, and a number follows the last one. -/
inductive Covers : Nat → List (Nat × Nat) → Nat → Prop
  | nil {lo : Nat} : Covers lo [] lo
  | cons {lo hi next : Nat} {windows : List (Nat × Nat)} (inside : lo ≤ hi)
      (rest : Covers (hi + 1) windows next) : Covers lo ((lo, hi) :: windows) next

variable {α : Type} {lo mid hi next : Nat} {windows : List (Nat × Nat)}

namespace Covers

theorem le (covers : Covers lo windows next) : lo ≤ next := by
  induction covers with
  | nil => exact Nat.le_refl _
  | cons inside rest ih => omega

theorem exists_iff (covers : Covers lo windows next) (n : Nat) :
    (∃ window ∈ windows, window.1 ≤ n ∧ n ≤ window.2) ↔ lo ≤ n ∧ n < next := by
  induction covers with
  | nil => simp only [List.not_mem_nil, false_and, exists_false, false_iff]; omega
  | cons inside rest ih =>
    have order := rest.le
    rw [List.exists_mem_cons_iff, ih]
    omega

theorem bounds (covers : Covers lo windows next) {window : Nat × Nat} (member : window ∈ windows) :
    lo ≤ window.1 ∧ window.1 ≤ window.2 ∧ window.2 < next := by
  induction covers with
  | nil => cases member
  | cons inside rest ih =>
    have order := rest.le
    rcases List.mem_cons.mp member with rfl | later
    · exact ⟨Nat.le_refl _, inside, order⟩
    · have bounds := ih later
      omega

theorem disjoint (covers : Covers lo windows next) : windows.Pairwise fun v w => v.2 < w.1 := by
  induction covers with
  | nil => exact .nil
  | cons inside rest ih => exact .cons (fun w member => (rest.bounds member).1) ih

theorem next_eq (covers : Covers lo windows next) {window : Nat × Nat}
    (last : windows.getLast? = some window) : next = window.2 + 1 := by
  induction covers with
  | nil => cases last
  | @cons lo hi next windows inside rest ih =>
    cases windows with
    | nil =>
      cases last
      cases rest
      rfl
    | cons w windows => exact ih (List.getLast?_cons_cons ▸ last)

end Covers

/-- What is recorded at the numbers from `lo` to `hi`, in order. -/
def between (recorded : Nat → List α) (lo hi : Nat) : List α :=
  (List.range' lo (hi + 1 - lo)).flatMap recorded

theorem between_append (recorded : Nat → List α) (first : lo ≤ mid) (second : mid ≤ hi) :
    between recorded lo mid ++ between recorded (mid + 1) hi = between recorded lo hi := by
  have place : mid + 1 = lo + (mid + 1 - lo) := by omega
  have size : hi + 1 - lo = mid + 1 - lo + (hi + 1 - (mid + 1)) := by omega
  rw [between, between, between, ← List.flatMap_append, size, ← List.range'_append_1, ← place]

theorem between_empty (recorded : Nat → List α) (empty : hi < lo) : between recorded lo hi = [] := by
  have size : hi + 1 - lo = 0 := by omega
  rw [between, size]
  rfl

end Cover
