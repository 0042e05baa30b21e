import Mathlib.Algebra.BigOperators.Group.List.Basic
import Mathlib.Tactic.Common
import Mathlib.Tactic.Ring

/-! Items taken off the front of a list while their sizes stay within a budget. -/
namespace Budget
variable {α : Type} (size : α → Nat)

/-- The items that are taken with some room left. -/
def within : Nat → List α → List α
  | _, [] => []
  | room, x :: xs => if room < size x then [] else x :: within (room - size x) xs

/-- The longest prefix within the budget. -/
structure Longest (budget : Nat) (taken xs : List α) : Prop where
  front : taken <+: xs
  fits : (taken.map size).sum ≤ budget
  longest : ∀ more, more <+: xs → (more.map size).sum ≤ budget → more <+: taken

variable {size} {room : Nat} {xs : List α}

theorem within_longest (room : Nat) (xs : List α) : Longest size room (within size room xs) xs := by
  induction xs generalizing room with
  | nil => exact ⟨List.nil_prefix, Nat.zero_le _, fun more front _ => front⟩
  | cons x xs ih =>
    unfold within
    split
    · rename_i full
      refine ⟨List.nil_prefix, Nat.zero_le _, fun more front fits => ?_⟩
      cases more with
      | nil => exact List.nil_prefix
      | cons y more =>
        obtain ⟨rfl, _⟩ := List.cons_prefix_cons.mp front
        rw [List.map_cons, List.sum_cons] at fits
        omega
    · rename_i space
      obtain ⟨front, fits, longest⟩ := ih (room - size x)
      refine ⟨List.cons_prefix_cons.mpr ⟨rfl, front⟩, ?_, fun more front' fits' => ?_⟩
      · rw [List.map_cons, List.sum_cons]
        omega
      · cases more with
        | nil => exact List.nil_prefix
        | cons y more =>
          obtain ⟨rfl, rest⟩ := List.cons_prefix_cons.mp front'
          rw [List.map_cons, List.sum_cons] at fits'
          exact List.cons_prefix_cons.mpr ⟨rfl, longest more rest (by omega)⟩

end Budget
