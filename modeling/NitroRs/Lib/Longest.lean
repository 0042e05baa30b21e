import Mathlib.Order.Bounds.Basic

/-! The longest run of a property of the numbers from zero on. -/

/-- `n` is the greatest number with the property at every smaller one. -/
def Longest (P : Nat → Prop) (n : Nat) : Prop := IsGreatest {n | ∀ k < n, P k} n

namespace Longest
variable {P Q : Nat → Prop} {m n : Nat}

/-- The longest run ends where the property first fails. -/
theorem iff_fails : Longest P n ↔ (∀ k < n, P k) ∧ ¬ P n := by
  refine and_congr_right fun holds => ?_
  constructor
  · intro greatest here
    have longer : ∀ k < n + 1, P k := fun k below =>
      (Nat.lt_succ_iff_lt_or_eq.mp below).elim (holds k) fun same => same ▸ here
    exact Nat.not_succ_le_self n (greatest longer)
  · intro fails m run
    exact Nat.le_of_not_lt fun below => fails (run n below)

theorem unique (left : Longest P m) (right : Longest P n) : m = n := IsGreatest.unique left right

theorem congr (same : ∀ k, P k ↔ Q k) : Longest P n ↔ Longest Q n := by
  rw [iff_fails, iff_fails, same]
  exact and_congr_left fun _ => forall₂_congr fun k _ => same k

theorem zero (fails : ¬ P 0) : Longest P 0 := iff_fails.mpr ⟨fun _ below => absurd below (Nat.not_lt_zero _), fails⟩

/-- One step, and the run behind it. -/
theorem succ (first : P 0) (rest : Longest (fun k => P (k + 1)) n) : Longest P (n + 1) := by
  obtain ⟨holds, fails⟩ := iff_fails.mp rest
  refine iff_fails.mpr ⟨fun k below => ?_, fails⟩
  cases k with
  | zero => exact first
  | succ k => exact holds k (Nat.lt_of_succ_lt_succ below)

end Longest
