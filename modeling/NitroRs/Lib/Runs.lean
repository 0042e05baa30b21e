import Mathlib.Data.Nat.Init
import Mathlib.Logic.Function.Iterate
import Mathlib.Tactic.Common

/-! Runs of a deterministic machine: what holds in every state, from what one step says. -/
namespace Runs

variable {σ τ : Type} {f : σ → σ} {g : τ → τ} {s : σ}

/-- Under an invariant, a predicate that unfolds into a check of this state and
itself of the next one says that every state of the run passes the check,
provided that it holds wherever the run makes no progress. -/
theorem forall_iterate_iff {inv check clean : σ → Prop} (progress : σ → Nat)
    (kept : ∀ s, inv s → inv (f s)) (unfolds : ∀ s, inv s → (clean s ↔ check s ∧ clean (f s)))
    (stuck : ∀ s, inv s → progress (f s) < progress s ∨ clean s) (start : inv s) :
    (∀ n, check (f^[n] s)) ↔ clean s := by
  constructor
  · intro run
    induction steps : progress s using Nat.strongRecOn generalizing s with
    | ind steps ih =>
      subst steps
      rcases stuck s start with less | holds
      · exact (unfolds s start).mpr
          ⟨run 0, ih _ less (kept s start) (fun n => run (n + 1)) rfl⟩
      · exact holds
  · intro holds n
    induction n generalizing s with
    | zero => exact ((unfolds s start).mp holds).1
    | succ n ih => exact ih (kept s start) ((unfolds s start).mp holds).2

/-- A relation that a step of both machines keeps relates their runs. -/
theorem iterate_related {R : σ → τ → Prop} {t : τ} (step : ∀ {s t}, R s t → R (f s) (g t))
    (related : R s t) (n : Nat) : R (f^[n] s) (g^[n] t) := by
  induction n generalizing s t with
  | zero => exact related
  | succ n ih => exact ih (step related)

section Labelled
variable {α : Type} {step : σ → α → σ} {inv : σ → Prop} {ok : α → σ → Prop}

/-- Where a labelled step keeps an invariant exactly under a condition, a run keeps
it in every state exactly when all of its steps meet the condition. -/
theorem forall_foldl_iff (aux : σ → Prop) (allowed : α → σ → Prop)
    (kept : ∀ s a, aux s → allowed a s → aux (step s a))
    (keeps : ∀ s a, aux s → allowed a s → inv s → (inv (step s a) ↔ ok a s)) (labels : List α)
    (run : ∀ n a, labels[n]? = some a → allowed a ((labels.take n).foldl step s))
    (start : aux s) (holds : inv s) :
    (∀ n, inv ((labels.take n).foldl step s)) ↔
      ∀ n a, labels[n]? = some a → ok a ((labels.take n).foldl step s) := by
  induction labels generalizing s with
  | nil => simp [holds]
  | cons a rest ih =>
    have first : allowed a s := run 0 a rfl
    have later := @ih (step s a) (fun n b here => run (n + 1) b here) (kept s a start first)
    constructor
    · intro all n b here
      have next : inv (step s a) := all 1
      cases n with
      | zero =>
        cases here
        exact (keeps s a start first holds).mp next
      | succ n => exact (later next).mp (fun n => all (n + 1)) n b here
    · intro all n
      have next : inv (step s a) := (keeps s a start first holds).mpr (all 0 a rfl)
      cases n with
      | zero => exact holds
      | succ n => exact (later next).mpr (fun n b here => all (n + 1) b here) n

end Labelled

section Endless
variable {α : Type}

/-- The states of an endless run. -/
def states (step : α → σ → σ) (labels : Nat → α) (start : σ) : Nat → σ
  | 0 => start
  | n + 1 => step (labels n) (states step labels start n)

/-- A predicate that every later step keeps. -/
theorem states_keep {step : α → σ → σ} {labels : Nat → α} {p : σ → Prop} {i : Nat} (held : p (states step labels s i))
    (kept : ∀ j ≥ i, p (states step labels s j) → p (states step labels s (j + 1))) :
    ∀ j ≥ i, p (states step labels s j) := by
  intro j later
  induction j, later using Nat.le_induction with
  | base => exact held
  | succ j later ih => exact kept j later ih

theorem rank_le {state : Nat → σ} (rank : σ → Nat) {i : Nat}
    (never_raised : ∀ j ≥ i, rank (state (j + 1)) ≤ rank (state j)) : ∀ j ≥ i, rank (state j) ≤ rank (state i) := by
  intro j later
  induction j, later using Nat.le_induction with
  | base => exact Nat.le_refl _
  | succ j later ih => exact Nat.le_trans (never_raised j later) ih

/-- A rank that no step raises, and that is lowered again and again short of the goal, reaches it. -/
theorem eventually_of_rank (state : Nat → σ) (goal : σ → Prop) (rank : σ → Nat) {i : Nat}
    (never_raised : ∀ j ≥ i, rank (state (j + 1)) ≤ rank (state j))
    (lowered : ∀ j ≥ i, ∃ k ≥ j, goal (state k) ∨ rank (state (k + 1)) < rank (state k)) :
    ∃ j ≥ i, goal (state j) := by
  induction size : rank (state i) using Nat.strongRecOn generalizing i with
  | ind size ih =>
    subst size
    obtain ⟨k, later, reached | less⟩ := lowered i (Nat.le_refl i)
    · exact ⟨k, later, reached⟩
    · have next : i ≤ k + 1 := Nat.le_succ_of_le later
      have bound := rank_le rank never_raised k later
      obtain ⟨j, after, reached⟩ := ih _ (Nat.lt_of_lt_of_le less bound)
        (fun j after => never_raised j (Nat.le_trans next after)) (fun j after => lowered j (Nat.le_trans next after)) rfl
      exact ⟨j, Nat.le_trans next after, reached⟩

end Endless
end Runs
