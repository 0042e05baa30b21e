import Mathlib.Tactic.Common

/-! A search: a machine takes steps until it finds what it looks for, or stays out of its
reach for ever. -/
namespace Search

variable {σ : Type} {step : σ → σ → Prop} {found near inv : σ → Prop} {s a b : σ}

/-- The states that the search goes through. It ends where something is found. -/
inductive Visits (step : σ → σ → Prop) (found : σ → Prop) (s : σ) : σ → Prop
  | start : Visits step found s s
  | next {a b : σ} (visits : Visits step found s a) (unfound : ¬ found a) (stepped : step a b) :
      Visits step found s b

namespace Visits

theorem kept (visits : Visits step found s a) (keeps : ∀ a b, inv a → ¬ found a → step a b → inv b)
    (start : inv s) : inv a := by
  induction visits with
  | start => exact start
  | next visits unfound stepped ih => exact keeps _ _ ih unfound stepped

theorem trans (visits : Visits step found s a) (later : Visits step found a b) : Visits step found s b := by
  induction later with
  | start => exact visits
  | next later unfound stepped ih => exact .next ih unfound stepped

/-- The first step of a search. -/
theorem head (visits : Visits step found s b) :
    s = b ∨ ∃ a, ¬ found s ∧ step s a ∧ Visits step found a b := by
  induction visits with
  | start => exact .inl rfl
  | next visits unfound stepped ih =>
    right
    rcases ih with rfl | ⟨first, open', stepped', later⟩
    · exact ⟨_, unfound, stepped, .start⟩
    · exact ⟨first, open', stepped', .next later unfound stepped⟩

/-- Of two visited states one comes first. -/
theorem total (deterministic : ∀ s a b, step s a → step s b → a = b) (visits : Visits step found s a)
    (visits' : Visits step found s b) : Visits step found a b ∨ Visits step found b a := by
  induction visits with
  | start => exact .inl visits'
  | next visits unfound stepped ih =>
    rcases ih with ahead | behind
    · rcases ahead.head with rfl | ⟨first, _, stepped', later⟩
      · exact .inr (.next .start unfound stepped)
      · rw [deterministic _ _ _ stepped stepped']
        exact .inl later
    · exact .inr (.next behind unfound stepped)

end Visits

/-- A search whose steps go down in rank finds something. -/
theorem finds (rank : σ → Nat) (onward : ∀ a, Visits step found s a → ¬ found a → ∃ b, step a b ∧ rank b < rank a) :
    ∃ a, Visits step found s a ∧ found a := by
  induction size : rank s using Nat.strongRecOn generalizing s with
  | ind size ih =>
    subst size
    by_cases here : found s
    · exact ⟨s, .start, here⟩
    · obtain ⟨b, stepped, less⟩ := onward s .start here
      have first : Visits step found s b := .next .start here stepped
      obtain ⟨a, visits, there⟩ := ih _ less (fun a visits => onward a (first.trans visits)) rfl
      exact ⟨a, first.trans visits, there⟩

/-- A search that gets on exactly where something is near, and never gets near again once it
is not, finds something exactly when something is near in all of its states. -/
theorem finds_iff (deterministic : ∀ s a b, step s a → step s b → a = b) (rank : σ → Nat)
    (keeps : ∀ a b, inv a → ¬ found a → step a b → inv b) (foundNear : ∀ a, inv a → found a → near a)
    (onward : ∀ a, inv a → ¬ found a → near a → ∃ b, step a b ∧ rank b < rank a)
    (lost : ∀ a b, inv a → ¬ near a → step a b → ¬ near b) (start : inv s) :
    (∃ a, Visits step found s a ∧ found a) ↔ ∀ a, Visits step found s a → near a := by
  constructor
  · rintro ⟨a, visits, here⟩ b visits'
    by_contra far
    rcases visits.total deterministic visits' with ahead | behind
    · rcases ahead.head with rfl | ⟨_, unfound, _⟩
      · exact far (foundNear _ (visits.kept keeps start) here)
      · exact unfound here
    · have keeps' (a b : σ) (both : inv a ∧ ¬ near a) (unfound : ¬ found a) (stepped : step a b) :
          inv b ∧ ¬ near b := ⟨keeps a b both.1 unfound stepped, lost a b both.1 both.2 stepped⟩
      obtain ⟨kept, far'⟩ := behind.kept keeps' ⟨visits'.kept keeps start, far⟩
      exact far' (foundNear a kept here)
  · intro always
    exact finds rank fun a visits unfound => onward a (visits.kept keeps start) unfound (always a visits)

end Search
