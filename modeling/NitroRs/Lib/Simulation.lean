import NitroRs.Lib.Checked
import NitroRs.Lib.Outcome

/-! A computation that may panic, beside one that may not: from related states both end in the same
way, unless the first one panics. The rules follow the combinators of the two. -/
namespace Simulation
open Checked Outcome

variable {ε ζ σ τ α β γ δ : Type}

/-- Results of computations without a state. -/
inductive Agrees (A : α → β → Prop) (E : ε → ζ → Prop) : Except (Stop ε) α → Except ζ β → Prop
  | ok {a : α} {b : β} (value : A a b) : Agrees A E (.ok a) (.ok b)
  | error {e : ε} {f : ζ} (cause : E e f) : Agrees A E (.error (.error e)) (.error f)
  | panic {p : Panic} {r : Except ζ β} : Agrees A E (.error (.panic p)) r

/-- Results with the states that they leave, also when they fail. -/
inductive Matches (R : σ → τ → Prop) (A : α → β → Prop) (E : ε → ζ → Prop) :
    EStateM.Result (Stop ε) σ α → EStateM.Result ζ τ β → Prop
  | ok {a : α} {b : β} {s : σ} {t : τ} (state : R s t) (value : A a b) : Matches R A E (.ok a s) (.ok b t)
  | error {e : ε} {f : ζ} {s : σ} {t : τ} (state : R s t) (cause : E e f) :
      Matches R A E (.error (.error e) s) (.error f t)
  | panic {p : Panic} {s : σ} {r : EStateM.Result ζ τ β} : Matches R A E (.error (.panic p) s) r

variable {R : σ → τ → Prop} {A : α → β → Prop} {B : γ → δ → Prop} {E : ε → ζ → Prop}

namespace Agrees

theorem bind {x : Except (Stop ε) α} {y : Except ζ β} {f : α → Except (Stop ε) γ} {g : β → Except ζ δ}
    (first : Agrees A E x y) (rest : ∀ a b, A a b → Agrees B E (f a) (g b)) : Agrees B E (x >>= f) (y >>= g) := by
  cases first with
  | ok value => exact rest _ _ value
  | error cause => exact .error cause
  | panic => exact .panic

theorem mono {A' : α → β → Prop} {x : Except (Stop ε) α} {y : Except ζ β} (agrees : Agrees A E x y)
    (weaker : ∀ a b, A a b → A' a b) : Agrees A' E x y := by
  cases agrees with
  | ok value => exact .ok (weaker _ _ value)
  | error cause => exact .error cause
  | panic => exact .panic

/-- The second computation gives a value made of the one that agrees. -/
theorem mapValue {x : Except (Stop ε) α} {b : β} {g : β → δ} {A' : α → δ → Prop} (agrees : Agrees A E x (.ok b))
    (stronger : ∀ a b, A a b → A' a (g b)) : Agrees A' E x (.ok (g b)) := by
  cases agrees with
  | ok value => exact .ok (stronger _ _ value)
  | panic => exact .panic

/-- A step of the first computation alone, with the value that it agrees on. -/
theorem value_bind {x : Except (Stop ε) α} {b : β} {f : α → Except (Stop ε) γ} {y : Except ζ δ}
    (agrees : Agrees A E x (.ok b)) (rest : ∀ a, A a b → Agrees B E (f a) y) : Agrees B E (x >>= f) y := by
  cases agrees with
  | ok value => exact rest _ value
  | panic => exact .panic

/-- The second computation goes on alone. -/
theorem second_bind {x : Except (Stop ε) α} {y : Except ζ β} {g : β → Except ζ δ} {A' : α → δ → Prop}
    (agrees : Agrees A E x y) (rest : ∀ a b, A a b → Agrees A' E (.ok a) (g b)) : Agrees A' E x (y >>= g) := by
  cases agrees with
  | ok value => exact rest _ _ value
  | error cause => exact .error cause
  | panic => exact .panic

/-- A checked step of the first computation alone. -/
theorem ofPanic_bind {x : Except Panic α} {f : α → Except (Stop ε) γ} {y : Except ζ δ}
    (rest : ∀ a, x = .ok a → Agrees B E (f a) y) : Agrees B E (ofPanic x >>= f) y := by
  cases ran : x with
  | ok a => exact rest a ran
  | error p => exact .panic

/-- An error of the first computation, as the second one names it. -/
theorem ofError {x : Except ε α} {y : Except ζ β} (agrees : (∃ a b, x = .ok a ∧ y = .ok b ∧ A a b) ∨
    ∃ e f, x = .error e ∧ y = .error f ∧ E e f) : Agrees A E (ofError x) y := by
  rcases agrees with ⟨a, b, rfl, rfl, value⟩ | ⟨e, f, rfl, rfl, cause⟩
  · exact .ok value
  · exact .error cause

end Agrees

/-- Run a computation and return its error as a value; a panic goes on. -/
def attempt (x : EStateM (Stop ε) σ α) : EStateM (Stop ε) σ (Except ε α) := fun s =>
  match x s with
  | .ok a s => .ok (.ok a) s
  | .error (.error e) s => .ok (.error e) s
  | .error (.panic p) s => .error (.panic p) s

/-- The `map_err` of the source. -/
def mapCause (f : ε → ε) (x : EStateM (Stop ε) σ α) : EStateM (Stop ε) σ α := fun s =>
  match x s with
  | .ok a s => .ok a s
  | .error (.error e) s => .error (.error (f e)) s
  | .error (.panic p) s => .error (.panic p) s

/-- How the outcomes of two attempts are related. -/
inductive Attempted (A : α → β → Prop) (E : ε → ζ → Prop) : Except ε α → Except ζ β → Prop
  | ok {a : α} {b : β} (value : A a b) : Attempted A E (.ok a) (.ok b)
  | error {e : ε} {f : ζ} (cause : E e f) : Attempted A E (.error e) (.error f)

namespace Matches

theorem lift {x : Except (Stop ε) α} {y : Except ζ β} {s : σ} {t : τ} (agrees : Agrees A E x y) (related : R s t) :
    Matches R A E (Outcome.lift x s) (Outcome.lift y t) := by
  cases agrees with
  | ok value => exact .ok related value
  | error cause => exact .error related cause
  | panic => exact .panic

theorem bind {x : EStateM (Stop ε) σ α} {y : EStateM ζ τ β} {f : α → EStateM (Stop ε) σ γ} {g : β → EStateM ζ τ δ}
    {s : σ} {t : τ} (first : Matches R A E (x s) (y t))
    (rest : ∀ a b s' t', R s' t' → A a b → Matches R B E (f a s') (g b t')) :
    Matches R B E ((x >>= f) s) ((y >>= g) t) := by
  change Matches R B E (EStateM.bind x f s) (EStateM.bind y g t)
  unfold EStateM.bind
  generalize x s = left at first ⊢
  generalize y t = right at first ⊢
  cases first with
  | ok state value => exact rest _ _ _ _ state value
  | error state cause => exact .error state cause
  | panic => exact .panic

/-- A checked step of the first computation alone. -/
theorem ofPanic_bind {x : Except Panic α} {f : α → EStateM (Stop ε) σ γ} {s : σ} {r : EStateM.Result ζ τ δ}
    (rest : ∀ a, x = .ok a → Matches R B E (f a s) r) : Matches R B E ((Outcome.lift (ofPanic x) >>= f) s) r := by
  cases ran : x with
  | ok a => exact rest a ran
  | error p => exact .panic

theorem mono {A' : α → β → Prop} {x : EStateM.Result (Stop ε) σ α} {y : EStateM.Result ζ τ β}
    (matched : Matches R A E x y) (weaker : ∀ a b, A a b → A' a b) : Matches R A' E x y := by
  cases matched with
  | ok state value => exact .ok state (weaker _ _ value)
  | error state cause => exact .error state cause
  | panic => exact .panic

theorem attempt {x : EStateM (Stop ε) σ α} {y : EStateM ζ τ β} {s : σ} {t : τ} (matched : Matches R A E (x s) (y t)) :
    Matches R (Attempted A E) E (Simulation.attempt x s) (Outcome.attempt y t) := by
  unfold Simulation.attempt Outcome.attempt
  generalize x s = left at matched ⊢
  generalize y t = right at matched ⊢
  cases matched with
  | ok state value => exact .ok state (.ok value)
  | error state cause => exact .ok state (.error cause)
  | panic => exact .panic

theorem mapCause {h : ε → ε} {k : ζ → ζ} {x : EStateM (Stop ε) σ α} {y : EStateM ζ τ β} {s : σ} {t : τ}
    (matched : Matches R A E (x s) (y t)) (causes : ∀ e f, E e f → E (h e) (k f)) :
    Matches R A E (Simulation.mapCause h x s) (Outcome.mapError k y t) := by
  unfold Simulation.mapCause Outcome.mapError
  generalize x s = left at matched ⊢
  generalize y t = right at matched ⊢
  cases matched with
  | ok state value => exact .ok state value
  | error state cause => exact .error state (causes _ _ cause)
  | panic => exact .panic

/-- Computations on parts of both states. -/
theorem zoom {σ' τ' : Type} {R' : σ' → τ' → Prop} {get : σ' → σ} {set : σ' → σ → σ'} {get' : τ' → τ}
    {set' : τ' → τ → τ'} {x : EStateM (Stop ε) σ α} {y : EStateM ζ τ β} {s : σ'} {t : τ'}
    (matched : Matches R A E (x (get s)) (y (get' t))) (whole : ∀ u v, R u v → R' (set s u) (set' t v)) :
    Matches R' A E (Outcome.zoom get set x s) (Outcome.zoom get' set' y t) := by
  unfold Outcome.zoom
  generalize x (get s) = left at matched ⊢
  generalize y (get' t) = right at matched ⊢
  cases matched with
  | ok state value => exact .ok (whole _ _ state) value
  | error state cause => exact .error (whole _ _ state) cause
  | panic => exact .panic

end Matches

/-- What a call answers, with the state behind it; a panic ends the run. -/
def answer (x : EStateM (Stop ε) σ α) (s : σ) : Except Panic (Except ε α × σ) :=
  match x s with
  | .ok a s => .ok (.ok a, s)
  | .error (.error e) s => .ok (.error e, s)
  | .error (.panic p) _ => .error p

/-- The answers to a list of calls, one after the other. -/
def run {κ : Type} (step : κ → σ → Except Panic (α × σ)) : List κ → σ → Except Panic (List α × σ)
  | [], s => .ok ([], s)
  | call :: later, s => do
    let (a, s) ← step call s
    let (as, s) ← run step later s
    return (a :: as, s)

/-- The answers to a list of calls that do not panic. -/
def runs {κ : Type} (step : κ → τ → β × τ) : List κ → τ → List β × τ
  | [], t => ([], t)
  | call :: later, t =>
    let (b, t) := step call t
    let (bs, t) := runs step later t
    (b :: bs, t)

/-- Calls that keep two states related and agree on their answers do so over a run without a panic. -/
theorem run_related {κ : Type} {step : κ → σ → Except Panic (α × σ)} {step' : κ → τ → β × τ} {allowed : κ → Prop}
    (each : ∀ call s t, allowed call → R s t → ∀ a s', step call s = .ok (a, s') →
      R s' (step' call t).2 ∧ A a (step' call t).1)
    (calls : List κ) (typed : ∀ call ∈ calls, allowed call) {s s' : σ} {t : τ} (related : R s t) {answers : List α}
    (ran : run step calls s = .ok (answers, s')) :
    R s' (runs step' calls t).2 ∧ List.Forall₂ A answers (runs step' calls t).1 := by
  induction calls generalizing s t answers with
  | nil =>
    cases ran
    exact ⟨related, .nil⟩
  | cons call later ih =>
    obtain ⟨first, rest⟩ := List.forall_mem_cons.mp typed
    obtain ⟨⟨a, u⟩, one, ran⟩ := except_bind_eq_ok.mp ran
    obtain ⟨⟨as, v⟩, more, ran⟩ := except_bind_eq_ok.mp ran
    cases ran
    obtain ⟨related', value⟩ := each call s t first related a u one
    obtain ⟨final, values⟩ := ih rest related' more
    exact ⟨final, .cons value values⟩

theorem forall_left {A : α → β → Prop} {p : α → Prop} {as : List α} {bs : List β} (values : List.Forall₂ A as bs)
    (each : ∀ a b, A a b → p a) : ∀ a ∈ as, p a := by
  induction values with
  | nil => exact List.forall_mem_nil _
  | cons value _ ih => exact List.forall_mem_cons.mpr ⟨each _ _ value, ih⟩

theorem forall₂_replicate {A : α → β → Prop} {a : α} {bs : List β} (each : ∀ b ∈ bs, A a b) :
    List.Forall₂ A (List.replicate bs.length a) bs := by
  induction bs with
  | nil => exact .nil
  | cons b bs ih =>
    obtain ⟨first, rest⟩ := List.forall_mem_cons.mp each
    exact .cons first (ih rest)

/-- Every call of a run is allowed where it is made. -/
def AllAllowed {κ : Type} (allowed : κ → σ → Prop) (step : κ → σ → β × σ) : List κ → σ → Prop
  | [], _ => True
  | call :: later, s => allowed call s ∧ AllAllowed allowed step later (step call s).2

/-- What every allowed call keeps, a run of allowed calls keeps. -/
theorem runs_invariant {κ : Type} {step : κ → σ → β × σ} {allowed : κ → σ → Prop} {p : σ → Prop}
    (each : ∀ call s, allowed call s → p s → p (step call s).2) (calls : List κ) {s : σ}
    (all : AllAllowed allowed step calls s) (held : p s) : p (runs step calls s).2 := by
  induction calls generalizing s with
  | nil => exact held
  | cons call later ih => exact ih all.2 (each call s all.1 held)

/-- Calls that answer alike in related states, where they are allowed, do so over a run. -/
theorem runs_refine {κ : Type} {step : κ → σ → β × σ} {step' : κ → τ → β × τ} {allowed : κ → σ → Prop}
    (each : ∀ call s t, allowed call s → R s t → R (step call s).2 (step' call t).2 ∧ (step call s).1 = (step' call t).1)
    (calls : List κ) {s : σ} {t : τ} (all : AllAllowed allowed step calls s) (related : R s t) :
    R (runs step calls s).2 (runs step' calls t).2 ∧ (runs step calls s).1 = (runs step' calls t).1 := by
  induction calls generalizing s t with
  | nil => exact ⟨related, rfl⟩
  | cons call later ih =>
    obtain ⟨first, rest⟩ := all
    obtain ⟨related', same⟩ := each call s t first related
    obtain ⟨final, answers⟩ := ih rest related'
    exact ⟨final, congrArg₂ List.cons same answers⟩

end Simulation
