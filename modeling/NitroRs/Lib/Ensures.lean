import NitroRs.Lib.Outcome

/-! Computations that keep a property of their state, also when they fail, with what is known of
their value and of their error; and computations that end as one without a state does. The rules
follow the combinators. -/
namespace Outcome

variable {ε σ τ α β : Type} {p : σ → Prop} {q : α → Prop} {r : ε → Prop} {q' : β → Prop}

/-- From a state with `p` the computation leaves one, and a value with `q` or an error with `r`. -/
structure Ensures (p : σ → Prop) (q : α → Prop) (r : ε → Prop) (x : EStateM ε σ α) : Prop where
  keeps : Keeps p x
  value : ∀ s a t, p s → x s = .ok a t → q a
  cause : ∀ s e t, p s → x s = .error e t → r e

theorem Keeps.ensures {x : EStateM ε σ α} (keeps : Keeps p x) : Ensures p (fun _ => True) (fun _ => True) x :=
  ⟨keeps, fun _ _ _ _ _ => trivial, fun _ _ _ _ _ => trivial⟩

namespace Ensures

theorem weaken {r' : ε → Prop} {x : EStateM ε σ α} (ensures : Ensures p q r x) (weaker : ∀ e, r e → r' e) :
    Ensures p q r' x :=
  ⟨ensures.keeps, ensures.value, fun s e t held ran => weaker e (ensures.cause s e t held ran)⟩

theorem pure {a : α} (holds : q a) : Ensures p q r (pure a : EStateM ε σ α) where
  keeps := .of_final fun _ => rfl
  value s b t _ ran := by
    cases ran
    exact holds
  cause _ _ _ _ ran := by cases ran

theorem throw {e : ε} (holds : r e) : Ensures p q r (throw e : EStateM ε σ α) where
  keeps := .of_final fun _ => rfl
  value _ _ _ _ ran := by cases ran
  cause s e' t _ ran := by
    cases ran
    exact holds

theorem read : Ensures p p r (read : EStateM ε σ σ) where
  keeps := .of_final fun _ => rfl
  value s a t held ran := by
    cases ran
    exact held
  cause _ _ _ _ ran := by cases ran

theorem update {f : σ → σ} (stable : ∀ s, p s → p (f s)) :
    Ensures p (fun _ => True) r (update f : EStateM ε σ Unit) where
  keeps := stable
  value _ _ _ _ _ := trivial
  cause _ _ _ _ ran := by cases ran

theorem lift {x : Except ε α} (values : ∀ a, x = .ok a → q a) (causes : ∀ e, x = .error e → r e) :
    Ensures p q r (lift x : EStateM ε σ α) where
  keeps := .of_final fun s => final_lift x s
  value _ a _ _ ran := values a (lift_eq_ok.mp ran).1
  cause _ e _ _ ran := causes e (lift_eq_error.mp ran).1

theorem bind {x : EStateM ε σ α} {f : α → EStateM ε σ β} (first : Ensures p q r x)
    (rest : ∀ a, q a → Ensures p q' r (f a)) : Ensures p q' r (x >>= f) where
  keeps s held := by
    have after := first.keeps s held
    cases ran : x s with
    | error e t =>
      rw [ran] at after
      rwa [bind_error ran]
    | ok a t =>
      rw [ran] at after
      rw [bind_ok ran]
      exact (rest a (first.value s a t held ran)).keeps t after
  value s b t held ran := by
    obtain ⟨a, u, one, two⟩ := bind_eq_ok.mp ran
    have between := first.keeps s held
    rw [one] at between
    exact (rest a (first.value s a u held one)).value u b t between two
  cause s e t held ran := by
    rcases bind_eq_error.mp ran with one | ⟨a, u, one, two⟩
    · exact first.cause s e t held one
    · have between := first.keeps s held
      rw [one] at between
      exact (rest a (first.value s a u held one)).cause u e t between two

theorem ite {c : Prop} [Decidable c] {x y : EStateM ε σ α} (first : c → Ensures p q r x) (second : Ensures p q r y) :
    Ensures p q r (if c then x else y) := by
  split
  · exact first ‹_›
  · exact second

/-- Nothing comes after a failure. -/
theorem throw_bind {e : ε} {f : α → EStateM ε σ β} (holds : r e) :
    Ensures p q' r ((MonadExcept.throw e : EStateM ε σ α) >>= f) where
  keeps _ held := held
  value _ _ _ _ ran := by cases ran
  cause s e' t _ ran := by
    cases ran
    exact holds

/-- An attempt does not fail. -/
theorem attempt {r' : ε → Prop} {x : EStateM ε σ α} (ensures : Ensures p q r x) :
    Ensures p (fun _ => True) r' (attempt x) where
  keeps := ensures.keeps.attempt
  value _ _ _ _ _ := trivial
  cause s e t _ ran := by
    cases done : x s with
    | ok a u =>
      rw [attempt_ok done] at ran
      cases ran
    | error e' u =>
      rw [attempt_error done] at ran
      cases ran

theorem mapError {r' : ε → Prop} {f : ε → ε} {x : EStateM ε σ α} (ensures : Ensures p q r x) (causes : ∀ e, r e → r' (f e)) :
    Ensures p q r' (mapError f x) where
  keeps s held := by
    have after := ensures.keeps s held
    cases ran : x s with
    | ok a t => rwa [mapError_ok ran, ← ran]
    | error e t =>
      rw [ran] at after
      rwa [mapError_error ran]
  value s a t held ran := by
    cases done : x s with
    | ok b u =>
      rw [mapError_ok done] at ran
      cases ran
      exact ensures.value s a t held done
    | error e u =>
      rw [mapError_error done] at ran
      cases ran
  cause s e t held ran := by
    cases done : x s with
    | ok b u =>
      rw [mapError_ok done] at ran
      cases ran
    | error e' u =>
      rw [mapError_error done] at ran
      cases ran
      exact causes e' (ensures.cause s e' t held done)

/-- A computation on a part of the state. -/
theorem zoom {p' : τ → Prop} {get : σ → τ} {set : σ → τ → σ} {x : EStateM ε τ α} (ensures : Ensures p' q r x)
    (part : ∀ s, p s → p' (get s)) (whole : ∀ s u, p s → p' u → p (set s u)) : Ensures p q r (zoom get set x) where
  keeps s held := by
    have after := ensures.keeps (get s) (part s held)
    cases ran : x (get s) with
    | ok a u =>
      rw [ran] at after
      rw [zoom_ok ran]
      exact whole s u held after
    | error e u =>
      rw [ran] at after
      rw [zoom_error ran]
      exact whole s u held after
  value s a t held ran := by
    cases done : x (get s) with
    | ok b u =>
      rw [zoom_ok done] at ran
      cases ran
      exact ensures.value (get s) a u (part s held) done
    | error e u =>
      rw [zoom_error done] at ran
      cases ran
  cause s e t held ran := by
    cases done : x (get s) with
    | ok b u =>
      rw [zoom_ok done] at ran
      cases ran
    | error e' u =>
      rw [zoom_error done] at ran
      cases ran
      exact ensures.cause (get s) e u (part s held) done

end Ensures

/-- Where the computation succeeds, it leaves a state with `p`. -/
def Leaves (p : σ → Prop) (x : EStateM ε σ α) : Prop := ∀ s a t, x s = .ok a t → p t

namespace Leaves

theorem throw (e : ε) : Leaves p (throw e : EStateM ε σ α) := by
  intro s a t ran
  cases ran

theorem throw_bind {e : ε} {f : α → EStateM ε σ β} : Leaves p ((MonadExcept.throw e : EStateM ε σ α) >>= f) := by
  intro s b t ran
  cases ran

theorem bind {x : EStateM ε σ α} {f : α → EStateM ε σ β} (rest : ∀ a, Leaves p (f a)) : Leaves p (x >>= f) := by
  intro s b t ran
  obtain ⟨a, u, _, two⟩ := bind_eq_ok.mp ran
  exact rest a u b t two

theorem ite {c : Prop} [Decidable c] {x y : EStateM ε σ α} (first : Leaves p x) (second : Leaves p y) :
    Leaves p (if c then x else y) := by
  split
  · exact first
  · exact second

end Leaves

/-- How a computation ends, without the state that it leaves. -/
def ending : EStateM.Result ε σ α → Except ε α
  | .ok a _ => .ok a
  | .error e _ => .error e

theorem eq_ok_of_ending {r : EStateM.Result ε σ α} {a : α} (ended : ending r = .ok a) : r = .ok a (final r) := by
  cases r with
  | ok b s =>
    cases ended
    rfl
  | error e s => cases ended

/-- From every state the computation ends as one without a state does. -/
def Computes (x : EStateM ε σ α) (y : Except ε α) : Prop := ∀ s, ending (x s) = y

namespace Computes

theorem lift (y : Except ε α) : Computes (lift y : EStateM ε σ α) y := by
  intro s
  cases y <;> rfl

theorem pure (a : α) : Computes (pure a : EStateM ε σ α) (.ok a) := fun _ => rfl

theorem throw (e : ε) : Computes (throw e : EStateM ε σ α) (.error e) := fun _ => rfl

theorem bind {x : EStateM ε σ α} {y : Except ε α} {f : α → EStateM ε σ β} {g : α → Except ε β} (first : Computes x y)
    (rest : ∀ a, Computes (f a) (g a)) : Computes (x >>= f) (y >>= g) := by
  intro s
  have one := first s
  cases ran : x s with
  | ok a t =>
    rw [ran] at one
    subst one
    rw [bind_ok ran]
    exact rest a t
  | error e t =>
    rw [ran] at one
    subst one
    rw [bind_error ran]
    rfl

/-- Nothing comes after a failure. -/
theorem throw_bind {e : ε} {f : α → EStateM ε σ β} {g : α → Except ε β} :
    Computes ((MonadExcept.throw e : EStateM ε σ α) >>= f) ((MonadExcept.throw e : Except ε α) >>= g) := fun _ => rfl

theorem ite {c : Prop} [Decidable c] {x x' : EStateM ε σ α} {y y' : Except ε α} (first : Computes x y)
    (second : Computes x' y') : Computes (if c then x else x') (if c then y else y') := by
  split
  · exact first
  · exact second

theorem update_bind {f : σ → σ} {g : Unit → EStateM ε σ β} {y : Except ε β} (rest : Computes (g ()) y) :
    Computes (update f >>= g) y :=
  fun s => rest (f s)

end Computes
end Outcome
