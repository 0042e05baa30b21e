import Mathlib.Tactic.Common

/-! Stateful computations that keep their state changes when they fail, with the
inversion rules that peel a sequence of them apart. -/
namespace Outcome

variable {ε σ α β : Type}

/-- The state that a computation leaves, whether it succeeds or fails. -/
def final : EStateM.Result ε σ α → σ
  | .ok _ s | .error _ s => s

@[simp] theorem final_ok (a : α) (s : σ) : final (.ok a s : EStateM.Result ε σ α) = s := rfl

@[simp] theorem final_error (e : ε) (s : σ) : final (.error e s : EStateM.Result ε σ α) = s := rfl

theorem final_of_ended {r : EStateM.Result ε σ α} {a : α} {s : σ} (ended : r = .ok a s ∨ ∃ e, r = .error e s) :
    final r = s := by
  rcases ended with rfl | ⟨e, rfl⟩
  · rfl
  · rfl

/-- The value of a computation that ends well. -/
def value? : EStateM.Result ε σ α → Option α
  | .ok a _ => some a
  | .error .. => none

def isOk : EStateM.Result ε σ α → Bool
  | .ok .. => true
  | .error .. => false

theorem eq_ok_of_isOk {r : EStateM.Result ε σ α} (done : isOk r = true) : ∃ a, r = .ok a (final r) := by
  cases r with
  | ok a s => exact ⟨a, rfl⟩
  | error e s => contradiction

theorem eq_error_of_not_isOk {r : EStateM.Result ε σ α} (failed : isOk r = false) :
    ∃ e, r = .error e (final r) := by
  cases r with
  | ok a s => contradiction
  | error e s => exact ⟨e, rfl⟩

/-- Read the state. -/
def read : EStateM ε σ σ := fun s => .ok s s

def update (f : σ → σ) : EStateM ε σ Unit := fun s => .ok () (f s)

/-- The `?` operator on a computation without effects. -/
def lift : Except ε α → EStateM ε σ α
  | .ok a => fun s => .ok a s
  | .error e => fun s => .error e s

/-- Run a computation and return its failure as a value. -/
def attempt (x : EStateM ε σ α) : EStateM ε σ (Except ε α) := fun s =>
  match x s with
  | .ok a s => .ok (.ok a) s
  | .error e s => .ok (.error e) s

/-- The `map_err` of the source. -/
def mapError (f : ε → ε) (x : EStateM ε σ α) : EStateM ε σ α := fun s =>
  match x s with
  | .ok a s => .ok a s
  | .error e s => .error (f e) s

/-- Run a computation on a part of the state. -/
def zoom {τ : Type} (get : σ → τ) (set : σ → τ → σ) (x : EStateM ε τ α) : EStateM ε σ α := fun s =>
  match x (get s) with
  | .ok a t => .ok a (set s t)
  | .error e t => .error e (set s t)

@[simp] theorem read_apply (s : σ) : (read : EStateM ε σ σ) s = .ok s s := rfl

@[simp] theorem update_apply (f : σ → σ) (s : σ) :
    (update f : EStateM ε σ Unit) s = .ok () (f s) := rfl

@[simp] theorem lift_ok (a : α) (s : σ) : (lift (.ok a) : EStateM ε σ α) s = .ok a s := rfl

@[simp] theorem lift_error (e : ε) (s : σ) : (lift (.error e) : EStateM ε σ α) s = .error e s := rfl

theorem ok_of_value {x : EStateM ε σ α} {s : σ} {a : α} (found : value? (x s) = some a) :
    x s = .ok a (final (x s)) := by
  cases ran : x s with
  | ok a' t =>
    rw [ran] at found
    cases found
    rfl
  | error e t =>
    rw [ran] at found
    contradiction

theorem value_of_ok {x : EStateM ε σ α} {s t : σ} {a : α} (ran : x s = .ok a t) : value? (x s) = some a := by
  rw [ran]
  rfl

theorem eq_final_of_ok {x : EStateM ε σ α} {s t : σ} {a : α} (ran : x s = .ok a t) : t = final (x s) := by
  rw [ran]
  rfl

theorem attempt_ok {x : EStateM ε σ α} {s t : σ} {a : α} (h : x s = .ok a t) :
    (attempt x : EStateM ε σ _) s = .ok (.ok a) t := by
  simp only [attempt, h]

theorem attempt_error {x : EStateM ε σ α} {s t : σ} {e : ε} (h : x s = .error e t) :
    (attempt x : EStateM ε σ _) s = .ok (.error e) t := by
  simp only [attempt, h]

theorem mapError_ok {f : ε → ε} {x : EStateM ε σ α} {s t : σ} {a : α} (h : x s = .ok a t) :
    mapError f x s = .ok a t := by
  simp only [mapError, h]

theorem mapError_error {f : ε → ε} {x : EStateM ε σ α} {s t : σ} {e : ε} (h : x s = .error e t) :
    mapError f x s = .error (f e) t := by
  simp only [mapError, h]

theorem zoom_ok {τ : Type} {get : σ → τ} {set : σ → τ → σ} {x : EStateM ε τ α} {s : σ} {t : τ} {a : α}
    (h : x (get s) = .ok a t) : zoom get set x s = .ok a (set s t) := by
  simp only [zoom, h]

theorem zoom_error {τ : Type} {get : σ → τ} {set : σ → τ → σ} {x : EStateM ε τ α} {s : σ} {t : τ}
    {e : ε} (h : x (get s) = .error e t) : zoom get set x s = .error e (set s t) := by
  simp only [zoom, h]

theorem zoom_eq_error {τ : Type} {get : σ → τ} {set : σ → τ → σ} {x : EStateM ε τ α} {s s' : σ} {e : ε} :
    zoom get set x s = .error e s' ↔ ∃ t, x (get s) = .error e t ∧ s' = set s t := by
  cases ran : x (get s) with
  | ok a t => simp [zoom, ran]
  | error cause t =>
    simp only [zoom, ran, EStateM.Result.error.injEq]
    constructor
    · rintro ⟨rfl, rfl⟩
      exact ⟨t, ⟨rfl, rfl⟩, rfl⟩
    · rintro ⟨_, ⟨rfl, rfl⟩, rfl⟩
      exact ⟨rfl, rfl⟩

theorem lift_eq_ok {r : Except ε α} {s t : σ} {a : α} :
    (lift r : EStateM ε σ α) s = .ok a t ↔ r = .ok a ∧ s = t := by
  cases r <;> simp

theorem lift_eq_error {r : Except ε α} {s t : σ} {e : ε} :
    (lift r : EStateM ε σ α) s = .error e t ↔ r = .error e ∧ s = t := by
  cases r <;> simp

@[simp] theorem final_lift (r : Except ε α) (s : σ) : final ((lift r : EStateM ε σ α) s) = s := by
  cases r <;> rfl

@[simp] theorem pure_apply (a : α) (s : σ) : (pure a : EStateM ε σ α) s = .ok a s := rfl

@[simp] theorem throw_apply (e : ε) (s : σ) : (throw e : EStateM ε σ α) s = .error e s := rfl

theorem bind_ok {x : EStateM ε σ α} {f : α → EStateM ε σ β} {s t : σ} {a : α} (h : x s = .ok a t) :
    (x >>= f) s = f a t := by
  simp only [bind, EStateM.bind, h]

theorem bind_error {x : EStateM ε σ α} {f : α → EStateM ε σ β} {s t : σ} {e : ε}
    (h : x s = .error e t) : (x >>= f) s = .error e t := by
  simp only [bind, EStateM.bind, h]

theorem bind_eq_ok {x : EStateM ε σ α} {f : α → EStateM ε σ β} {s t : σ} {b : β} :
    (x >>= f) s = .ok b t ↔ ∃ a u, x s = .ok a u ∧ f a u = .ok b t := by
  cases h : x s with
  | ok a u => simp [bind_ok h]
  | error e u => simp [bind_error h]

theorem bind_eq_error {x : EStateM ε σ α} {f : α → EStateM ε σ β} {s t : σ} {e : ε} :
    (x >>= f) s = .error e t ↔ x s = .error e t ∨ ∃ a u, x s = .ok a u ∧ f a u = .error e t := by
  cases h : x s with
  | ok a u => simp [bind_ok h]
  | error e' u => simp [bind_error h]

theorem except_bind_eq_ok {x : Except ε α} {f : α → Except ε β} {b : β} :
    (x >>= f) = .ok b ↔ ∃ a, x = .ok a ∧ f a = .ok b := by
  cases x with
  | ok a => exact ⟨fun done => ⟨a, rfl, done⟩, fun ⟨_, rfl, done⟩ => done⟩
  | error e => exact ⟨fun failed => (nomatch failed), fun ⟨_, failed, _⟩ => (nomatch failed)⟩

theorem except_bind_eq_error {x : Except ε α} {f : α → Except ε β} {e : ε} :
    (x >>= f) = .error e ↔ x = .error e ∨ ∃ a, x = .ok a ∧ f a = .error e := by
  cases x with
  | ok a => exact ⟨fun failed => .inr ⟨a, rfl, failed⟩, fun | .inr ⟨_, rfl, failed⟩ => failed⟩
  | error e' =>
    constructor
    · rintro ⟨⟩
      exact .inl rfl
    · rintro (failed | ⟨a, done, _⟩)
      · cases failed
        rfl
      · cases done

@[simp] theorem bind_read {f : σ → EStateM ε σ β} {s : σ} : (read >>= f) s = f s s := rfl

@[simp] theorem bind_update {g : σ → σ} {f : Unit → EStateM ε σ β} {s : σ} :
    (update g >>= f) s = f () (g s) := rfl

@[simp] theorem bind_lift_ok {f : α → EStateM ε σ β} {a : α} {s : σ} :
    (lift (.ok a) >>= f) s = f a s := rfl

@[simp] theorem bind_lift_error {f : α → EStateM ε σ β} {e : ε} {s : σ} :
    (lift (.error e) >>= f) s = .error e s := rfl

/-- A relation kept by both halves of a sequence is kept by the sequence. -/
theorem final_bind {R : σ → σ → Prop} (trans : ∀ {a b c}, R a b → R b c → R a c)
    {x : EStateM ε σ α} {f : α → EStateM ε σ β} {s : σ} (first : R s (final (x s)))
    (rest : ∀ a t, x s = .ok a t → R t (final (f a t))) : R s (final ((x >>= f) s)) := by
  cases h : x s with
  | ok a t =>
    rw [bind_ok h]
    exact trans (by simpa [h] using first) (rest a t h)
  | error e t =>
    rw [bind_error h]
    simpa [h] using first

theorem final_bind_pure (x : EStateM ε σ α) (f : α → β) (s : σ) :
    final ((x >>= fun a => pure (f a)) s) = final (x s) := by
  cases h : x s with
  | ok a t =>
    rw [bind_ok h]
    rfl
  | error e t => rw [bind_error h, final_error, final_error]

/-- A computation that keeps a property of the state, also when it fails. -/
def Keeps (p : σ → Prop) (x : EStateM ε σ α) : Prop := ∀ s, p s → p (final (x s))

theorem Keeps.of_final {p : σ → Prop} {x : EStateM ε σ α} (same : ∀ s, final (x s) = s) : Keeps p x := by
  intro s held
  rwa [same]

theorem Keeps.bind {p : σ → Prop} {x : EStateM ε σ α} {f : α → EStateM ε σ β} (first : Keeps p x)
    (rest : ∀ a, Keeps p (f a)) : Keeps p (x >>= f) := by
  intro s held
  refine final_bind (R := fun s t => p s → p t) (fun one two kept => two (one kept)) (first s)
    (fun a t _ => rest a t) held

theorem Keeps.attempt {p : σ → Prop} {x : EStateM ε σ α} (kept : Keeps p x) : Keeps p (attempt x) := by
  intro s held
  have after := kept s held
  cases ran : x s with
  | ok a t =>
    rw [ran] at after
    rwa [attempt_ok ran]
  | error e t =>
    rw [ran] at after
    rwa [attempt_error ran]

end Outcome
