import Mathlib.Tactic.Common
import Mathlib.Tactic.Ring

/-! Operations that panic: each gives a value, or the panic that it ends in. A computation
may also return an error of its own. A build without overflow checks wraps instead. -/
namespace Checked

inductive Panic where
  | outOfRange
  | overflow
  | clampBounds
  deriving DecidableEq

variable {α : Type} {xs : List α} {a b i start stop : Nat}

/-- The sum of two 64-bit numbers. -/
def add64 (a b : Nat) : Except Panic Nat := if a + b < 2 ^ 64 then .ok (a + b) else .error .overflow

/-- The sum of two 64-bit numbers in a build without overflow checks. -/
def wrappingAdd64 (a b : Nat) : Nat := (a + b) % 2 ^ 64

/-- An element by its index. -/
def index (xs : List α) (i : Nat) : Except Panic α :=
  match xs[i]? with
  | some x => .ok x
  | none => .error .outOfRange

/-- The elements from `start` up to `stop`. -/
def slice (xs : List α) (start stop : Nat) : Except Panic (List α) :=
  if start ≤ stop ∧ stop ≤ xs.length then .ok ((xs.drop start).take (stop - start))
  else .error .outOfRange

/-- A value brought into an interval. -/
def clamp [LE α] [LT α] [DecidableLE α] [DecidableLT α] (x lo hi : α) : Except Panic α :=
  if lo ≤ hi then .ok (if x < lo then lo else if hi < x then hi else x) else .error .clampBounds

theorem add64_ok (small : a + b < 2 ^ 64) : add64 a b = .ok (a + b) := if_pos small

theorem add64_overflow (large : 2 ^ 64 ≤ a + b) : add64 a b = .error .overflow :=
  if_neg (Nat.not_lt.mpr large)

theorem wrappingAdd64_of_lt (small : a + b < 2 ^ 64) : wrappingAdd64 a b = a + b := Nat.mod_eq_of_lt small

theorem wrappingAdd64_le (a b : Nat) : wrappingAdd64 a b ≤ a + b := Nat.mod_le _ _

theorem index_ok {x : α} (here : xs[i]? = some x) : index xs i = .ok x := by
  rw [index, here]

theorem slice_ok (order : start ≤ stop) (inside : stop ≤ xs.length) :
    slice xs start stop = .ok ((xs.drop start).take (stop - start)) := if_pos ⟨order, inside⟩

/-- The slice from a position to the end. -/
theorem slice_length (order : start ≤ xs.length) : slice xs start xs.length = .ok (xs.drop start) := by
  rw [slice_ok order (Nat.le_refl _), List.take_of_length_le (Nat.le_of_eq List.length_drop)]

@[simp] theorem bind_ok {β : Type} (x : β) {γ : Type} (f : β → Except Panic γ) :
    (Except.ok x >>= f) = f x := rfl

@[simp] theorem bind_error {β : Type} (panic : Panic) {γ : Type} (f : β → Except Panic γ) :
    (Except.error panic >>= f) = .error panic := rfl

/-- A 64-bit number, from a wider one. -/
def narrow64 (n : Nat) : Except Panic Nat := if n < 2 ^ 64 then .ok n else .error .overflow

/-- The elements from `start` on, as many as the result has. -/
def fixedSlice (n : Nat) (xs : List α) (start : Nat) : Except Panic { ys : List α // ys.length = n } :=
  if fits : start + n ≤ xs.length then .ok ⟨(xs.drop start).take n, by simp; omega⟩ else .error .outOfRange

theorem index_eq_ok {x : α} : index xs i = .ok x ↔ xs[i]? = some x := by
  unfold index
  cases xs[i]? <;> simp

theorem index_ok_iff : (∃ x, index xs i = .ok x) ↔ i < xs.length := by
  simp only [index_eq_ok, List.getElem?_eq_some_iff]
  exact ⟨fun ⟨_, inside, _⟩ => inside, fun inside => ⟨_, inside, rfl⟩⟩

/-- A guarded value. -/
theorem guard_eq_ok {c : Prop} [Decidable c] {x y : α} {panic : Panic} :
    (if c then Except.ok x else Except.error panic) = .ok y ↔ c ∧ y = x := by
  split
  · rename_i holds
    rw [Except.ok.injEq, and_iff_right holds, eq_comm]
  · rename_i fails
    exact iff_of_false (fun same => nomatch same) fun both => fails both.1

theorem narrow64_eq_ok {n m : Nat} : narrow64 n = .ok m ↔ n < 2 ^ 64 ∧ m = n := guard_eq_ok

theorem add64_eq_ok {m : Nat} : add64 a b = .ok m ↔ a + b < 2 ^ 64 ∧ m = a + b := guard_eq_ok

theorem fixedSlice_eq_ok {n : Nat} {ys : { ys : List α // ys.length = n }} :
    fixedSlice n xs start = .ok ys ↔ start + n ≤ xs.length ∧ ys.val = (xs.drop start).take n := by
  unfold fixedSlice
  split
  · rw [Except.ok.injEq, Subtype.ext_iff]
    simp [*, eq_comm]
  · simp [*]

theorem fixedSlice_ok_iff {n : Nat} : (∃ ys, fixedSlice n xs start = .ok ys) ↔ start + n ≤ xs.length := by
  unfold fixedSlice
  split
  · exact iff_of_true ⟨_, rfl⟩ ‹_›
  · exact iff_of_false (fun ⟨_, same⟩ => nomatch same) ‹_›

theorem narrow64_ok_iff {n : Nat} : (∃ m, narrow64 n = .ok m) ↔ n < 2 ^ 64 := by
  simp only [narrow64_eq_ok, exists_and_left, exists_eq, and_true]

theorem bind_ok_iff {β : Type} {x : Except Panic α} {f : α → Except Panic β} :
    (∃ b, (x >>= f) = .ok b) ↔ ∃ a, x = .ok a ∧ ∃ b, f a = .ok b := by
  cases x with
  | ok a => exact ⟨fun done => ⟨a, rfl, done⟩, fun ⟨_, same, done⟩ => by cases same; exact done⟩
  | error panic => exact iff_of_false (fun ⟨_, same⟩ => nomatch same) fun ⟨_, same, _⟩ => nomatch same

/-- How a computation ends early. -/
inductive Stop (ε : Type) where
  | error (cause : ε)
  | panic (panic : Panic)
  deriving DecidableEq

variable {ε β : Type}

def ofPanic (x : Except Panic α) : Except (Stop ε) α := x.mapError .panic

def ofError (x : Except ε α) : Except (Stop ε) α := x.mapError .error

/-- A computation that does not end in a panic. -/
def Safe (x : Except (Stop ε) α) : Prop := ∀ panic, x ≠ .error (.panic panic)

@[simp] theorem safe_ok {x : α} : Safe (ε := ε) (.ok x) := fun _ same => nomatch same

@[simp] theorem safe_error {cause : ε} : Safe (α := α) (.error (.error cause)) := fun _ same => nomatch same

@[simp] theorem not_safe_panic {panic : Panic} : ¬ Safe (α := α) (ε := ε) (.error (.panic panic)) :=
  fun safe => safe panic rfl

section
variable {f : α → Except (Stop ε) β}

theorem safe_ofPanic_bind {x : Except Panic α} :
    Safe (ofPanic x >>= f) ↔ ∃ a, x = .ok a ∧ Safe (f a) := by
  cases x with
  | ok a => exact ⟨fun safe => ⟨a, rfl, safe⟩, fun ⟨_, rfl, safe⟩ => safe⟩
  | error panic => exact iff_of_false not_safe_panic fun ⟨_, same, _⟩ => nomatch same

theorem safe_bind {x : Except (Stop ε) α} :
    Safe (x >>= f) ↔ Safe x ∧ ∀ a, x = .ok a → Safe (f a) := by
  cases x with
  | ok a => exact ⟨fun safe => ⟨safe_ok, fun _ => by rintro ⟨⟩; exact safe⟩, fun ⟨_, safe⟩ => safe a rfl⟩
  | error stop =>
    refine ⟨fun safe => ⟨fun panic same => safe panic (by cases same; rfl), fun _ same => nomatch same⟩, fun safe => ?_⟩
    intro panic same
    cases same
    exact not_safe_panic safe.1

theorem safe_ofError (x : Except ε α) : Safe (ofError x) := by
  cases x with
  | ok a => exact safe_ok
  | error cause => exact safe_error

theorem ofError_eq_ok {x : Except ε α} {a : α} : ofError x = .ok a ↔ x = .ok a := by
  cases x <;> simp [ofError, Except.mapError]

theorem ofPanic_eq_ok {x : Except Panic α} {a : α} : (ofPanic x : Except (Stop ε) α) = .ok a ↔ x = .ok a := by
  cases x <;> simp [ofPanic, Except.mapError]

theorem bind_eq_ok {x : Except (Stop ε) α} {b : β} : (x >>= f) = .ok b ↔ ∃ a, x = .ok a ∧ f a = .ok b := by
  cases x with
  | ok a => exact ⟨fun ran => ⟨a, rfl, ran⟩, fun ⟨_, same, ran⟩ => by cases same; exact ran⟩
  | error stop => exact iff_of_false (fun same => nomatch same) fun ⟨_, same, _⟩ => nomatch same

theorem ofError_bind_eq_ok {x : Except ε α} {b : β} :
    (ofError x >>= f) = .ok b ↔ ∃ a, x = .ok a ∧ f a = .ok b := by
  rw [bind_eq_ok]
  simp only [ofError_eq_ok]

theorem ofPanic_bind_eq_ok {x : Except Panic α} {b : β} :
    (ofPanic x >>= f) = .ok b ↔ ∃ a, x = .ok a ∧ f a = .ok b := by
  rw [bind_eq_ok]
  simp only [ofPanic_eq_ok]

theorem safe_ofError_bind {x : Except ε α} : Safe (ofError x >>= f) ↔ ∀ a, x = .ok a → Safe (f a) := by
  rw [safe_bind, and_iff_right (safe_ofError x)]
  simp only [ofError_eq_ok]

end

section Loop
variable {f : α → Except (Stop ε) (Option β)} {ys : List β} {x : α}

/-- A loop over a list, with what it does not skip. -/
def collect (f : α → Except (Stop ε) (Option β)) : List α → Except (Stop ε) (List β)
  | [] => .ok []
  | x :: later => do
    let found ← f x
    let rest ← collect f later
    return found.toList ++ rest

/-- The elements that the loop comes to. -/
def reached (f : α → Except (Stop ε) (Option β)) : List α → List α
  | [] => []
  | x :: later => x :: if (f x).isOk then reached f later else []

/-- A loop does not panic when it does not at any element that it comes to. -/
theorem safe_collect (xs : List α) : Safe (collect f xs) ↔ ∀ x ∈ reached f xs, Safe (f x) := by
  induction xs with
  | nil => exact iff_of_true safe_ok fun _ member => nomatch member
  | cons x later ih =>
    rw [collect, reached, safe_bind, List.forall_mem_cons]
    refine and_congr_right fun _ => ?_
    cases ran : f x with
    | ok found =>
      simp only [Except.ok.injEq, forall_eq', Except.isOk, Except.toBool, if_true]
      rw [safe_bind, ih]
      exact and_iff_left fun _ _ => safe_ok
    | error stop => exact iff_of_true (fun _ same => nomatch same) fun _ member => nomatch member

/-- A loop that ends has one result for each element that it keeps. -/
theorem collect_forall₂ {keeps : α → Bool} {xs : List α} (kept : ∀ x r, f x = .ok r → r.isSome = keeps x)
    (ran : collect f xs = .ok ys) : List.Forall₂ (fun x y => f x = .ok (some y)) (xs.filter keeps) ys := by
  induction xs generalizing ys with
  | nil =>
    cases ran
    exact .nil
  | cons x later ih =>
    rw [collect] at ran
    cases first : f x with
    | error stop =>
      rw [first] at ran
      contradiction
    | ok found =>
      cases more : collect f later with
      | error stop =>
        rw [first, more] at ran
        contradiction
      | ok rest =>
        rw [first, more] at ran
        cases ran
        have keep := kept x found first
        cases found with
        | none =>
          rw [List.filter_cons_of_neg (by rw [← keep]; exact Bool.false_ne_true)]
          exact ih more
        | some y =>
          rw [List.filter_cons_of_pos keep.symm]
          exact .cons first (ih more)

end Loop

end Checked
