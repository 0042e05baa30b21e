import Mathlib.Order.BoundedOrder.Basic
import Mathlib.Order.Lattice
import Mathlib.Data.List.TakeWhile

/-! Lists on which a key never decreases, and the positions where it grows. An
index from keys to the positions where they are first reached determines every
prefix that a bound on the keys cuts off. -/
namespace Ascending

variable {α β : Type} [LinearOrder β] (f : α → β)

def Sorted (xs : List α) : Prop := xs.Pairwise fun x y => f x ≤ f y

/-- The longest prefix with keys up to a bound. -/
def upTo (bound : β) (xs : List α) : List α := xs.takeWhile (f · ≤ bound)

section Prefix
variable {f} {xs : List α} {x y : α} {i j : Nat} {bound : β}

theorem Sorted.le (sorted : Sorted f xs) (here : xs[i]? = some x) (there : xs[j]? = some y)
    (order : i ≤ j) : f x ≤ f y := by
  obtain ⟨_, rfl⟩ := List.getElem?_eq_some_iff.mp here
  obtain ⟨_, rfl⟩ := List.getElem?_eq_some_iff.mp there
  rcases order.eq_or_lt with rfl | order
  · rfl
  · exact List.pairwise_iff_getElem.mp sorted i j _ _ order

/-- The prefix up to a bound holds exactly the elements with such keys. -/
theorem lt_length_upTo (sorted : Sorted f xs) :
    i < (upTo f bound xs).length ↔ ∃ x, xs[i]? = some x ∧ f x ≤ bound := by
  induction xs generalizing i with
  | nil => simp [upTo]
  | cons x xs ih =>
    obtain ⟨first, sorted⟩ := List.pairwise_cons.mp sorted
    by_cases low : f x ≤ bound
    · have cut : upTo f bound (x :: xs) = x :: upTo f bound xs := by simp [upTo, low]
      cases i with
      | zero => simp [cut, low]
      | succ i => simpa [cut] using ih sorted
    · have cut : upTo f bound (x :: xs) = [] := by simp [upTo, low]
      simp only [cut, List.length_nil, Nat.not_lt_zero, false_iff, not_exists, not_and]
      intro y there
      cases i with
      | zero => simpa [← Option.some.inj there] using low
      | succ i => exact fun small => low ((first y (List.mem_of_getElem? there)).trans small)

theorem upTo_eq_take : upTo f bound xs = xs.take (upTo f bound xs).length :=
  (List.prefix_iff_eq_take.mp (List.takeWhile_prefix _))

theorem getElem?_upTo (sorted : Sorted f xs) (here : xs[i]? = some x) :
    (upTo f bound xs)[i]? = if f x ≤ bound then some x else none := by
  rw [upTo_eq_take, List.getElem?_take, here]
  simp only [lt_length_upTo sorted, here, Option.some.injEq, exists_eq_left']

theorem length_upTo_take (sorted : Sorted f xs) (n : Nat) :
    (upTo f bound (xs.take n)).length = min n (upTo f bound xs).length := by
  refine eq_of_forall_lt_iff fun i => ?_
  rw [Nat.lt_min, lt_length_upTo sorted, lt_length_upTo (sorted.sublist (List.take_sublist _ _)),
    List.getElem?_take]
  split
  · rename_i inside
    exact ⟨fun found => ⟨inside, found⟩, And.right⟩
  · rename_i outside
    exact iff_of_false (by simp) fun both => outside both.1

/-- How far a bound reaches depends on the keys only. -/
theorem length_upTo_congr {γ : Type} {g : γ → β} {ys : List γ} (same : xs.map f = ys.map g) :
    (upTo f bound xs).length = (upTo g bound ys).length := by
  have keys {δ : Type} (key : δ → β) (zs : List δ) :
      (upTo key bound zs).length = ((zs.map key).takeWhile (· ≤ bound)).length := by
    rw [List.takeWhile_map, List.length_map]
    rfl
  rw [keys f, keys g, same]

end Prefix

/-- How many keys are below a bound. -/
def below (bound : β) (xs : List α) : Nat := xs.countP (f · < bound)

section Below
variable {f} {xs : List α} {x : α} {i : Nat} {bound lo hi : β}

theorem below_le_length : below f bound xs ≤ xs.length := List.countP_le_length

theorem below_mono (order : lo ≤ hi) : below f lo xs ≤ below f hi xs := by
  refine List.countP_mono_left fun x _ low => ?_
  rw [decide_eq_true_eq] at low ⊢
  exact low.trans_le order

theorem below_cons_of_lt (low : f x < bound) : below f bound (x :: xs) = below f bound xs + 1 :=
  List.countP_cons_of_pos (decide_eq_true low)

theorem below_eq_zero (high : ∀ x ∈ xs, bound ≤ f x) : below f bound xs = 0 := by
  refine List.countP_eq_zero.mpr fun x member => ?_
  rw [decide_eq_true_eq, not_lt]
  exact high x member

theorem Sorted.le_of_le_head (sorted : Sorted f (x :: xs)) (high : bound ≤ f x) :
    ∀ y ∈ x :: xs, bound ≤ f y := by
  rintro y (_ | ⟨_, later⟩)
  · exact high
  · exact high.trans ((List.pairwise_cons.mp sorted).1 y later)

/-- The keys below a bound are those of a prefix. -/
theorem lt_below (sorted : Sorted f xs) : i < below f bound xs ↔ ∃ x, xs[i]? = some x ∧ f x < bound := by
  induction xs generalizing i with
  | nil => simp [below]
  | cons x xs ih =>
    by_cases low : f x < bound
    · rw [below_cons_of_lt low]
      cases i with
      | zero => simp [low]
      | succ i => simpa using ih sorted.tail
    · have high := sorted.le_of_le_head (not_lt.mp low)
      simp only [below_eq_zero high, Nat.not_lt_zero, false_iff, not_exists, not_and, not_lt]
      exact fun y there => high y (List.mem_of_getElem? there)

/-- The keys of a range, from a position on. -/
theorem exists_between_iff (sorted : Sorted f xs) (n : Nat) (lo hi : β) :
    (∃ i x, n ≤ i ∧ xs[i]? = some x ∧ lo ≤ f x ∧ f x < hi) ↔ max n (below f lo xs) < below f hi xs := by
  constructor
  · rintro ⟨i, x, later, here, low, high⟩
    have inside : i < below f hi xs := (lt_below sorted).mpr ⟨x, here, high⟩
    have outside : below f lo xs ≤ i := by
      by_contra less
      obtain ⟨x', here', high'⟩ := (lt_below sorted).mp (not_le.mp less)
      cases here.symm.trans here'
      exact absurd high' (not_lt.mpr low)
    exact (max_le later outside).trans_lt inside
  · intro some
    obtain ⟨x, here, high⟩ := (lt_below sorted).mp some
    refine ⟨_, x, le_max_left _ _, here, ?_, high⟩
    by_contra low
    have less := (lt_below sorted).mpr ⟨x, here, not_le.mp low⟩
    exact absurd less (not_lt.mpr (le_max_right _ _))

/-- The elements between two bounds lie side by side. -/
theorem filter_between (sorted : Sorted f xs) :
    xs.filter (fun x => lo ≤ f x ∧ f x < hi) = (xs.take (below f hi xs)).drop (below f lo xs) := by
  induction xs with
  | nil => simp
  | cons x xs ih =>
    by_cases high : f x < hi
    · rw [below_cons_of_lt high, List.take_succ_cons]
      by_cases low : f x < lo
      · rw [below_cons_of_lt low, List.drop_succ_cons, List.filter_cons_of_neg, ih sorted.tail]
        rw [decide_eq_true_eq, not_and]
        exact fun above => absurd low (not_lt.mpr above)
      · have above := sorted.le_of_le_head (not_lt.mp low)
        have rest : below f lo xs = 0 := below_eq_zero fun y member => above y (List.mem_cons_of_mem _ member)
        rw [below_eq_zero above, List.drop_zero, List.filter_cons_of_pos, ih sorted.tail, rest, List.drop_zero]
        exact decide_eq_true ⟨not_lt.mp low, high⟩
    · have above := sorted.le_of_le_head (not_lt.mp high)
      rw [below_eq_zero above, List.take_zero, List.drop_nil, List.filter_eq_nil_iff]
      intro y member between
      rw [decide_eq_true_eq] at between
      exact absurd between.2 (not_lt.mpr (above y member))

end Below

variable [OrderBot β]

/-- The key in front of a position, `⊥` at the start. -/
def before (xs : List α) : Nat → β
  | 0 => ⊥
  | i + 1 => ((xs[i]?).map f).getD ⊥

/-- The key grows to `k` at position `i`. -/
def Rises (xs : List α) (k : β) (i : Nat) : Prop := ∃ x, xs[i]? = some x ∧ f x = k ∧ before f xs i < k

variable {f} {xs : List α} {x y : α} {i j s : Nat} {k bound : β}

theorem le_before (sorted : Sorted f xs) (here : xs[i]? = some x) (order : i < j)
    (inside : j ≤ xs.length) : f x ≤ before f xs j := by
  obtain ⟨j, rfl⟩ : ∃ n, j = n + 1 := ⟨j - 1, by omega⟩
  have last : xs[j]? = some xs[j] := List.getElem?_eq_getElem (by omega)
  simpa [before, last] using sorted.le here last (by omega)

/-- A key is reached at one position only. -/
theorem Rises.unique (sorted : Sorted f xs) (first : Rises f xs k i) (second : Rises f xs k j) :
    i = j := by
  obtain ⟨x, here, rfl, above⟩ := first
  obtain ⟨y, there, same, above'⟩ := second
  have bound {n : Nat} {z : α} (found : xs[n]? = some z) : n ≤ xs.length :=
    (List.getElem?_eq_some_iff.mp found).1.le
  rcases Nat.lt_trichotomy i j with order | order | order
  · exact absurd (le_before sorted here order (bound there)) (not_le.mpr above')
  · exact order
  · have low := le_before sorted there order (bound here)
    rw [same] at low
    exact absurd low (not_le.mpr above)

theorem before_mono (sorted : Sorted f xs) (order : i ≤ j) (inside : j ≤ xs.length) :
    before f xs i ≤ before f xs j := by
  cases i with
  | zero => exact bot_le
  | succ i =>
    have here : xs[i]? = some xs[i] := List.getElem?_eq_getElem (by omega)
    simpa [before, here] using le_before sorted here (show i < j by omega) inside

theorem before_take (inside : i ≤ s) : before f (xs.take s) i = before f xs i := by
  cases i with
  | zero => rfl
  | succ i => simp only [before, List.getElem?_take, if_pos (show i < s by omega)]

theorem rises_take : Rises f (xs.take s) k i ↔ i < s ∧ Rises f xs k i := by
  constructor
  · rintro ⟨x, here, reached, above⟩
    have inside : i < s := by
      by_contra outside
      simp [outside] at here
    rw [List.getElem?_take, if_pos inside] at here
    rw [before_take inside.le] at above
    exact ⟨inside, x, here, reached, above⟩
  · rintro ⟨inside, x, here, reached, above⟩
    refine ⟨x, ?_, reached, ?_⟩
    · rw [List.getElem?_take, if_pos inside, here]
    · rwa [before_take inside.le]

/-- A cut at a position is a cut at the key in front of it. -/
theorem rises_take_iff (sorted : Sorted f xs) (inside : s ≤ xs.length) :
    Rises f (xs.take s) k i ↔ k ≤ before f xs s ∧ Rises f xs k i := by
  rw [rises_take]
  constructor
  · rintro ⟨order, x, here, rfl, above⟩
    exact ⟨le_before sorted here order inside, x, here, rfl, above⟩
  · rintro ⟨low, x, here, rfl, above⟩
    refine ⟨?_, x, here, rfl, above⟩
    by_contra past
    have bound := (List.getElem?_eq_some_iff.mp here).1.le
    exact absurd (low.trans (before_mono sorted (not_lt.mp past) bound)) (not_le.mpr above)

theorem before_append (inside : i ≤ xs.length) (ys : List α) :
    before f (xs ++ ys) i = before f xs i := by
  cases i with
  | zero => rfl
  | succ i => simp only [before, List.getElem?_append_left (show i < xs.length by omega)]

/-- One more element adds at most its own key to the index. -/
theorem rises_append_singleton :
    Rises f (xs ++ [x]) k i ↔
      Rises f xs k i ∨ (i = xs.length ∧ f x = k ∧ before f xs xs.length < k) := by
  rcases Nat.lt_trichotomy i xs.length with inside | rfl | outside
  · simp only [Rises, List.getElem?_append_left inside, before_append inside.le, inside.ne,
      false_and, or_false]
  · simp [Rises, before_append]
  · have past : (xs ++ [x])[i]? = none := List.getElem?_eq_none (by simp; omega)
    have past' : xs[i]? = none := List.getElem?_eq_none outside.le
    simp [Rises, past, past', outside.ne']

theorem rises_upTo (sorted : Sorted f xs) :
    Rises f (upTo f bound xs) k i ↔ k ≤ bound ∧ Rises f xs k i := by
  rw [upTo_eq_take, rises_take, lt_length_upTo sorted]
  constructor
  · rintro ⟨⟨x, here, low⟩, y, there, rfl, above⟩
    obtain rfl := Option.some.inj (here.symm.trans there)
    exact ⟨low, x, here, rfl, above⟩
  · rintro ⟨low, y, there, rfl, above⟩
    exact ⟨⟨y, there, low⟩, y, there, rfl, above⟩

/-- Past the bound the key grows right at the end of the prefix. -/
theorem rises_end (sorted : Sorted f xs) (here : xs[(upTo f bound xs).length]? = some x) :
    bound < f x ∧ Rises f xs (f x) (upTo f bound xs).length := by
  have high : bound < f x := by
    by_contra low
    exact absurd ((lt_length_upTo sorted).mpr ⟨x, here, not_lt.mp low⟩) (lt_irrefl _)
  refine ⟨high, x, here, rfl, lt_of_le_of_lt ?_ high⟩
  cases length : (upTo f bound xs).length with
  | zero => exact bot_le
  | succ n =>
    have short : n < (upTo f bound xs).length := by omega
    obtain ⟨y, there, low⟩ := (lt_length_upTo sorted).mp short
    simpa [before, there] using low

/-- The least key above the bound is reached at the end of the prefix. -/
theorem first_rise (sorted : Sorted f xs) (above : bound < k) (rises : Rises f xs k i)
    (least : ∀ k' i', bound < k' → Rises f xs k' i' → k ≤ k') :
    i = (upTo f bound xs).length := by
  have inside : (upTo f bound xs).length ≤ i := by
    by_contra short
    obtain ⟨x, here, low⟩ := (lt_length_upTo sorted).mp (not_le.mp short)
    obtain ⟨y, there, rfl, _⟩ := rises
    obtain rfl := Option.some.inj (here.symm.trans there)
    exact absurd low (not_le.mpr above)
  obtain ⟨y, there, same, above'⟩ := rises
  have last : (upTo f bound xs).length < xs.length :=
    inside.trans_lt (List.getElem?_eq_some_iff.mp there).1
  have here := List.getElem?_eq_getElem last
  obtain ⟨high, rises'⟩ := rises_end sorted here
  have small := least _ _ high rises'
  have large := sorted.le here there inside
  have equal : f xs[(upTo f bound xs).length] = k := le_antisymm (same ▸ large) small
  rw [equal] at rises'
  exact Rises.unique sorted ⟨y, there, same, above'⟩ rises'

end Ascending
