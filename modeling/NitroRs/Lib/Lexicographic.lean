import NitroRs.Lib.BigEndian
import Mathlib.Data.List.TakeWhile

/-! Lists in lexicographic order: those behind a common front stand together, and big-endian
digits are in the order of their numbers. -/
namespace Lexicographic
open Std

section
variable {α : Type} [Ord α]

theorem compare_cons (x y : α) (xs ys : List α) :
    compare (x :: xs) (y :: ys) = (compare x y).then (compare xs ys) := List.compareLex_cons_cons

theorem compare_cons_nil (x : α) (xs : List α) : compare (x :: xs) [] = .gt := List.compareLex_cons_nil

theorem compare_append_left [ReflOrd α] (front xs ys : List α) :
    compare (front ++ xs) (front ++ ys) = compare xs ys := by
  induction front with
  | nil => rfl
  | cons x front ih => rw [List.cons_append, List.cons_append, compare_cons, compare_self, ih, Ordering.eq_then]

theorem compare_append {xs ys : List α} (same : xs.length = ys.length) (xs' ys' : List α) :
    compare (xs ++ xs') (ys ++ ys') = (compare xs ys).then (compare xs' ys') := by
  induction xs generalizing ys with
  | nil =>
    cases List.length_eq_zero_iff.mp same.symm
    rfl
  | cons x xs ih =>
    cases ys with
    | nil => contradiction
    | cons y ys =>
      rw [List.cons_append, List.cons_append, compare_cons, compare_cons, ih (Nat.succ.inj same), Ordering.then_assoc]

/-- A list past a front without having it is past every list that has it. -/
theorem lt_of_prefix_fails [LawfulEqOrd α] {front xs ys : List α} (has : front <+: xs) (lacks : ¬ front <+: ys)
    (past : (compare front ys).isLE) : compare xs ys = .lt := by
  induction front generalizing xs ys with
  | nil => exact absurd List.nil_prefix lacks
  | cons x front ih =>
    obtain ⟨xs, rfl⟩ := has
    cases ys with
    | nil =>
      rw [compare_cons_nil] at past
      contradiction
    | cons y ys =>
      rw [List.cons_append, compare_cons]
      rw [compare_cons] at past
      cases order : compare x y with
      | lt => rfl
      | gt =>
        rw [order] at past
        contradiction
      | eq =>
        cases LawfulEqOrd.eq_of_compare order
        rw [order] at past
        exact ih (List.prefix_append _ _) (fun inside => lacks (List.cons_prefix_cons.mpr ⟨rfl, inside⟩)) past

/-- Sorted lists with the same elements. -/
theorem eq_of_sorted [OrientedOrd α] {xs ys : List α} (left : xs.Pairwise fun x y => compare x y = .lt)
    (right : ys.Pairwise fun x y => compare x y = .lt) (same : ∀ x, x ∈ xs ↔ x ∈ ys) : xs = ys := by
  have apart {x y : α} (less : compare x y = .lt) : x ≠ y := by
    rintro rfl
    rw [compare_self] at less
    contradiction
  refine List.Perm.eq_of_pairwise (fun x y _ _ less more => ?_) left right
    ((List.perm_ext_iff_of_nodup (left.imp apart) (right.imp apart)).mpr same)
  rw [OrientedCmp.gt_of_lt less] at more
  contradiction

/-- In a sorted list from a front on the lists that have it come first. -/
theorem takeWhile_eq_filter [LawfulEqOrd α] [OrientedOrd α] [BEq α] [LawfulBEq α] {β : Type}
    {entries : List (List α × β)} {front : List α} (sorted : entries.Pairwise fun a b => compare a.1 b.1 = .lt)
    (past : ∀ entry ∈ entries, (compare front entry.1).isLE) :
    entries.takeWhile (fun entry => front.isPrefixOf entry.1) =
      entries.filter fun entry => front.isPrefixOf entry.1 := by
  induction entries with
  | nil => rfl
  | cons entry entries ih =>
    obtain ⟨first, sorted⟩ := List.pairwise_cons.mp sorted
    rw [List.takeWhile_cons, List.filter_cons]
    by_cases has : front.isPrefixOf entry.1
    · rw [if_pos has, if_pos has, ih sorted fun entry member => past entry (List.mem_cons_of_mem _ member)]
    · rw [if_neg has, if_neg has, eq_comm, List.filter_eq_nil_iff]
      intro later member inside
      rw [List.isPrefixOf_iff_prefix] at has inside
      have below := OrientedCmp.gt_of_lt (lt_of_prefix_fails inside has (past entry List.mem_cons_self))
      rw [first later member] at below
      contradiction

end

theorem compare_digit {m n : Nat} :
    (compare (m / 256) (n / 256)).then (compare (m % 256) (n % 256)) = compare m n := by
  rcases Nat.lt_trichotomy (m / 256) (n / 256) with less | same | more
  · rw [Nat.compare_eq_lt.mpr less, Nat.compare_eq_lt.mpr (show m < n by omega)]
    rfl
  · rw [same, Nat.compare_eq_eq.mpr rfl, Ordering.eq_then]
    rcases Nat.lt_trichotomy (m % 256) (n % 256) with less | same' | more
    · rw [Nat.compare_eq_lt.mpr less, Nat.compare_eq_lt.mpr (show m < n by omega)]
    · rw [same', Nat.compare_eq_eq.mpr rfl, Nat.compare_eq_eq.mpr (show m = n by omega)]
    · rw [Nat.compare_eq_gt.mpr more, Nat.compare_eq_gt.mpr (show n < m by omega)]
  · rw [Nat.compare_eq_gt.mpr more, Nat.compare_eq_gt.mpr (show n < m by omega)]
    rfl

/-- The digits of two numbers that fit are in the order of the numbers. -/
theorem compare_digits {width m n : Nat} (small : m < 256 ^ width) (small' : n < 256 ^ width) :
    compare (BigEndian.digits width m) (BigEndian.digits width n) = compare m n := by
  induction width generalizing m n with
  | zero =>
    rw [Nat.pow_zero, Nat.lt_one_iff] at small small'
    rw [small, small']
    rfl
  | succ width ih =>
    have shorter {k : Nat} (small : k < 256 ^ (width + 1)) : k / 256 < 256 ^ width := by
      apply Nat.div_lt_of_lt_mul
      rwa [Nat.pow_succ, Nat.mul_comm] at small
    have last : compare [UInt8.ofNat m] [UInt8.ofNat n] = compare (m % 256) (n % 256) := by
      rw [compare_cons, UInt8.compare_eq_toNat_compare_toNat, UInt8.toNat_ofNat', UInt8.toNat_ofNat']
      exact Ordering.then_eq
    rw [BigEndian.digits, BigEndian.digits, compare_append (by simp), ih (shorter small) (shorter small'), last,
      compare_digit]

end Lexicographic
