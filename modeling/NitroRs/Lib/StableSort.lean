import Mathlib.Data.List.Sort

/-! Insertion is stable: elements that are tied stay in their order. -/
namespace StableSort

variable {α : Type} {r : α → α → Prop} [DecidableRel r] {p : α → Bool}

/-- A selection of tied elements is what it was. -/
theorem filter_insertionSort (tied : ∀ x y, p x → p y → r x y) (xs : List α) :
    (xs.insertionSort r).filter p = xs.filter p := by
  have pairwise : (xs.filter p).Pairwise r :=
    List.pairwise_iff_forall_sublist.mpr fun both => tied _ _
      (List.of_mem_filter (both.subset List.mem_cons_self))
      (List.of_mem_filter (both.subset (List.mem_cons_of_mem _ List.mem_cons_self)))
  have sublist := (List.sublist_insertionSort pairwise List.filter_sublist).filter p
  rw [List.filter_filter] at sublist
  simp only [Bool.and_self] at sublist
  exact (sublist.eq_of_length ((List.perm_insertionSort r xs).filter p).length_eq.symm).symm

theorem find?_insertionSort (tied : ∀ x y, p x → p y → r x y) (xs : List α) :
    (xs.insertionSort r).find? p = xs.find? p := by
  rw [← List.head?_filter, ← List.head?_filter, filter_insertionSort tied]

end StableSort
