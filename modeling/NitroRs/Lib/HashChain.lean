import Mathlib.Data.Set.Function

/-! Hash chains. A chain folds a link function over its items; where the link
function does not collide on the pairs that two chains use, equal ends mean equal items. -/
namespace HashChain

variable {α β : Type} {link : α → β → α}

/-- The arguments that the link function gets along a chain. -/
def uses (link : α → β → α) : α → List β → List (α × β)
  | _, [] => []
  | a, x :: xs => (a, x) :: uses link (link a x) xs

theorem getElem_uses (a : α) (xs : List β) (i : Nat) :
    (uses link a xs)[i]? = (xs[i]?).map fun x => ((xs.take i).foldl link a, x) := by
  induction xs generalizing a i with
  | nil => rfl
  | cons x xs ih =>
    cases i with
    | zero => rfl
    | succ i => rw [uses, List.getElem?_cons_succ, ih, List.getElem?_cons_succ, List.take_succ_cons,
        List.foldl_cons]

/-- Two chains of one length that end the same are the same. -/
theorem binds {a b : α} {xs ys : List β} (length : xs.length = ys.length)
    (free : Set.InjOn (Function.uncurry link) {p | p ∈ uses link a xs ∨ p ∈ uses link b ys})
    (same : xs.foldl link a = ys.foldl link b) : a = b ∧ xs = ys := by
  induction xs generalizing a b ys with
  | nil =>
    obtain rfl := List.length_eq_zero_iff.mp length.symm
    exact ⟨same, rfl⟩
  | cons x xs ih =>
    obtain ⟨y, ys, rfl⟩ := List.exists_cons_of_length_eq_add_one length.symm
    have tail : Set.InjOn (Function.uncurry link)
        {p | p ∈ uses link (link a x) xs ∨ p ∈ uses link (link b y) ys} := by
      apply free.mono
      rintro p (left | right)
      · exact .inl (List.mem_cons_of_mem _ left)
      · exact .inr (List.mem_cons_of_mem _ right)
    obtain ⟨next, rfl⟩ := ih (Nat.succ.inj length) tail same
    have head : (a, x) = (b, y) := free (.inl List.mem_cons_self) (.inr List.mem_cons_self) next
    obtain ⟨rfl, rfl⟩ := Prod.mk.inj head
    exact ⟨rfl, rfl⟩

end HashChain
