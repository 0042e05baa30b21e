import NitroRs.Lib.Store

/-! A write batch that stops after any number of its operations. What it leaves in a
table is read off the operations that it got to, and their order only matters
among the operations on a few places. -/
namespace KeyValue

variable {Counter Table : Type} {Record : Table → Type} [DecidableEq Counter] [DecidableEq Table]

/-- The operations on some places. -/
def focus (places : List (Place Counter Table)) (ops : List (Op Counter Record)) :
    List (Op Counter Record) := ops.filter (·.place ∈ places)

section Focus
variable {places : List (Place Counter Table)} {ops : List (Op Counter Record)}

theorem mem_focus {op : Op Counter Record} : op ∈ focus places ops ↔ op ∈ ops ∧ op.place ∈ places := by
  simp only [focus, List.mem_filter, decide_eq_true_eq]

theorem focus_append (places : List (Place Counter Table)) (ops ops' : List (Op Counter Record)) :
    focus places (ops ++ ops') = focus places ops ++ focus places ops' := List.filter_append ..

theorem focus_eq_self (inside : ∀ op ∈ ops, op.place ∈ places) : focus places ops = ops := by
  rw [focus, List.filter_eq_self]
  exact fun op member => decide_eq_true (inside op member)

theorem focus_eq_nil (outside : ∀ op ∈ ops, op.place ∉ places) : focus places ops = [] := by
  rw [focus, List.filter_eq_nil_iff]
  exact fun op member inside => outside op member (of_decide_eq_true inside)

/-- A cut of a batch cuts the operations on the places. -/
theorem focus_cut (places : List (Place Counter Table)) (ops : List (Op Counter Record)) (k : Nat) :
    focus places ops = focus places (ops.take k) ++ focus places (ops.drop k) := by
  rw [← focus_append, List.take_append_drop]

end Focus

namespace Store

/-- A key that is not deleted keeps a property that the old record and all new ones have. -/
theorem exists_get_write {s : Store Counter Record} {ops : List (Op Counter Record)} {t : Table}
    {i : Nat} {P : Record t → Prop} (kept : .del t i ∉ ops) (puts : ∀ v, .put t i v ∈ ops → P v)
    (found : (∃ v, s.get t i = some v ∧ P v) ∨ ∃ v, .put t i v ∈ ops) :
    ∃ v, (s.write ops).get t i = some v ∧ P v := by
  induction ops generalizing s with
  | nil => exact found.resolve_right fun put => nomatch put
  | cons op ops ih =>
    rw [List.mem_cons, not_or] at kept
    apply ih kept.2 fun v member => puts v (List.mem_cons_of_mem _ member)
    cases op with
    | setCount c n => exact found.imp_right fun ⟨v, member⟩ => ⟨v, by simpa using member⟩
    | put u j w =>
      by_cases here : u = t ∧ j = i
      · obtain ⟨rfl, rfl⟩ := here
        exact .inl ⟨w, by simp, puts w List.mem_cons_self⟩
      · have same : (s.apply (.put u j w)).get t i = s.get t i := by
          by_cases table : t = u
          · subst table
            rw [get_apply_put, if_neg fun key => here ⟨rfl, key⟩]
          · rw [get_apply_put_of_ne s j w table]
        rw [same]
        refine found.imp_right fun ⟨v, member⟩ => ⟨v, ?_⟩
        rcases List.mem_cons.mp member with put | later
        · cases put
          exact absurd ⟨rfl, rfl⟩ here
        · exact later
    | del u j =>
      have same : (s.apply (.del u j)).get t i = s.get t i := by
        by_cases table : t = u
        · subst table
          rw [get_apply_del, if_neg fun key => kept.1 (by rw [key])]
        · rw [get_apply_del_of_ne s j table]
      rw [same]
      exact found.imp_right fun ⟨v, member⟩ => ⟨v, by simpa using member⟩

/-- A key that is deleted and not written again is gone. -/
theorem get_write_eq_none {s : Store Counter Record} {ops : List (Op Counter Record)} {t : Table}
    {i : Nat} (unwritten : ∀ v, .put t i v ∉ ops) (gone : s.get t i = none ∨ .del t i ∈ ops) :
    (s.write ops).get t i = none := by
  induction ops generalizing s with
  | nil => exact gone.resolve_right fun del => nomatch del
  | cons op ops ih =>
    apply ih fun v member => unwritten v (List.mem_cons_of_mem _ member)
    cases op with
    | setCount c n => exact gone.imp_right fun member => by simpa using member
    | put u j w =>
      have same : (s.apply (.put u j w)).get t i = s.get t i := by
        by_cases table : t = u
        · subst table
          rw [get_apply_put, if_neg]
          rintro rfl
          exact unwritten w List.mem_cons_self
        · rw [get_apply_put_of_ne s j w table]
      rw [same]
      exact gone.imp_right fun member => by simpa using member
    | del u j =>
      by_cases table : t = u
      · subst table
        rw [get_apply_del]
        by_cases key : j = i
        · exact .inl (if_pos key)
        · rw [if_neg key]
          refine gone.imp_right fun member => ?_
          rcases List.mem_cons.mp member with del | later
          · cases del
            exact absurd rfl key
          · exact later
      · rw [get_apply_del_of_ne s j table]
        refine gone.imp_right fun member => ?_
        rcases List.mem_cons.mp member with del | later
        · cases del
          exact absurd rfl table
        · exact later

/-- A counter that a batch sets to one value only. -/
theorem count_write_eq {s : Store Counter Record} {ops : List (Op Counter Record)} {c : Counter}
    {n : Nat} (only : ∀ m, .setCount c m ∈ ops → m = n)
    (reached : s.count c = some n ∨ .setCount c n ∈ ops) : (s.write ops).count c = some n := by
  induction ops generalizing s with
  | nil => exact reached.resolve_right fun set => nomatch set
  | cons op ops ih =>
    apply ih fun m member => only m (List.mem_cons_of_mem _ member)
    cases op with
    | setCount d m =>
      by_cases here : c = d
      · subst here
        rw [count_apply_setCount, if_pos rfl, only m List.mem_cons_self]
        exact .inl rfl
      · rw [count_apply_setCount, if_neg here]
        refine reached.imp_right fun member => ?_
        rcases List.mem_cons.mp member with set | later
        · cases set
          exact absurd rfl here
        · exact later
    | put u j w => exact reached.imp_right fun member => by simpa using member
    | del u j => exact reached.imp_right fun member => by simpa using member

/-- A batch removes no counter. -/
theorem count_write_isSome {s : Store Counter Record} {c : Counter}
    (some : (s.count c).isSome = true) (ops : List (Op Counter Record)) :
    ((s.write ops).count c).isSome = true := by
  induction ops generalizing s with
  | nil => exact some
  | cons op ops ih =>
    apply ih
    cases op with
    | setCount d n =>
      rw [count_apply_setCount]
      split
      · rfl
      · exact some
    | put t i v => exact some
    | del t i => exact some

/-- A table depends on the operations on it alone. -/
theorem get_write_focus (s : Store Counter Record) (ops : List (Op Counter Record)) (t : Table) :
    (s.write ops).get t = (s.write (focus [.table t] ops)).get t := by
  have congr {s s' : Store Counter Record} (same : s.get t = s'.get t) :
      (s.write ops).get t = (s'.write (focus [.table t] ops)).get t := by
    induction ops generalizing s s' with
    | nil => exact same
    | cons op ops ih =>
      rw [write_cons, focus, List.filter_cons]
      cases op with
      | setCount c n => exact ih same
      | put u i v =>
        by_cases here : u = t
        · subst here
          rw [if_pos (by simp [Op.place])]
          refine ih ?_
          funext j
          rw [get_apply_put, get_apply_put, same]
        · rw [if_neg (by simpa [Op.place] using here)]
          exact ih ((get_apply_put_of_ne s i v (Ne.symm here)).trans same)
      | del u i =>
        by_cases here : u = t
        · subst here
          rw [if_pos (by simp [Op.place])]
          refine ih ?_
          funext j
          rw [get_apply_del, get_apply_del, same]
        · rw [if_neg (by simpa [Op.place] using here)]
          exact ih ((get_apply_del_of_ne s i (Ne.symm here)).trans same)
  exact congr rfl

end Store
end KeyValue
