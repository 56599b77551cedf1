/-!
# Marked lists

Two marks in one list are the same, or one of them comes before the other (`append_cons_eq_cases`). So the first and the last
occurrence of a mark divide a list in one way.
-/

namespace FormulaLang

/-- Two marks in one list are one and the same, or one comes before the other. -/
theorem append_cons_eq_cases {α : Type} {x y u v : List α} {a b : α} (h : x ++ a :: y = u ++ b :: v) :
    (x = u ∧ a = b ∧ y = v) ∨ (∃ m, u = x ++ a :: m ∧ y = m ++ b :: v) ∨ ∃ m, x = u ++ b :: m ∧ v = m ++ a :: y := by
  rcases List.append_eq_append_iff.1 h with ⟨m, rfl, hm⟩ | ⟨m, rfl, hm⟩
  · cases m with
    | nil =>
      rw [List.nil_append, List.cons.injEq] at hm
      exact .inl ⟨(List.append_nil x).symm, hm.1, hm.2⟩
    | cons c m =>
      rw [List.cons_append, List.cons.injEq] at hm
      obtain ⟨rfl, rfl⟩ := hm
      exact .inr (.inl ⟨m, rfl, rfl⟩)
  · cases m with
    | nil =>
      rw [List.nil_append, List.cons.injEq] at hm
      exact .inl ⟨List.append_nil u, hm.1.symm, hm.2.symm⟩
    | cons c m =>
      rw [List.cons_append, List.cons.injEq] at hm
      obtain ⟨rfl, rfl⟩ := hm
      exact .inr (.inr ⟨m, rfl, rfl⟩)

/-- An element divides the list at its index. -/
theorem exists_append_cons_of_getElem? {α : Type} {xs : List α} {i : Nat} {a : α} (h : xs[i]? = some a) :
    ∃ x y, xs = x ++ a :: y ∧ x.length = i := by
  obtain ⟨hlt, hget⟩ := List.getElem?_eq_some_iff.1 h
  refine ⟨xs.take i, xs.drop (i + 1), ?_, List.length_take_of_le (Nat.le_of_lt hlt)⟩
  rw [← hget, ← List.drop_eq_getElem_cons hlt, List.take_append_drop]

/-- The first mark divides a list in one way. -/
theorem split_first_unique {α : Type} {x y u v : List α} {a : α} (hx : a ∉ x) (hu : a ∉ u) (h : x ++ a :: y = u ++ a :: v) :
    x = u ∧ y = v := by
  obtain ⟨hxu, -, hyv⟩ | ⟨m, rfl, -⟩ | ⟨m, rfl, -⟩ := append_cons_eq_cases h
  · exact ⟨hxu, hyv⟩
  · simp at hu
  · simp at hx

/-- The last mark divides a list in one way. -/
theorem split_last_unique {α : Type} {x y u v : List α} {a : α} (hy : a ∉ y) (hv : a ∉ v) (h : x ++ a :: y = u ++ a :: v) :
    x = u ∧ y = v := by
  obtain ⟨hxu, -, hyv⟩ | ⟨m, -, rfl⟩ | ⟨m, -, rfl⟩ := append_cons_eq_cases h
  · exact ⟨hxu, hyv⟩
  · simp at hy
  · simp at hv

end FormulaLang
