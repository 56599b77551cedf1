import FormulaLang.Node.Source

/-!
# The walk over a tree

The nodes that the walk over each kind of node meets, and the walks of its parts among them.
-/

namespace FormulaLang.Node

section Walk

variable (p : Pad) (t : Text)

@[simp] theorem walk_raw : (raw t).walk = [] := rfl

@[simp] theorem walk_number (v : Scalar) : (number p v t).walk = [number p v t] := rfl

@[simp] theorem walk_identifier : (identifier p t).walk = [identifier p t] := rfl

@[simp] theorem walk_var (r : Reference) : (var p r t).walk = [var p r t] := rfl

@[simp] theorem walk_token (k : TokenKind) : (token p k t).walk = [token p k t] := rfl

@[simp] theorem walk_group (b : Brackets) (ps : List Node) :
    (group b ps).walk =
      group b ps :: delimiterToken b.opener :: (walkParams ps b.separators ++ [delimiterToken b.closer]) :=
  rfl

@[simp] theorem walk_call (c a : Node) (f : Option Function) :
    (call p c f a).walk = call p c f a :: (c.walk ++ a.walk) :=
  rfl

@[simp] theorem walk_unary (s x : Node) (o : Option Operation) :
    (unary p s o x).walk = unary p s o x :: operatorToken s :: x.walk :=
  rfl

@[simp] theorem walk_binary (l s r : Node) (o : Option Operation) :
    (binary p l s o r).walk = binary p l s o r :: (l.walk ++ operatorToken s :: r.walk) :=
  rfl

@[simp] theorem walk_equation (ss : List Node) (o : Int) :
    (equation p ss o).walk = equation p ss o :: walkAll ss :=
  rfl

end Walk

theorem mem_walkAll {x : Node} {ns : List Node} : x ∈ walkAll ns ↔ ∃ n ∈ ns, x ∈ n.walk := by
  induction ns with
  | nil => simp [walkAll]
  | cons n ns ih => simp [walkAll, ih]

/-- The walk over parameters meets their nodes and separators, which are tokens. -/
theorem mem_walkParams {x : Node} (hx : x.isToken = false) {ps : List Node} {separators : List Text} :
    x ∈ walkParams ps separators ↔ ∃ p ∈ ps, x ∈ p.walk := by
  have hne : ∀ t, x ≠ separatorToken t := by
    rintro t rfl
    cases hx
  induction ps generalizing separators with
  | nil => simpa [walkParams] using fun t _ => (hne t).symm
  | cons p ps ih => cases separators <;> simp [walkParams, ih, hne]

theorem mem_walk_group {x : Node} (hx : x.isToken = false) {b : Brackets} {ps : List Node} :
    x ∈ (group b ps).walk ↔ x = group b ps ∨ ∃ p ∈ ps, x ∈ p.walk := by
  have hne : ∀ t, x ≠ delimiterToken t := by
    rintro t rfl
    cases hx
  simp [mem_walkParams hx, hne]

theorem mem_walk_unary {x : Node} (hx : x.isToken = false) {p : Pad} {t : Text} {o : Option Operation} {y : Node} :
    x ∈ (unary p (raw t) o y).walk ↔ x = unary p (raw t) o y ∨ x ∈ y.walk := by
  have hne : x ≠ operatorToken (raw t) := by
    rintro rfl
    cases hx
  simp [hne]

theorem mem_walk_binary {x : Node} (hx : x.isToken = false) {p : Pad} {t : Text} {o : Option Operation} {y z : Node} :
    x ∈ (binary p y (raw t) o z).walk ↔ x = binary p y (raw t) o z ∨ x ∈ y.walk ∨ x ∈ z.walk := by
  have hne : x ≠ operatorToken (raw t) := by
    rintro rfl
    cases hx
  simp [hne]

/-- What stands between the brackets of a group is a parameter or a separator. -/
theorem mem_interleave {x : Node} {ps : List Node} {separators : List Text} (hx : x ∈ interleave ps separators) :
    x ∈ ps ∨ x.isToken = true := by
  induction ps generalizing separators with
  | nil =>
    obtain ⟨t, -, rfl⟩ := List.mem_map.1 hx
    exact .inr rfl
  | cons p ps ih =>
    cases separators with
    | nil =>
      rcases List.mem_cons.1 hx with rfl | hx
      · exact .inl List.mem_cons_self
      · exact (ih hx).imp_left (List.mem_cons_of_mem p)
    | cons t separators =>
      rcases List.mem_cons.1 hx with rfl | hx
      · exact .inl List.mem_cons_self
      · rcases List.mem_cons.1 hx with rfl | hx
        · exact .inr rfl
        · exact (ih hx).imp_left (List.mem_cons_of_mem p)

theorem mem_walk_self {n : Node} (h : n.isRaw = false) : n ∈ n.walk := by
  cases n with
  | raw t => cases h
  | _ => simp

theorem walk_subset_walkParams {n : Node} {ns : List Node} (h : n ∈ ns) (separators : List Text) :
    n.walk ⊆ walkParams ns separators := by
  induction ns generalizing separators with
  | nil => cases h
  | cons m ns ih =>
    rcases List.mem_cons.1 h with rfl | h
    · cases separators <;> simp [walkParams]
    · cases separators with
      | nil => exact List.subset_append_of_subset_right _ (ih h [])
      | cons t separators => exact List.subset_append_of_subset_right _ (List.subset_cons_of_subset _ (ih h separators))

theorem walk_subset_group {n : Node} {ps : List Node} (h : n ∈ ps) (b : Brackets) : n.walk ⊆ (group b ps).walk := by
  rw [walk_group]
  refine List.subset_cons_of_subset _ (List.subset_cons_of_subset _ ?_)
  exact List.subset_append_of_subset_left _ (walk_subset_walkParams h b.separators)

theorem walk_subset_call (p : Pad) (c : Node) (f : Option Function) (a : Node) : a.walk ⊆ (call p c f a).walk := by
  rw [walk_call]
  exact List.subset_cons_of_subset _ (List.subset_append_right _ _)

theorem walk_subset_unary (p : Pad) (s : Node) (o : Option Operation) (x : Node) : x.walk ⊆ (unary p s o x).walk := by
  rw [walk_unary]
  exact List.subset_cons_of_subset _ (List.subset_cons_self _ _)

theorem walk_subset_left (p : Pad) (x s : Node) (o : Option Operation) (y : Node) : x.walk ⊆ (binary p x s o y).walk := by
  rw [walk_binary]
  exact List.subset_cons_of_subset _ (List.subset_append_left _ _)

theorem walk_subset_right (p : Pad) (x s : Node) (o : Option Operation) (y : Node) : y.walk ⊆ (binary p x s o y).walk := by
  rw [walk_binary]
  refine List.subset_cons_of_subset _ (List.subset_append_of_subset_right _ ?_)
  exact List.subset_cons_self _ _

theorem walk_subset_equation {n : Node} {ss : List Node} (h : n ∈ ss) (p : Pad) (o : Int) :
    n.walk ⊆ (equation p ss o).walk := by
  intro x hx
  rw [walk_equation]
  exact List.mem_cons_of_mem _ (mem_walkAll.2 ⟨n, h, hx⟩)

end FormulaLang.Node
