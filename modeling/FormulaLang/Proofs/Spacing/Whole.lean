import FormulaLang.Proofs.Evaluation.Alike
import FormulaLang.Proofs.Spacing.Bare

/-!
# Whole trees

A tree is whole when every equation in it holds one sentence, a node (`Node.isWhole`). The bare tree is whole when the tree is
(`Node.all_isWhole_bare`); a whole tree that the default grammar makes (`Node.Whole`) has the literal of its bare tree
(`Node.Whole.literal_bare`), and the two are alike (`Node.Whole.alike_bare`). So whole trees with the same bare tree cannot be
told apart (`Node.alike_of_bare`).
-/

namespace FormulaLang

variable {l : Language}

namespace Node

/-- An equation holds one sentence, and this is a node. -/
def isWhole : Node → Bool
  | equation _ [s] _ => !s.isRaw
  | equation _ _ _ => false
  | _ => true

theorem sentence_of_isWhole {p : Pad} {ss : List Node} {o : Int} (h : (equation p ss o).isWhole = true) :
    ∃ s, ss = [s] ∧ s.isRaw = false := by
  unfold isWhole at h
  split at h
  · rename_i s heq
    cases heq
    exact ⟨_, rfl, by simpa using h⟩
  all_goals simp_all

/-! ## The walk over the bare tree -/

theorem isWhole_bare (n : Node) : n.bare.isWhole = n.isWhole := by
  cases n with
  | equation p ss o =>
    cases ss with
    | nil => rfl
    | cons s ss =>
      cases ss with
      | nil => exact congrArg (!·) s.isRaw_bare
      | cons s' ss => rfl
  | _ => rfl

theorem all_isWhole_walkAll (ns : List Node) : (walkAll ns).all isWhole = ns.all fun n => n.walk.all isWhole := by
  induction ns with
  | nil => rfl
  | cons n ns ih => rw [walkAll, List.all_append, ih, List.all_cons]

theorem all_isWhole_group (b : Brackets) (ps : List Node) :
    (group b ps).walk.all isWhole = ps.all fun p => p.walk.all isWhole := by
  have hparams (separators : List Text) : (walkParams ps separators).all isWhole = ps.all fun p => p.walk.all isWhole := by
    induction ps generalizing separators with
    | nil => simp [walkParams, separatorToken, isWhole]
    | cons p ps ih => cases separators <;> simp [walkParams, separatorToken, isWhole, ih]
  simp [walk_group, delimiterToken, isWhole, hparams]

theorem all_bareAll {ns : List Node} (h : ∀ n ∈ ns, n.bare.walk.all isWhole = n.walk.all isWhole) :
    ((bareAll ns).all fun n => n.walk.all isWhole) = ns.all fun n => n.walk.all isWhole := by
  rw [bareAll_eq_map, List.all_map, Bool.eq_iff_iff, List.all_eq_true, List.all_eq_true]
  exact forall₂_congr fun n hn => by rw [Function.comp_apply, h n hn]

/-- **The bare tree** is whole when the tree is. -/
theorem all_isWhole_bare (n : Node) : n.bare.walk.all isWhole = n.walk.all isWhole := by
  have hsymbol (s : Node) : (operatorToken s.bare).isWhole = (operatorToken s).isWhole := by
    cases s with
    | raw t => rfl
    | _ => exact isWhole_bare _
  induction n using Node.induction with
  | raw t => rfl
  | number p v t => rfl
  | identifier p t => rfl
  | var p r t => rfl
  | token p k t => rfl
  | group b ps ih => rw [bare, all_isWhole_group, all_isWhole_group, all_bareAll ih]
  | call p c f a hc ha => simp [bare, isWhole, hc, ha]
  | unary p s o x _ hx =>
    rw [bare, walk_unary, walk_unary, List.all_cons, List.all_cons, List.all_cons, List.all_cons, hsymbol, hx]
    rfl
  | binary p x s o y hx _ hy =>
    rw [bare, walk_binary, walk_binary, List.all_cons, List.all_cons, List.all_append, List.all_append, List.all_cons,
      List.all_cons, hsymbol, hx, hy]
    rfl
  | equation p ss o ih =>
    have hself : (equation p ss o).bare.isWhole = (equation p ss o).isWhole := isWhole_bare _
    rw [bare] at hself ⊢
    rw [walk_equation, walk_equation, List.all_cons, List.all_cons, hself, all_isWhole_walkAll, all_isWhole_walkAll,
      all_bareAll ih]

/-! ## Whole trees that the default grammar makes -/

/-- A whole tree of literals, names, groups, calls and operations, in whose symbols no white space counts. -/
inductive Whole : Node → Prop
  | number (p : Pad) (v : Scalar) (t : Text) : Whole (.number p v t)
  | identifier (p : Pad) (t : Text) : Whole (.identifier p t)
  | var (p : Pad) (r : Reference) (t : Text) : Whole (.var p r t)
  | group (b : Brackets) {ps : List Node} (hps : ∀ q ∈ ps, Whole q) : Whole (.group b ps)
  | call (p q : Pad) (name : Text) (f : Option Function) (b : Brackets) {ps : List Node} (hps : ∀ q ∈ ps, Whole q) :
      Whole (.call p (.identifier q name) f (.group b ps))
  | unary (p : Pad) {s : Text} (hs : Text.trim (Text.squeeze s) = Text.trim s) (o : Option Operation) {x : Node} (hx : Whole x) :
      Whole (.unary p (.raw s) o x)
  | binary (p : Pad) {s : Text} (hs : Text.trim (Text.squeeze s) = Text.trim s) (o : Option Operation) {x y : Node}
      (hx : Whole x) (hy : Whole y) : Whole (.binary p x (.raw s) o y)
  | equation (p : Pad) {s : Node} (hraw : s.isRaw = false) (hs : Whole s) (o : Int) : Whole (.equation p [s] o)

theorem Parsed.whole {n : Node} (h : n.Parsed l) (hwhole : ∀ m ∈ n.walk, m.isWhole = true) : n.Whole := by
  induction h with
  | number p v t hv => exact .number p v t
  | var p hname => exact .var p _ _
  | group b _ ih => exact .group b fun q hq => ih q hq fun m hm => hwhole m (walk_subset_group hq b hm)
  | call p q hname b _ ih =>
    exact .call p q _ _ b fun x hx => ih x hx fun m hm => hwhole m (walk_subset_call _ _ _ _ (walk_subset_group hx b hm))
  | @unary p op hop s hs x _ ih =>
    have hsymbol : IsSymbol (Text.trim s) := ⟨op, List.mem_append_right _ hop, hs.symm⟩
    exact .unary p hsymbol.trim_squeeze _ (ih fun m hm => hwhole m (walk_subset_unary _ _ _ _ hm))
  | @binary p op hop s hs x y _ _ ihx ihy =>
    have hsymbol : IsSymbol (Text.trim s) := ⟨op, List.mem_append_left _ hop, hs.symm⟩
    exact .binary p hsymbol.trim_squeeze _ (ihx fun m hm => hwhole m (walk_subset_left _ _ _ _ _ hm))
      (ihy fun m hm => hwhole m (walk_subset_right _ _ _ _ _ hm))
  | implicit p _ _ _ _ ihx ihy =>
    exact .binary p rfl _ (ihx fun m hm => hwhole m (walk_subset_left _ _ _ _ _ hm))
      (ihy fun m hm => hwhole m (walk_subset_right _ _ _ _ _ hm))
  | @equation p ss _ o ih =>
    obtain ⟨s, rfl, hraw⟩ := sentence_of_isWhole (hwhole _ (mem_walk_self rfl))
    refine .equation p hraw ?_ o
    cases s with
    | raw t => cases hraw
    | identifier q t => exact .identifier q t
    | _ => exact ih _ List.mem_cons_self rfl rfl fun m hm => hwhole m (walk_subset_equation List.mem_cons_self p o hm)

/-! ## Literals -/

theorem literals_bareAll {ns : List Node} (h : ∀ n ∈ ns, n.bare.literal = n.literal) : literals (bareAll ns) = literals ns := by
  induction ns with
  | nil => rfl
  | cons n ns ih =>
    rw [List.forall_mem_cons] at h
    rw [bareAll, literals, literals, h.1, ih h.2]

theorem groupLiteral_bare (b : Brackets) {ps : List Node} (h : ∀ n ∈ ps, n.bare.literal = n.literal) :
    groupLiteral ⟨.none, b.opener, [], Text.trimLeft b.closer⟩ (bareAll ps) = groupLiteral b ps := by
  rw [groupLiteral, groupLiteral, literals_bareAll h, Text.trim_trimLeft]

/-- **A whole tree** has the literal of its bare tree. -/
theorem Whole.literal_bare {n : Node} (h : n.Whole) : n.bare.literal = n.literal := by
  induction h with
  | number p v t => rw [bare, literal, literal]
  | identifier p t => rw [bare, literal, literal]
  | var p r t => rw [bare, literal, literal]
  | group b _ ih => rw [bare, literal, literal, groupLiteral_bare b ih]
  | call p q name f b _ ih =>
    rw [bare, bare, bare, literal, literal, argumentLiteral, argumentLiteral, groupLiteral_bare b ih]
    rfl
  | unary p hs o _ ih => rw [bare, bare, literal, literal, symbol, symbol, hs, ih]
  | binary p hs o _ _ ihx ihy => rw [bare, bare, literal, literal, symbol, symbol, hs, ihx, ihy]
  | equation p hraw _ o ih =>
    rw [bare, literal, literal, literals_bareAll]
    exact List.forall_mem_singleton.2 ih

/-! ## Values -/

theorem forall₂_bareAll {ps : List Node} (h : ∀ n ∈ ps, n.Alike n.bare) : List.Forall₂ Alike ps (bareAll ps) := by
  rw [bareAll_eq_map, List.forall₂_map_right_iff, List.forall₂_same]
  exact h

/-- **A whole tree** is like its bare tree. -/
theorem Whole.alike_bare {n : Node} (h : n.Whole) : n.Alike n.bare := by
  induction h with
  | number p v t => exact ⟨fun _ => Iff.rfl, fun _ _ => by rw [bare, evaluate_number, evaluate_number]⟩
  | identifier p t => exact ⟨fun _ => Iff.rfl, fun _ _ => rfl⟩
  | var p r t => exact .var _ _ _ _ _
  | group b hps ih =>
    exact .group_of_literal (forall₂_bareAll ih) fun _ => groupLiteral_bare b fun q hq => (hps q hq).literal_bare
  | call p q name f b _ ih => exact .call (forall₂_bareAll ih) _ _ _ _ _ _ _ _
  | unary p hs o _ ih => exact .unary ih hs _ _ _
  | binary p hs o _ _ ihx ihy => exact .binary ihx ihy hs _ _ _
  | @equation p s hraw _ o ih => exact (ih.equation_single (s.isRaw_bare.trans hraw) _ _).of_equation_single hraw p o

/-- **Whole trees with the same bare tree** have the same literal and are alike. -/
theorem alike_of_bare {n n' : Node} (h : n.Parsed l) (h' : n'.Parsed l) (hwhole : ∀ m ∈ n.walk, m.isWhole = true)
    (hbare : n'.bare = n.bare) : n'.literal = n.literal ∧ n.Alike n' := by
  have hwhole' : ∀ m ∈ n'.walk, m.isWhole = true := by
    rw [← List.all_eq_true] at hwhole ⊢
    rw [← all_isWhole_bare, hbare, all_isWhole_bare, hwhole]
  have hn := h.whole hwhole
  have hn' := h'.whole hwhole'
  constructor
  · rw [← hn'.literal_bare, hbare, hn.literal_bare]
  · exact (hbare ▸ hn.alike_bare).trans hn'.alike_bare.symm

end Node

end FormulaLang
