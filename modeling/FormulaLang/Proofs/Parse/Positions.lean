import FormulaLang.Proofs.Parse.Carried
import FormulaLang.Proofs.Parse.Lossless

/-!
# Positions in a parsed tree

An equation in a parsed tree is the root or a parameter of a group (`carries_housed`), and so it is the buffer of a part of
the parse and stands in the text at its own position (`placed_parseText`).
-/

namespace FormulaLang

variable {l : Language}

/-- The text `s` stands in the text `t` at the position `o`. -/
def Text.StandsAt (t : Text) (o : Int) (s : Text) : Prop :=
  ∃ x y, t = x ++ s ++ y ∧ o = x.length

namespace Node

/-! ## Equations are parameters -/

/-- The node is no equation, and the equations below it are parameters of groups. -/
structure Housed (n : Node) : Prop where
  self : ∀ p ss o, n ≠ equation p ss o
  below : ∀ p ss o, equation p ss o ∈ n.walk → ∃ b ps, group b ps ∈ n.walk ∧ equation p ss o ∈ ps

theorem housed_of_walk {n : Node} (h : ∀ p ss o, equation p ss o ∉ n.walk) (hself : ∀ p ss o, n ≠ equation p ss o) :
    Housed n :=
  ⟨hself, fun p ss o hmem => absurd hmem (h p ss o)⟩

theorem housed_raw (t : Text) : Housed (raw t) :=
  housed_of_walk (by simp) (by simp)

theorem housed_emptyLiteral : Housed emptyLiteral :=
  housed_of_walk (by simp [emptyLiteral]) (by simp [emptyLiteral])

theorem housed_leaf {k : LeafKind} {t : Text} {n : Node} (h : k.leaf t = .ok n) : Housed n := by
  rcases LeafKind.leaf_cases h with ⟨v, rfl⟩ | rfl <;> exact housed_of_walk (by simp) (by simp)

/-- The equations of a group of equations are its parameters and lie below these. -/
theorem housed_group {b : Brackets} {ps : List Node}
    (hps : ∀ q ∈ ps, ∃ out o, q = equation .none out o ∧ ∀ n ∈ out, Housed n) : Housed (group b ps) := by
  refine ⟨by simp, fun p ss o hmem => ?_⟩
  rcases (mem_walk_group rfl).1 hmem with hself | ⟨q, hq, hmem⟩
  · cases hself
  · obtain ⟨out, o', rfl, hout⟩ := hps q hq
    rw [walk_equation, List.mem_cons, mem_walkAll] at hmem
    rcases hmem with hself | ⟨n, hn, hmem⟩
    · exact ⟨b, ps, mem_walk_self rfl, hself ▸ hq⟩
    · obtain ⟨b', qs, hgroup, hparam⟩ := (hout n hn).below p ss o hmem
      refine ⟨b', qs, walk_subset_group hq b ?_, hparam⟩
      exact walk_subset_equation hn _ _ hgroup

/-- A node other than an equation is housed when its equations lie below housed parts. -/
theorem Housed.of_parts {n : Node} (ms : List Node) (hself : ∀ p ss o, n ≠ equation p ss o)
    (hm : ∀ m ∈ ms, Housed m) (hsub : ∀ m ∈ ms, m.walk ⊆ n.walk)
    (hmem : ∀ p ss o, equation p ss o ∈ n.walk → ∃ m ∈ ms, equation p ss o ∈ m.walk) : Housed n := by
  refine ⟨hself, fun p ss o h => ?_⟩
  obtain ⟨m, hmms, h⟩ := hmem p ss o h
  obtain ⟨b, ps, hgroup, hparam⟩ := (hm m hmms).below p ss o h
  exact ⟨b, ps, hsub m hmms hgroup, hparam⟩

theorem Housed.withPad {n : Node} (h : Housed n) (pad : Pad) : Housed (n.withPad pad) := by
  cases n with
  | equation p ss o => exact absurd rfl (h.self p ss o)
  | group b ps =>
    refine ⟨by simp [Node.withPad], fun p ss o hmem => ?_⟩
    simp only [Node.withPad] at hmem ⊢
    rcases (mem_walk_group rfl).1 hmem with hself | hbelow
    · cases hself
    · obtain ⟨b', qs, hgroup, hparam⟩ := h.below p ss o ((mem_walk_group rfl).2 (.inr hbelow))
      rcases (mem_walk_group rfl).1 hgroup with hself | hgroup
      · cases hself
        exact ⟨_, _, mem_walk_self rfl, hparam⟩
      · exact ⟨b', qs, (mem_walk_group rfl).2 (.inr hgroup), hparam⟩
  | raw | number | identifier | var | token =>
    exact housed_of_walk (by simp [Node.withPad]) (by simp [Node.withPad])
  | call | unary | binary =>
    refine ⟨by simp [Node.withPad], fun p ss o hmem => ?_⟩
    obtain ⟨b, ps, hgroup, hparam⟩ := h.below p ss o (by simpa [Node.withPad] using hmem)
    exact ⟨b, ps, by simpa [Node.withPad] using hgroup, hparam⟩

theorem Housed.operatorToken_ne {s : Node} (h : Housed s) (p : Pad) (ss : List Node) (o : Int) :
    operatorToken s ≠ equation p ss o := by
  cases s with
  | equation p' ss' o' => exact absurd rfl (h.self p' ss' o')
  | _ => simp [operatorToken]

theorem Housed.builds {r : Rule} {resolve : Text → Option Function} {matched : List Node} {n : Node}
    (h : r.Builds resolve matched n) (hm : ∀ m ∈ matched, Housed m) : Housed n := by
  cases h with
  | @spaceBefore t n => exact (hm n (by simp)).withPad _
  | @spaceAfter t n => exact (hm n (by simp)).withPad _
  | variableUse => exact housed_of_walk (by simp) (by simp)
  | @functionCall c a =>
    refine Housed.of_parts _ (by simp) hm ?_ fun p ss o hmem => ?_
    · simp
    · simpa using hmem
  | @binary x s y =>
    have hs := (hm s (by simp)).operatorToken_ne
    refine Housed.of_parts [x, y] (by simp) ?_ ?_ fun p ss o hmem => ?_
    · simpa using ⟨hm x (by simp), hm y (by simp)⟩
    · simp only [List.forall_mem_cons, List.not_mem_nil, false_imp_iff, implies_true, and_true]
      exact ⟨walk_subset_left _ _ _ _ _, walk_subset_right _ _ _ _ _⟩
    · simpa [(hs p ss o).symm] using hmem
  | @implicit x y =>
    refine Housed.of_parts _ (by simp) hm ?_ fun p ss o hmem => ?_
    · simp only [List.forall_mem_cons, List.not_mem_nil, false_imp_iff, implies_true, and_true]
      exact ⟨walk_subset_left _ _ _ _ _, walk_subset_right _ _ _ _ _⟩
    · simpa [operatorToken] using hmem
  | @unary s x =>
    have hs := (hm s (by simp)).operatorToken_ne
    refine Housed.of_parts [x] (by simp) ?_ ?_ fun p ss o hmem => ?_
    · simpa using hm x (by simp)
    · simp
    · simpa [(hs p ss o).symm] using hmem

end Node

theorem carries_housed (l : Language) : l.Carries Node.Housed where
  raw := Node.housed_raw
  leaf _ _ _ _ := Node.housed_leaf
  empty := Node.housed_emptyLiteral
  group ss w offset params _ hp := by
    refine Node.housed_group fun q hq => ?_
    obtain ⟨p, -, out, rfl, hout⟩ := exists_of_forall₂ hp q hq
    exact ⟨out, p.offset, rfl, hout⟩
  fold _ _ _ := forall_mem_foldStage fun _ _ _ => Node.Housed.builds

/-! ## Positions -/

/-- No white space is attached to the equations of a tree, and each of them stands in the text at its position. -/
def Node.Placed (t : Text) (n : Node) : Prop :=
  ∀ p ss o, .equation p ss o ∈ n.walk → p = .none ∧ t.StandsAt o (Node.sourceTexts ss)

theorem IsEntered.standsAt (hb : DistinctBrackets l.grammar.brackets) {t : Text} {p : Pad} {ss : List Node} {o : Int}
    (h : IsEntered l 0 (Node.raws t) (.equation p ss o)) : p = .none ∧ t.StandsAt o (Node.sourceTexts ss) := by
  obtain ⟨o', sentences, out, hent, hout, heq⟩ := h
  cases heq
  obtain ⟨x, y, hxy, ho⟩ := Enters.slice hb hent
  rw [Node.sourceTexts_raws, ← sourceTexts_parseBuffer hb hout] at hxy
  exact ⟨rfl, x, y, hxy, by simpa using ho⟩

/-- **The equations** of a parsed text are those of buffers that its parse has entered. -/
theorem isEntered_parseText (hb : DistinctBrackets l.grammar.brackets) {t : Text} {out : List Node}
    (h : (parseText l t).result = .ok out) {p : Pad} {ss : List Node} {o : Int}
    (hmem : .equation p ss o ∈ (Node.equation .none out 0).walk) : IsEntered l 0 (Node.raws t) (.equation p ss o) := by
  rw [Node.walk_equation, List.mem_cons, Node.mem_walkAll] at hmem
  rcases hmem with hself | ⟨n, hn, hmem⟩
  · cases hself
    exact ⟨0, _, out, .self, h, rfl⟩
  · have hhoused : n.Housed := (carries_housed l).parseText hb h n hn
    obtain ⟨b, ps, hgroup, hparam⟩ := hhoused.below p ss o hmem
    have hwalk : .group b ps ∈ (Node.equation .none out 0).walk := Node.walk_subset_equation hn _ _ hgroup
    exact everyParam_parseText hb h hwalk _ hparam

/-- They stand in the text at their positions. -/
theorem placed_parseText (hb : DistinctBrackets l.grammar.brackets) {t : Text} {out : List Node}
    (h : (parseText l t).result = .ok out) : (Node.equation .none out 0).Placed t :=
  fun _ _ _ hmem => (isEntered_parseText hb h hmem).standsAt hb

end FormulaLang
