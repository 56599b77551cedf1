import FormulaLang.Proofs.Nesting.Acceptance

/-!
# Groups and matched pairs

The groups of a parsed text are its matched pairs of brackets. Every stage keeps the brackets of a buffer, raw or those of a
group, and makes groups of one kind of brackets only (`groupStage_pairs`); at the end no bracket is raw, so the groups of the
tree write the brackets of the text (`pairs_parseText`). The main result is `parse_iff_nested`.
-/

namespace FormulaLang

open Nesting
open Reading (brackets)

/-- All groups of the tree are between brackets of one kind. -/
def Node.ProperPairs (n : Node) : Prop :=
  ∀ p ∈ n.pairs, Proper p

theorem Node.texts_pairsAll (ns : List Node) : Pair.texts (Node.pairsAll ns) = ns.flatMap fun n => Pair.texts n.pairs := by
  induction ns with
  | nil => rfl
  | cons n ns ih => rw [Node.pairsAll, Pair.texts_append, ih, List.flatMap_cons]

theorem Node.forall_mem_pairsAll {ns : List Node} (h : ∀ n ∈ ns, n.ProperPairs) : ∀ p ∈ Node.pairsAll ns, Proper p := by
  intro p hp
  rw [Node.pairsAll_eq_flatMap] at hp
  obtain ⟨n, hn, hp⟩ := List.mem_flatMap.1 hp
  exact h n hn p hp

/-! ## Leaves and folds -/

theorem Node.properPairs_raw (t : Text) : (Node.raw t).ProperPairs := by
  intro p hp
  cases hp

theorem Node.properPairs_leaf {k : LeafKind} {t : Text} {n : Node} (h : k.leaf t = .ok n) : n.ProperPairs := by
  intro p hp
  rcases LeafKind.leaf_cases h with ⟨v, rfl⟩ | rfl <;> cases hp

/-- A rule makes no groups and drops none. -/
theorem Rule.Builds.pairs {r : Rule} {resolve : Text → Option Function} {matched : List Node} {n : Node}
    (h : r.Builds resolve matched n) : n.pairs = Node.pairsAll matched := by
  cases h with
  | spaceBefore | spaceAfter => simp [Node.pairsAll, Node.pairs]
  | functionCall | variableUse | binary | implicit | unary => simp [Node.pairsAll, Node.pairs]

theorem pairsAll_foldStage {l : Language} {offset : Int} {ss out : List Node}
    (h : (foldStage l offset ss).result = .ok out) : Node.pairsAll out = Node.pairsAll ss := by
  refine foldTiers_keep (P := fun out => Node.pairsAll out = Node.pairsAll ss) ?_ (foldStage_ok_iff.1 h) rfl
  intro t _ ss' m n hm hn hs
  rw [← hs, ← Tier.match?_eq_some hm]
  simp only [Node.pairsAll_eq_flatMap, List.flatMap_append, List.flatMap_cons, (Rule.builds_of_build hn).pairs,
    List.append_assoc]

/-! ## The group stage -/

/-- A buffer without raw brackets has those of its groups. -/
theorem brackets_of_absent {ss : List Node} (hw : nextGroup Grammar.defaultBrackets ss = .absent)
    (hs : strayOpener? Grammar.defaultBrackets ss = none) : brackets.nodes ss = Pair.texts (Node.pairsAll ss) := by
  have hcomma := Reading.comma_of_mem_marks (strayOpener?_eq_none_iff.1 hs) (closer_not_mem_of_absent hw)
  rw [Node.texts_pairsAll]
  refine List.flatMap_congr fun n hn => ?_
  cases n with
  | raw t =>
    have hnone : t.filter isBracket = [] := by
      rw [Reading.filter_isBracket, List.filter_eq_nil_iff]
      intro c hc
      rw [hcomma c (List.mem_flatMap.2 ⟨_, hn, hc⟩)]
      decide
    rw [Reading.brackets_raw, hnone]
    rfl
  | _ => rfl

theorem Interior.allBlank_blank {offset : Int} {field : List Node} {rest : List (Text × List Node)} :
    Text.allBlank (Interior.ofFields offset field rest).blank = true := by
  induction rest generalizing offset field with
  | nil =>
    unfold Interior.ofFields
    split
    · rename_i h
      rw [Text.allBlank, Node.sourceTexts_eq_flatMap, List.all_flatMap, List.all_eq_true]
      intro n hn
      have hb := List.all_eq_true.1 h n hn
      cases n with
      | raw t =>
        simp only [Node.sourceText]
        exact hb
      | _ => cases hb
    · rfl
  | cons f rest ih => exact ih

/-- The pair of a group with its parameters. -/
theorem pairs_group {w : Window} {k : Kind} (ho : w.opener = [k.opener]) (hc : w.closer = [k.closer])
    (separator : Separator) (offset : Int) (params : List Node) :
    (w.group (w.inside separator offset) params).pairs = [⟨[k.opener], [k.closer], Node.pairsAll params⟩] := by
  have hblank : ∀ c ∈ (w.inside separator offset).blank, Text.isBlank c = true :=
    List.all_eq_true.1 Interior.allBlank_blank
  have hcloser : Text.isBlank k.closer = false := by cases k <;> decide
  have htrim : Text.trimLeft ((w.inside separator offset).blank ++ w.closer) = [k.closer] := by
    rw [Text.trimLeft, hc, List.dropWhile_append_of_pos hblank, List.dropWhile_cons_of_neg (by simp [hcloser])]
  rw [Window.group, Node.pairs, htrim, ho]

/-- The brackets between those of a window are those of its parameters. -/
theorem brackets_interior {w : Window} (offset : Int) :
    ((w.inside (.spaced ',') offset).params.flatMap fun p => brackets.nodes p.sentences) =
      brackets.nodes w.interior := by
  refine Reading.skipsBlanks_brackets.nodes_interior (fun s hs => ?_) w offset
  rw [Reading.brackets_raw, Reading.filter_isBracket, hs]
  rfl

theorem texts_params {ps : List Param} {params : List Node}
    (h : List.Forall₂ (fun p n => Pair.texts n.pairs = brackets.nodes p.sentences) ps params) :
    Pair.texts (Node.pairsAll params) = ps.flatMap fun p => brackets.nodes p.sentences := by
  rw [Node.texts_pairsAll]
  induction h with
  | nil => rfl
  | cons hn _ ih => rw [List.flatMap_cons, List.flatMap_cons, hn, ih]

section Default

variable {l : Language} (hl : l.grammar = .default)

include hl

theorem collapse_default (w : Window) (offset : Int) (params : List Node) :
    w.collapse l offset params = w.before ++ w.group (w.inside (.spaced ',') offset) params :: w.after := by
  rw [Window.collapse, hl]
  rfl

/-- A collapse keeps the brackets when the parameters do. -/
theorem brackets_collapse {offset : Int} {ss params : List Node} {w : Window}
    (hw : nextGroup Grammar.defaultBrackets ss = .window w)
    (hp : List.Forall₂ (fun p n => Pair.texts n.pairs = brackets.nodes p.sentences)
      (w.inside (.spaced ',') offset).params params) :
    brackets.nodes (w.collapse l offset params) = brackets.nodes ss := by
  obtain ⟨k, ho, hc, -⟩ := Reading.marks_window hw
  have hparams := (texts_params hp).trans (brackets_interior offset)
  have hopener : brackets.node (.raw w.opener) = [k.opener] := by
    rw [ho, Reading.brackets_raw]
    cases k <;> decide
  have hcloser : brackets.node (.raw w.closer) = [k.closer] := by
    rw [hc, Reading.brackets_raw]
    cases k <;> decide
  rw [collapse_default hl, brackets.nodes_window distinctBrackets_default hw, hopener, hcloser, Reading.nodes_append,
    Reading.nodes_cons, Reading.brackets_of_not_isRaw rfl, pairs_group ho hc (.spaced ',') offset params, ← hparams]
  simp [Pair.texts, Pair.text]

/-- The brackets of the new group are of one kind. -/
theorem properPairs_collapse {offset : Int} {ss params : List Node} {w : Window}
    (hw : nextGroup Grammar.defaultBrackets ss = .window w) (hs : ∀ n ∈ ss, n.ProperPairs)
    (hp : ∀ n ∈ params, n.ProperPairs) : ∀ n ∈ w.collapse l offset params, n.ProperPairs := by
  obtain ⟨k, ho, hc, -⟩ := Reading.marks_window hw
  obtain ⟨hbefore, -, hafter⟩ := forall_mem_window Node.properPairs_raw distinctBrackets_default hw hs
  rw [collapse_default hl, List.forall_mem_append, List.forall_mem_cons]
  refine ⟨hbefore, ?_, hafter⟩
  rw [Node.ProperPairs, pairs_group ho hc (.spaced ',') offset params, List.forall_mem_singleton]
  exact .mk k (Node.forall_mem_pairsAll hp)

/-- **The group stage** keeps the brackets of the buffer: in the end they are those of its groups. -/
theorem groupStage_pairs {offset : Int} {ss out : List Node} (h : (groupStage l offset ss).result = .ok out) :
    brackets.nodes ss = Pair.texts (Node.pairsAll out) ∧
      ((∀ n ∈ ss, n.ProperPairs) → ∀ n ∈ out, n.ProperPairs) := by
  have hbrackets : l.grammar.brackets = Grammar.defaultBrackets := congrArg Grammar.brackets hl
  have hseparator : l.grammar.separator = .spaced ',' := congrArg Grammar.separator hl
  refine groupStage_induction (motive := fun _ ss out => brackets.nodes ss = Pair.texts (Node.pairsAll out) ∧
    ((∀ n ∈ ss, n.ProperPairs) → ∀ n ∈ out, n.ProperPairs)) ?_ ?_ h
  · intro offset ss hw hs
    rw [hbrackets] at hw hs
    exact ⟨brackets_of_absent hw hs, id⟩
  · intro offset ss w params out hw hp ih
    rw [hseparator] at hp
    rw [hbrackets] at hw
    refine ⟨?_, fun hs => ih.2 (properPairs_collapse hl hw hs fun n hn => ?_)⟩
    · rw [← ih.1]
      refine (brackets_collapse hl hw (hp.imp fun p n hn => ?_)).symm
      obtain ⟨lexed, grouped, folded, hlexed, -, hpairs, hf, rfl⟩ := hn
      rw [Node.pairs, pairsAll_foldStage hf, ← hpairs.1, Reading.nodes_lexStage (Reading.readsLeaves_brackets _) hlexed]
    · obtain ⟨p, hpm, lexed, grouped, folded, hlexed, -, hpairs, hf, rfl⟩ := exists_of_forall₂ hp n hn
      have hempty : emptyLiteral.ProperPairs := by
        intro p hp
        cases hp
      have hinside := (forall_mem_window Node.properPairs_raw distinctBrackets_default hw hs).2.1
      have hsub := forall_mem_lexStage Node.properPairs_raw (fun _ _ _ _ => Node.properPairs_leaf) hlexed
        (forall_mem_sentences Node.properPairs_raw hempty hpm hinside)
      rw [Node.ProperPairs, Node.pairs, pairsAll_foldStage hf]
      exact Node.forall_mem_pairsAll (hpairs.2 hsub)

/-- **The groups** of a parsed text are its matched pairs. -/
theorem pairs_parseText {t : Text} {out : List Node} (h : (parseText l t).result = .ok out) :
    Node.pairsAll out = t.pairs := by
  obtain ⟨lexed, grouped, hlexed, hg, hf⟩ := parseBuffer_ok_iff_stages.1 h
  obtain ⟨htexts, hproper⟩ := groupStage_pairs hl hg
  have hsub := forall_mem_lexStage Node.properPairs_raw (fun _ _ _ _ => Node.properPairs_leaf) hlexed
    (forall_mem_raws Node.properPairs_raw t)
  rw [Reading.nodes_lexStage (Reading.readsLeaves_brackets _) hlexed, Reading.nodes_raws, Reading.brackets_raw] at htexts
  rw [pairsAll_foldStage hf]
  exact (Proper.pairs_texts (Node.forall_mem_pairsAll (hproper hsub)) htexts).symm

end Default

/-- **Exact acceptance**: with the default grammar a text parses if and only if its brackets are nested and no comma stands
within brackets of an earlier kind than the innermost ones around it. The groups of the tree are then the matched pairs of
brackets of the text, nested in the same way. -/
theorem parse_iff_nested (resolve : Text → Option Function) (t : Text) :
    ((Formula.parse ⟨.default, resolve⟩ t).failure = none ↔ Nested t ∧ CommasFit t) ∧
      ((Formula.parse ⟨.default, resolve⟩ t).failure = none →
        (Formula.parse ⟨.default, resolve⟩ t).formula.root.pairs = t.pairs) := by
  rw [Formula.parse_failure_eq_none_iff]
  refine ⟨parseText_ok_iff rfl, ?_⟩
  rintro ⟨out, hout⟩
  rw [Formula.root_parse_of_ok hout, Node.pairs]
  exact pairs_parseText rfl hout

/-- A comma in square brackets may stand in curly ones but not in round ones. -/
theorem parse_iff_nested_commas :
    (Formula.parse ⟨.default, fun _ => none⟩ "\x7bf[1,(2) ],3\x7d".toList).failure = none ∧
      (Formula.parse ⟨.default, fun _ => none⟩ "\x7bf[1,(2) ],3\x7d".toList).formula.root.pairs =
        [⟨['\x7b'], ['\x7d'], [⟨['['], [']'], [⟨['('], [')'], []⟩]⟩]⟩] ∧
      (Formula.parse ⟨.default, fun _ => none⟩ "(f[1,2],3)".toList).failure ≠ none := by
  obtain ⟨hiff, hpairs⟩ := parse_iff_nested (fun _ => none) "\x7bf[1,(2) ],3\x7d".toList
  have hok := hiff.2 (by decide)
  refine ⟨hok, (hpairs hok).trans rfl, fun h => ?_⟩
  exact absurd ((parse_iff_nested (fun _ => none) "(f[1,2],3)".toList).1.1 h) (by decide)

end FormulaLang
