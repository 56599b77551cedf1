import FormulaLang.Proofs.Parse.Subformula
import FormulaLang.Proofs.Parse.Variables

/-!
# Lexing is exhaustive

The default rules make a leaf of whatever they find, and where they find nothing there is no decimal digit, no letter and no
underscore: a name may not start behind a digit with an exponent, but then the digits are a decimal. So lexing succeeds on
every text, and what it leaves raw holds nothing of a leaf (`exists_isExhausted`). For a new formula this is all that the stage
does (`Formula.lex_new`).
-/

namespace FormulaLang

open Node (sourceTexts)

/-- The sentences make up the text: names, literals, and fragments of raw text that are apart from one another and hold no
character that a name or a decimal starts with. -/
structure IsExhausted (t : Text) (ss : List Node) : Prop where
  text : sourceTexts ss = t
  fused : Fused ss
  leaf : ∀ n ∈ ss, n.isRaw = false → (n.isNumber = true ∨ n.isIdentifier = true) ∧ n.sourceText ≠ []
  raw : ∀ u, .raw u ∈ ss → ∀ c ∈ u, Text.isDecimal c = false ∧ c.isAlpha = false ∧ c ≠ '_'

/-- A sentence of a lexed text is raw text, or a name or literal with a text. -/
theorem isLeaf_of_lexText {rules : List LeafRule} {t : Text} {out : List Node} (h : lexText rules t = .ok out) :
    ∀ n ∈ out, n.isRaw = false → (n.isNumber = true ∨ n.isIdentifier = true) ∧ n.sourceText ≠ [] := by
  refine forall_mem_lexText (fun u hraw => by cases hraw) (fun u c n hc hleaf _ => ⟨?_, ?_⟩) h
  · rcases LeafKind.leaf_cases hleaf with ⟨v, rfl⟩ | rfl
    · exact .inl rfl
    · exact .inr rfl
  · rw [LeafKind.sourceText_leaf hleaf]
    exact (leafCut?_eq_some hc).2

/-- Raw text that is left of a text holds nothing that a leaf starts with. -/
theorem not_isLeafStart_of_lexText {t : Text} {out : List Node} (h : lexText Grammar.defaultLeaves t = .ok out) {u : Text}
    (hu : .raw u ∈ out) {c : Char} (hc : c ∈ u) : Pattern.isLeafStart c = false :=
  lexed_lexText h c (List.mem_flatMap.2 ⟨.raw u, hu, List.mem_map.2 ⟨c, hc, rfl⟩⟩)

theorem isExhausted_of_lexText {t : Text} {out : List Node} (h : lexText Grammar.defaultLeaves t = .ok out) :
    IsExhausted t out where
  text := sourceTexts_lexText h
  fused := fused_lexText h
  leaf := isLeaf_of_lexText h
  raw u hu c hc := by
    have hstart : Pattern.isLeafStart c = false := not_isLeafStart_of_lexText h hu hc
    simp only [Pattern.isLeafStart, Pattern.isLetter, Bool.or_eq_false_iff, beq_eq_false_iff_ne] at hstart
    exact ⟨hstart.2, hstart.1.1.1.1.1.1, hstart.1.2⟩

/-- **Every text** can be cut, and the cut is exhaustive. -/
theorem exists_isExhausted (t : Text) : ∃ out, lexText Grammar.defaultLeaves t = .ok out ∧ IsExhausted t out := by
  obtain ⟨out, hout⟩ := lexText_ok readable_default t
  exact ⟨out, hout, isExhausted_of_lexText hout⟩

/-- Lexing a new formula leaves the text and the table alone, and the sentences are those of the text. -/
theorem Formula.advance?_lex_new {l : Language} (hl : l.grammar.leaves = Grammar.defaultLeaves) {t : Text} {ss : List Node}
    (hlexed : lexText Grammar.defaultLeaves t = .ok ss) :
    ∃ o, (new t).advance? l .lex = some o ∧ o.failure = none ∧ o.formula = ⟨t, .equation .none ss 0, []⟩ := by
  have hstage : (lexStage l.grammar 0 (Node.raws t)).result = .ok ss := lexStage_raws_ok_iff.2 (hl ▸ hlexed)
  have hmet : metVariables (lexStage l.grammar 0 (Node.raws t)).events = [] := metVariables_lexStage _ _ _
  refine ⟨(new t).settle .none 0 (lexStage l.grammar 0 (Node.raws t)), rfl, ?_, ?_⟩
  · rw [settle, hstage]
  · rw [settle, hstage, hmet]
    rfl

/-- **Lexing** a new formula with the default leaf rules succeeds on every text. The stage leaves the text and the table alone,
and the sentences are exhausted. -/
theorem Formula.lex_new {l : Language} (hl : l.grammar.leaves = Grammar.defaultLeaves) (t : Text) :
    ∃ o ss, (new t).advance? l .lex = some o ∧ o.failure = none ∧ o.formula = ⟨t, .equation .none ss 0, []⟩ ∧
      IsExhausted t ss := by
  obtain ⟨ss, hlexed, hexhausted⟩ := exists_isExhausted t
  obtain ⟨o, ho, hfailure, hformula⟩ := advance?_lex_new hl hlexed
  exact ⟨o, ss, ho, hfailure, hformula, hexhausted⟩

/-- A name behind a digit, a name with digits of another script, and a literal with a mark. -/
theorem Formula.lex_new_names :
    Language.default.grammar.leaves = Grammar.defaultLeaves ∧
      ∃ o ss, (new "2x + a٣ ! #fF".toList).advance? .default .lex = some o ∧ o.failure = none ∧
        o.formula = ⟨"2x + a٣ ! #fF".toList, .equation .none ss 0, []⟩ ∧ IsExhausted "2x + a٣ ! #fF".toList ss :=
  ⟨rfl, lex_new rfl _⟩

end FormulaLang
