import FormulaLang.Grammar.Default
import FormulaLang.Proofs.Parse.Parameters
import FormulaLang.Proofs.Parse.Reading

/-!
# Lossless parsing

No character is lost or doubled on the way from a text to its tree. Cutting leaves (`sourceTexts_lexStage`), collapsing a
group (`sourceTexts_collapse`) and replacing a match keep the source text of the buffer, so a whole run has one text
(`Work.Reaches.sourceTexts_buffer`). A buffer that a parse enters is the slice of the text at its own position
(`Enters.slice`). The main result is `lossless_parse`.
-/

namespace FormulaLang

open Node (sourceTexts sourceTexts_append)

variable {l : Language}

/-! ## Leaves -/

theorem Node.sourceTexts_raws (t : Text) : sourceTexts (Node.raws t) = t := by
  unfold Node.raws
  split <;> simp_all [Node.sourceTexts, Node.sourceText]

theorem LeafKind.sourceText_leaf {k : LeafKind} {t : Text} {n : Node} (h : k.leaf t = .ok n) : n.sourceText = t := by
  rcases LeafKind.leaf_cases h with ⟨v, rfl⟩ | rfl <;> simp [Node.sourceText, Pad.wrap, Pad.none]

theorem readsLeaves_source (rules : List LeafRule) : Reading.source.ReadsLeaves rules := by
  intro t c leaf _ hleaf
  simpa only [Reading.source, Node.sourceText] using LeafKind.sourceText_leaf hleaf

/-- Cutting leaves keeps the text. -/
theorem sourceTexts_lexStage {g : Grammar} {offset : Int} {ss out : List Node}
    (h : (lexStage g offset ss).result = .ok out) : sourceTexts out = sourceTexts ss := by
  rw [← Reading.nodes_source, ← Reading.nodes_source]
  exact Reading.nodes_lexStage (readsLeaves_source g.leaves) h

/-! ## The interior of a group -/

/-- The text of the fields behind separators. -/
def restText (rest : List (Text × List Node)) : Text :=
  rest.flatMap fun f => f.1 ++ sourceTexts f.2

/-- The fields with their separators make up the text of the interior. -/
theorem sourceTexts_fields (separator : Separator) (ss : List Node) :
    sourceTexts (fields (ss.flatMap (cutSentence separator))).1 ++
      restText (fields (ss.flatMap (cutSentence separator))).2 = sourceTexts ss := by
  have h := Reading.source.nodes_fields separator ss
  simp only [Reading.rest, Reading.nodes_source] at h
  simpa only [restText, Reading.source, Node.sourceText] using h

theorem Param.sourceTexts_sentences (p : Param) : sourceTexts p.sentences = sourceTexts p.field := by
  unfold Param.sentences
  split <;> simp_all [emptyLiteral, sourceTexts, Node.sourceText, Pad.wrap, Pad.none]

namespace Interior

theorem paramsText_ofFields {offset : Int} {field : List Node} {rest : List (Text × List Node)} {ns : List Node}
    (h : List.Forall₂ (fun p n => Node.sourceText n = sourceTexts p.field) (ofFields offset field rest).params ns) :
    Node.paramsText ns (ofFields offset field rest).separators ++ (ofFields offset field rest).blank =
      sourceTexts field ++ restText rest := by
  induction rest generalizing offset field ns with
  | nil =>
    unfold ofFields at h ⊢
    split at h
    · cases h
      simp [Node.paramsText, restText, *]
    · obtain _ | ⟨hn, ⟨⟩⟩ := h
      simp [Node.paramsText, restText, *]
  | cons f rest ih =>
    obtain ⟨separator, next⟩ := f
    simp only [ofFields] at h ⊢
    obtain _ | ⟨hn, h⟩ := h
    rw [Node.paramsText, List.append_assoc, ih h, hn]
    simp [restText]

/-- The texts of the parameters, the separators between and behind them and the blank text make up the interior. -/
theorem paramsText_ofSentences {separator : Separator} {offset : Int} {ss ns : List Node}
    (h : List.Forall₂ (fun p n => Node.sourceText n = sourceTexts p.sentences) (ofSentences separator offset ss).params
      ns) :
    Node.paramsText ns (ofSentences separator offset ss).separators ++ (ofSentences separator offset ss).blank =
      sourceTexts ss := by
  rw [← sourceTexts_fields separator ss]
  exact paramsText_ofFields (h.imp fun p n hn => hn.trans p.sourceTexts_sentences)

theorem slice_ofFields {offset : Int} {field : List Node} {rest : List (Text × List Node)} {p : Param}
    (h : p ∈ (ofFields offset field rest).params) :
    ∃ x y, sourceTexts field ++ restText rest = x ++ sourceTexts p.field ++ y ∧ p.offset = offset + x.length := by
  induction rest generalizing offset field with
  | nil =>
    unfold ofFields at h
    split at h
    · simp at h
    · simp only [List.mem_singleton] at h
      subst h
      exact ⟨[], [], by simp [restText], by simp⟩
  | cons f rest ih =>
    obtain ⟨separator, next⟩ := f
    simp only [ofFields, List.mem_cons] at h
    rcases h with rfl | h
    · exact ⟨[], restText ((separator, next) :: rest), by simp, by simp⟩
    · obtain ⟨x, y, hxy, ho⟩ := ih h
      refine ⟨sourceTexts field ++ separator ++ x, y, ?_, ?_⟩
      · simp only [restText, List.flatMap_cons] at hxy ⊢
        simp only [List.append_assoc] at hxy ⊢
        rw [hxy]
      · simp only [List.length_append]
        omega

/-- A parameter is a slice of the interior, at its own position. -/
theorem slice_ofSentences {separator : Separator} {offset : Int} {ss : List Node} {p : Param}
    (h : p ∈ (ofSentences separator offset ss).params) :
    ∃ x y, sourceTexts ss = x ++ sourceTexts p.sentences ++ y ∧ p.offset = offset + x.length := by
  obtain ⟨x, y, hxy, ho⟩ := slice_ofFields h
  refine ⟨x, y, ?_, ho⟩
  rw [p.sourceTexts_sentences, ← hxy, sourceTexts_fields]

end Interior

/-! ## Runs -/

/-- A window divides the text. -/
theorem sourceTexts_window {brackets : List (Text × Text)} (hb : DistinctBrackets brackets) {ss : List Node}
    {w : Window} (h : nextGroup brackets ss = .window w) :
    sourceTexts ss =
      sourceTexts w.before ++ (w.opener ++ sourceTexts w.interior ++ w.closer) ++ sourceTexts w.after := by
  have h := Reading.source.nodes_window hb h
  simp only [Reading.nodes_source] at h
  simpa only [Reading.source, Node.sourceText] using h

section Runs

variable (hb : DistinctBrackets l.grammar.brackets)

include hb

omit hb in
/-- A group has the text of its window when the parameters have that of their fields. -/
theorem Window.sourceText_group {separator : Separator} {offset : Int} {params : List Node} {w : Window}
    (hp : List.Forall₂ (fun p n => Node.sourceText n = sourceTexts p.sentences) (w.inside separator offset).params
      params) :
    (w.group (w.inside separator offset) params).sourceText = w.opener ++ sourceTexts w.interior ++ w.closer := by
  have hi : Node.paramsText params (w.inside separator offset).separators ++ (w.inside separator offset).blank =
      sourceTexts w.interior := Interior.paramsText_ofSentences hp
  rw [← hi]
  simp [Window.group, Node.sourceText, Pad.wrap, Pad.none]

/-- A collapse keeps the text when the parameters do. -/
theorem sourceTexts_collapse {offset : Int} {ss params : List Node} {w : Window}
    (hw : nextGroup l.grammar.brackets ss = .window w)
    (hp : List.Forall₂ (fun p n => Node.sourceText n = sourceTexts p.sentences)
      (w.inside l.grammar.separator offset).params params) :
    sourceTexts (w.collapse l offset params) = sourceTexts ss := by
  rw [sourceTexts_window hb hw, Window.collapse, sourceTexts_append, sourceTexts, Window.sourceText_group hp]
  simp only [List.append_assoc]

omit hb in
theorem sourceTexts_foldStage {offset : Int} {ss out : List Node} (h : (foldStage l offset ss).result = .ok out) :
    sourceTexts out = sourceTexts ss :=
  foldTiers_keep (P := fun out => sourceTexts out = sourceTexts ss)
    (fun _ _ _ _ _ hm hn hs => (Tier.sourceTexts_replace hm hn).trans hs) (foldStage_ok_iff.1 h) rfl

theorem sourceTexts_groupStage {offset : Int} {ss out : List Node} (h : (groupStage l offset ss).result = .ok out) :
    sourceTexts out = sourceTexts ss := by
  refine groupStage_induction (motive := fun _ ss out => sourceTexts out = sourceTexts ss) ?_ ?_ h
  · exact fun _ _ _ _ => rfl
  · intro offset ss w params out hw hp ih
    rw [ih]
    refine sourceTexts_collapse hb hw (hp.imp fun p n hn => ?_)
    obtain ⟨lexed, grouped, folded, hl, -, hg, hf, rfl⟩ := hn
    rw [← sourceTexts_lexStage hl, ← hg, ← sourceTexts_foldStage hf]
    simp [Node.sourceText, Pad.wrap, Pad.none]

/-- A parse keeps the text of its buffer. -/
theorem sourceTexts_parseBuffer {offset : Int} {ss out : List Node} (h : (parseBuffer l offset ss).result = .ok out) :
    sourceTexts out = sourceTexts ss := by
  obtain ⟨lexed, grouped, hl, hg, hf⟩ := parseBuffer_ok_iff_stages.1 h
  rw [sourceTexts_foldStage hf, sourceTexts_groupStage hb hg, sourceTexts_lexStage hl]

theorem sourceText_parseParam {p : Param} {n : Node} (h : parseParam l p = .ok n) :
    n.sourceText = sourceTexts p.sentences := by
  obtain ⟨ss, hp, rfl⟩ := parseParam_ok_iff.1 h
  rw [← sourceTexts_parseBuffer hb hp]
  simp [Node.sourceText, Pad.wrap, Pad.none]

/-- One more step of the work keeps the text. -/
theorem Work.Step.sourceTexts_buffer {offset : Int} {a b : Work} (h : Work.Step l offset a b) :
    sourceTexts b.buffer = sourceTexts a.buffer := by
  cases h with
  | collapse hw hp =>
    exact sourceTexts_collapse hb hw ((parseParams_ok_iff.1 hp).imp fun p n => sourceText_parseParam hb)
  | grouped => rfl
  | replace hm hn => exact Tier.sourceTexts_replace hm hn
  | next => rfl

/-- So the whole run has one text. -/
theorem Work.Reaches.sourceTexts_buffer {offset : Int} {a b : Work} (h : Work.Reaches l offset a b) :
    sourceTexts b.buffer = sourceTexts a.buffer := by
  induction h with
  | refl => rfl
  | tail _ hs ih => rw [hs.sourceTexts_buffer hb, ih]

/-- A buffer that a parse enters is a slice of the text, at its own position. -/
theorem Enters.slice {offset o : Int} {ss sentences : List Node} (h : Enters l offset ss o sentences) :
    ∃ x y, sourceTexts ss = x ++ sourceTexts sentences ++ y ∧ o = offset + x.length := by
  induction h with
  | self => exact ⟨[], [], by simp, by simp⟩
  | @param o sentences lexed buffer w p _ hl hr hw hp ih =>
    obtain ⟨x, y, hxy, ho⟩ := ih
    obtain ⟨u, v, huv, hpo⟩ := Interior.slice_ofSentences hp
    have ht : sourceTexts sentences = sourceTexts buffer := by
      rw [← sourceTexts_lexStage hl]
      exact (Work.Reaches.sourceTexts_buffer hb hr).symm
    refine ⟨x ++ sourceTexts w.before ++ w.opener ++ u, v ++ w.closer ++ sourceTexts w.after ++ y, ?_, ?_⟩
    · rw [hxy, ht, sourceTexts_window hb hw, huv]
      simp only [List.append_assoc]
    · rw [hpo, ho]
      simp only [List.length_append]
      omega

/-- The run from the buffer `ss` at `offset` to `out` has the text `t` in all its buffers: once the leaves are cut, after
every group that is collapsed and after every match that is replaced. -/
def KeepsText (l : Language) (offset : Int) (ss out : List Node) (t : Text) : Prop :=
  ∃ lexed, (lexStage l.grammar offset ss).result = .ok lexed ∧
    Work.Reaches l offset (.grouping lexed) (.folding [] out) ∧
    ∀ w, Work.Reaches l offset (.grouping lexed) w → sourceTexts w.buffer = t

theorem keepsText_of_parseBuffer {offset : Int} {ss out : List Node}
    (h : (parseBuffer l offset ss).result = .ok out) : KeepsText l offset ss out (sourceTexts ss) := by
  obtain ⟨lexed, hl, hr⟩ := parseBuffer_ok_iff.1 h
  refine ⟨lexed, hl, hr, fun w hw => ?_⟩
  rw [Work.Reaches.sourceTexts_buffer hb hw]
  exact sourceTexts_lexStage hl

end Runs

/-- **Parsing is lossless**, whatever the leaf rules, the separator and the tiers, when every bracket is a single character
and the two of a pair differ. The text of a parsed formula stands in every buffer of the run, and so it is the source text
of the tree. The same holds of every parameter of every group in the tree and of the slice of the text from which it was
built. -/
theorem lossless_parse (hb : DistinctBrackets l.grammar.brackets) {t : Text}
    (h : (Formula.parse l t).failure = none) :
    (∃ out, (Formula.parse l t).formula.root = .equation .none out 0 ∧ KeepsText l 0 (Node.raws t) out t) ∧
      (Formula.parse l t).formula.sourceText = t ∧
      ∀ b ps, .group b ps ∈ (Formula.parse l t).formula.root.walk → ∀ q ∈ ps,
        ∃ (o : Int) (sentences out : List Node) (x s y : Text),
          q = .equation .none out o ∧ q.sourceText = s ∧ t = x ++ s ++ y ∧ o = x.length ∧
          Enters l 0 (Node.raws t) o sentences ∧ KeepsText l o sentences out s := by
  obtain ⟨out, hout⟩ := Formula.parse_failure_eq_none_iff.1 h
  have hroot := Formula.root_parse_of_ok hout
  have hkeep := keepsText_of_parseBuffer hb hout
  have htext := sourceTexts_parseBuffer hb hout
  rw [Node.sourceTexts_raws] at hkeep htext
  refine ⟨⟨out, hroot, hkeep⟩, ?_, ?_⟩
  · rw [Formula.sourceText, hroot]
    simp [Node.sourceText, Pad.wrap, Pad.none, htext]
  · intro b ps hg q hq
    rw [hroot] at hg
    obtain ⟨o, sentences, folded, hent, hp, rfl⟩ :=
      everyParam_parseText hb hout hg q hq
    obtain ⟨x, y, hxy, ho⟩ := Enters.slice hb hent
    rw [Node.sourceTexts_raws] at hxy
    refine ⟨o, sentences, folded, x, sourceTexts sentences, y, rfl, ?_, hxy, by simpa using ho, hent,
      keepsText_of_parseBuffer hb hp⟩
    rw [← sourceTexts_parseBuffer hb hp]
    simp [Node.sourceText, Pad.wrap, Pad.none]

/-- Angle brackets instead of square and curly ones, and names resolved before white space is attached. -/
def angledLanguage : Language where
  grammar :=
    { Grammar.default with
      brackets := [(['('], [')']), (['<'], ['>'])]
      tiers := Grammar.nameTiers ++ Grammar.spaceTiers ++ Grammar.operatorTiers.reverse }
  resolve _ := none

/-- A call with an empty field, a parameter that is dropped, a blank group and leftover operators. -/
theorem lossless_parse_angled :
    DistinctBrackets angledLanguage.grammar.brackets ∧
      (Formula.parse angledLanguage "f< ,(2 , ),> +( ) 0x1F".toList).failure = none ∧
      (Formula.parse angledLanguage "f< ,(2 , ),> +( ) 0x1F".toList).formula.sourceText =
        "f< ,(2 , ),> +( ) 0x1F".toList := by
  have hb : DistinctBrackets angledLanguage.grammar.brackets := by
    simp [DistinctBrackets, angledLanguage]
  have h : (Formula.parse angledLanguage "f< ,(2 , ),> +( ) 0x1F".toList).failure = none :=
    Option.isNone_iff_eq_none.1 (by decide +kernel)
  exact ⟨hb, h, (lossless_parse hb h).2.1⟩

end FormulaLang
