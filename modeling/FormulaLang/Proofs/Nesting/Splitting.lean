import FormulaLang.Formula.Session
import FormulaLang.Proofs.Nesting.Acceptance
import FormulaLang.Proofs.Nesting.Sealed
import FormulaLang.Proofs.Parse.FieldAtoms

/-!
# Where groups are split

In every buffer that a parse enters the nodes are sealed: a group keeps its commas within its brackets
(`Enters.isSealed`). So the parameters of a group are cut at the commas of its own pair of brackets and at no others,
whatever brackets stand in them (`MakesGroup.splits`). A nested text need not parse, though: the kinds of brackets are
collapsed one after another, so a comma cuts too early within a pair of a later kind (`parse_nested_iff`).
-/

namespace FormulaLang

open Nesting
open Node (sourceTexts)
open Reading (marks)

/-! ## Sealed nodes of a buffer -/

theorem Node.isSealed_raw (t : Text) : (Node.raw t).IsSealed :=
  fun h => by cases h

theorem Node.isSealed_emptyLiteral : emptyLiteral.IsSealed :=
  fun _ => sealed_of_not_isMark (t := emptyLiteral.sourceText) (by simp [emptyLiteral, sourceText, Pad.wrap, Pad.none])

/-- A leaf has no brackets and no commas. -/
theorem Node.isSealed_leaf {rules : List LeafRule} {t : Text} {c : LeafCut} {n : Node} (hc : leafCut? rules t = some c)
    (h : c.kind.leaf c.matched = .ok n) : n.IsSealed := by
  intro _
  rw [LeafKind.sourceText_leaf h]
  exact sealed_of_not_isMark fun d hd => isMark_of_leafChar (leafCut?_leafChar hc d hd)

section Default

variable {l : Language} (hl : l.grammar = .default)

include hl

/-- The marks of a parameter that parses are nested. -/
theorem nested_marks_of_parseParam {p : Param} {n : Node} (h : parseParam l p = .ok n) :
    Nested (marks.nodes p.sentences) := by
  obtain ⟨out, hout, -⟩ := parseParam_ok_iff.1 h
  obtain ⟨lexed, hlexed, hmarks⟩ := lexStage_default_ok hl p.offset p.sentences
  rw [← hmarks]
  exact (scan_eq_some_iff.1 ((groupStage_ok_iff hl).1
    ((parseBuffer_ok_iff_groupStage hl hlexed).1 ⟨out, hout⟩))).1

variable {offset : Int} {w : Window} {params : List Node}

/-- The marks of the fields between two brackets are nested when the parameters parse. -/
theorem nested_fields (hp : parseParams l (w.inside (.spaced ',') offset).params = .ok params) :
    ∀ g ∈ marks.nodes (fields (w.interior.flatMap (cutSentence (.spaced ',')))).1 ::
      (fields (w.interior.flatMap (cutSentence (.spaced ',')))).2.map (fun f => marks.nodes f.2), Nested g := by
  have hparams : ∀ p ∈ (w.inside (.spaced ',') offset).params, Nested (marks.nodes p.sentences) := by
    intro p hpm
    obtain ⟨n, hn⟩ := exists_parseParams_iff.1 ⟨params, hp⟩ p hpm
    exact nested_marks_of_parseParam hl hn
  exact (Reading.skipsBlanks_marks.forall_params_iff (P := Nested) rfl).1 hparams

/-- **The parameters** of a group have sealed texts. -/
theorem sealed_params (hi : ∀ n ∈ w.interior, n.IsSealed)
    (hp : parseParams l (w.inside (.spaced ',') offset).params = .ok params) : ∀ q ∈ params, Sealed q.sourceText := by
  have hb : DistinctBrackets l.grammar.brackets := hl ▸ distinctBrackets_default
  have hcomma : ∀ p ∈ (w.inside (.spaced ',') offset).params, ',' ∉ marks.nodes p.sentences :=
    (Reading.skipsBlanks_marks.forall_params_iff (P := fun g => ',' ∉ g) List.not_mem_nil).2
      (Reading.marks_fields w.interior rfl).2
  intro q hq
  obtain ⟨p, hpm, hparam⟩ := exists_of_forall₂ (parseParams_ok_iff.1 hp) q hq
  rw [sourceText_parseParam hb hparam]
  exact sealed_sourceTexts (forall_mem_sentences Node.isSealed_raw Node.isSealed_emptyLiteral hpm hi)
    (nested_marks_of_parseParam hl hparam) (hcomma p hpm)

/-- A group is sealed. -/
theorem Window.isSealed_group {k : Kind} (ho : w.opener = [k.opener]) (hc : w.closer = [k.closer])
    (hi : ∀ n ∈ w.interior, n.IsSealed) (hp : parseParams l (w.inside (.spaced ',') offset).params = .ok params) :
    (w.group (w.inside (.spaced ',') offset) params).IsSealed := by
  have hb : DistinctBrackets l.grammar.brackets := hl ▸ distinctBrackets_default
  have htext := Window.sourceText_group ((parseParams_ok_iff.1 hp).imp fun p n => sourceText_parseParam hb)
  have hinside : Nested (sourceTexts w.interior) := by
    rw [nested_sourceTexts_iff hi, (Reading.marks_fields w.interior rfl).1]
    exact nested_joinFields (nested_fields hl hp)
  intro _
  rw [htext, ho, hc]
  exact hinside.sealed_pair k

theorem Work.Reaches.isSealed {ss ss' : List Node} (h : Work.Reaches l offset (.grouping ss) (.grouping ss'))
    (hs : ∀ n ∈ ss, n.IsSealed) : ∀ n ∈ ss', n.IsSealed := by
  have hbrackets : l.grammar.brackets = Grammar.defaultBrackets := congrArg Grammar.brackets hl
  have hseparator : l.grammar.separator = .spaced ',' := congrArg Grammar.separator hl
  generalize hb : Work.grouping ss' = b at h
  induction h generalizing ss' with
  | refl =>
    cases hb
    exact hs
  | tail _ hstep ih =>
    subst hb
    cases hstep with
    | @collapse buffer params w hw hp =>
      rw [hbrackets] at hw
      rw [hseparator] at hp
      obtain ⟨k, ho, hc, -⟩ := Reading.marks_window hw
      obtain ⟨hbefore, hinside, hafter⟩ := forall_mem_window Node.isSealed_raw distinctBrackets_default hw (ih rfl)
      rw [Window.collapse, hseparator, List.forall_mem_append, List.forall_mem_cons]
      exact ⟨hbefore, Window.isSealed_group hl ho hc hinside hp, hafter⟩

/-- **The nodes** of every buffer that a parse enters are sealed. -/
theorem Enters.isSealed {o : Int} {ss sentences : List Node} (h : Enters l offset ss o sentences)
    (hs : ∀ n ∈ ss, n.IsSealed) : ∀ n ∈ sentences, n.IsSealed := by
  induction h with
  | self => exact hs
  | param _ hlexed hr hw hp ih =>
    have hlexedSealed := forall_mem_lexStage Node.isSealed_raw (fun _ _ _ => Node.isSealed_leaf) hlexed ih
    have hb : DistinctBrackets l.grammar.brackets := hl ▸ distinctBrackets_default
    have hinside := (forall_mem_window Node.isSealed_raw hb hw (Work.Reaches.isSealed hl hr hlexedSealed)).2.1
    exact forall_mem_sentences Node.isSealed_raw Node.isSealed_emptyLiteral hp hinside

omit hl in
theorem Interior.separators_ofFields {field : List Node} {rest : List (Text × List Node)} :
    ∀ s ∈ (ofFields offset field rest).separators, ∃ f ∈ rest, f.1 = s := by
  induction rest generalizing offset field with
  | nil =>
    unfold ofFields
    split <;> simp
  | cons f rest ih =>
    simp only [ofFields, List.forall_mem_cons, List.exists_mem_cons_iff, true_or, true_and]
    exact fun s hs => .inr (ih s hs)

/-- **Splitting**: the separators of a group that a parse makes are commas, and no comma of a parameter stands outside of
brackets within it. -/
theorem MakesGroup.splits {o : Int} {ss : List Node} (h : MakesGroup l offset ss o w params)
    (hs : ∀ n ∈ ss, n.IsSealed) :
    (∀ s ∈ (w.inside l.grammar.separator o).separators, IsComma s) ∧ ∀ q ∈ params, Sealed q.sourceText := by
  have hb : DistinctBrackets l.grammar.brackets := hl ▸ distinctBrackets_default
  have hseparator : l.grammar.separator = .spaced ',' := congrArg Grammar.separator hl
  cases h with
  | mk h hlexed hr hw hp =>
    have hlexedSealed := forall_mem_lexStage Node.isSealed_raw (fun _ _ _ => Node.isSealed_leaf) hlexed (h.isSealed hl hs)
    have hinside := (forall_mem_window Node.isSealed_raw hb hw (Work.Reaches.isSealed hl hr hlexedSealed)).2.1
    rw [hseparator] at hp ⊢
    refine ⟨fun s hmem => ?_, sealed_params hl hinside hp⟩
    obtain ⟨f, hf, rfl⟩ := Interior.separators_ofFields s hmem
    exact isComma_fields f hf

end Default

/-- **A nested text** parses exactly when its commas fit. The groups of its tree are then split at all the commas that stand
directly within their own pair of brackets, and at no others. -/
theorem parse_nested_iff (resolve : Text → Option Function) {t : Text} (ht : Nested t) :
    ((Formula.parse ⟨.default, resolve⟩ t).failure = none ↔ CommasFit t) ∧
      ((Formula.parse ⟨.default, resolve⟩ t).failure = none →
        ∀ b ps, .group b ps ∈ (Formula.parse ⟨.default, resolve⟩ t).formula.root.walk →
          (∀ s ∈ b.separators, IsComma s) ∧ ∀ q ∈ ps, Sealed q.sourceText) := by
  rw [Formula.parse_failure_eq_none_iff]
  refine ⟨(parseText_ok_iff rfl).trans (and_iff_right ht), ?_⟩
  rintro ⟨out, hout⟩ b ps hg
  rw [Formula.root_parse_of_ok hout] at hg
  exact everyGroup_parseText (P := fun separators ps => (∀ s ∈ separators, IsComma s) ∧ ∀ q ∈ ps, Sealed q.sourceText)
    distinctBrackets_default (fun _ _ _ hmade => hmade.splits rfl (forall_mem_raws Node.isSealed_raw t)) hout hg

theorem parse_nested_iff_call :
    Nested "\x7bf[1, (2)],[ ,3]\x7d".toList ∧
      (Formula.parse .default "\x7bf[1, (2)],[ ,3]\x7d".toList).failure = none ∧
      ∀ b ps, .group b ps ∈ (Formula.parse .default "\x7bf[1, (2)],[ ,3]\x7d".toList).formula.root.walk →
        (∀ s ∈ b.separators, IsComma s) ∧ ∀ q ∈ ps, Sealed q.sourceText := by
  have ht : Nested "\x7bf[1, (2)],[ ,3]\x7d".toList ∧ CommasFit "\x7bf[1, (2)],[ ,3]\x7d".toList := by decide
  obtain ⟨hiff, hsplit⟩ := parse_nested_iff Language.default.resolve ht.1
  exact ⟨ht.1, hiff.2 ht.2, hsplit (hiff.2 ht.2)⟩

/-- The comma of a pair of square brackets cuts the round pair around it, which is collapsed first. -/
theorem parse_nested_square :
    Nested "([1,2])".toList ∧ (Formula.parse .default "([1,2])".toList).failure ≠ none := by
  have hnested : openAfter "([1,2])".toList = some [] := by decide
  have hfailure : (Formula.parse .default "([1,2])".toList).failure.isSome = true := by decide +kernel
  exact ⟨hnested, Option.isSome_iff_ne_none.1 hfailure⟩

end FormulaLang
