import FormulaLang.Formula.Basic
import FormulaLang.Proofs.Fold.Total
import FormulaLang.Proofs.Nesting.Fields

/-!
# Which texts parse

Under the default grammar only the brackets decide whether a text parses. The search for the next group ends without one
when every mark left is a comma (`absent_iff`), fails at a bracket that has no partner (`scan_ne_of_unmatched`), or finds a
pair that may be taken out of the text together with the fields between its brackets (`window_iff`). By induction on the raw
text the group stage succeeds exactly where one pass over the marks does (`groupStage_ok_iff`), and so does a parse
(`parseText_ok_iff`).
-/

namespace FormulaLang

open Nesting
open Reading (marks)

/-! ## The next group and one pass -/

theorem closer_mem_defaultBrackets (k : Kind) : ([k.opener], [k.closer]) ∈ Grammar.defaultBrackets := by
  rw [defaultBrackets_eq]
  exact List.mem_map_of_mem (f := fun k : Kind => ([k.opener], [k.closer])) (by cases k <;> decide)

theorem closer_not_mem_of_absent {ss : List Node} (h : nextGroup Grammar.defaultBrackets ss = .absent) (k : Kind) :
    k.closer ∉ marks.nodes ss := by
  have hfree := (nextGroup_absent_iff distinctBrackets_default).1 h _ (closer_mem_defaultBrackets k)
  exact (Reading.firstPlace?_eq_none_iff (isMark_closer k)).1 hfree

theorem strayOpener?_eq_none_iff {ss : List Node} :
    strayOpener? Grammar.defaultBrackets ss = none ↔ ∀ k : Kind, k.opener ∉ marks.nodes ss := by
  rw [strayOpener?, List.findSome?_eq_none_iff]
  constructor
  · intro h k
    have hk := h _ (closer_mem_defaultBrackets k)
    exact (Reading.firstPlace?_eq_none_iff (isMark_opener k)).1 (Option.map_eq_none_iff.1 hk)
  · intro h
    rw [defaultBrackets_eq, List.forall_mem_map]
    exact fun k _ => Option.map_eq_none_iff.2 ((Reading.firstPlace?_eq_none_iff (isMark_opener k)).2 (h k))

theorem Reading.isMark_of_mem_marks {c : Char} {ss : List Node} (h : c ∈ marks.nodes ss) : isMark c = true := by
  obtain ⟨n, -, hn⟩ := List.mem_flatMap.1 h
  exact (List.mem_filter.1 hn).2

/-- A buffer without brackets has commas alone. -/
theorem Reading.comma_of_mem_marks {ss : List Node} (ho : ∀ k : Kind, k.opener ∉ marks.nodes ss)
    (hc : ∀ k : Kind, k.closer ∉ marks.nodes ss) : ∀ c ∈ marks.nodes ss, c = ',' := by
  intro c hmem
  have hmark := isMark_of_mem_marks hmem
  simp only [isMark, Bool.or_eq_true, beq_iff_eq, Option.isSome_iff_exists] at hmark
  rcases hmark with (rfl | ⟨k, hk⟩) | ⟨k, hk⟩
  · rfl
  · exact absurd (opener_of_opening? hk ▸ hmem) (ho k)
  · exact absurd (closer_of_closing? hk ▸ hmem) (hc k)

/-- Where no closing bracket is left, no opening one may be. -/
theorem absent_iff {ss : List Node} (h : nextGroup Grammar.defaultBrackets ss = .absent) :
    strayOpener? Grammar.defaultBrackets ss = none ↔ scan [] (marks.nodes ss) = some [] := by
  rw [strayOpener?_eq_none_iff]
  constructor
  · exact fun ho => scan_commas (Reading.comma_of_mem_marks ho (closer_not_mem_of_absent h))
  · exact fun hscan k ho => scan_ne_nil_of_opener ho (closer_not_mem_of_absent h k) hscan

/-- A closing bracket without an opening one in front of it. -/
theorem scan_ne_of_unmatched {ss buffer : List Node} {closer : Text} {index : Nat}
    (h : nextGroup Grammar.defaultBrackets ss = .unmatched closer buffer index) :
    scan [] (marks.nodes ss) ≠ some [] := by
  obtain ⟨earlier, later, a, b, p, hbr, -, -, hp, hq, -⟩ := nextGroup_unmatched_cases distinctBrackets_default h
  obtain ⟨k, rfl, rfl, -⟩ := Reading.kind_of_defaultBrackets hbr
  have hdivide := marks.nodes_firstPlace hp
  have hfront : k.opener ∉ marks.nodes p.before ++ marks.node (.raw p.head) := by
    rw [← marks.nodes_raws, ← marks.nodes_append]
    exact (Reading.lastPlace?_eq_none_iff (isMark_opener k)).1 hq
  have hcloser : marks.node (.raw [k.closer]) = [k.closer] := by simp [Reading.marks_raw, isMark_closer]
  rw [hdivide, hcloser, List.append_assoc, List.append_assoc, List.singleton_append]
  exact scan_ne_nil_of_closer hfront

/-- The pair of brackets of a window may be taken out, with the parameters between them. -/
theorem window_iff {ss : List Node} {w : Window} (h : nextGroup Grammar.defaultBrackets ss = .window w) (offset : Int) :
    scan [] (marks.nodes ss) = some [] ↔
      (∀ p ∈ (w.inside (.spaced ',') offset).params, scan [] (marks.nodes p.sentences) = some []) ∧
        scan [] (marks.nodes w.before ++ marks.nodes w.after) = some [] := by
  obtain ⟨k, -, -, hdivide, ho, hc, hearlier⟩ := Reading.marks_window h
  obtain ⟨hjoin, hcomma⟩ := Reading.marks_fields w.interior rfl
  have hsub : ∀ g ∈ marks.nodes (fields (w.interior.flatMap (cutSentence (.spaced ',')))).1 ::
      (fields (w.interior.flatMap (cutSentence (.spaced ',')))).2.map (fun f => marks.nodes f.2),
      ∀ c ∈ g, c ∈ marks.nodes w.interior := by
    intro g hg c hcg
    rw [hjoin, joinFields, List.mem_append, List.mem_flatMap]
    rcases List.mem_cons.1 hg with rfl | hg
    · exact .inl hcg
    · exact .inr ⟨g, hg, List.mem_cons_of_mem _ hcg⟩
  rw [hdivide, hjoin, scan_window_iff]
  · refine and_congr_left fun _ => ?_
    exact (Reading.skipsBlanks_marks.forall_params_iff (P := fun g => scan [] g = some []) rfl).symm
  · intro g hg
    refine ⟨hcomma g hg, fun hmem => ho (hsub g hg _ hmem), fun j hj hmem => ?_⟩
    rcases Nat.lt_or_eq_of_le hj with hlt | heq
    · refine hearlier j hlt ?_
      rw [hdivide]
      simp [hsub g hg _ hmem]
    · cases rank_injective heq
      exact hc (hsub g hg _ hmem)
  · intro j hj hmem
    refine hearlier j hj ?_
    rw [hdivide]
    simp [hmem]

/-- A collapse takes the marks of the window out. -/
theorem marks_collapse (l : Language) (offset : Int) (w : Window) (params : List Node) :
    marks.nodes (w.collapse l offset params) = marks.nodes w.before ++ marks.nodes w.after := by
  rw [Window.collapse, Reading.nodes_append, Reading.nodes_cons, Reading.marks_of_not_isRaw rfl, List.nil_append]

/-! ## Parses that succeed -/

theorem exists_parseParams_iff {l : Language} {ps : List Param} :
    (∃ ns, parseParams l ps = .ok ns) ↔ ∀ p ∈ ps, ∃ n, parseParam l p = .ok n := by
  simp only [parseParams_ok_iff]
  constructor
  · rintro ⟨ns, h⟩
    induction h with
    | nil => simp
    | cons hp _ ih => exact List.forall_mem_cons.2 ⟨⟨_, hp⟩, ih⟩
  · intro h
    induction ps with
    | nil => exact ⟨[], .nil⟩
    | cons p ps ih =>
      rw [List.forall_mem_cons] at h
      obtain ⟨n, hn⟩ := h.1
      obtain ⟨ns, hns⟩ := ih h.2
      exact ⟨n :: ns, .cons hn hns⟩

section Default

variable {l : Language} (hl : l.grammar = .default)

include hl

/-- Only the group stage can fail. -/
theorem parseBuffer_ok_iff_groupStage {offset : Int} {ss lexed : List Node}
    (h : (lexStage l.grammar offset ss).result = .ok lexed) :
    (∃ out, (parseBuffer l offset ss).result = .ok out) ↔ ∃ grouped, (groupStage l offset lexed).result = .ok grouped := by
  simp only [parseBuffer_ok_iff_stages, foldStage_ok_iff]
  constructor
  · rintro ⟨out, lexed', grouped, hlexed, hg, -⟩
    cases h.symm.trans hlexed
    exact ⟨grouped, hg⟩
  · rintro ⟨grouped, hg⟩
    have hsuits : ∀ t ∈ l.grammar.tiers, ∀ r ∈ t.rules, r.suits = true := hl ▸ suits_default
    have hfold : ∃ out, (foldTiers l.grammar.tiers l.resolve grouped).result = .ok out := foldTiers_ok hsuits grouped
    obtain ⟨out, hout⟩ := hfold
    exact ⟨out, lexed, grouped, h, hg, hout⟩

theorem lexStage_default_ok (offset : Int) (ss : List Node) :
    ∃ lexed, (lexStage l.grammar offset ss).result = .ok lexed ∧ marks.nodes lexed = marks.nodes ss := by
  have hr : Readable l.grammar.leaves := hl ▸ readable_default
  obtain ⟨lexed, h⟩ := lexStage_ok hr offset ss
  exact ⟨lexed, h, Reading.nodes_lexStage (Reading.readsLeaves_marks _) h⟩

/-- **The group stage** succeeds where one pass over the marks does. -/
theorem groupStage_ok_iff {offset : Int} {ss : List Node} :
    (∃ out, (groupStage l offset ss).result = .ok out) ↔ scan [] (marks.nodes ss) = some [] := by
  induction hn : rawLength ss using Nat.strong_induction_on generalizing offset ss with
  | _ n ih =>
    have hbrackets : l.grammar.brackets = Grammar.defaultBrackets := congrArg Grammar.brackets hl
    have hseparator : l.grammar.separator = .spaced ',' := congrArg Grammar.separator hl
    rw [result_groupStage]
    cases hw : nextGroup l.grammar.brackets ss with
    | absent =>
      rw [hbrackets] at hw ⊢
      rw [← absent_iff hw]
      cases strayOpener? Grammar.defaultBrackets ss <;> simp
    | unmatched closer buffer index =>
      rw [hbrackets] at hw
      exact iff_of_false (by simp) (scan_ne_of_unmatched hw)
    | window w =>
      have hparam : ∀ p ∈ (w.inside l.grammar.separator offset).params,
          (∃ n, parseParam l p = .ok n) ↔ scan [] (marks.nodes p.sentences) = some [] := by
        intro p hp
        obtain ⟨lexed, hlexed, hmarks⟩ := lexStage_default_ok hl p.offset p.sentences
        have hlt : rawLength lexed < n := hn ▸ rawLength_param_lt hw hp hlexed
        have hgroup : (∃ out, (groupStage l p.offset lexed).result = .ok out) ↔ scan [] (marks.nodes lexed) = some [] :=
          ih _ hlt rfl
        rw [← hmarks, ← hgroup, ← parseBuffer_ok_iff_groupStage hl hlexed]
        simp [parseParam_ok_iff]
      have hparams : (∃ ns, parseParams l (w.inside l.grammar.separator offset).params = .ok ns) ↔
          ∀ p ∈ (w.inside l.grammar.separator offset).params, scan [] (marks.nodes p.sentences) = some [] := by
        rw [exists_parseParams_iff]
        exact forall₂_congr hparam
      rw [window_iff (hbrackets ▸ hw) offset, ← hseparator, ← hparams]
      cases hp : parseParams l (w.inside l.grammar.separator offset).params with
      | error e => simp [hp]
      | ok params =>
        have hlt : rawLength (w.collapse l offset params) < n := hn ▸ rawLength_collapse_lt hw
        have hrest : (∃ out, (groupStage l offset (w.collapse l offset params)).result = .ok out) ↔
            scan [] (marks.nodes (w.collapse l offset params)) = some [] := ih _ hlt rfl
        rw [← marks_collapse l offset w params, ← hrest]
        simp [hp]

/-- **A text parses** exactly when its brackets are nested and its commas fit. -/
theorem parseText_ok_iff {t : Text} : (∃ out, (parseText l t).result = .ok out) ↔ Nested t ∧ CommasFit t := by
  obtain ⟨lexed, hlexed, hmarks⟩ := lexStage_default_ok hl 0 (Node.raws t)
  rw [parseText, parseBuffer_ok_iff_groupStage hl hlexed, groupStage_ok_iff hl, hmarks, Reading.nodes_raws,
    Reading.marks_raw, scan_filter, scan_nil_iff]

end Default

end FormulaLang
