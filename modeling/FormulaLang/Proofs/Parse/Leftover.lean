import FormulaLang.Formula.Session
import FormulaLang.Proofs.Nesting.Acceptance
import FormulaLang.Proofs.Parse.Doubled
import FormulaLang.Proofs.Parse.Events
import FormulaLang.Proofs.Parse.Lossless
import FormulaLang.Proofs.Text.Visible

/-!
# What a failed parse leaves of a text

Under the default grammar a parse fails at a bracket alone. The buffer in which it fails is a slice of the text, and the
sentences of the buffer in which it began still make up the text (`FailsIn`, `failsIn_of_groupStage`). But the nodes of the
outermost group that was being made have been sentences of its parameters too, and the white space that they have taken up
there stands beside them as raw text still: it is doubled, and nothing else is (`Sharing.sublist_withTaken`,
`Sharing.visible_withTaken`, `Sharing.sourceTexts_withTaken_iff`). Which nodes these are, the text tells: those beside which
white space stands once the groups of their parameter are made (`isSome_lookup_parseText_iff`). The main result is
`sourceText_failed_parse`.
-/

namespace FormulaLang

open Node (sourceTexts sourceTexts_append)

/-! ## Where a parse fails -/

/-- The failure `f` of the work on the buffer `ss` at `offset`: the buffer in which it arose is a slice of the text, and
the sentences around it make up the whole text. -/
structure FailsIn (offset : Int) (ss : List Node) (f : Failure) : Prop where
  slice : ∃ x y, sourceTexts ss = x ++ sourceTexts f.equation ++ y ∧ f.offset = offset + x.length
  self : f.around = none → sourceTexts f.equation = sourceTexts ss
  window : ∀ w ∈ f.around, Unpadded w.interior ∧
    sourceTexts ss = sourceTexts w.before ++ (w.opener ++ sourceTexts w.interior ++ w.closer) ++ sourceTexts w.after

theorem FailsIn.of_sourceTexts_eq {offset : Int} {ss ss' : List Node} {f : Failure} (h : FailsIn offset ss f)
    (ht : sourceTexts ss' = sourceTexts ss) : FailsIn offset ss' f where
  slice := ht ▸ h.slice
  self := ht ▸ h.self
  window := ht ▸ h.window

/-- A failure of the buffer itself. -/
theorem failsIn_self {offset : Int} {ss : List Node} {f : Failure} (heq : sourceTexts f.equation = sourceTexts ss)
    (ho : f.offset = offset) (ha : f.around = none) : FailsIn offset ss f where
  slice := ⟨[], [], by simp [heq], by simp [ho]⟩
  self _ := heq
  window w hw := by simp [ha] at hw

/-- A parameter is a slice of the interior, and what fails in it is a slice of the parameter. -/
theorem FailsIn.within {separator : Separator} {offset : Int} {ss : List Node} {w : Window} {p : Param} {e : Failure}
    (h : FailsIn p.offset p.sentences e) (hp : p ∈ (w.inside separator offset).params) (hinside : Unpadded w.interior)
    (htext : sourceTexts ss =
      sourceTexts w.before ++ (w.opener ++ sourceTexts w.interior ++ w.closer) ++ sourceTexts w.after) :
    FailsIn offset ss (.within w e) := by
  obtain ⟨x, y, hxy, ho⟩ := h.slice
  obtain ⟨u, v, huv, hpo⟩ := Interior.slice_ofSentences hp
  refine ⟨⟨sourceTexts w.before ++ w.opener ++ u ++ x, y ++ v ++ w.closer ++ sourceTexts w.after, ?_, ?_⟩, ?_, ?_⟩
  · rw [htext, huv, hxy]
    simp only [Failure.within, List.append_assoc]
  · have hoffset : (Failure.within w e).offset = e.offset := rfl
    rw [hoffset, ho, hpo]
    simp only [List.length_append]
    omega
  · exact fun ha => by cases ha
  · rintro w' ⟨⟩
    exact ⟨hinside, htext⟩

section Grouping

variable {l : Language}

theorem parseParam_error_iff {p : Param} {e : Failure} :
    parseParam l p = .error e ↔ (parseBuffer l p.offset p.sentences).result = .error e := by
  unfold parseParam
  cases (parseBuffer l p.offset p.sentences).result <;> simp [Except.map]

theorem parseParams_error {ps : List Param} {e : Failure} (h : parseParams l ps = .error e) :
    ∃ p ∈ ps, parseParam l p = .error e := by
  induction ps with
  | nil => cases h
  | cons p ps ih =>
    rw [parseParams, List.mapM_cons] at h
    cases hp : parseParam l p with
    | error e' =>
      rw [hp] at h
      cases h
      exact ⟨p, List.mem_cons_self, hp⟩
    | ok n =>
      cases hps : ps.mapM (parseParam l) with
      | error e' =>
        rw [hp, hps] at h
        cases h
        obtain ⟨q, hq, hqe⟩ := ih hps
        exact ⟨q, List.mem_cons_of_mem _ hq, hqe⟩
      | ok rest =>
        rw [hp, hps] at h
        cases h

/-- A group stage fails at a bracket, in a parameter of the window that it has found, or once that window is collapsed. -/
theorem groupStage_error_cases {offset : Int} {ss : List Node} {f : Failure}
    (h : (groupStage l offset ss).result = .error f) :
    (∃ opener p, strayOpener? l.grammar.brackets ss = some (opener, p) ∧ f = .ofOpener offset opener ss p) ∨
      (∃ closer buffer index, nextGroup l.grammar.brackets ss = .unmatched closer buffer index ∧
        f = .ofCloser offset closer buffer index) ∨
      ∃ w, nextGroup l.grammar.brackets ss = .window w ∧
        ((∃ p ∈ (w.inside l.grammar.separator offset).params, ∃ e, parseParam l p = .error e ∧ f = .within w e) ∨
          ∃ params, parseParams l (w.inside l.grammar.separator offset).params = .ok params ∧
            (groupStage l offset (w.collapse l offset params)).result = .error f) := by
  rw [result_groupStage] at h
  split at h
  · split at h
    · rename_i hstray
      cases h
      exact .inl ⟨_, _, hstray, rfl⟩
    · cases h
  · rename_i closer buffer index hw
    cases h
    exact .inr (.inl ⟨closer, buffer, index, hw, rfl⟩)
  · rename_i w hw
    refine .inr (.inr ⟨w, hw, ?_⟩)
    split at h
    · rename_i e he
      cases h
      obtain ⟨p, hp, hpe⟩ := parseParams_error he
      exact .inl ⟨p, hp, e, hpe, rfl⟩
    · rename_i params hparams
      exact .inr ⟨params, hparams, h⟩

theorem sourceTexts_unmatched {brackets : List (Text × Text)} (hb : DistinctBrackets brackets) {ss buffer : List Node}
    {closer : Text} {index : Nat} (h : nextGroup brackets ss = .unmatched closer buffer index) :
    sourceTexts buffer = sourceTexts ss := by
  obtain ⟨-, -, a, b, p, -, -, -, hp, -, -, rfl, -⟩ := nextGroup_unmatched_cases hb h
  simp only [← Reading.nodes_source]
  rw [Reading.source.nodes_firstPlace hp]
  simp

section Default

variable (hl : l.grammar = .default)

include hl

/-- The only stage that fails is the group stage. -/
theorem groupStage_of_parseBuffer_error {offset : Int} {ss : List Node} {f : Failure}
    (h : (parseBuffer l offset ss).result = .error f) :
    ∃ lexed, (lexStage l.grammar offset ss).result = .ok lexed ∧ (groupStage l offset lexed).result = .error f := by
  obtain ⟨lexed, hlexed, -⟩ := lexStage_default_ok hl offset ss
  refine ⟨lexed, hlexed, ?_⟩
  have hiff := parseBuffer_ok_iff_groupStage hl hlexed
  cases hg : (groupStage l offset lexed).result with
  | error e => simpa [parseBuffer, Traced.result_bind, hlexed, hg, Except.bind] using h
  | ok grouped =>
    obtain ⟨out, hout⟩ := hiff.2 ⟨grouped, hg⟩
    cases hout.symm.trans h

/-- What holds of the failures at a bracket, and is passed on from a parameter and from the buffer in which a window is
collapsed, holds of every group stage that fails. -/
theorem groupStage_error_induction {motive : Int → List Node → Failure → Prop}
    (opener : ∀ offset ss opener p, strayOpener? l.grammar.brackets ss = some (opener, p) →
      motive offset ss (.ofOpener offset opener ss p))
    (closer : ∀ offset ss closer buffer index, nextGroup l.grammar.brackets ss = .unmatched closer buffer index →
      motive offset ss (.ofCloser offset closer buffer index))
    (param : ∀ offset ss w p lexed e, nextGroup l.grammar.brackets ss = .window w →
      p ∈ (w.inside l.grammar.separator offset).params → (lexStage l.grammar p.offset p.sentences).result = .ok lexed →
      motive p.offset lexed e → motive offset ss (.within w e))
    (collapse : ∀ offset ss w params f, nextGroup l.grammar.brackets ss = .window w →
      parseParams l (w.inside l.grammar.separator offset).params = .ok params →
      motive offset (w.collapse l offset params) f → motive offset ss f)
    {offset : Int} {ss : List Node} {f : Failure} (h : (groupStage l offset ss).result = .error f) :
    motive offset ss f := by
  induction hn : rawLength ss using Nat.strong_induction_on generalizing offset ss f with
  | _ n ih =>
    rcases groupStage_error_cases h with ⟨o, p, hstray, rfl⟩ | ⟨c, buffer, index, hw, rfl⟩ | ⟨w, hw, hcases⟩
    · exact opener offset ss o p hstray
    · exact closer offset ss c buffer index hw
    · rcases hcases with ⟨p, hp, e, hpe, rfl⟩ | ⟨params, hparams, hrest⟩
      · obtain ⟨lexed, hlexed, hg⟩ := groupStage_of_parseBuffer_error hl (parseParam_error_iff.1 hpe)
        exact param offset ss w p lexed e hw hp hlexed (ih _ (hn ▸ rawLength_param_lt hw hp hlexed) hg rfl)
      · exact collapse offset ss w params f hw hparams (ih _ (hn ▸ rawLength_collapse_lt hw) hrest rfl)

/-- **A failed group stage**. -/
theorem failsIn_of_groupStage {offset : Int} {ss : List Node} {f : Failure} (hs : Unpadded ss)
    (h : (groupStage l offset ss).result = .error f) : FailsIn offset ss f := by
  have hb : DistinctBrackets l.grammar.brackets := hl ▸ distinctBrackets_default
  revert hs
  refine groupStage_error_induction hl (motive := fun offset ss f => Unpadded ss → FailsIn offset ss f) ?_ ?_ ?_ ?_ h
  · exact fun offset ss opener p _ _ => failsIn_self rfl rfl rfl
  · exact fun offset ss closer buffer index hw _ => failsIn_self (sourceTexts_unmatched hb hw) rfl rfl
  · intro offset ss w p lexed e hw hp hlexed ih hs
    obtain ⟨-, hinside, -⟩ := hs.window hb hw
    have hparam : FailsIn p.offset lexed e := ih ((hinside.sentences hp).lexStage hlexed)
    exact (hparam.of_sourceTexts_eq (sourceTexts_lexStage hlexed).symm).within hp hinside (sourceTexts_window hb hw)
  · intro offset ss w params f hw hparams ih hs
    obtain ⟨hbefore, -, hafter⟩ := hs.window hb hw
    have hcollapse : sourceTexts (w.collapse l offset params) = sourceTexts ss :=
      sourceTexts_collapse hb hw ((parseParams_ok_iff.1 hparams).imp fun p n => sourceText_parseParam hb)
    exact (ih (hbefore.collapse hafter l offset params)).of_sourceTexts_eq hcollapse.symm

end Default

end Grouping

/-! ## White space that shared nodes have taken up -/

namespace Pad

variable (p : Pad) (t : Text)

theorem sublist_wrap : t.Sublist (p.wrap t) :=
  (List.infix_append p.before t p.after).sublist

/-- Only no white space adds nothing to a text. -/
theorem wrap_eq_iff : p.wrap t = t ↔ p = .none := by
  constructor
  · intro h
    have hlength := congrArg List.length h
    simp only [wrap, List.length_append] at hlength
    have hbefore : p.before = [] := List.eq_nil_of_length_eq_zero (by omega)
    have hafter : p.after = [] := List.eq_nil_of_length_eq_zero (by omega)
    cases p
    simp_all [Pad.none]
  · rintro rfl
    simp [wrap, Pad.none]

variable {p} in
theorem IsBlank.visible_wrap (h : p.IsBlank) : (p.wrap t).visible = t.visible := by
  rw [wrap, Text.visible_append, Text.visible_append, Text.visible_eq_nil_iff.2 h.before,
    Text.visible_eq_nil_iff.2 h.after, List.nil_append, List.append_nil]

end Pad

theorem Node.sourceText_of_pad {n : Node} (h : n.pad = .none) : n.sourceText = n.coreText := by
  rw [Node.sourceText_eq_wrap, h]
  exact (Pad.wrap_eq_iff _ _).2 rfl

/-- A node with the white space that it has taken up, if any. -/
theorem Node.sourceText_elim {n : Node} (hn : n.isRaw = false) (hpad : n.pad = .none) (o : Option Pad) :
    (o.elim n (n.withPad ·)).sourceText = (o.getD .none).wrap n.sourceText := by
  rw [Node.sourceText_of_pad hpad]
  cases o with
  | none => exact Node.sourceText_eq_wrap n ▸ hpad ▸ rfl
  | some p => exact Node.sourceText_withPad hn p

/-- Texts side by side that have only grown are the same when each of them is. -/
theorem append_eq_append_iff_of_sublist {α : Type} {xs xs' ys ys' : List α} (hx : xs.Sublist xs') (hy : ys.Sublist ys') :
    xs' ++ ys' = xs ++ ys ↔ xs' = xs ∧ ys' = ys := by
  constructor
  · intro h
    have hlength := congrArg List.length h
    have hxl := hx.length_le
    have hyl := hy.length_le
    simp only [List.length_append] at hlength
    exact List.append_inj h (by omega)
  · rintro ⟨rfl, rfl⟩
    rfl

namespace Sharing

/-- What marked nodes have taken up is white space, and some of it. -/
def TakesSpace (s : Sharing) : Prop :=
  ∀ x ∈ s.taken, x.2.IsBlank ∧ x.2 ≠ .none

theorem TakesSpace.step {s : Sharing} (hs : s.TakesSpace) {e : Event} (he : e.TakesSpace) : (s.step e).TakesSpace := by
  unfold Sharing.step
  split
  · exact fun _ hx => by cases hx
  · exact hs
  · exact hs
  · exact hs
  · exact hs
  · exact hs
  · exact hs
  · split
    · exact List.forall_mem_cons.2 ⟨he, hs⟩
    · exact hs
  · exact hs
  · exact hs

theorem takesSpace_ofEvents {events : List Event} (h : ∀ e ∈ events, e.TakesSpace) : (ofEvents events).TakesSpace := by
  have hfold (s : Sharing) (hs : s.TakesSpace) : (events.foldl Sharing.step s).TakesSpace := by
    induction events generalizing s with
    | nil => exact hs
    | cons e events ih =>
      rw [List.forall_mem_cons] at h
      exact ih h.2 _ (hs.step h.1)
  exact hfold start fun _ hx => by cases hx

variable {s : Sharing} {ss : List Node}

theorem TakesSpace.of_lookup (hs : s.TakesSpace) {mark : Nat} {p : Pad} (h : s.taken.lookup mark = some p) :
    p.IsBlank ∧ p ≠ .none := by
  obtain ⟨front, back, heq, -⟩ := List.lookup_eq_some_iff.1 h
  exact hs (mark, p) (by simp [heq])

theorem TakesSpace.getD_eq_none_iff (hs : s.TakesSpace) (mark : Nat) :
    (s.taken.lookup mark).getD .none = .none ↔ s.taken.lookup mark = none := by
  cases h : s.taken.lookup mark with
  | none => simp
  | some p => simpa using (hs.of_lookup h).2

theorem TakesSpace.isBlank_getD (hs : s.TakesSpace) (mark : Nat) : ((s.taken.lookup mark).getD .none).IsBlank := by
  cases h : s.taken.lookup mark with
  | none => exact Pad.isBlank_none
  | some p => exact (hs.of_lookup h).1

theorem sourceTexts_withTaken_raw (mark : Nat) {n : Node} (h : n.isRaw = true) (rest : List Node) :
    sourceTexts (s.withTaken mark (n :: rest)) = n.sourceText ++ sourceTexts (s.withTaken mark rest) := by
  rw [withTaken, if_pos h, sourceTexts]

theorem sourceTexts_withTaken_node (mark : Nat) {n : Node} (h : n.isRaw = false) (hpad : n.pad = .none)
    (rest : List Node) :
    sourceTexts (s.withTaken mark (n :: rest)) =
      ((s.taken.lookup mark).getD .none).wrap n.sourceText ++ sourceTexts (s.withTaken (mark + 1) rest) := by
  rw [withTaken, if_neg (by simp [h]), sourceTexts, Node.sourceText_elim h hpad]

/-- Nothing is lost. -/
theorem sublist_withTaken (hss : Unpadded ss) (mark : Nat) :
    (sourceTexts ss).Sublist (sourceTexts (s.withTaken mark ss)) := by
  induction ss generalizing mark with
  | nil => exact List.Sublist.refl _
  | cons n ss ih =>
    simp only [Unpadded, List.forall_mem_cons] at hss
    cases hn : n.isRaw with
    | true =>
      rw [sourceTexts_withTaken_raw mark hn]
      exact (List.Sublist.refl _).append (ih hss.2 mark)
    | false =>
      rw [sourceTexts_withTaken_node mark hn hss.1]
      exact (Pad.sublist_wrap _ _).append (ih hss.2 (mark + 1))

/-- Nothing but white space is doubled. -/
theorem visible_withTaken (hs : s.TakesSpace) (hss : Unpadded ss) (mark : Nat) :
    (sourceTexts (s.withTaken mark ss)).visible = (sourceTexts ss).visible := by
  induction ss generalizing mark with
  | nil => rfl
  | cons n ss ih =>
    simp only [Unpadded, List.forall_mem_cons] at hss
    cases hn : n.isRaw with
    | true => rw [sourceTexts_withTaken_raw mark hn, sourceTexts, Text.visible_append, Text.visible_append, ih hss.2]
    | false =>
      rw [sourceTexts_withTaken_node mark hn hss.1, sourceTexts, Text.visible_append, Text.visible_append, ih hss.2,
        (hs.isBlank_getD mark).visible_wrap]

/-- It is doubled where a node has taken up some. -/
theorem sourceTexts_withTaken_iff (hs : s.TakesSpace) (hss : Unpadded ss) (mark : Nat) :
    sourceTexts (s.withTaken mark ss) = sourceTexts ss ↔ ∀ i < nodeCount ss, s.taken.lookup (mark + i) = none := by
  induction ss generalizing mark with
  | nil => simp [withTaken, nodeCount]
  | cons n ss ih =>
    simp only [Unpadded, List.forall_mem_cons] at hss
    cases hn : n.isRaw with
    | true =>
      rw [sourceTexts_withTaken_raw mark hn, nodeCount_cons_raw hn, ← ih hss.2, sourceTexts]
      exact List.append_right_inj _
    | false =>
      rw [sourceTexts_withTaken_node mark hn hss.1, nodeCount_cons_node hn, Nat.forall_lt_succ_left, sourceTexts,
        append_eq_append_iff_of_sublist (Pad.sublist_wrap _ _) (sublist_withTaken hss.2 (mark + 1)), Pad.wrap_eq_iff,
        hs.getD_eq_none_iff, ih hss.2]
      simp only [Nat.add_zero, Nat.add_assoc, Nat.add_comm 1]

end Sharing

/-! ## Failed parses -/

section Failed

variable {l : Language} {t : Text} {f : Failure}

theorem Formula.parse_failure_eq_some_iff : (Formula.parse l t).failure = some f ↔ (parseText l t).result = .error f := by
  unfold Formula.parse Formula.settle
  cases (parseText l t).result <;> simp

theorem Formula.sourceText_parse_of_error (h : (parseText l t).result = .error f) :
    (Formula.parse l t).formula.sourceText = sourceTexts (f.left (parseText l t).events) := by
  simp [Formula.sourceText, Formula.parse, Formula.settle, h, Node.sourceText, Pad.wrap, Pad.none]

theorem Formula.events_parse : (Formula.parse l t).events = (parseText l t).events := by
  unfold Formula.parse Formula.settle
  cases (parseText l t).result <;> rfl

theorem failsIn_parseText (hl : l.grammar = .default) (h : (parseText l t).result = .error f) :
    FailsIn 0 (Node.raws t) f := by
  obtain ⟨lexed, hlexed, hgroup⟩ := groupStage_of_parseBuffer_error hl h
  have hunpadded : Unpadded lexed := (unpadded_raws t).lexStage hlexed
  exact (failsIn_of_groupStage hl hunpadded hgroup).of_sourceTexts_eq (sourceTexts_lexStage hlexed).symm

/-- **The marks** that the trace of a failed parse has taken down are those of the nodes that take up white space. -/
theorem isSome_lookup_parseText_iff (hl : l.grammar = .default) (h : (parseText l t).result = .error f) {w : Window}
    (ha : f.around = some w) {mark : Nat} {x : Int} (hx : (w.innerStarts 0)[mark]? = some x) :
    ((Sharing.ofEvents (parseText l t).events).taken.lookup mark).isSome = true ↔
      SpaceTaken l (w.inside l.grammar.separator 0).params x := by
  obtain ⟨lexed, hlexed, hgroup⟩ := groupStage_of_parseBuffer_error hl h
  have hlex := lexStage_raws_ok_iff.1 hlexed
  obtain ⟨F, taken, hrun, htaken⟩ := taken_groupStage hl (isCut_lexText hl hlex) (hasTexts_lexText hlex) hgroup ha []
  have hcuts : ∃ cuts, (lexStage l.grammar 0 (Node.raws t)).events = [.lexed cuts] := by
    unfold lexStage at hlexed ⊢
    split at hlexed
    · cases hlexed
    · exact ⟨_, rfl⟩
  obtain ⟨cuts, hcuts⟩ := hcuts
  have hevents : Sharing.ofEvents (parseText l t).events = ⟨F, taken⟩ := by
    rw [Sharing.ofEvents, parseText, parseBuffer, Traced.bind_of_ok hlexed, Traced.bind_of_error hgroup,
      List.foldl_append, hcuts]
    exact hrun
  rw [isSome_lookup_iff, hevents]
  exact htaken mark x hx

end Failed

/-- What is left when a parameter of a window fails. -/
theorem Failure.sourceTexts_left {f : Failure} {w : Window} (ha : f.around = some w) (events : List Event) :
    sourceTexts (f.left events) = sourceTexts w.before ++
      (w.opener ++ sourceTexts ((Sharing.ofEvents events).withTaken 0 w.interior) ++ w.closer) ++ sourceTexts w.after := by
  simp [Failure.left, ha, sourceTexts_append, sourceTexts, Node.sourceText]

/-- What is left of the buffer `ss` has its text, with more white space where shared nodes have taken up some. -/
theorem FailsIn.sourceTexts_left {offset : Int} {ss : List Node} {f : Failure} (h : FailsIn offset ss f)
    {events : List Event} (hs : (Sharing.ofEvents events).TakesSpace) :
    (sourceTexts ss).Sublist (sourceTexts (f.left events)) ∧
      (sourceTexts (f.left events)).visible = (sourceTexts ss).visible ∧
      (sourceTexts (f.left events) = sourceTexts ss ↔ ∀ w ∈ f.around, ∀ mark < nodeCount w.interior,
        (Sharing.ofEvents events).taken.lookup mark = none) := by
  cases ha : f.around with
  | none =>
    have hleft : sourceTexts (f.left events) = sourceTexts ss := by
      rw [Failure.left, ha]
      exact h.self ha
    rw [hleft]
    simp
  | some w =>
    obtain ⟨hinside, htext⟩ := h.window w ha
    have hsublist := Sharing.sublist_withTaken (s := Sharing.ofEvents events) hinside 0
    have hiff := Sharing.sourceTexts_withTaken_iff hs hinside 0
    rw [Failure.sourceTexts_left ha, htext]
    refine ⟨?_, ?_, ?_⟩
    · have hopener := (List.Sublist.refl w.opener).append hsublist
      have hpair := hopener.append (List.Sublist.refl w.closer)
      exact ((List.Sublist.refl _).append hpair).append (List.Sublist.refl _)
    · simp only [Text.visible_append, Sharing.visible_withTaken hs hinside 0]
    · simp only [List.append_cancel_right_eq, List.append_cancel_left_eq, hiff, Nat.zero_add, Option.mem_some_iff,
        forall_eq']

/-- **A failed parse** of a text loses no character of it, and what it leaves has nothing but more white space. The text
stays as it is exactly when no node of the outermost group under work has taken up any. A node has done so exactly when white
space stands beside it in a parameter with which the parse has begun and whose groups it has made. The buffer in which the
parse failed is a slice of the text, at its own position. -/
theorem sourceText_failed_parse (resolve : Text → Option Function) {t : Text} {f : Failure}
    (h : (Formula.parse ⟨.default, resolve⟩ t).failure = some f) :
    (∃ x y, t = x ++ sourceTexts f.equation ++ y ∧ f.offset = x.length) ∧
      t.Sublist (Formula.parse ⟨.default, resolve⟩ t).formula.sourceText ∧
      (Formula.parse ⟨.default, resolve⟩ t).formula.sourceText.visible = t.visible ∧
      ((Formula.parse ⟨.default, resolve⟩ t).formula.sourceText = t ↔
        ∀ w ∈ f.around, ∀ mark < nodeCount w.interior,
          (Sharing.ofEvents (Formula.parse ⟨.default, resolve⟩ t).events).taken.lookup mark = none) ∧
      ∀ w ∈ f.around, ∀ mark x, (w.innerStarts 0)[mark]? = some x →
        (((Sharing.ofEvents (Formula.parse ⟨.default, resolve⟩ t).events).taken.lookup mark).isSome = true ↔
          SpaceTaken ⟨.default, resolve⟩ (w.inside Grammar.default.separator 0).params x) := by
  rw [Formula.parse_failure_eq_some_iff] at h
  have hfails : FailsIn 0 (Node.raws t) f := failsIn_parseText rfl h
  have htells := tells_parseText (l := ⟨.default, resolve⟩) distinctBrackets_default suits_default t
  have hslice := hfails.slice
  have hleft := hfails.sourceTexts_left (Sharing.takesSpace_ofEvents htells.events)
  rw [Node.sourceTexts_raws] at hslice hleft
  rw [Formula.sourceText_parse_of_error h, Formula.events_parse]
  obtain ⟨hsublist, hvisible, hkept⟩ := hleft
  exact ⟨by simpa using hslice, hsublist, hvisible, hkept, fun w hw mark x hx => isSome_lookup_parseText_iff rfl h hw hx⟩

theorem sourceText_failed_parse_call :
    ∃ f, (Formula.parse .default "2*f( 1 , [ x ]+y , 3 ] )".toList).failure = some f ∧
      (∃ x y, "2*f( 1 , [ x ]+y , 3 ] )".toList = x ++ sourceTexts f.equation ++ y ∧ f.offset = x.length) ∧
      (Formula.parse .default "2*f( 1 , [ x ]+y , 3 ] )".toList).formula.sourceText.visible =
        Text.visible "2*f( 1 , [ x ]+y , 3 ] )".toList := by
  have hfailure : (Formula.parse .default "2*f( 1 , [ x ]+y , 3 ] )".toList).failure.isSome = true := by
    decide +kernel
  obtain ⟨f, hf⟩ := Option.isSome_iff_exists.1 hfailure
  obtain ⟨hslice, -, hvisible, -⟩ := sourceText_failed_parse Language.default.resolve hf
  exact ⟨f, hf, hslice, hvisible⟩

/-- The number takes up the space in front of it as a sentence of the first parameter. The second one fails, and the space
is there twice. -/
theorem sourceText_failed_parse_doubled :
    (Formula.parse .default "( 1,])".toList).failure ≠ none ∧
      (Formula.parse .default "( 1,])".toList).formula.sourceText ≠ "( 1,])".toList := by
  have hfailure : (Formula.parse .default "( 1,])".toList).failure.isSome = true := by decide +kernel
  have htext : (Formula.parse .default "( 1,])".toList).formula.sourceText = "(  1,])".toList := by decide +kernel
  refine ⟨Option.isSome_iff_ne_none.1 hfailure, ?_⟩
  rw [htext]
  decide

end FormulaLang
