import FormulaLang.Proofs.Parse.Collapse
import FormulaLang.Proofs.Parse.Leftover

/-!
# The bracket at which a parse fails

Under the default grammar a parse fails at a bracket alone, and the failure points at it twice: within its own buffer
(`Failure.Offends`), however deep that buffer lies and whatever groups have been collapsed in it before, and in the text that
was read (`getElem?_of_slice`). The main result is `parse_failure_offends`.
-/

namespace FormulaLang

open Node (sourceTexts sourceTexts_append)

/-! ## A character of a buffer -/

theorem Node.position_natCast (offset : Int) (ss : List Node) (index within : Nat) :
    Node.position offset ss index within = offset + (sourceTexts (ss.take index)).length + within := by
  simp [Node.position, Slice.before, Slice.index]

/-- A character of a sentence stands in the text of the buffer, behind the sentences before it. -/
theorem getElem?_sourceTexts {ss : List Node} {index within : Nat} {s : Text} {c : Char}
    (hs : ss[index]? = some (.raw s)) (hc : s[within]? = some c) :
    (sourceTexts ss)[(sourceTexts (ss.take index)).length + within]? = some c := by
  obtain ⟨before, after, rfl, rfl⟩ := exists_append_cons_of_getElem? hs
  obtain ⟨hwithin, -⟩ := List.getElem?_eq_some_iff.1 hc
  rw [List.take_left, sourceTexts_append, List.getElem?_append_right (Nat.le_add_right _ _), Nat.add_sub_cancel_left,
    sourceTexts, Node.sourceText, List.getElem?_append_left hwithin, hc]

/-! ## Failures at a bracket -/

/-- The failure is that of the bracket `b`: a closing or an opening bracket of the grammar, as the cause says, in a raw
fragment of the buffer, at the position of the failure. -/
structure Failure.Offends (f : Failure) (brackets : List (Text × Text)) (b : Char) : Prop where
  cause : (f.cause = .unmatchedCloser [b] ∧ [b] ∈ brackets.map (·.2)) ∨
    (f.cause = .unmatchedOpener [b] ∧ [b] ∈ brackets.map (·.1))
  sentence : ∃ (s : Text) (within : Nat), f.equation[f.index]? = some (.raw s) ∧ s[within]? = some b ∧
    f.position = Node.position f.offset f.equation f.index within

namespace Failure.Offends

variable {brackets : List (Text × Text)} {b : Char}

/-- Seen from outside a failure points at the same bracket. -/
theorem within {f : Failure} (h : f.Offends brackets b) (w : Window) : (f.within w).Offends brackets b :=
  ⟨h.cause, h.sentence⟩

theorem ofOpener (hb : DistinctBrackets brackets) {offset : Int} {opener : Text} {ss : List Node} {p : Place}
    (h : strayOpener? brackets ss = some (opener, p)) : ∃ b, (Failure.ofOpener offset opener ss p).Offends brackets b := by
  obtain ⟨⟨o, c⟩, hmem, hplace⟩ := List.exists_of_findSome?_eq_some h
  obtain ⟨q, hq, heq⟩ := Option.map_eq_some_iff.1 hplace
  cases heq
  obtain ⟨a, b, -, heq⟩ := hb _ hmem
  cases heq
  have hss : ss = p.before ++ .raw (p.head ++ a :: p.tail) :: p.after := firstPlace?_eq_some hq
  refine ⟨a, .inr ⟨rfl, List.mem_map.2 ⟨_, hmem, rfl⟩⟩, p.head ++ a :: p.tail, p.head.length, ?_, by simp, ?_⟩
  · show ss[p.before.length]? = _
    rw [hss]
    simp
  · show _ = Node.position offset ss p.before.length p.head.length
    have htake : ss.take p.before.length = p.before := by
      rw [hss]
      simp
    rw [Node.position_natCast, htake]
    rfl

theorem ofCloser (hb : DistinctBrackets brackets) {offset : Int} {closer : Text} {ss buffer : List Node} {index : Nat}
    (h : nextGroup brackets ss = .unmatched closer buffer index) :
    ∃ b, (Failure.ofCloser offset closer buffer index).Offends brackets b := by
  obtain ⟨earlier, later, a, b, p, rfl, -, -, -, -, rfl, rfl, rfl⟩ := nextGroup_unmatched_cases hb h
  have hsentence : ∀ front back : List Node, (front ++ .raw [b] :: back)[front.length]? = some (.raw [b]) := by
    intro front back
    simp
  refine ⟨b, .inl ⟨rfl, by simp⟩, [b], 0, hsentence _ _, by simp, ?_⟩
  rw [Node.position_natCast]
  exact (Int.add_zero _).symm

end Failure.Offends

/-- Where the buffer of a failure is a slice of the text at its own position, the bracket stands in the text at the position
of the failure. -/
theorem Failure.Offends.getElem?_of_slice {brackets : List (Text × Text)} {b : Char} {f : Failure}
    (h : f.Offends brackets b) {t x y : Text} (ht : t = x ++ sourceTexts f.equation ++ y) (ho : f.offset = x.length) :
    ∃ p : Nat, f.position = p ∧ t[p]? = some b := by
  obtain ⟨s, within, hs, hc, hp⟩ := h.sentence
  have hchar := getElem?_sourceTexts hs hc
  obtain ⟨hlt, -⟩ := List.getElem?_eq_some_iff.1 hchar
  refine ⟨x.length + ((sourceTexts (f.equation.take f.index)).length + within), ?_, ?_⟩
  · rw [hp, Node.position_natCast, ho]
    omega
  · rw [ht, List.append_assoc, List.getElem?_append_right (Nat.le_add_right _ _), Nat.add_sub_cancel_left,
      List.getElem?_append_left hlt, hchar]

section Parsing

variable {l : Language} (hl : l.grammar = .default)

include hl

/-- A group stage fails at a bracket. -/
theorem offends_of_groupStage {offset : Int} {ss : List Node} {f : Failure}
    (h : (groupStage l offset ss).result = .error f) : ∃ b, f.Offends l.grammar.brackets b := by
  have hb : DistinctBrackets l.grammar.brackets := hl ▸ distinctBrackets_default
  refine groupStage_error_induction hl (motive := fun _ _ f => ∃ b, f.Offends l.grammar.brackets b) ?_ ?_ ?_ ?_ h
  · exact fun offset ss opener p hstray => Failure.Offends.ofOpener hb hstray
  · exact fun offset ss closer buffer index hw => Failure.Offends.ofCloser hb hw
  · intro offset ss w p lexed e _ _ _ ih
    obtain ⟨b, hoffends⟩ := ih
    exact ⟨b, hoffends.within w⟩
  · exact fun offset ss w params f _ _ ih => ih

/-- **A failed parse** has a bracket of the text at its position. -/
theorem offends_of_parseText {t : Text} {f : Failure} (h : (parseText l t).result = .error f) :
    ∃ (b : Char) (p : Nat), f.Offends l.grammar.brackets b ∧ f.position = p ∧ t[p]? = some b := by
  obtain ⟨lexed, -, hgroup⟩ := groupStage_of_parseBuffer_error hl h
  obtain ⟨b, hoffends⟩ := offends_of_groupStage hl hgroup
  obtain ⟨x, y, hxy, ho⟩ := (failsIn_parseText hl h).slice
  rw [Node.sourceTexts_raws] at hxy
  rw [Int.zero_add] at ho
  obtain ⟨p, hp, hchar⟩ := hoffends.getElem?_of_slice hxy ho
  exact ⟨b, p, hoffends, hp, hchar⟩

end Parsing

/-- **A parse fails at a bracket alone, and points at it**: every text parses, or the parse fails at a bracket that stands in
the text at the position of the failure; it is a closing or an opening bracket of the grammar, as the cause says, and stands
in the sentence of the failing buffer that the failure names, as far from its start as the positions tell. -/
theorem parse_failure_offends (resolve : Text → Option Function) (t : Text) :
    (Formula.parse ⟨.default, resolve⟩ t).failure = none ∨
      ∃ (f : Failure) (b : Char) (p : Nat), (Formula.parse ⟨.default, resolve⟩ t).failure = some f ∧
        f.Offends Grammar.default.brackets b ∧ f.position = p ∧ t[p]? = some b := by
  cases h : (Formula.parse ⟨.default, resolve⟩ t).failure with
  | none => exact .inl rfl
  | some f =>
    obtain ⟨b, p, hoffends, hp, hchar⟩ := offends_of_parseText rfl (Formula.parse_failure_eq_some_iff.1 h)
    exact .inr ⟨f, b, p, rfl, hoffends, hp, hchar⟩

end FormulaLang
