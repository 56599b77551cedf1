import FormulaLang.Proofs.Leaf.Found
import FormulaLang.Proofs.Nesting.Pairs
import FormulaLang.Proofs.Parse.Parameters
import FormulaLang.Proofs.Parse.Reading

/-!
# Brackets and commas of a buffer

Two readings of a buffer under the default grammar: the brackets and commas that are still raw (`Reading.marks`), and all
brackets, raw or those of a group (`Reading.brackets`). Cutting leaves changes neither of them. The window of the next group
is a pair of brackets that may be taken out of the text (`Reading.marks_window`).
-/

namespace FormulaLang

open Nesting

/-! ## Marks -/

theorem Nesting.mem_of_isMark {c : Char} (h : isMark c = true) : c ∈ "()[]\x7b\x7d,".toList := by
  simp only [isMark, Bool.or_eq_true, beq_iff_eq, Option.isSome_iff_exists] at h
  rcases h with (rfl | ⟨k, hk⟩) | ⟨k, hk⟩
  · decide
  · rw [← opener_of_opening? hk]
    cases k <;> decide
  · rw [← closer_of_closing? hk]
    cases k <;> decide

theorem Nesting.isMark_of_isBracket {c : Char} (h : isBracket c = true) : isMark c = true := by
  simp only [isBracket, Bool.or_eq_true] at h
  simp [isMark, h, or_assoc]

theorem Nesting.isMark_of_isBlank {c : Char} (h : Text.isBlank c = true) : isMark c = false := by
  have hmarks : ("()[]\x7b\x7d,".toList.all fun c => !Text.isBlank c) = true := by decide
  refine Bool.eq_false_iff.2 fun hc => ?_
  have hnot := List.all_eq_true.1 hmarks c (mem_of_isMark hc)
  simp [h] at hnot

theorem Nesting.isMark_of_leafChar {c : Char} (h : Pattern.LeafChar c) : isMark c = false := by
  have hmarks : ("()[]\x7b\x7d,".toList.all fun c => !decide (Pattern.LeafChar c)) = true := by decide
  refine Bool.eq_false_iff.2 fun hc => ?_
  have hnot := List.all_eq_true.1 hmarks c (mem_of_isMark hc)
  simp [h] at hnot

theorem Nesting.isMark_opener (k : Kind) : isMark k.opener = true := by
  cases k <;> decide

theorem Nesting.isMark_closer (k : Kind) : isMark k.closer = true := by
  cases k <;> decide

/-- The brackets of the default grammar are those of the three kinds in their order. -/
theorem defaultBrackets_eq : Grammar.defaultBrackets = Kind.all.map fun k => ([k.opener], [k.closer]) :=
  rfl

theorem distinctBrackets_default : DistinctBrackets Grammar.defaultBrackets := by
  rw [DistinctBrackets, defaultBrackets_eq, List.forall_mem_map]
  exact fun k _ => ⟨k.opener, k.closer, by cases k <;> decide, rfl⟩

namespace Reading

/-- The brackets and commas that are still raw. -/
def marks : Reading Char where
  node n := (n.rawText?.getD []).filter isMark
  raw_append s t := List.filter_append s t

/-- All brackets, raw or those of a group. -/
def brackets : Reading Char where
  node
    | .raw t => t.filter isBracket
    | n => Pair.texts n.pairs
  raw_append s t := List.filter_append s t

theorem marks_raw (t : Text) : marks.node (.raw t) = t.filter isMark := rfl

theorem brackets_raw (t : Text) : brackets.node (.raw t) = t.filter isBracket := rfl

theorem marks_of_not_isRaw {n : Node} (h : n.isRaw = false) : marks.node n = [] := by
  cases n with
  | raw t => cases h
  | _ => rfl

theorem brackets_of_not_isRaw {n : Node} (h : n.isRaw = false) : brackets.node n = Pair.texts n.pairs := by
  cases n with
  | raw t => cases h
  | _ => rfl

theorem readsLeaves_marks (rules : List LeafRule) : marks.ReadsLeaves rules := by
  intro t c leaf hc hleaf
  have hnone : c.matched.filter isMark = [] :=
    List.filter_eq_nil_iff.2 fun d hd => Bool.eq_false_iff.1 (isMark_of_leafChar (leafCut?_leafChar hc d hd))
  rw [marks_raw, hnone]
  rcases LeafKind.leaf_cases hleaf with ⟨v, rfl⟩ | rfl <;> rfl

theorem readsLeaves_brackets (rules : List LeafRule) : brackets.ReadsLeaves rules := by
  intro t c leaf hc hleaf
  have hnone : c.matched.filter isBracket = [] := by
    refine List.filter_eq_nil_iff.2 fun d hd hb => ?_
    have hmark := isMark_of_isBracket hb
    rw [isMark_of_leafChar (leafCut?_leafChar hc d hd)] at hmark
    cases hmark
  rw [brackets_raw, hnone]
  rcases LeafKind.leaf_cases hleaf with ⟨v, rfl⟩ | rfl <;> rfl

/-! ## Places -/

theorem mem_marks_cons {c : Char} (hc : isMark c = true) {n : Node} {ss : List Node} :
    c ∈ marks.nodes (n :: ss) ↔ c ∈ n.rawText?.getD [] ∨ c ∈ marks.nodes ss := by
  rw [nodes_cons, List.mem_append, marks, List.mem_filter, and_iff_left hc]

theorem firstPlace?_eq_none_iff {c : Char} (hc : isMark c = true) {ss : List Node} :
    firstPlace? [c] ss = none ↔ c ∉ marks.nodes ss := by
  induction ss with
  | nil => simp [firstPlace?]
  | cons n ss ih =>
    rw [firstPlace?, mem_marks_cons hc, not_or, ← ih]
    cases n with
    | raw t =>
      simp only [Node.rawText?, Option.bind_some, Option.getD_some, Text.splitFirst_singleton]
      rw [← Text.breakFirst_eq_none]
      cases Text.breakFirst c t <;> simp
    | _ => simp [Node.rawText?]

theorem not_mem_of_firstPlace {c : Char} (hc : isMark c = true) {ss : List Node} {p : Place}
    (h : firstPlace? [c] ss = some p) : c ∉ marks.nodes (p.before ++ Node.raws p.head) := by
  induction ss generalizing p with
  | nil => cases h
  | cons n ss ih =>
    rw [firstPlace?] at h
    split at h
    · rename_i head tail hb
      cases h
      obtain ⟨t, -, hb⟩ := Option.bind_eq_some_iff.1 hb
      rw [Text.splitFirst_singleton] at hb
      rw [List.nil_append, nodes_raws, marks_raw, List.mem_filter, not_and_or]
      exact .inl (Text.breakFirst_eq_some hb).2
    · rename_i hn
      obtain ⟨q, hq, rfl⟩ := Option.map_eq_some_iff.1 h
      rw [List.cons_append, mem_marks_cons hc, not_or]
      refine ⟨?_, ih hq⟩
      cases n with
      | raw t =>
        rw [Node.rawText?, Option.bind_some, Text.splitFirst_singleton] at hn
        exact Text.breakFirst_eq_none.1 hn
      | _ => simp [Node.rawText?]

theorem lastPlace?_eq_none_iff {c : Char} (hc : isMark c = true) {ss : List Node} :
    lastPlace? [c] ss = none ↔ c ∉ marks.nodes ss := by
  induction ss with
  | nil => simp [lastPlace?]
  | cons n ss ih =>
    rw [lastPlace?, mem_marks_cons hc, not_or, ← ih]
    cases hq : lastPlace? [c] ss with
    | some q => simp
    | none =>
      cases n with
      | raw t =>
        simp only [Node.rawText?, Option.bind_some, Option.getD_some, Text.splitLast_singleton]
        rw [← Text.breakLast_eq_none]
        cases Text.breakLast c t <;> simp
      | _ => simp [Node.rawText?]

theorem not_mem_of_lastPlace {c : Char} (hc : isMark c = true) {ss : List Node} {p : Place}
    (h : lastPlace? [c] ss = some p) : c ∉ marks.nodes (Node.raws p.tail ++ p.after) := by
  induction ss generalizing p with
  | nil => cases h
  | cons n ss ih =>
    rw [lastPlace?] at h
    split at h
    · rename_i q hq
      have hrest := ih hq
      cases h
      exact hrest
    · rename_i hnone
      obtain ⟨⟨head, tail⟩, hb, rfl⟩ := Option.map_eq_some_iff.1 h
      obtain ⟨t, -, hb⟩ := Option.bind_eq_some_iff.1 hb
      rw [Text.splitLast_singleton] at hb
      rw [nodes_append, List.mem_append, not_or]
      refine ⟨?_, (lastPlace?_eq_none_iff hc).1 hnone⟩
      rw [nodes_raws, marks_raw, List.mem_filter, not_and_or]
      exact .inl (Text.breakLast_eq_some hb).2

/-! ## The window of the next group -/

/-- What comes before a kind in the list of brackets are the earlier kinds. -/
theorem kind_of_defaultBrackets {earlier later : List (Text × Text)} {a b : Char}
    (h : Grammar.defaultBrackets = earlier ++ ([a], [b]) :: later) :
    ∃ k : Kind, a = k.opener ∧ b = k.closer ∧ ∀ j : Kind, j.rank < k.rank → ([j.opener], [j.closer]) ∈ earlier := by
  rw [defaultBrackets_eq] at h
  obtain ⟨ks, rest, hall, rfl, hrest⟩ := List.map_eq_append_iff.1 h
  obtain ⟨k, ls, rfl, hk, -⟩ := List.map_eq_cons_iff.1 hrest
  simp only [Prod.mk.injEq, List.cons.injEq, and_true] at hk
  refine ⟨k, hk.1.symm, hk.2.symm, fun j hj => List.mem_map_of_mem (f := fun k : Kind => ([k.opener], [k.closer])) ?_⟩
  -- the kinds are in the order of their ranks
  have hsorted : Kind.all.Pairwise fun i j => i.rank < j.rank := by decide
  have hj' : j ∈ ks ++ k :: ls := by
    rw [← hall]
    cases j <;> decide
  rw [hall, List.pairwise_append, List.pairwise_cons] at hsorted
  rcases List.mem_append.1 hj' with hj' | hj'
  · exact hj'
  · rcases List.mem_cons.1 hj' with rfl | hj'
    · exact absurd hj (Nat.lt_irrefl _)
    · exact absurd (hsorted.2.1.1 j hj') (by omega)

/-- **The window** of the next group is a pair of brackets of one kind, with no bracket of this kind left between them, and
no closing bracket of an earlier kind anywhere. -/
theorem marks_window {ss : List Node} {w : Window} (h : nextGroup Grammar.defaultBrackets ss = .window w) :
    ∃ k : Kind, w.opener = [k.opener] ∧ w.closer = [k.closer] ∧
      marks.nodes ss = marks.nodes w.before ++ k.opener :: marks.nodes w.interior ++ k.closer :: marks.nodes w.after ∧
      k.opener ∉ marks.nodes w.interior ∧ k.closer ∉ marks.nodes w.interior ∧
      ∀ j : Kind, j.rank < k.rank → j.closer ∉ marks.nodes ss := by
  have hdivide := marks.nodes_window distinctBrackets_default h
  obtain ⟨earlier, later, a, b, p, q, hbr, hab, hfree, hp, hq, rfl⟩ :=
    nextGroup_window_cases distinctBrackets_default h
  obtain ⟨k, rfl, rfl, hrank⟩ := kind_of_defaultBrackets hbr
  refine ⟨k, rfl, rfl, ?_, not_mem_of_lastPlace (isMark_opener k) hq, fun hmem => ?_, fun j hj => ?_⟩
  · rw [hdivide]
    simp [Window.between, marks_raw, isMark_opener, isMark_closer]
  · refine not_mem_of_firstPlace (isMark_closer k) hp ?_
    rw [marks.nodes_lastPlace hq]
    simp only [Window.between, nodes_append, nodes_raws, List.mem_append] at hmem ⊢
    rcases hmem with hmem | hmem
    · exact .inl (.inr hmem)
    · exact .inr hmem
  · exact (firstPlace?_eq_none_iff (isMark_closer j)).1 (hfree _ (hrank j hj))

end Reading

end FormulaLang
