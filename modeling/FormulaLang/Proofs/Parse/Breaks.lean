import FormulaLang.Proofs.Parse.Exhaustive

/-!
# Lexing at a break

A character that stands in no leaf divides a text into two sides that are lexed by themselves, although every rule is tried on
the whole text before the next one. The buffer of the whole text is made up of the buffers of the sides, and the raw text on
either side of the character becomes one fragment with it (`MeetsAt`, `meetsAt_lexText`, `Formula.lex_break`).
-/

namespace FormulaLang

open Reading (atoms)

/-- The sentences of a buffer that are not raw text. -/
def leavesOf (ss : List Node) : List Node :=
  ss.filter fun n => !n.isRaw

@[simp] theorem leavesOf_append (xs ys : List Node) : leavesOf (xs ++ ys) = leavesOf xs ++ leavesOf ys :=
  List.filter_append xs ys

@[simp] theorem leavesOf_cons_raw (t : Text) (ss : List Node) : leavesOf (.raw t :: ss) = leavesOf ss := rfl

@[simp] theorem leavesOf_raws (t : Text) : leavesOf (Node.raws t) = [] := by
  unfold Node.raws
  split <;> rfl

/-- The buffer has the leaves of the left side and then those of the right side; between the last leaf of the left side and the
first leaf of the right side stand the raw text at the end of the left side, the character, and the raw text at the start of
the right side. -/
structure MeetsAt (c : Char) (left right out : List Node) : Prop where
  leaves : leavesOf out = leavesOf left ++ leavesOf right
  between : ∃ front tail head back, (∀ n ∈ front.getLast?, n.isRaw = false) ∧ (∀ n ∈ back.head?, n.isRaw = false) ∧
    left = front ++ Node.raws tail ∧ right = Node.raws head ++ back ∧ out = front ++ .raw (tail ++ c :: head) :: back

namespace Fused

variable {ss : List Node}

/-- A fused buffer ends with raw text behind a node, or with a node. -/
theorem exists_tail (h : Fused ss) :
    ∃ front tail, ss = front ++ Node.raws tail ∧ ∀ n ∈ front.getLast?, n.isRaw = false := by
  obtain rfl | ⟨front, n, rfl⟩ := List.eq_nil_or_concat ss
  · exact ⟨[], [], rfl, by simp⟩
  rw [List.concat_eq_append] at h ⊢
  obtain ⟨-, hlast, hjoin⟩ := append_iff.1 h
  rcases n.raw_or_not with ⟨t, rfl⟩ | hn
  · have ht : t ≠ [] := fun ht => hlast.nonempty (by simp [ht])
    refine ⟨front, t, by rw [Node.raws, if_neg (by simpa using ht)], fun m hm => ?_⟩
    exact (hjoin m hm (.raw t) rfl).resolve_right (by simp [Node.isRaw])
  · refine ⟨front ++ [n], [], by simp [Node.raws], fun m hm => ?_⟩
    rw [List.getLast?_concat, Option.mem_some_iff] at hm
    exact hm ▸ hn

/-- A fused buffer starts with raw text in front of a node, or with a node. -/
theorem exists_head (h : Fused ss) :
    ∃ head back, ss = Node.raws head ++ back ∧ ∀ n ∈ back.head?, n.isRaw = false := by
  cases ss with
  | nil => exact ⟨[], [], rfl, by simp⟩
  | cons n back =>
    obtain ⟨hne, -, hjoin⟩ := cons_iff.1 h
    rcases n.raw_or_not with ⟨t, rfl⟩ | hn
    · have ht : t ≠ [] := fun ht => hne (congrArg Node.raw ht)
      refine ⟨t, back, by rw [Node.raws, if_neg (by simpa using ht), List.singleton_append], fun m hm => ?_⟩
      exact (hjoin m hm).resolve_left (by simp [Node.isRaw])
    · refine ⟨[], n :: back, rfl, fun m hm => ?_⟩
      rw [List.head?_cons, Option.mem_some_iff] at hm
      exact hm ▸ hn

/-- Raw text may stand between two nodes. -/
theorem append_raw {t : Text} (ht : t ≠ []) {front back : List Node} (hx : Fused front) (hy : Fused back)
    (hfront : ∀ n ∈ front.getLast?, n.isRaw = false) (hback : ∀ n ∈ back.head?, n.isRaw = false) :
    Fused (front ++ .raw t :: back) := by
  have hraw : Node.raw t ≠ .raw [] := fun h => ht (Node.raw.inj h)
  refine append_iff.2 ⟨hx, cons_iff.2 ⟨hraw, hy, fun m hm => .inr (hback m hm)⟩, fun m hm _ _ => .inl (hfront m hm)⟩

end Fused

/-- **The buffers of the sides** meet at the break in the buffer of the whole text. -/
theorem meetsAt_lexText {c : Char} (hc : ¬Pattern.LeafChar c) {rules : List LeafRule} {x y : Text} {out : List Node}
    (h : lexText rules (x ++ c :: y) = .ok out) :
    ∃ left right, lexText rules x = .ok left ∧ lexText rules y = .ok right ∧ MeetsAt c left right out := by
  obtain ⟨left, right, hleft, hright, hatoms⟩ := atoms_lexText_break hc h
  have hfusedLeft : Fused left := fused_lexText hleft
  have hfusedRight : Fused right := fused_lexText hright
  refine ⟨left, right, hleft, hright, ?_⟩
  obtain ⟨front, tail, rfl, hfront⟩ := hfusedLeft.exists_tail
  obtain ⟨head, back, rfl, hback⟩ := hfusedRight.exists_head
  have hmiddle : Fused (front ++ .raw (tail ++ c :: head) :: back) :=
    .append_raw (by simp) (Fused.append_iff.1 hfusedLeft).1 (Fused.append_iff.1 hfusedRight).2.1 hfront hback
  -- Both buffers are fused, so it is enough that they have the same atoms.
  obtain rfl : out = front ++ .raw (tail ++ c :: head) :: back := by
    refine (fused_lexText h).eq_of_atoms hmiddle (hatoms.trans ?_)
    simp [Reading.atoms_raw]
  exact ⟨by simp, front, tail, head, back, hfront, hback, rfl, rfl, rfl⟩

/-- **Lexing is local.** With the default leaf rules, the new formula of a text with a character that stands in no leaf is lexed
like the formulas of the two sides: lexing succeeds on all three, and the buffers meet at the character. -/
theorem Formula.lex_break {l : Language} (hl : l.grammar.leaves = Grammar.defaultLeaves) {c : Char}
    (hc : Text.isWord c = false) (hmark : c ∉ ['#', '.', '+', '-']) (a b : Text) :
    ∃ o left right out, (new (a ++ c :: b)).advance? l .lex = some o ∧ o.failure = none ∧
      o.formula = ⟨a ++ c :: b, .equation .none out 0, []⟩ ∧
      (∃ p, (new a).advance? l .lex = some p ∧ p.failure = none ∧ p.formula = ⟨a, .equation .none left 0, []⟩) ∧
      (∃ q, (new b).advance? l .lex = some q ∧ q.failure = none ∧ q.formula = ⟨b, .equation .none right 0, []⟩) ∧
      MeetsAt c left right out := by
  have hbreak : ¬Pattern.LeafChar c := by
    rintro (hword | hmem)
    · rw [hc] at hword
      cases hword
    · exact hmark hmem
  obtain ⟨out, hout⟩ := lexText_ok readable_default (a ++ c :: b)
  obtain ⟨left, right, hleft, hright, hmeets⟩ := meetsAt_lexText hbreak hout
  obtain ⟨o, ho, hfailure, hformula⟩ := advance?_lex_new hl hout
  exact ⟨o, left, right, out, ho, hfailure, hformula, advance?_lex_new hl hleft, advance?_lex_new hl hright, hmeets⟩

/-- A digit behind the break is no exponent of the number in front of it, and both sides have raw text next to the break. -/
theorem Formula.lex_break_exponent :
    Language.default.grammar.leaves = Grammar.defaultLeaves ∧ Text.isWord ',' = false ∧ ',' ∉ ['#', '.', '+', '-'] ∧
      ∃ o left right out, (new "2e+,-5x".toList).advance? .default .lex = some o ∧ o.failure = none ∧
        o.formula = ⟨"2e+,-5x".toList, .equation .none out 0, []⟩ ∧
        (∃ p, (new "2e+".toList).advance? .default .lex = some p ∧ p.failure = none ∧
          p.formula = ⟨"2e+".toList, .equation .none left 0, []⟩) ∧
        (∃ q, (new "-5x".toList).advance? .default .lex = some q ∧ q.failure = none ∧
          q.formula = ⟨"-5x".toList, .equation .none right 0, []⟩) ∧
        MeetsAt ',' left right out :=
  ⟨rfl, by decide, by decide, lex_break rfl (by decide) (by decide) "2e+".toList "-5x".toList⟩

end FormulaLang
