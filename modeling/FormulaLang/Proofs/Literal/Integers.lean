import FormulaLang.Proofs.Literal.RoundTrip
import FormulaLang.Proofs.Parse.Separated

/-!
# Integer literals

A numeral in base 10, 16 or 2 is a token of its kind and the leaf of its number, so the formula that consists of it comes to that
number (`Formula.comesTo_of_token`). The text of a negative integer is a numeral behind a sign, which is not part of the literal:
it is folded as an operation (`Formula.comesTo_neg`).
-/

namespace FormulaLang

open Number (Writes)
open Shortest (naturalDigits)

variable {l : Language} {n : Nat} {t : Text}

/-! ## Formulas of one literal -/

/-- The text is a formula, and its value is the integer. -/
def Formula.ComesTo (l : Language) (t : Text) (n : Int) : Prop :=
  (parse l t).failure = none ∧
    ∀ {σ : Type} (host : Host σ), (parse l t).formula.value host = pure (.number (.int n))

namespace Formula

/-- A text that is parsed to a node comes to what the node comes to. -/
theorem comesTo_of_parseText {node : Node} {n : Int} (h : (parseText l t).result = .ok [node]) (hraw : node.isRaw = false)
    (hvalue : ∀ {σ : Type} (host : Host σ) (lookup : Reference → Option Scalar),
      evaluate host lookup node = pure (.number (.int n))) : ComesTo l t n := by
  refine ⟨parse_failure_eq_none_iff.2 ⟨_, h⟩, fun host => ?_⟩
  rw [value, root_parse_of_ok h, evaluate_equation_single _ _ hraw, hvalue]

theorem isOperand_number (v : Scalar) (t : Text) : IsOperand l [.number .none v t] (.number .none v t) :=
  ⟨by simp [Node.isRaw], rfl, rfl⟩

/-- **A token** that is the leaf of a number comes to that number. -/
theorem comesTo_of_token (hl : l.grammar = .default) {k : LeafKind} (ht : k.IsToken t)
    (hleaf : k.leaf t = .ok (.number .none (.int n) t)) : ComesTo l t n := by
  have hempty := lexText_of_none (leafCut?_nil Grammar.defaultLeaves)
  have hlexed : lexText Grammar.defaultLeaves t = .ok [.number .none (.int n) t] :=
    lexText_of_cut ht.leafCut?_eq hleaf hempty hempty
  have hoperand : IsOperand l [.number .none (.int n) t] (.number .none (.int n) t) := isOperand_number _ _
  have hparse := parseText_of_field hl hlexed .refl hoperand.fused hoperand.symbols (hoperand.field hl)
  exact comesTo_of_parseText hparse rfl fun host lookup => evaluate_number _ _ _

/-- **A sign** in front of the digits of a number comes to its negation. -/
theorem comesTo_neg (hl : l.grammar = .default) (hn : n < Scalar.digitBound) : ComesTo l ('-' :: naturalDigits n) (-n) := by
  have hleaf := LeafKind.leaf_naturalDigits hn
  have hseparated : Separated [⟨.decimal, naturalDigits n, []⟩] := by
    refine ⟨?_, by simp, by simp⟩
    simpa using LeafKind.isToken_of_writes_ten (Number.writes_naturalDigits n)
  have hsign : ∀ c ∈ ['-'], Pattern.EndsWord c := List.forall_mem_singleton.2 (by decide)
  obtain ⟨ss, hss, hlexed⟩ := lexText_separated hsign hseparated
  obtain ⟨⟩ | ⟨hnode, ⟨⟩⟩ := hss
  cases hleaf.symm.trans hnode.leaf
  rw [Token.texts_cons, Token.texts_nil, List.append_nil, List.append_nil] at hlexed
  have hoperand : IsOperand l [.number .none (.int n) (naturalDigits n)] (.number .none (.int n) (naturalDigits n)) :=
    isOperand_number _ _
  have hminus : (⟨['-'], .neg, 3⟩ : Precedence.Operator) ∈ Precedence.prefixOperators := by decide
  obtain ⟨hsymbols, hfused⟩ := hoperand.cons_symbol ⟨_, List.mem_append_right _ hminus, rfl⟩
  have hparse := parseText_of_field hl hlexed .refl hfused hsymbols (hoperand.field_unary hl hminus)
  refine comesTo_of_parseText hparse rfl fun host lookup => ?_
  rw [evaluate_unary, evaluate_number]
  rfl

/-- **Integer literals** are exact in every base: a formula that consists of the digits of a number comes to that number, with
any number of zeros in front of the digits and any mix of letter case, and in base ten as long as there are not too many digits.
The text of the negative integer comes to that integer. -/
theorem comesTo_integer (hl : l.grammar = .default) (n : Nat) :
    (∀ t, Writes 10 n t → t.length ≤ Number.maxDigits → ComesTo l t n) ∧
      (∀ mark ∈ ["#".toList, "0x".toList, "0X".toList], ∀ t, Writes 16 n t → ComesTo l (mark ++ t) n) ∧
      (∀ mark ∈ ["0b".toList, "0B".toList], ∀ t, Writes 2 n t → ComesTo l (mark ++ t) n) ∧
      ((Nat.toDigits 10 n).length ≤ Scalar.maxDigits →
        ∃ t, (Scalar.int (-n)).text = .ok t ∧ ComesTo l t (-n)) := by
  refine ⟨fun t ht hshort => ?_, fun mark hmark t ht => ?_, fun mark hmark t ht => ?_, fun hshort => ?_⟩
  · exact comesTo_of_token hl (LeafKind.isToken_of_writes_ten ht) (LeafKind.leaf_decimal_writes ht hshort)
  · obtain ⟨htoken, hleaf⟩ := LeafKind.isToken_of_writes_sixteen (by simpa using hmark) ht
    exact comesTo_of_token hl htoken hleaf
  · obtain ⟨htoken, hleaf⟩ := LeafKind.isToken_of_writes_two (by simpa using hmark) ht
    exact comesTo_of_token hl htoken hleaf
  · have hn : n < Scalar.digitBound := length_naturalDigits_le_iff.1 hshort
    by_cases hzero : n = 0
    · subst hzero
      refine ⟨naturalDigits 0, Scalar.text_natural hn, ?_⟩
      exact comesTo_of_token hl (LeafKind.isToken_of_writes_ten (Number.writes_naturalDigits 0))
        (LeafKind.leaf_naturalDigits hn)
    · refine ⟨'-' :: naturalDigits n, ?_, comesTo_neg hl hn⟩
      have hbound : ¬Scalar.digitBound ≤ (-(n : Int)).natAbs := by
        rw [Int.natAbs_neg, Int.natAbs_natCast]
        exact Nat.not_le.2 hn
      have hsign : -(n : Int) < 0 := by omega
      rw [Scalar.text, Scalar.intText, if_neg hbound]
      simp only [if_pos hsign, Int.natAbs_neg, Int.natAbs_natCast]

/-- The number 255 behind zeros, in base 16 in both cases, in base 2, and with a sign. -/
theorem comesTo_integer_bases :
    Language.default.grammar = .default ∧ Writes 10 255 "00255".toList ∧ Writes 16 255 "0Ff".toList ∧
      Writes 2 255 "011111111".toList ∧ ComesTo .default "00255".toList 255 ∧ ComesTo .default "#0Ff".toList 255 ∧
      ComesTo .default "0X0Ff".toList 255 ∧ ComesTo .default "0b011111111".toList 255 ∧
      ∃ t, (Scalar.int (-255)).text = .ok t ∧ ComesTo .default t (-255) := by
  have hten : Writes 10 255 "00255".toList := ⟨2, by decide⟩
  have hsixteen : Writes 16 255 "0Ff".toList := ⟨1, by decide⟩
  have htwo : Writes 2 255 "011111111".toList := ⟨1, by decide⟩
  obtain ⟨hdecimal, hhex, hbinary, hnegative⟩ := comesTo_integer (l := .default) rfl 255
  exact ⟨rfl, hten, hsixteen, htwo, hdecimal _ hten (by decide), hhex "#".toList (by decide) _ hsixteen,
    hhex "0X".toList (by decide) _ hsixteen, hbinary "0b".toList (by decide) _ htwo, hnegative (by decide)⟩

end Formula

end FormulaLang
