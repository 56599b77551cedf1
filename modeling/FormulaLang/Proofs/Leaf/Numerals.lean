import FormulaLang.Proofs.Leaf.Found
import FormulaLang.Proofs.Number.Bases

/-!
# Numerals

A numeral in base ten is a decimal literal of its number, as long as there are not too many digits in it
(`LeafKind.leaf_decimal_writes`). So is the text of an integer literal without a sign (`LeafKind.leaf_naturalDigits`).
No integer literal has a sign (`nonneg_of_leafCut?`).
-/

namespace FormulaLang

open Shortest (naturalDigits)

/-! ## Digits of naturals -/

theorem isDigit_of_mem_naturalDigits {k : Nat} {c : Char} (h : c ∈ naturalDigits k) : c.isDigit = true :=
  Nat.isDigit_of_mem_toDigits (by decide) (by decide) h

theorem length_naturalDigits_le_iff {k : Nat} : (naturalDigits k).length ≤ Scalar.maxDigits ↔ k < Scalar.digitBound := by
  have hpos : 0 < Scalar.maxDigits := by decide
  unfold Scalar.digitBound
  generalize Scalar.maxDigits = m at hpos ⊢
  exact Nat.length_toDigits_le_iff (by decide) hpos

namespace Number

/-- A numeral in base ten is made of decimal digits. -/
theorem Writes.isDigit {n : Nat} {t : Text} (h : Writes 10 n t) : ∀ c ∈ t, c.isDigit = true := by
  intro c hc
  have hrange := toNat_of_digitIn? ((h.isDigits (by decide) (by decide)).2 c hc)
  have hbounds : 48 ≤ c.toNat ∧ c.toNat ≤ 57 := by omega
  exact Char.isDigit_iff_toNat.2 hbounds

end Number

theorem Text.isDecimal_of_isDigit {c : Char} (h : c.isDigit = true) : Text.isDecimal c = true := by
  obtain ⟨hlow, hhigh⟩ : 48 ≤ c.toNat ∧ c.toNat ≤ 57 := Char.isDigit_iff_toNat.1 h
  have hlt : c.toNat < 128 := by omega
  simp [Text.isDecimal, Text.decimalValue?, hlt, hlow, hhigh]

/-- **A numeral** in base ten that is not too long is a decimal literal of its number. -/
theorem LeafKind.leaf_decimal_writes {n : Nat} {t : Text} (h : Number.Writes 10 n t) (hshort : t.length ≤ Number.maxDigits) :
    LeafKind.decimal.leaf t = .ok (.number .none (.int n) t) := by
  have hsigns : t.all Text.isDigitSign = true := by
    rw [List.all_eq_true]
    intro c hc
    simp [Text.isDigitSign, Text.isDecimal_of_isDigit (h.isDigit c hc)]
  have hempty : t.isEmpty = false := by simpa using (h.isDigits (by decide) (by decide)).1
  have hread := Number.readInt_of_writes (by decide) (by decide) h fun _ => hshort
  simp [LeafKind.leaf, LeafKind.readDecimal, hsigns, hempty, hread, Except.toOption, bind, Except.bind, pure, Except.pure]

theorem Number.writes_naturalDigits (k : Nat) : Number.Writes 10 k (naturalDigits k) :=
  .toDigits (by decide) (by decide) k

/-- The digits of a natural are a decimal literal of it. -/
theorem LeafKind.leaf_naturalDigits {k : Nat} (h : k < Scalar.digitBound) :
    LeafKind.decimal.leaf (naturalDigits k) = .ok (.number .none (.int k) (naturalDigits k)) :=
  leaf_decimal_writes (Number.writes_naturalDigits k) (length_naturalDigits_le_iff.2 h)

/-- The text of an integer literal without a sign. -/
theorem Scalar.text_natural {k : Nat} (h : k < Scalar.digitBound) : (Scalar.int k).text = .ok (naturalDigits k) := by
  have hshort : ¬digitBound ≤ (k : Int).natAbs := by
    rw [Int.natAbs_natCast]
    exact Nat.not_le.2 h
  have hsign : ¬(k : Int) < 0 := by omega
  rw [Scalar.text, Scalar.intText, if_neg hshort]
  simp only [if_neg hsign, Int.natAbs_natCast]

/-! ## Literals have no sign -/

namespace Number

theorem plainChar_ne_minus {c : Char} (h : c ≠ '-') : plainChar c ≠ '-' := by
  have hdigit : ∀ d < 10, Char.ofNat (48 + d) ≠ '-' := by decide
  unfold plainChar
  split
  · exact h
  · split
    · decide
    · split
      · rename_i d hd
        exact hdigit d (Text.decimalValue?_lt hd)
      · decide

theorem readSign_of_not_mem {t : Text} (h : '-' ∉ t) : (readSign t).1 = false := by
  unfold readSign
  split
  · simp at h
  · rfl
  · rfl

theorem minus_not_mem_plain {t : Text} (h : '-' ∉ t) : '-' ∉ plain t := by
  intro hmem
  have hmap : '-' ∈ t.map plainChar := by
    rw [plain, List.mem_reverse] at hmem
    have hback := List.mem_reverse.1 (List.dropWhile_subset _ hmem)
    exact List.dropWhile_subset _ hback
  obtain ⟨c, hc, heq⟩ := List.mem_map.1 hmap
  refine plainChar_ne_minus ?_ heq
  rintro rfl
  exact h hc

/-- An integer that is written without a minus is not negative. -/
theorem nonneg_of_readInt {base : Nat} {t : Text} {n : Int} (h : '-' ∉ t) (hn : readInt base t = .ok n) : 0 ≤ n := by
  have hsign := readSign_of_not_mem (minus_not_mem_plain h)
  unfold readInt at hn
  dsimp only at hn
  split at hn
  · cases hn
  · split at hn
    · cases hn
    · cases hn
      rw [hsign, Binary64.signed, if_neg (by decide)]
      exact Int.natCast_nonneg _

end Number

namespace LeafKind

theorem nonneg_of_readDecimal {t : Text} {n : Int} (h : readDecimal t = .ok (.int n)) : 0 ≤ n := by
  have hminus : Text.isDigitSign '-' = false := by decide +kernel
  unfold readDecimal at h
  dsimp only at h
  split at h
  · rename_i m hm
    cases h
    split at hm
    · rename_i hdigits
      rw [Bool.and_eq_true, List.all_eq_true] at hdigits
      have hmem : '-' ∉ t := by
        intro hmem
        rw [hdigits.2 '-' hmem] at hminus
        cases hminus
      cases hread : Number.readInt 10 t with
      | error e => simp [hread, Except.toOption] at hm
      | ok k =>
        rw [hread] at hm
        cases hm
        exact Number.nonneg_of_readInt hmem hread
    · cases hm
  · cases hx : Number.readFloat t <;> simp [hx, bind, Except.bind, pure, Except.pure] at h

/-- A literal holds the number that was read. -/
theorem eq_ok_of_leaf {α : Type} {x : Except Fault α} {f : α → Scalar} {t u : Text} {p : Pad} {v : Scalar}
    (h : (do return .number .none (f (← x)) t : Except Fault Node) = .ok (.number p v u)) :
    ∃ a, x = .ok a ∧ f a = v := by
  cases x with
  | error e => cases h
  | ok a =>
    cases h
    exact ⟨a, rfl, rfl⟩

end LeafKind

/-- **No integer** that the default rules find in a text is negative. -/
theorem nonneg_of_leafCut? {t : Text} {c : LeafCut} (h : leafCut? Grammar.defaultLeaves t = some c) {p : Pad} {n : Int}
    {u : Text} (hleaf : c.kind.leaf c.matched = .ok (.number p (.int n) u)) : 0 ≤ n := by
  obtain ⟨r, hr, hkind, before, t', hm⟩ := leafCut?_matchAt h
  rw [hkind] at hleaf
  simp only [Grammar.defaultLeaves, List.mem_cons, List.not_mem_nil, or_false] at hr
  rcases hr with rfl | rfl | rfl | rfl
  · obtain ⟨mark, part, hmatched, hmark, hp⟩ := Pattern.hex?_run hm
    have hpart : LeafKind.hexDigitsOf c.matched = part := by
      simp only at hmatched
      rw [hmatched]
      rcases hmark with rfl | rfl | rfl <;> rfl
    have hminus : '-' ∉ part := fun hmem => absurd (hp.2 '-' hmem) (by decide)
    obtain ⟨m, hread, hm⟩ := LeafKind.eq_ok_of_leaf hleaf
    cases hm
    rw [hpart] at hread
    exact Number.nonneg_of_readInt hminus hread
  · obtain ⟨mark, part, hmatched, hmark, hp⟩ := Pattern.binary?_run hm
    have hpart : c.matched.drop 2 = part := by
      simp only at hmatched
      rw [hmatched]
      rcases hmark with rfl | rfl <;> rfl
    have hminus : '-' ∉ part := fun hmem => absurd (hp.2 '-' hmem) (by decide)
    obtain ⟨m, hread, hm⟩ := LeafKind.eq_ok_of_leaf hleaf
    cases hm
    rw [hpart] at hread
    exact Number.nonneg_of_readInt hminus hread
  · cases hleaf
  · obtain ⟨v, hread, rfl⟩ := LeafKind.eq_ok_of_leaf (f := id) hleaf
    exact LeafKind.nonneg_of_readDecimal hread

end FormulaLang
