import FormulaLang.Parse.Parser
import FormulaLang.Grammar.Default
import FormulaLang.Proofs.Leaf.Readable
import Mathlib.Data.List.TakeWhile

/-!
# What the leaf rules find

The text that a leaf pattern finds is that of a literal or a name: its mark and digits, a decimal, or a letter and word
characters. It has no other characters than these (`Pattern.leafChar_of_matchAt?`), and the default rules make a leaf of
whatever they find (`readable_default`), so that cutting leaves never fails (`lexStage_ok`).
-/

namespace FormulaLang

namespace Pattern

open Number (IsRun Fraction Exponent IsDecimal IsDigits)

/-! ## Literals -/

theorem run?_isRun {p : Char → Bool} {t : Text} {r : Text × Text} (h : run? p t = some r) : IsRun p r.1 := by
  unfold run? at h
  split at h
  · cases h
  · rename_i hne
    cases h
    exact ⟨by simpa using hne, fun c hc => List.mem_takeWhile_imp hc⟩

theorem markedRun?_isRun {mark : Text} {p : Char → Bool} {t : Text} {r : Text × Text}
    (h : markedRun? mark p t = some r) : ∃ part, r.1 = mark ++ part ∧ IsRun p part := by
  obtain ⟨s, hs, rfl⟩ := Option.map_eq_some_iff.1 h
  exact ⟨s.1, rfl, run?_isRun hs⟩

/-- A hexadecimal literal: its mark and digits. -/
theorem hex?_run {t : Text} {r : Text × Text} (h : hex? t = some r) :
    ∃ mark part, r.1 = mark ++ part ∧ (mark = ['#'] ∨ mark = ['0', 'x'] ∨ mark = ['0', 'X']) ∧ IsRun isHexDigit part := by
  unfold hex? at h
  split at h
  · obtain ⟨part, hr, hp⟩ := markedRun?_isRun h
    exact ⟨_, part, hr, by simp, hp⟩
  · obtain ⟨part, hr, hp⟩ := markedRun?_isRun h
    exact ⟨_, part, hr, by simp, hp⟩
  · obtain ⟨part, hr, hp⟩ := markedRun?_isRun h
    exact ⟨_, part, hr, by simp, hp⟩
  · cases h

/-- A binary literal: its mark and digits. -/
theorem binary?_run {t : Text} {r : Text × Text} (h : binary? t = some r) :
    ∃ mark part, r.1 = mark ++ part ∧ (mark = ['0', 'b'] ∨ mark = ['0', 'B']) ∧ IsRun isBinaryDigit part := by
  unfold binary? at h
  split at h
  · obtain ⟨part, hr, hp⟩ := markedRun?_isRun h
    exact ⟨_, part, hr, by simp, hp⟩
  · obtain ⟨part, hr, hp⟩ := markedRun?_isRun h
    exact ⟨_, part, hr, by simp, hp⟩
  · cases h

theorem fraction?_isFraction {t : Text} {r : Text × Text} (h : fraction? t = some r) : Fraction Text.isDecimal r.1 := by
  unfold fraction? at h
  split at h
  · obtain ⟨part, hr, hp⟩ := markedRun?_isRun h
    rw [hr]
    exact .present hp
  · cases h

theorem signedRun?_run {mark t : Text} {r : Text × Text} (h : signedRun? mark t = some r) :
    ∃ sign part, r.1 = mark ++ (sign ++ part) ∧ (sign = [] ∨ sign = ['+'] ∨ sign = ['-']) ∧ IsRun Text.isDecimal part := by
  unfold signedRun? at h
  split at h
  · obtain ⟨part, hr, hp⟩ := markedRun?_isRun h
    exact ⟨['+'], part, by simp [hr], by simp, hp⟩
  · obtain ⟨part, hr, hp⟩ := markedRun?_isRun h
    exact ⟨['-'], part, by simp [hr], by simp, hp⟩
  · obtain ⟨part, hr, hp⟩ := markedRun?_isRun h
    exact ⟨[], part, by simp [hr], by simp, hp⟩

theorem exponent?_isExponent {t : Text} {r : Text × Text} (h : exponent? t = some r) : Exponent Text.isDecimal r.1 := by
  unfold exponent? at h
  split at h
  · obtain ⟨sign, part, hr, hs, hp⟩ := signedRun?_run h
    rw [hr, List.singleton_append]
    exact .present (by simp) hs hp
  · obtain ⟨sign, part, hr, hs, hp⟩ := signedRun?_run h
    rw [hr, List.singleton_append]
    exact .present (by simp) hs hp
  · cases h

/-- A part that may be missing is found or empty. -/
theorem extend_cases (more? : Text → Option (Text × Text)) (v : Text × Text) :
    ∃ part, (extend more? v).1 = v.1 ++ part ∧ (part = [] ∨ ∃ r, more? v.2 = some r ∧ part = r.1) := by
  obtain ⟨found, rest⟩ := v
  simp only [extend]
  split
  · rename_i part _ h
    exact ⟨part, rfl, .inr ⟨_, h, rfl⟩⟩
  · exact ⟨[], by simp, .inl rfl⟩

/-- A decimal literal is a decimal. -/
theorem decimal?_isDecimal {t : Text} {r : Text × Text} (h : decimal? t = some r) : IsDecimal Text.isDecimal r.1 := by
  obtain ⟨s, hs, rfl⟩ := Option.map_eq_some_iff.1 h
  obtain ⟨u, hu, rfl⟩ := Option.map_eq_some_iff.1 hs
  obtain ⟨f, hf, hfraction⟩ := extend_cases fraction? u
  obtain ⟨e, he, hexponent⟩ := extend_cases exponent? (extend fraction? u)
  rw [he, hf]
  refine .mk (run?_isRun hu) ?_ ?_
  · rcases hfraction with rfl | ⟨r, hr, rfl⟩
    · exact .absent
    · exact fraction?_isFraction hr
  · rcases hexponent with rfl | ⟨r, hr, rfl⟩
    · exact .absent
    · exact exponent?_isExponent hr

/-- A name: a letter or underscore, and word characters. -/
theorem name?_shape {before : Option Char} {t : Text} {r : Text × Text} (h : name? before t = some r) :
    ∃ c rest, r.1 = c :: rest ∧ (isLetter c || c == '_') = true ∧ ∀ d ∈ rest, Text.isWord d = true := by
  unfold name? at h
  split at h
  · cases h
  · unfold nameHere? at h
    split at h
    · split at h
      · rename_i c rest _ hc
        cases h
        exact ⟨c, rest.takeWhile Text.isWord, rfl, hc, fun d hd => List.mem_takeWhile_imp hd⟩
      · cases h
    · cases h

/-! ## Characters of leaves -/

/-- A word character, or one that stands in a literal. -/
def LeafChar (c : Char) : Prop :=
  Text.isWord c = true ∨ c ∈ ['#', '.', '+', '-']

instance (c : Char) : Decidable (LeafChar c) :=
  inferInstanceAs (Decidable (_ ∨ _))

theorem toNat_of_isHexDigit {c : Char} (h : isHexDigit c = true) :
    (48 ≤ c.toNat ∧ c.toNat ≤ 57) ∨ (97 ≤ c.toNat ∧ c.toNat ≤ 102) ∨ (65 ≤ c.toNat ∧ c.toNat ≤ 70) := by
  simp only [isHexDigit, Bool.or_eq_true, Bool.and_eq_true, decide_eq_true_eq] at h
  rcases h with (h | h) | h
  · exact .inl (Char.isDigit_iff_toNat.1 h)
  · exact .inr (.inl h)
  · exact .inr (.inr h)

/-- A hexadecimal digit is a decimal digit or a letter. -/
theorem isHexDigit_cases {c : Char} (h : isHexDigit c = true) :
    Text.isDecimal c = true ∨ c.isAlpha = true ∧ c.toNat < 128 := by
  have hrange := toNat_of_isHexDigit h
  have hlt : c.toNat < 128 := by omega
  rcases hrange with hd | hlower | hupper
  · exact .inl (by simp [Text.isDecimal, Text.decimalValue?, hlt, hd])
  · have hc : c.isLower = true :=
      Bool.and_eq_true_iff.2 ⟨decide_eq_true hlower.1, decide_eq_true (Nat.le_trans hlower.2 (by decide))⟩
    exact .inr ⟨Bool.or_eq_true_iff.2 (.inr hc), hlt⟩
  · have hc : c.isUpper = true := decide_eq_true ⟨hupper.1, Nat.le_trans hupper.2 (by decide)⟩
    exact .inr ⟨Bool.or_eq_true_iff.2 (.inl hc), hlt⟩

theorem isWord_of_isHexDigit {c : Char} (h : isHexDigit c = true) : Text.isWord c = true := by
  rcases isHexDigit_cases h with hdecimal | ⟨halpha, hlt⟩
  · exact Text.isWord_of_isDecimal hdecimal
  · simp [Text.isWord, hlt, halpha]

theorem isWord_of_isBinaryDigit {c : Char} (h : isBinaryDigit c = true) : Text.isWord c = true := by
  simp only [isBinaryDigit, Bool.or_eq_true, beq_iff_eq] at h
  rcases h with rfl | rfl <;> decide

theorem isWord_of_isLetter {c : Char} (h : isLetter c = true) : Text.isWord c = true := by
  have hfold : (['İ', 'ı', 'ſ', '\u212A'].all Text.isWord) = true := by decide +kernel
  simp only [List.all_cons, List.all_nil, Bool.and_eq_true] at hfold
  simp only [isLetter, Bool.or_eq_true, beq_iff_eq] at h
  rcases h with (((h | rfl) | rfl) | rfl) | rfl
  · have hlt : c.toNat < 128 := by
      rcases Bool.or_eq_true_iff.1 h with hupper | hlower
      · exact Nat.lt_of_le_of_lt (of_decide_eq_true hupper).2 (by decide)
      · exact Nat.lt_of_le_of_lt (of_decide_eq_true (Bool.and_eq_true_iff.1 hlower).2) (by decide)
    simp [Text.isWord, hlt, h]
  · exact hfold.1
  · exact hfold.2.1
  · exact hfold.2.2.1
  · exact hfold.2.2.2.1

theorem leafChar_of_marked {p : Char → Bool} {mark part : Text} (hm : ∀ c ∈ mark, LeafChar c)
    (hp : ∀ c, p c = true → LeafChar c) (h : IsRun p part) : ∀ c ∈ mark ++ part, LeafChar c :=
  List.forall_mem_append.2 ⟨hm, fun c hc => hp c (h.2 c hc)⟩

/-- A found text has no other characters. -/
theorem leafChar_of_matchAt? {p : Pattern} {before : Option Char} {t : Text} {r : Text × Text}
    (h : p.matchAt? before t = some r) : ∀ c ∈ r.1, LeafChar c := by
  cases p with
  | hexLiteral =>
    obtain ⟨mark, part, hr, hm, hp⟩ := hex?_run h
    rw [hr]
    refine leafChar_of_marked ?_ (fun _ h => .inl (isWord_of_isHexDigit h)) hp
    rcases hm with rfl | rfl | rfl
    · exact List.forall_mem_singleton.2 (by decide)
    · exact List.forall_mem_cons.2 ⟨by decide, List.forall_mem_singleton.2 (by decide)⟩
    · exact List.forall_mem_cons.2 ⟨by decide, List.forall_mem_singleton.2 (by decide)⟩
  | binaryLiteral =>
    obtain ⟨mark, part, hr, hm, hp⟩ := binary?_run h
    rw [hr]
    refine leafChar_of_marked ?_ (fun _ h => .inl (isWord_of_isBinaryDigit h)) hp
    rcases hm with rfl | rfl
    · exact List.forall_mem_cons.2 ⟨by decide, List.forall_mem_singleton.2 (by decide)⟩
    · exact List.forall_mem_cons.2 ⟨by decide, List.forall_mem_singleton.2 (by decide)⟩
  | name =>
    obtain ⟨c, rest, hr, hc, hrest⟩ := name?_shape h
    rw [hr, List.forall_mem_cons]
    refine ⟨?_, fun d hd => .inl (hrest d hd)⟩
    rcases Bool.or_eq_true_iff.1 hc with hc | hc
    · exact .inl (isWord_of_isLetter hc)
    · rw [beq_iff_eq.1 hc]
      exact .inl (by decide)
  | decimalLiteral =>
    exact (decimal?_isDecimal h).forall_mem (fun _ h => .inl (Text.isWord_of_isDecimal h)) (by decide) (by decide) (by decide)
  | letters => exact fun c hc => .inl (isWord_of_isLetter ((run?_isRun h).2 c hc))
  | digits => exact fun c hc => .inl (Text.isWord_of_isDecimal ((run?_isRun h).2 c hc))
  | word => exact fun c hc => .inl ((run?_isRun h).2 c hc)
  | unknown => cases h

/-- A found piece of text is what the pattern matches at some place. -/
theorem search?_matchAt {p : Pattern} {t : Text} {f : Found} (h : p.search? t = some f) :
    ∃ before t', p.matchAt? before t' = some (f.matched, f.after) := by
  have key : ∀ (before : Option Char) (t : Text) (f : Found), p.searchFrom? before t = some f →
      ∃ before t', p.matchAt? before t' = some (f.matched, f.after) := by
    intro before t
    induction t generalizing before with
    | nil =>
      intro f h
      cases h
    | cons c rest ih =>
      intro f h
      rw [searchFrom?] at h
      split at h
      · rename_i m after hm
        cases h
        exact ⟨before, c :: rest, hm⟩
      · obtain ⟨g, hg, rfl⟩ := Option.map_eq_some_iff.1 h
        exact ih (some c) g hg
  exact key none t f h

end Pattern

/-- A cut is made where the pattern of a rule matches. -/
theorem leafCut?_matchAt {rules : List LeafRule} {t : Text} {c : LeafCut} (h : leafCut? rules t = some c) :
    ∃ r ∈ rules, c.kind = r.kind ∧ ∃ before t', r.pattern.matchAt? before t' = some (c.matched, c.after) := by
  obtain ⟨r, hr, hc⟩ := List.exists_of_findSome?_eq_some h
  obtain ⟨f, hf, rfl⟩ := Option.map_eq_some_iff.1 hc
  exact ⟨r, hr, rfl, Pattern.search?_matchAt hf⟩

theorem leafCut?_leafChar {rules : List LeafRule} {t : Text} {c : LeafCut} (h : leafCut? rules t = some c) :
    ∀ d ∈ c.matched, Pattern.LeafChar d := by
  obtain ⟨r, -, -, before, t', hm⟩ := leafCut?_matchAt h
  exact Pattern.leafChar_of_matchAt? hm

/-! ## Leaves that can be read -/

/-- The rules make a leaf of whatever they find. -/
def Readable (rules : List LeafRule) : Prop :=
  ∀ t c, leafCut? rules t = some c → ∃ n, c.kind.leaf c.matched = .ok n

section Readable

variable {rules : List LeafRule} (hr : Readable rules)

include hr

theorem lexText_ok (t : Text) : ∃ out, lexText rules t = .ok out := by
  fun_induction lexText rules t with
  | case1 t hc => exact ⟨_, rfl⟩
  | case2 t c hc e he =>
    obtain ⟨n, hn⟩ := hr t c hc
    rw [hn] at he
    cases he
  | case3 t c hc leaf hl e he ih =>
    obtain ⟨out, hout⟩ := ih
    rw [hout] at he
    cases he
  | case4 t c hc leaf hl left hleft e he ih₁ ih₂ =>
    obtain ⟨out, hout⟩ := ih₂
    rw [hout] at he
    cases he
  | case5 => exact ⟨_, rfl⟩

theorem lexEach_ok (ss : List Node) : ∃ out, lexEach rules ss = .ok out := by
  induction ss with
  | nil => exact ⟨_, rfl⟩
  | cons n ss ih =>
    obtain ⟨others, hothers⟩ := ih
    have hn : ∃ pieces, lexSentence rules n = .ok pieces := by
      cases n with
      | raw t => exact lexText_ok hr t
      | _ => exact ⟨_, rfl⟩
    obtain ⟨pieces, hpieces⟩ := hn
    exact ⟨pieces :: others, by rw [lexEach, hpieces, hothers]⟩

end Readable

/-- Cutting leaves does not fail when the rules make leaves of what they find. -/
theorem lexStage_ok {g : Grammar} (hr : Readable g.leaves) (offset : Int) (ss : List Node) :
    ∃ out, (lexStage g offset ss).result = .ok out := by
  obtain ⟨pieces, hp⟩ := lexEach_ok hr ss
  exact ⟨pieces.flatten, by rw [lexStage, hp]⟩

open Number (IsRun IsDecimal IsDigits)

/-- A hexadecimal digit is a digit of base 16. -/
theorem Pattern.digitIn?_of_isHexDigit {c : Char} (h : Pattern.isHexDigit c = true) :
    (Number.digitIn? 16 c).isSome = true := by
  have hrange := Pattern.toNat_of_isHexDigit h
  unfold Number.digitIn? Number.digitValue?
  dsimp only
  split
  · simp only [Option.isSome_filter, Option.any_some, decide_eq_true_eq]
    omega
  · split
    · simp only [Option.isSome_filter, Option.any_some, decide_eq_true_eq]
      omega
    · split
      · simp only [Option.isSome_filter, Option.any_some, decide_eq_true_eq]
        omega
      · omega

theorem LeafKind.leaf_hex_ok {mark part : Text} (hm : mark = ['#'] ∨ mark = ['0', 'x'] ∨ mark = ['0', 'X'])
    (hp : IsRun Pattern.isHexDigit part) : ∃ n, LeafKind.hex.leaf (mark ++ part) = .ok n := by
  have hdigits : IsDigits 16 part := ⟨hp.1, fun c hc => Pattern.digitIn?_of_isHexDigit (hp.2 c hc)⟩
  have hpart : LeafKind.hexDigitsOf (mark ++ part) = part := by
    rcases hm with rfl | rfl | rfl <;> rfl
  obtain ⟨n, hn⟩ := Number.readInt_ok (by decide) hdigits
  exact ⟨_, by rw [LeafKind.leaf, hpart, hn]; rfl⟩

theorem LeafKind.leaf_binary_ok {mark part : Text} (hm : mark = ['0', 'b'] ∨ mark = ['0', 'B'])
    (hp : IsRun Pattern.isBinaryDigit part) : ∃ n, LeafKind.binary.leaf (mark ++ part) = .ok n := by
  have hdigits : IsDigits 2 part := by
    refine ⟨hp.1, fun c hc => ?_⟩
    have hc := hp.2 c hc
    simp only [Pattern.isBinaryDigit, Bool.or_eq_true, beq_iff_eq] at hc
    rcases hc with rfl | rfl <;> decide
  have hpart : (mark ++ part).drop 2 = part := by
    rcases hm with rfl | rfl <;> rfl
  obtain ⟨n, hn⟩ := Number.readInt_ok (by decide) hdigits
  exact ⟨_, by rw [LeafKind.leaf, hpart, hn]; rfl⟩

theorem LeafKind.leaf_decimal_ok {t : Text} (h : IsDecimal Text.isDecimal t) :
    ∃ n, LeafKind.decimal.leaf t = .ok n := by
  obtain ⟨x, hx⟩ := Number.readFloat_ok h
  have hread : ∃ v, LeafKind.readDecimal t = .ok v := by
    unfold LeafKind.readDecimal
    dsimp only
    split
    · exact ⟨_, rfl⟩
    · exact ⟨_, by rw [hx]; rfl⟩
  obtain ⟨v, hv⟩ := hread
  exact ⟨_, by rw [LeafKind.leaf, hv]; rfl⟩

/-- **The default leaf rules** make a leaf of whatever they find. -/
theorem readable_default : Readable Grammar.defaultLeaves := by
  intro t c h
  obtain ⟨r, hr, hkind, before, t', hm⟩ := leafCut?_matchAt h
  rw [hkind]
  simp only [Grammar.defaultLeaves, List.mem_cons, List.not_mem_nil, or_false] at hr
  rcases hr with rfl | rfl | rfl | rfl
  · obtain ⟨mark, part, hmatched, hmark, hp⟩ := Pattern.hex?_run hm
    simp only at hmatched
    rw [hmatched]
    exact LeafKind.leaf_hex_ok hmark hp
  · obtain ⟨mark, part, hmatched, hmark, hp⟩ := Pattern.binary?_run hm
    simp only at hmatched
    rw [hmatched]
    exact LeafKind.leaf_binary_ok hmark hp
  · exact ⟨_, rfl⟩
  · exact LeafKind.leaf_decimal_ok (Pattern.decimal?_isDecimal hm)

end FormulaLang
