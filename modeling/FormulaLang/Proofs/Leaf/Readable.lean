import FormulaLang.Number.Reader

/-!
# Texts that can be read

Reading a number does not fail on the texts that a literal has: the digits of a base other than ten (`readInt_ok`), and
decimals in the digits of any script (`readFloat_ok`).
-/

namespace FormulaLang

namespace Number

/-! ## Plain texts -/

theorem dropWhile_eq_self {p : Char → Bool} {t : Text} (h : ∀ c ∈ t, p c = false) : t.dropWhile p = t := by
  cases t with
  | nil => rfl
  | cons c t => rw [List.dropWhile_cons_of_neg (by simp [h c List.mem_cons_self])]

/-- A text without white space stays as it is, in plain digits. -/
theorem plain_eq_map {t : Text} (h : ∀ c ∈ t.map plainChar, isMargin c = false) : plain t = t.map plainChar := by
  have hrev : ∀ c ∈ (t.map plainChar).reverse, isMargin c = false := fun c hc => h c (List.mem_reverse.1 hc)
  simp only [plain, dropWhile_eq_self h, dropWhile_eq_self hrev, List.reverse_reverse]

theorem readSign_eq_self {t : Text} (h : ∀ c ∈ t, c ≠ '-' ∧ c ≠ '+') : readSign t = (false, t) := by
  unfold readSign
  split
  · exact absurd rfl (h '-' List.mem_cons_self).1
  · exact absurd rfl (h '+' List.mem_cons_self).2
  · rfl

/-! ## Digits -/

/-- A text of digits of a base. -/
def IsDigits (base : Nat) (t : Text) : Prop :=
  t ≠ [] ∧ ∀ c ∈ t, (digitIn? base c).isSome = true

theorem digitIn?_underscore (base : Nat) : digitIn? base '_' = none := by
  have h : digitValue? '_' = none := by decide
  rw [digitIn?, h]
  rfl

theorem readDigits_isSome {base acc : Nat} {t : Text} (h : ∀ c ∈ t, (digitIn? base c).isSome = true) :
    (readDigits base acc t).isSome = true := by
  induction t generalizing acc with
  | nil => rfl
  | cons c t ih =>
    have hc := h c List.mem_cons_self
    obtain ⟨d, hd⟩ := Option.isSome_iff_exists.1 hc
    have hne : c ≠ '_' := by
      rintro rfl
      rw [digitIn?_underscore] at hc
      cases hc
    rw [readDigits, hd, Option.bind_some]
    · exact ih fun c' hc' => h c' (List.mem_cons_of_mem _ hc')
    · rintro d' t' rfl
      exact absurd rfl hne

theorem readNatural_isSome {base : Nat} {t : Text} (h : IsDigits base t) : (readNatural base t).isSome = true := by
  obtain ⟨hne, ht⟩ := h
  cases t with
  | nil => exact absurd rfl hne
  | cons c t =>
    obtain ⟨d, hd⟩ := Option.isSome_iff_exists.1 (ht c List.mem_cons_self)
    rw [readNatural, hd, Option.bind_some]
    exact readDigits_isSome fun c' hc' => ht c' (List.mem_cons_of_mem _ hc')

/-- The code points of the digits of a base. -/
theorem toNat_of_digitIn? {base : Nat} {c : Char} (h : (digitIn? base c).isSome = true) :
    (48 ≤ c.toNat ∧ c.toNat ≤ 57 ∧ c.toNat < base + 48) ∨ (97 ≤ c.toNat ∧ c.toNat ≤ 122 ∧ c.toNat < base + 87) ∨
      (65 ≤ c.toNat ∧ c.toNat ≤ 90 ∧ c.toNat < base + 55) := by
  obtain ⟨d, hd⟩ := Option.isSome_iff_exists.1 h
  obtain ⟨hv, hlt⟩ := Option.filter_eq_some_iff.1 hd
  have hlt : d < base := of_decide_eq_true hlt
  unfold digitValue? at hv
  dsimp only at hv
  split at hv
  · cases hv
    omega
  · split at hv
    · cases hv
      omega
    · split at hv
      · cases hv
        omega
      · cases hv

/-- A digit is read as it is. -/
theorem plain_digit {base : Nat} {c : Char} (h : (digitIn? base c).isSome = true) :
    plainChar c = c ∧ isMargin c = false ∧ c ≠ '-' ∧ c ≠ '+' := by
  have hrange := toNat_of_digitIn? h
  have hne : ∀ d : Char, d.toNat < 48 → c ≠ d := by
    rintro d hd rfl
    omega
  have hspace : c ≠ ' ' := hne ' ' (by decide)
  have hcontrol : ¬c.toNat ≤ 13 := by omega
  refine ⟨if_pos (by omega), ?_, hne '-' (by decide), hne '+' (by decide)⟩
  simp [isMargin, hspace, hcontrol]

theorem toNat_toLower (c : Char) : c.toLower.toNat = c.toNat ∨ c.toLower.toNat = c.toNat + 32 := by
  unfold Char.toLower
  split
  · rename_i h
    have hle : c.toNat ≤ 90 := h.2
    have hsum : ('a'.val - 'A'.val).toNat = 32 := by decide
    refine .inr ?_
    rw [Char.toNat_mk, UInt32.toNat_add, hsum, Char.toNat_val]
    exact Nat.mod_eq_of_lt (by omega)
  · exact .inl rfl

/-- The letter of the mark of base 16 is no digit of it, nor is that of base 2. -/
theorem no_mark_digit {base : Nat} {c : Char} (h : (digitIn? base c).isSome = true) :
    ¬((base = 16 ∧ c.toLower = 'x') ∨ (base = 2 ∧ c.toLower = 'b')) := by
  have hrange := toNat_of_digitIn? h
  have hlower := toNat_toLower c
  rintro (⟨rfl, hx⟩ | ⟨rfl, hb⟩)
  · have hx : c.toLower.toNat = 120 := by rw [hx]; rfl
    omega
  · have hb : c.toLower.toNat = 98 := by rw [hb]; rfl
    omega

theorem dropMark_digits {base : Nat} {t : Text} (h : ∀ c ∈ t, (digitIn? base c).isSome = true) :
    dropMark base t = t := by
  unfold dropMark
  split
  · rename_i mark rest
    rw [if_neg (no_mark_digit (h mark (by simp)))]
  · rfl

/-- Digits have neither white space nor a sign or a mark. -/
theorem readInt_digits {base : Nat} {t : Text} (h : IsDigits base t) :
    readInt base t =
      match readNatural base t with
      | none => .error .domain
      | some n =>
        if base = 10 ∧ maxDigits < (t.filter (· != '_')).length then .error .domain else .ok (Binary64.signed false n) := by
  have hmap : t.map plainChar = t :=
    (List.map_congr_left (g := id) fun c hc => (plain_digit (h.2 c hc)).1).trans (List.map_id t)
  have hplain : plain t = t := by
    rw [plain_eq_map, hmap]
    rw [hmap]
    exact fun c hc => (plain_digit (h.2 c hc)).2.1
  have hsign : readSign t = (false, t) := readSign_eq_self fun c hc => (plain_digit (h.2 c hc)).2.2
  cases hn : readNatural base t <;> simp only [readInt, hplain, hsign, dropMark_digits h.2, hn]

/-- **Digits** of a base other than ten are the text of an integer. -/
theorem readInt_ok {base : Nat} {t : Text} (hbase : base ≠ 10) (h : IsDigits base t) : ∃ n, readInt base t = .ok n := by
  obtain ⟨n, hn⟩ := Option.isSome_iff_exists.1 (readNatural_isSome h)
  refine ⟨Binary64.signed false n, ?_⟩
  simp [readInt_digits h, hn, hbase]

/-! ## Decimals -/

/-- A non-empty run of characters. -/
def IsRun (p : Char → Bool) (t : Text) : Prop :=
  t ≠ [] ∧ ∀ c ∈ t, p c = true

instance (p : Char → Bool) (t : Text) : Decidable (IsRun p t) :=
  decidable_of_iff (t ≠ [] ∧ t.all p = true) (and_congr_right' List.all_eq_true)

/-- A fraction or none. -/
inductive Fraction (p : Char → Bool) : Text → Prop
  | absent : Fraction p []
  | present {part : Text} (h : IsRun p part) : Fraction p ('.' :: part)

/-- An exponent or none. -/
inductive Exponent (p : Char → Bool) : Text → Prop
  | absent : Exponent p []
  | present {mark : Char} {sign part : Text} (hm : mark = 'e' ∨ mark = 'E') (hs : sign = [] ∨ sign = ['+'] ∨ sign = ['-'])
      (h : IsRun p part) : Exponent p (mark :: (sign ++ part))

/-- Digits, a fraction or none, and an exponent or none. -/
inductive IsDecimal (p : Char → Bool) : Text → Prop
  | mk {whole fraction exponent : Text} (hw : IsRun p whole) (hf : Fraction p fraction) (he : Exponent p exponent) :
      IsDecimal p (whole ++ fraction ++ exponent)

variable {p q : Char → Bool} {t : Text}

theorem IsRun.map {f : Char → Char} (hf : ∀ c, p c = true → q (f c) = true) (h : IsRun p t) : IsRun q (t.map f) := by
  refine ⟨by simpa using h.1, ?_⟩
  rw [List.forall_mem_map]
  exact fun c hc => hf c (h.2 c hc)

theorem plainChar_mark {mark : Char} (h : mark = 'e' ∨ mark = 'E') : plainChar mark = mark := by
  rcases h with rfl | rfl <;> decide

theorem map_plainChar_sign {sign : Text} (h : sign = [] ∨ sign = ['+'] ∨ sign = ['-']) : sign.map plainChar = sign := by
  rcases h with rfl | rfl | rfl <;> decide

/-- A decimal in plain digits is a decimal. -/
theorem IsDecimal.map (h : IsDecimal p t) (hp : ∀ c, p c = true → q (plainChar c) = true) :
    IsDecimal q (t.map plainChar) := by
  obtain ⟨hw, hf, he⟩ := h
  rw [List.map_append, List.map_append]
  refine .mk (hw.map hp) ?_ ?_
  · cases hf with
    | absent => exact .absent
    | present h =>
      rw [List.map_cons, show plainChar '.' = '.' by decide]
      exact .present (h.map hp)
  · cases he with
    | absent => exact .absent
    | present hm hs h =>
      rw [List.map_cons, List.map_append, plainChar_mark hm, map_plainChar_sign hs]
      exact .present hm hs (h.map hp)

/-- The characters of a decimal. -/
theorem IsDecimal.forall_mem (h : IsDecimal p t) {Q : Char → Prop} (hp : ∀ c, p c = true → Q c)
    (hpoint : Q '.') (hmark : Q 'e' ∧ Q 'E') (hsign : Q '+' ∧ Q '-') : ∀ c ∈ t, Q c := by
  obtain ⟨hw, hf, he⟩ := h
  rw [List.forall_mem_append, List.forall_mem_append]
  refine ⟨⟨fun c hc => hp c (hw.2 c hc), ?_⟩, ?_⟩
  · cases hf with
    | absent => simp
    | present h =>
      rw [List.forall_mem_cons]
      exact ⟨hpoint, fun c hc => hp c (h.2 c hc)⟩
  · cases he with
    | absent => simp
    | present hm hs h =>
      rw [List.forall_mem_cons, List.forall_mem_append]
      refine ⟨?_, ?_, fun c hc => hp c (h.2 c hc)⟩
      · rcases hm with rfl | rfl
        · exact hmark.1
        · exact hmark.2
      · rcases hs with rfl | rfl | rfl
        · simp
        · exact List.forall_mem_singleton.2 hsign.1
        · exact List.forall_mem_singleton.2 hsign.2

theorem IsDecimal.head (h : IsDecimal p t) : ∀ c ∈ t.head?, p c = true := by
  obtain ⟨hw, -, -⟩ := h
  rename_i whole _ _
  cases whole with
  | nil => exact absurd rfl hw.1
  | cons d whole =>
    intro c hc
    cases hc
    exact hw.2 d List.mem_cons_self

theorem isDigit_isSome {c : Char} (h : c.isDigit = true) : (digitIn? 10 c).isSome = true := by
  obtain ⟨hlow, hhigh⟩ := Char.isDigit_iff_toNat.1 h
  have hlow : 48 ≤ c.toNat := hlow
  have hhigh : c.toNat ≤ 57 := hhigh
  have hd : c.toNat - 48 < 10 := by omega
  simp [digitIn?, digitValue?, hlow, hhigh, hd]

theorem takeWhile_append_of_run {x y : Text} (hx : ∀ c ∈ x, p c = true) (hy : ∀ c ∈ y.head?, p c = false) :
    (x ++ y).takeWhile p = x ∧ (x ++ y).dropWhile p = y := by
  rw [List.takeWhile_append_of_pos hx, List.dropWhile_append_of_pos hx]
  cases y with
  | nil => simp
  | cons c y =>
    have hc : ¬p c = true := by simp [hy c rfl]
    rw [List.takeWhile_cons_of_neg hc, List.dropWhile_cons_of_neg hc, List.append_nil]
    exact ⟨rfl, rfl⟩

theorem Exponent.head (h : Exponent Char.isDigit t) : ∀ c ∈ t.head?, c.isDigit = false ∧ c ≠ '.' := by
  cases h with
  | absent => simp
  | present hm hs h =>
    intro c hc
    cases hc
    rcases hm with rfl | rfl <;> decide

theorem Exponent.readExponent (h : Exponent Char.isDigit t) : (readExponent t).isSome = true := by
  cases h with
  | absent => rfl
  | @present mark sign part hm hs h =>
    have hdigits : IsDigits 10 part := ⟨h.1, fun c hc => isDigit_isSome (h.2 c hc)⟩
    have hsign : (readSign (sign ++ part)).2 = part := by
      rcases hs with rfl | rfl | rfl
      · rw [List.nil_append, readSign_eq_self fun c hc => (plain_digit (hdigits.2 c hc)).2.2]
      · rfl
      · rfl
    have hmark : (mark == 'e' || mark == 'E') = true := by
      rcases hm with rfl | rfl <;> rfl
    have hall : part.all Char.isDigit = true := List.all_eq_true.2 h.2
    simp [Number.readExponent, hmark, hsign, hall, readNatural_isSome hdigits]

/-- A decimal in plain digits is read. -/
theorem IsDecimal.readDecimal (h : IsDecimal Char.isDigit t) : (readDecimal t).isSome = true := by
  obtain ⟨hw, hf, he⟩ := h
  rename_i whole fraction exponent
  have hhead : ∀ c ∈ (fraction ++ exponent).head?, c.isDigit = false := by
    cases hf with
    | absent => exact fun c hc => (he.head c hc).1
    | present h =>
      intro c hc
      cases hc
      rfl
  obtain ⟨htake, hdrop⟩ := takeWhile_append_of_run hw.2 hhead
  have hexp := he.readExponent
  rw [List.append_assoc]
  unfold Number.readDecimal
  simp only [htake, hdrop]
  cases hf with
  | absent =>
    cases he with
    | absent => simp [hw.1, hexp]
    | present hm hs h =>
      rcases hm with rfl | rfl <;> simp [hw.1, hexp]
  | @present part h =>
    obtain ⟨htake', hdrop'⟩ := takeWhile_append_of_run h.2 fun c hc => (he.head c hc).1
    simp [htake', hdrop', hw.1, hexp]

theorem underscoresFit_of_not_mem {before : Option Char} {t : Text} (h : '_' ∉ t) : underscoresFit before t = true := by
  induction t generalizing before with
  | nil => rfl
  | cons c t ih =>
    rw [List.mem_cons, not_or] at h
    rw [underscoresFit]
    · exact ih h.2
    · rintro rfl
      exact h.1 rfl

/-- No script has its digits among the white space. -/
theorem not_isBlank_of_isDecimal {c : Char} (h : Text.isDecimal c = true) : Text.isBlank c = false := by
  have hzeros : ∀ z ∈ Text.decimalZeros, 0xA0 < z ∧ (z + 10 ≤ 0x1680 ∨ 0x1680 < z) ∧ (z + 10 ≤ 0x2000 ∨ 0x205F < z) ∧
      (z + 10 ≤ 0x3000 ∨ 0x3000 < z) := by
    decide
  obtain ⟨d, hd⟩ := Option.isSome_iff_exists.1 h
  unfold Text.decimalValue? at hd
  dsimp only at hd
  unfold Text.isBlank
  split at hd
  · rename_i hlt
    split at hd
    · simp only [hlt, ↓reduceIte, Bool.or_eq_false_iff, Bool.and_eq_false_iff, decide_eq_false_iff_not]
      omega
    · cases hd
  · rename_i hlt
    obtain ⟨z, hz, -⟩ := Option.map_eq_some_iff.1 hd
    have hin := List.find?_some hz
    have hz := hzeros z (List.mem_of_find?_eq_some hz)
    simp only [Bool.and_eq_true, decide_eq_true_eq] at hin
    simp only [hlt, ↓reduceIte, Bool.or_eq_false_iff, Bool.and_eq_false_iff, decide_eq_false_iff_not, beq_eq_false_iff_ne]
    omega

/-- A decimal digit of any script becomes a plain digit. -/
theorem isDigit_plainChar {c : Char} (h : Text.isDecimal c = true) : (plainChar c).isDigit = true := by
  obtain ⟨d, hd⟩ := Option.isSome_iff_exists.1 h
  have hdigit : ∀ d < 10, (Char.ofNat (48 + d)).isDigit = true := by decide
  unfold plainChar
  split
  · rename_i hlt
    have hrange : 48 ≤ c.toNat ∧ c.toNat ≤ 57 := by
      unfold Text.decimalValue? at hd
      dsimp only at hd
      rw [if_pos (by omega)] at hd
      split at hd
      · assumption
      · cases hd
    have := hdigit (c.toNat - 48) (by omega)
    rwa [Nat.add_sub_cancel' hrange.1, Char.ofNat_toNat] at this
  · simp only [not_isBlank_of_isDecimal h, Bool.false_eq_true, ↓reduceIte, hd]
    exact hdigit d (Text.decimalValue?_lt hd)

/-- **Decimals** in the digits of any script are the text of a double. -/
theorem readFloat_ok {t : Text} (h : IsDecimal Text.isDecimal t) : ∃ x, readFloat t = .ok x := by
  have hmap : IsDecimal Char.isDigit (t.map plainChar) := h.map fun _ => isDigit_plainChar
  generalize hs : t.map plainChar = s at hmap
  have hchars : ∀ c ∈ s, isMargin c = false ∧ c ≠ '_' := by
    refine hmap.forall_mem (fun c hc => ?_) (by decide) (by decide) (by decide)
    have hsome := isDigit_isSome hc
    refine ⟨(plain_digit hsome).2.1, ?_⟩
    rintro rfl
    cases hc
  have hplain : plain t = s := by
    rw [plain_eq_map, hs]
    rw [hs]
    exact fun c hc => (hchars c hc).1
  have hfilter : s.filter (· != '_') = s := List.filter_eq_self.2 fun c hc => by simp [(hchars c hc).2]
  have hsign : readSign s = (false, s) := by
    unfold readSign
    split
    · cases hmap.head '-' rfl
    · cases hmap.head '+' rfl
    · rfl
  have hfit : underscoresFit none s = true := underscoresFit_of_not_mem fun hmem => (hchars '_' hmem).2 rfl
  obtain ⟨d, hd⟩ := Option.isSome_iff_exists.1 hmap.readDecimal
  simp only [readFloat, hplain, hfilter, hsign, hfit, hd, Bool.not_true, Bool.false_eq_true, ↓reduceIte]
  split
  · exact ⟨_, rfl⟩
  · split
    · exact ⟨_, rfl⟩
    · exact ⟨_, rfl⟩

end Number

end FormulaLang
