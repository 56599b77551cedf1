import FormulaLang.Number.Binary64
import Mathlib

/-!
# Correct rounding

The double of a ratio is correctly rounded: of all magnitudes with at most 53 bits, none of them below the least exponent, no
one is nearer to the ratio (`nearest_ofRatio`). The rest follows from that alone: what is representable stays as it is, rounding
never passes a representable magnitude (`Nearest.le_of_le`, `Nearest.ge_of_ge`), and from the least normal magnitude on it moves
a number by less than the `2 ^ 53`rd part of it (`Nearest.eq_or_error_lt`).
-/

namespace FormulaLang.Binary64

/-! ## Nearest magnitudes -/

/-- A magnitude of at most 53 bits, none of them below the least exponent. -/
def Representable (y : ℚ) : Prop :=
  ∃ (m : ℕ) (e : ℤ), m ≤ 2 ^ 53 ∧ minExponent ≤ e ∧ y = m * 2 ^ e

/-- No representable magnitude is nearer to `x` than `y`. -/
structure Nearest (x y : ℚ) : Prop where
  representable : Representable y
  le {w : ℚ} (hw : Representable w) : |y - x| ≤ |w - x|

theorem representable_natCast {n : ℕ} (h : n ≤ 2 ^ 53) : Representable n :=
  ⟨n, 0, h, by decide, by simp⟩

theorem Representable.nonneg {y : ℚ} (h : Representable y) : 0 ≤ y := by
  obtain ⟨m, e, -, -, rfl⟩ := h
  positivity

/-- The exponent at which a normal magnitude has 53 bits before the point. -/
theorem exists_exponent {x : ℚ} (hx : 2 ^ (-1022 : ℤ) ≤ x) :
    ∃ q : ℤ, minExponent ≤ q ∧ 2 ^ 52 * 2 ^ q ≤ x ∧ x < 2 ^ 53 * 2 ^ q := by
  have hpos : 0 < x := lt_of_lt_of_le (by positivity) hx
  have hlog : -1022 ≤ Int.log 2 x := (Int.zpow_le_iff_le_log one_lt_two hpos).1 hx
  obtain ⟨q, hq⟩ : ∃ q, Int.log 2 x = q + 52 := ⟨Int.log 2 x - 52, by omega⟩
  have hlow := Int.zpow_log_le_self one_lt_two hpos
  have hhigh := Int.lt_zpow_succ_log_self one_lt_two x
  rw [hq, Nat.cast_ofNat, add_comm, zpow_add₀ two_ne_zero] at hlow
  rw [hq, Nat.cast_ofNat, add_assoc, add_comm, zpow_add₀ two_ne_zero] at hhigh
  exact ⟨q, by rw [minExponent]; omega, hlow, hhigh⟩

namespace Nearest

variable {x y w : ℚ}

theorem le_of_le (h : Nearest x y) (hw : Representable w) (hwx : w ≤ x) : w ≤ y := by
  by_contra hlt
  have hle : |y - x| ≤ |w - x| := h.le hw
  rw [abs_of_nonpos (by linarith), abs_of_nonpos (by linarith)] at hle
  linarith

theorem ge_of_ge (h : Nearest x y) (hw : Representable w) (hxw : x ≤ w) : y ≤ w := by
  by_contra hlt
  have hle : |y - x| ≤ |w - x| := h.le hw
  rw [abs_of_nonneg (by linarith), abs_of_nonneg (by linarith)] at hle
  linarith

theorem eq_of_representable (h : Nearest x y) (hx : Representable x) : y = x := by
  have hle : |y - x| ≤ |x - x| := h.le hx
  rwa [sub_self, abs_zero, abs_nonpos_iff, sub_eq_zero] at hle

/-- A normal magnitude is moved by less than the `2 ^ 53`rd part of it, if at all. -/
theorem eq_or_error_lt (h : Nearest x y) (hx : 2 ^ (-1022 : ℤ) ≤ x) : y = x ∨ 2 ^ 53 * |y - x| < x := by
  have hpos : 0 < x := lt_of_lt_of_le (by positivity) hx
  obtain ⟨q, hleast, hlow, hhigh⟩ := exists_exponent hx
  have hunit : (0 : ℚ) < 2 ^ q := by positivity
  -- The multiples of the unit around the number.
  have hfloor : (⌊x / 2 ^ q⌋₊ : ℚ) * 2 ^ q ≤ x := (le_div_iff₀ hunit).1 (Nat.floor_le (by positivity))
  have hceil : x < (⌊x / 2 ^ q⌋₊ + 1 : ℕ) * 2 ^ q := (div_lt_iff₀ hunit).1 (by exact_mod_cast Nat.lt_floor_add_one (x / 2 ^ q))
  have hbits : ⌊x / 2 ^ q⌋₊ < 2 ^ 53 := (Nat.floor_lt (by positivity)).2 ((div_lt_iff₀ hunit).2 (by exact_mod_cast hhigh))
  have hdown : |y - x| ≤ x - ⌊x / 2 ^ q⌋₊ * 2 ^ q := by
    have hle := h.le ⟨⌊x / 2 ^ q⌋₊, q, hbits.le, hleast, rfl⟩
    rwa [abs_sub_comm _ x, abs_sub_comm _ x, abs_of_nonneg (sub_nonneg.2 hfloor), abs_sub_comm] at hle
  have hup : |y - x| ≤ (⌊x / 2 ^ q⌋₊ + 1 : ℕ) * 2 ^ q - x := by
    have hle := h.le ⟨⌊x / 2 ^ q⌋₊ + 1, q, hbits, hleast, rfl⟩
    rwa [abs_of_nonneg (sub_nonneg.2 hceil.le)] at hle
  -- The nearer of the two is at most half the unit away, and only the least magnitude of this exponent is not above the bound.
  rcases hlow.eq_or_lt with heq | hlt
  · exact .inl (h.eq_of_representable ⟨2 ^ 52, q, by norm_num, hleast, by rw [← heq]; norm_num⟩)
  · right
    push_cast at hup
    linarith

end Nearest

/-! ## The bits of a double -/

theorem toNat_unpackExponent (w : BitVec Float.Model.Format.binary64.numBits) :
    (Float.Model.UnpackedFloat.unpackExponent w).toNat = w.toNat / 2 ^ 52 % 2 ^ 11 := by
  simp [Float.Model.UnpackedFloat.unpackExponent, Nat.shiftRight_eq_div_pow]

/-- A finite double keeps the bits that it is made of. -/
theorem toBits_ofBits {w : UInt64} (h : w.toNat / 2 ^ 52 % 2 ^ 11 ≠ 2047) : (Float.ofBits w).toBits = w := by
  have hvalid : Float.Model.Format.binary64.Valid w.toBitVec := by
    refine ⟨fun he => absurd ?_ h⟩
    have hfield := congrArg BitVec.toNat he
    rwa [toNat_unpackExponent] at hfield
  exact UInt64.toBitVec_inj.1 (Float.Model.UnpackedFloat.pack_unpack_of_valid hvalid)

section Magnitudes

variable (negative : Bool) {bits : Nat}

/-- The sign bit stands above the fields of a magnitude. -/
theorem fields_signed (h : bits < infinityBits) :
    let word := if negative then signBit + bits else bits
    word < 2 ^ 64 ∧ decide (signBit ≤ word) = negative ∧ word / leadingBit % 2048 = bits / leadingBit ∧
      bits / leadingBit ≠ 2047 ∧ word % leadingBit = bits % leadingBit := by
  simp only [infinityBits, leadingBit, signBit] at h ⊢
  cases negative with
  | false =>
    simp only [Bool.false_eq_true, if_false, decide_eq_false_iff_not]
    exact ⟨by omega, by omega, by omega, by omega, trivial⟩
  | true =>
    simp only [if_true, decide_eq_true_eq]
    exact ⟨by omega, by omega, by omega, by omega, by omega⟩

/-- **The number that magnitude bits stand for**, as long as they are below those of infinity. -/
theorem shape_ofMagnitude (h : bits < infinityBits) :
    shape (ofMagnitude negative bits) =
      if bits < leadingBit then .finite negative bits minExponent
      else .finite negative (leadingBit + bits % leadingBit) ((bits / leadingBit : Nat) - 1075) := by
  obtain ⟨hlt, hsign, hfield, hmax, hfraction⟩ := fields_signed negative h
  have hword := UInt64.toNat_ofNat_of_lt' hlt
  have hbits : (ofMagnitude negative bits).toBits.toNat = if negative then signBit + bits else bits := by
    rw [ofMagnitude, toBits_ofBits, hword]
    rw [hword]
    exact fun hne => hmax (hfield.symm.trans hne)
  rw [shape, hbits]
  simp only [hsign, hfield, hfraction, if_neg hmax]
  by_cases hsmall : bits < leadingBit
  · rw [if_pos hsmall, if_pos (Nat.div_eq_of_lt hsmall), Nat.mod_eq_of_lt hsmall]
  · have hnormal : bits / leadingBit ≠ 0 := by
      rw [Nat.div_ne_zero_iff]
      exact ⟨by decide, Nat.not_lt.1 hsmall⟩
    rw [if_neg hsmall, if_neg hnormal]

theorem shape_infinity : shape (infinity negative) = .infinite negative := by
  cases negative <;> decide +kernel

end Magnitudes

/-! ## Mantissa and exponent -/

section Ratio

variable {num den : ℕ} {q : ℤ}

theorem div_shiftLeft (hq : 0 ≤ q) : (num / (den <<< q.toNat : ℕ) : ℚ) = num / den / 2 ^ q := by
  obtain ⟨k, rfl⟩ := Int.eq_ofNat_of_zero_le hq
  rw [Int.toNat_natCast, Nat.shiftLeft_eq, Nat.cast_mul, Nat.cast_pow, Nat.cast_ofNat, zpow_natCast, div_div]

theorem shiftLeft_div (hq : ¬0 ≤ q) : ((num <<< (-q).toNat : ℕ) / den : ℚ) = num / den / 2 ^ q := by
  obtain ⟨k, hk⟩ := Int.eq_ofNat_of_zero_le (by omega : 0 ≤ -q)
  obtain rfl : q = -k := by omega
  rw [neg_neg, Int.toNat_natCast, Nat.shiftLeft_eq, Nat.cast_mul, Nat.cast_pow, Nat.cast_ofNat, zpow_neg, zpow_natCast,
    div_inv_eq_mul, mul_div_right_comm]

/-- A natural below a number is away from it by at least its fraction, one above by at least what the fraction lacks to one. -/
theorem distance_cases (n k : ℕ) (fraction : ℚ) :
    fraction ≤ |n - (k + fraction)| ∨ 1 - fraction ≤ |n - (k + fraction)| := by
  rcases Nat.lt_or_ge k n with hn | hn
  · have hstep : (k : ℚ) + 1 ≤ n := by exact_mod_cast hn
    exact .inr (le_trans (by linarith) (le_abs_self _))
  · have hstep : (n : ℚ) ≤ k := by exact_mod_cast hn
    exact .inl (le_trans (by linarith) (neg_le_abs _))

/-- A quotient is rounded to a natural that is as near as any. -/
theorem roundHalfEven_le (hden : 0 < den) (n : ℕ) :
    |(roundHalfEven num den : ℚ) - num / den| ≤ |n - (num / den : ℚ)| := by
  have hpos : (0 : ℚ) < den := Nat.cast_pos.2 hden
  obtain ⟨fraction, hfraction⟩ : ∃ fraction : ℚ, fraction = (num % den : ℕ) / den := ⟨_, rfl⟩
  have hexact : (num / den : ℚ) = (num / den : ℕ) + fraction := by
    have hsum : ((num / den : ℕ) * den + (num % den : ℕ) : ℚ) = num := by exact_mod_cast Nat.div_add_mod' num den
    rw [hfraction, ← hsum]
    field_simp
  have hnonneg : 0 ≤ fraction := by
    rw [hfraction]
    positivity
  have hlt : fraction < 1 := by
    rw [hfraction, div_lt_one hpos]
    exact_mod_cast Nat.mod_lt num hden
  have hbelow : 2 * (num % den) < den ↔ 2 * fraction < 1 := by
    rw [hfraction, ← mul_div_assoc, div_lt_one hpos]
    exact_mod_cast Iff.rfl
  have habove : den < 2 * (num % den) ↔ 1 < 2 * fraction := by
    rw [hfraction, ← mul_div_assoc, one_lt_div hpos]
    exact_mod_cast Iff.rfl
  have hother := distance_cases n (num / den) fraction
  rw [← hexact] at hother
  have hdown : |((num / den : ℕ) : ℚ) - num / den| = fraction := by
    rw [hexact, sub_add_cancel_left, abs_neg, abs_of_nonneg hnonneg]
  have hup : |((num / den + 1 : ℕ) : ℚ) - num / den| = 1 - fraction := by
    rw [hexact, Nat.cast_add_one, add_sub_add_left_eq_sub, abs_of_pos (sub_pos.2 hlt)]
  simp only [roundHalfEven, hbelow, habove]
  split
  · rw [hdown]
    exact hother.elim id fun h => le_trans (by linarith) h
  · split
    · rw [hup]
      exact hother.elim (fun h => le_trans (by linarith) h) id
    · have hhalf : fraction = 1 - fraction := by linarith
      rcases Nat.mod_two_eq_zero_or_one (num / den) with heven | hodd
      · rw [heven, Nat.add_zero, hdown]
        exact hother.elim id hhalf.trans_le
      · rw [hodd, hup]
        exact hother.elim hhalf.symm.trans_le id

/-- The binary logarithm of a quotient is the difference of the logarithms, or one less. -/
theorem log_div (hnum : 0 < num) (hden : 0 < den) :
    (num.log2 : ℤ) - den.log2 - 1 ≤ Int.log 2 (num / den : ℚ) ∧ Int.log 2 (num / den : ℚ) ≤ (num.log2 : ℤ) - den.log2 := by
  have hpos : (0 : ℚ) < den := Nat.cast_pos.2 hden
  have hquotient : (0 : ℚ) < num / den := by positivity
  have hnumLow : (2 : ℚ) ^ num.log2 ≤ num := by exact_mod_cast Nat.log2_self_le hnum.ne'
  have hnumHigh : (num : ℚ) < 2 ^ (num.log2 + 1) := by exact_mod_cast Nat.lt_log2_self
  have hdenLow : (2 : ℚ) ^ den.log2 ≤ den := by exact_mod_cast Nat.log2_self_le hden.ne'
  have hdenHigh : (den : ℚ) < 2 ^ (den.log2 + 1) := by exact_mod_cast Nat.lt_log2_self
  constructor
  · have hpowers : (2 : ℚ) ^ ((num.log2 : ℤ) - den.log2 - 1) = 2 ^ num.log2 / 2 ^ (den.log2 + 1) := by
      rw [← zpow_natCast, ← zpow_natCast, ← zpow_sub₀ two_ne_zero, Nat.cast_add_one, sub_sub]
    rw [← Int.zpow_le_iff_le_log one_lt_two hquotient, Nat.cast_ofNat, hpowers]
    exact div_le_div₀ (by positivity) hnumLow hpos hdenHigh.le
  · have hpowers : (2 : ℚ) ^ ((num.log2 : ℤ) - den.log2 + 1) = 2 ^ (num.log2 + 1) / 2 ^ den.log2 := by
      rw [← zpow_natCast, ← zpow_natCast, ← zpow_sub₀ two_ne_zero, Nat.cast_add_one, sub_add_eq_add_sub]
    rw [← Int.lt_add_one_iff, ← Int.lt_zpow_iff_log_lt one_lt_two hquotient, Nat.cast_ofNat, hpowers]
    exact div_lt_div₀ hnumHigh hdenLow (by positivity) (by positivity)

/-- The exponent is that of the leading bit less 52, but not below the least one. -/
theorem exponentFor_eq (hnum : 0 < num) (hden : 0 < den) :
    exponentFor num den = max (Int.log 2 (num / den : ℚ) - 52) minExponent := by
  have hpos : (0 : ℚ) < den := Nat.cast_pos.2 hden
  have hquotient : (0 : ℚ) < num / den := by positivity
  obtain ⟨g, hg⟩ : ∃ g : ℤ, (num.log2 : ℤ) - den.log2 - 52 = g := ⟨_, rfl⟩
  have hscale : (leadingBit : ℚ) ≤ num / den / 2 ^ g ↔ g + 52 ≤ Int.log 2 (num / den : ℚ) := by
    rw [← Int.zpow_le_iff_le_log one_lt_two hquotient, le_div_iff₀ (by positivity), Nat.cast_ofNat, add_comm,
      zpow_add₀ two_ne_zero]
    norm_num [leadingBit]
  have hfits : (if 0 ≤ g then decide (leadingBit * (den <<< g.toNat) ≤ num)
      else decide (leadingBit * den ≤ num <<< (-g).toNat)) = true ↔ g + 52 ≤ Int.log 2 (num / den : ℚ) := by
    split
    · rename_i h
      have hshifted : (0 : ℚ) < (den <<< g.toNat : ℕ) := by
        rw [Nat.shiftLeft_eq]
        positivity
      rw [← hscale, ← div_shiftLeft h, le_div_iff₀ hshifted, decide_eq_true_eq]
      exact_mod_cast Iff.rfl
    · rename_i h
      rw [← hscale, ← shiftLeft_div h, le_div_iff₀ hpos, decide_eq_true_eq]
      exact_mod_cast Iff.rfl
  obtain ⟨hlow, hhigh⟩ := log_div hnum hden
  simp only [exponentFor, hg, hfits]
  split <;> omega

/-- How many units of the exponent are nearest to a quotient. -/
def mantissaAt (num den : ℕ) (q : ℤ) : ℕ :=
  if 0 ≤ q then roundHalfEven num (den <<< q.toNat) else roundHalfEven (num <<< (-q).toNat) den

theorem mantissaAt_le (hden : 0 < den) (q : ℤ) (n : ℕ) :
    |(mantissaAt num den q * 2 ^ q - num / den : ℚ)| ≤ |(n * 2 ^ q - num / den : ℚ)| := by
  have hunit : (0 : ℚ) < 2 ^ q := by positivity
  have hscaled : ∀ k : ℕ, |(k * 2 ^ q : ℚ) - num / den| = |(k : ℚ) - num / den / 2 ^ q| * 2 ^ q := fun k => by
    rw [← abs_of_pos hunit, ← abs_mul, sub_mul, abs_of_pos hunit, div_mul_cancel₀ _ hunit.ne']
  rw [hscaled, hscaled, mantissaAt]
  refine mul_le_mul_of_nonneg_right ?_ hunit.le
  split
  · rename_i h
    rw [← div_shiftLeft h]
    exact roundHalfEven_le (by rw [Nat.shiftLeft_eq]; positivity) n
  · rename_i h
    rw [← shiftLeft_div h]
    exact roundHalfEven_le hden n

end Ratio

/-! ## The double of a ratio -/

/-- A mantissa of 53 bits, or of less at the least exponent, is carried by the bits of a magnitude. -/
theorem exists_shape_ofMagnitude (negative : Bool) {m : ℕ} {q : ℤ} (hm : m ≤ 2 ^ 53) (hq : minExponent ≤ q)
    (hnormal : 2 ^ 52 ≤ m ∨ q = minExponent) (h : m + (q - minExponent).toNat * leadingBit < infinityBits) :
    ∃ (m' : ℕ) (e : ℤ), shape (ofMagnitude negative (m + (q - minExponent).toNat * leadingBit)) = .finite negative m' e ∧
      (m' * 2 ^ e : ℚ) = m * 2 ^ q := by
  obtain ⟨k, hk⟩ := Int.eq_ofNat_of_zero_le (sub_nonneg.2 hq)
  obtain rfl : q = k + minExponent := by omega
  rw [hk, Int.toNat_natCast] at h ⊢
  have hfield : (m + k * leadingBit) / leadingBit = m / leadingBit + k := Nat.add_mul_div_right _ _ (by decide)
  have hfraction : (m + k * leadingBit) % leadingBit = m % leadingBit := Nat.add_mul_mod_self_right _ _ _
  rw [shape_ofMagnitude negative h, hfield, hfraction]
  by_cases hsmall : m + k * leadingBit < leadingBit
  · rw [if_pos hsmall]
    obtain rfl : k = 0 := by
      rw [leadingBit] at hsmall
      omega
    exact ⟨_, _, rfl, by simp⟩
  · rw [if_neg hsmall]
    refine ⟨_, _, rfl, ?_⟩
    simp only [leadingBit, minExponent] at hnormal hsmall ⊢
    rcases hm.lt_or_eq with hlt | rfl
    · have hquotient : m / 4503599627370496 = 1 := by omega
      have hmantissa : 4503599627370496 + m % 4503599627370496 = m := by omega
      have hexponent : ((m / 4503599627370496 + k : ℕ) : ℤ) - 1075 = k + -1074 := by omega
      rw [hmantissa, hexponent]
    · -- The carry of the mantissa is a mantissa of one bit at the next exponent.
      have hexponent : ((2 ^ 53 / 4503599627370496 + k : ℕ) : ℤ) - 1075 = k + -1074 + 1 := by omega
      rw [hexponent, zpow_add_one₀ two_ne_zero]
      norm_num
      ring

/-- The nearest multiple of a unit is a nearest magnitude, when the multiples of the unit around the number have 53 bits. -/
theorem nearest_of_unit {x : ℚ} {m : ℕ} {q : ℤ} (hq : minExponent ≤ q) (hhigh : x ≤ 2 ^ 53 * 2 ^ q)
    (hlow : 2 ^ 52 * 2 ^ q ≤ x ∨ q = minExponent) (hle : ∀ n : ℕ, |(m * 2 ^ q : ℚ) - x| ≤ |n * 2 ^ q - x|) :
    m ≤ 2 ^ 53 ∧ (2 ^ 52 ≤ m ∨ q = minExponent) ∧ Nearest x (m * 2 ^ q) := by
  have hunit : (0 : ℚ) < 2 ^ q := by positivity
  have hleading : 2 ^ 52 * 2 ^ q ≤ x → |(m * 2 ^ q : ℚ) - x| ≤ x - 2 ^ 52 * 2 ^ q := fun h => by
    have hdist := hle (2 ^ 52)
    rwa [Nat.cast_pow, Nat.cast_ofNat, abs_sub_comm _ x, abs_sub_comm _ x, abs_of_nonneg (sub_nonneg.2 h),
      abs_sub_comm] at hdist
  have hm : m ≤ 2 ^ 53 := by
    by_contra hlt
    have hstep : (2 ^ 53 + 1 : ℚ) * 2 ^ q ≤ m * 2 ^ q :=
      mul_le_mul_of_nonneg_right (by exact_mod_cast not_le.1 hlt) hunit.le
    have hdist := hle (2 ^ 53)
    rw [Nat.cast_pow, Nat.cast_ofNat, abs_of_nonneg (sub_nonneg.2 hhigh), abs_of_nonneg (by linarith)] at hdist
    linarith
  have hnormal : 2 ^ 52 ≤ m ∨ q = minExponent := by
    refine hlow.imp_left fun h => ?_
    by_contra hlt
    have hstep : (m + 1 : ℚ) * 2 ^ q ≤ 2 ^ 52 * 2 ^ q :=
      mul_le_mul_of_nonneg_right (by exact_mod_cast not_le.1 hlt) hunit.le
    have hdist := hleading h
    rw [abs_of_nonpos (by linarith)] at hdist
    linarith
  refine ⟨hm, hnormal, ⟨m, q, hm, hq, rfl⟩, ?_⟩
  rintro w ⟨n, e, hn, he, rfl⟩
  rcases le_or_gt q e with hfine | hcoarse
  · obtain ⟨k, hk⟩ := Int.eq_ofNat_of_zero_le (sub_nonneg.2 hfine)
    obtain rfl : e = k + q := by omega
    have hmultiple : (n * 2 ^ (k + q : ℤ) : ℚ) = (n * 2 ^ k : ℕ) * 2 ^ q := by
      rw [zpow_add₀ two_ne_zero, zpow_natCast]
      push_cast
      ring
    rw [hmultiple]
    exact hle _
  · -- A magnitude of a lower exponent is not above the least multiple with 53 bits, which is not above the number.
    have hleast : 2 ^ 52 * 2 ^ q ≤ x := hlow.resolve_right (by omega)
    have hhalf : (2 : ℚ) ^ e ≤ 2 ^ (q - 1) := zpow_le_zpow_right₀ one_le_two (by omega)
    have hbelow : (n * 2 ^ e : ℚ) ≤ 2 ^ 52 * 2 ^ q := by
      calc (n * 2 ^ e : ℚ) ≤ 2 ^ 53 * 2 ^ (q - 1) := mul_le_mul (by exact_mod_cast hn) hhalf (by positivity) (by positivity)
        _ = 2 ^ 52 * 2 ^ q := by
          rw [zpow_sub_one₀ two_ne_zero]
          ring
    calc |(m * 2 ^ q : ℚ) - x| ≤ x - 2 ^ 52 * 2 ^ q := hleading hleast
      _ ≤ x - n * 2 ^ e := by linarith
      _ ≤ |n * 2 ^ e - x| := by
        rw [abs_sub_comm]
        exact le_abs_self _

section Double

variable {num den : ℕ}

theorem magnitudeOfRatio_zero : magnitudeOfRatio 0 den = 0 :=
  if_pos rfl

theorem magnitudeOfRatio_eq (hnum : 0 < num) :
    magnitudeOfRatio num den = if 972 ≤ exponentFor num den then infinityBits
      else min (mantissaAt num den (exponentFor num den) + (exponentFor num den - minExponent).toNat * leadingBit)
        infinityBits :=
  if_neg hnum.ne'

/-- The mantissa at the exponent of a quotient. -/
theorem mantissaAt_exponentFor (hnum : 0 < num) (hden : 0 < den) :
    let q := exponentFor num den
    let m := mantissaAt num den q
    m ≤ 2 ^ 53 ∧ (2 ^ 52 ≤ m ∨ q = minExponent) ∧ Nearest (num / den) (m * 2 ^ q) := by
  intro q m
  have hpos : (0 : ℚ) < den := Nat.cast_pos.2 hden
  have hquotient : (0 : ℚ) < num / den := by positivity
  have hq : q = max (Int.log 2 (num / den : ℚ) - 52) minExponent := exponentFor_eq hnum hden
  have hhigh : (num / den : ℚ) < 2 ^ 53 * 2 ^ q := by
    have hlt := (Int.lt_zpow_iff_log_lt one_lt_two hquotient).2 (by omega : Int.log 2 (num / den : ℚ) < 53 + q)
    rwa [Nat.cast_ofNat, zpow_add₀ two_ne_zero] at hlt
  have hlow : 2 ^ 52 * 2 ^ q ≤ (num / den : ℚ) ∨ q = minExponent := by
    rcases max_choice (Int.log 2 (num / den : ℚ) - 52) minExponent with h | h
    · have hle := (Int.zpow_le_iff_le_log one_lt_two hquotient).2 (by omega : 52 + q ≤ Int.log 2 (num / den : ℚ))
      rw [Nat.cast_ofNat, zpow_add₀ two_ne_zero] at hle
      exact .inl hle
    · exact .inr (hq.trans h)
  exact nearest_of_unit (by omega) hhigh.le hlow (mantissaAt_le hden q)

/-- A ratio whose magnitude bits are below those of infinity has a correctly rounded double. -/
theorem exists_nearest_ofRatio (negative : Bool) (hden : 0 < den) (h : magnitudeOfRatio num den < infinityBits) :
    ∃ (m : ℕ) (e : ℤ), shape (ofRatio negative num den) = .finite negative m e ∧ Nearest (num / den) (m * 2 ^ e) := by
  rw [ofRatio]
  rcases Nat.eq_zero_or_pos num with rfl | hnum
  · refine ⟨0, minExponent, ?_, ?_⟩
    · rw [magnitudeOfRatio_zero] at h ⊢
      exact (shape_ofMagnitude negative h).trans (if_pos (by decide))
    · rw [Nat.cast_zero, zero_div, zero_mul]
      exact ⟨representable_natCast (Nat.zero_le _), fun hw => by simp⟩
  · rw [magnitudeOfRatio_eq hnum] at h ⊢
    split at h
    · exact absurd h (lt_irrefl _)
    · rename_i hq
      obtain ⟨hm, hnormal, hnearest⟩ := mantissaAt_exponentFor hnum hden
      have hbits := (min_lt_iff.1 h).resolve_right (lt_irrefl _)
      have hleast : minExponent ≤ exponentFor num den := by
        rw [exponentFor_eq hnum hden]
        exact le_max_right _ _
      obtain ⟨m, e, hshape, hvalue⟩ := exists_shape_ofMagnitude negative hm hleast hnormal hbits
      rw [if_neg hq, min_eq_left hbits.le]
      exact ⟨m, e, hshape, hvalue ▸ hnearest⟩

/-- **The double of a ratio is correctly rounded** when it is finite. -/
theorem nearest_ofRatio {negative : Bool} (hden : 0 < den) (h : isFinite (ofRatio negative num den) = true) :
    ∃ (m : ℕ) (e : ℤ), shape (ofRatio negative num den) = .finite negative m e ∧ Nearest (num / den) (m * 2 ^ e) := by
  refine exists_nearest_ofRatio negative hden ?_
  by_contra hge
  have hmax : magnitudeOfRatio num den = infinityBits := by
    refine le_antisymm ?_ (not_lt.1 hge)
    rw [magnitudeOfRatio]
    split
    · exact Nat.zero_le _
    · dsimp only
      split
      · exact le_rfl
      · exact min_le_right _ _
  have hshape : shape (ofRatio negative num den) = .infinite negative := by
    rw [ofRatio, hmax]
    exact shape_infinity negative
  rw [isFinite, hshape] at h
  cases h

/-- The double of a ratio that is not too large is finite. -/
theorem magnitudeOfRatio_lt (hden : 0 < den) (h : (num / den : ℚ) < 2 ^ (1023 : ℤ)) :
    magnitudeOfRatio num den < infinityBits := by
  rcases Nat.eq_zero_or_pos num with rfl | hnum
  · rw [magnitudeOfRatio_zero]
    decide
  · have hpos : (0 : ℚ) < den := Nat.cast_pos.2 hden
    have hquotient : (0 : ℚ) < num / den := by positivity
    have hlog : Int.log 2 (num / den : ℚ) < 1023 :=
      (Int.lt_zpow_iff_log_lt one_lt_two hquotient).1 (by rwa [Nat.cast_ofNat])
    obtain ⟨hm, -, -⟩ := mantissaAt_exponentFor hnum hden
    have hq := exponentFor_eq hnum hden
    rw [magnitudeOfRatio_eq hnum, if_neg (by rw [hq, minExponent]; omega)]
    refine lt_of_le_of_lt (min_le_left _ _) ?_
    rw [minExponent] at hq ⊢
    simp only [infinityBits, leadingBit]
    omega

end Double

end FormulaLang.Binary64
