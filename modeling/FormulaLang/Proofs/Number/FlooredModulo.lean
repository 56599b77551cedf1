import FormulaLang.Function.Builtin
import FormulaLang.Proofs.Number.Nearest

/-!
# The floored modulo of integers

The floored modulo takes the floor of the double of the quotient, and the exact difference from there. The result always is an
integer congruent to the dividend, but the double may lie on the other side of an integer (`Builtin.floorMod_int_beyond`). The
floor misses the quotient by no more than the rounding error (`Nearest.floor_le`, `Nearest.lt_floor`), and it is that of the
quotient when the error does not reach the next integer (`Nearest.floor_eq`). So the remainder leaves its range by no more than
the `2 ^ 53`rd part of the dividend, and it never does for dividends up to `2 ^ 53` (`Builtin.floorMod_int`), unless a negative
quotient is so near to zero that its double is zero.
-/

namespace FormulaLang

namespace Binary64

/-! ## The floor of a double -/

/-- A number of the given magnitude. -/
def withSign (negative : Bool) (y : ℚ) : ℚ :=
  if negative then -y else y

theorem ratio_eq (m : ℕ) (e : ℤ) : ((ratio m e).1 / (ratio m e).2 : ℚ) = m * 2 ^ e := by
  rw [ratio]
  split
  · rename_i he
    obtain ⟨k, rfl⟩ := Int.eq_ofNat_of_zero_le he
    rw [Int.toNat_natCast, Nat.shiftLeft_eq, zpow_natCast]
    push_cast
    rw [div_one]
  · rename_i he
    obtain ⟨k, hk⟩ := Int.eq_ofNat_of_zero_le (by omega : 0 ≤ -e)
    obtain rfl : e = -k := by omega
    rw [neg_neg, Int.toNat_natCast, Nat.shiftLeft_eq, zpow_neg, zpow_natCast]
    push_cast
    rw [one_mul, div_eq_mul_inv]

theorem floor_eq (negative : Bool) (m : ℕ) (e : ℤ) : floor negative m e = ⌊withSign negative (m * 2 ^ e)⌋ := by
  have hsigned : ((signed negative (ratio m e).1 : ℤ) : ℚ) / (ratio m e).2 = withSign negative (m * 2 ^ e) := by
    rw [← ratio_eq, signed, withSign]
    cases negative <;> simp [neg_div]
  rw [← hsigned, Rat.floor_intCast_div_natCast]
  exact Int.fdiv_eq_ediv_of_nonneg _ (Int.natCast_nonneg _)

namespace Nearest

variable {x y : ℚ} (negative : Bool)

theorem abs_withSign_sub (x y : ℚ) : |withSign negative y - withSign negative x| = |y - x| := by
  cases negative
  · rfl
  · rw [withSign, withSign, if_pos rfl, if_pos rfl, neg_sub_neg, abs_sub_comm]

theorem eq_zero (h : Nearest 0 y) : y = 0 :=
  h.eq_of_representable (by simpa using representable_natCast (Nat.zero_le _))

/-- What is below all normal magnitudes stays far below one. -/
theorem le_half (h : Nearest x y) (hx : x < 2 ^ (-1022 : ℤ)) : x < 1 / 2 ∧ y ≤ 1 / 2 := by
  have hsmall : (2 : ℚ) ^ (-1022 : ℤ) ≤ 2 ^ (-1 : ℤ) := zpow_le_zpow_right₀ one_le_two (by decide)
  have hhalf : Representable (1 / 2) := ⟨1, -1, by norm_num, by decide, by norm_num⟩
  have hlt : x < 1 / 2 := by
    rw [one_div, ← zpow_neg_one]
    exact hx.trans_le hsmall
  exact ⟨hlt, h.ge_of_ge hhalf hlt.le⟩

/-- Only up to half of the least magnitude is a number rounded to zero. -/
theorem pos (h : Nearest x y) (hx : 2 ^ (-1075 : ℤ) < x) : 0 < y := by
  have hunit : (0 : ℚ) < 2 ^ (-1075 : ℤ) := by positivity
  have hdouble : (2 : ℚ) ^ (-1074 : ℤ) = 2 ^ (-1075 : ℤ) * 2 := by
    rw [show (-1074 : ℤ) = -1075 + 1 from rfl, zpow_add_one₀ two_ne_zero]
  refine h.representable.nonneg.lt_of_ne fun hzero => ?_
  have hle := h.le (w := 2 ^ (-1074 : ℤ)) ⟨1, -1074, by norm_num, le_rfl, by simp⟩
  rw [← hzero, zero_sub, abs_neg, abs_of_pos (hunit.trans hx), hdouble, le_abs] at hle
  rcases hle with h | h <;> linarith

/-- **The floor is not above** the number by more than the rounding error. -/
theorem floor_le (h : Nearest x y) (hx : 0 ≤ x) (hsign : negative = false ∨ x = 0 ∨ 2 ^ (-1075 : ℤ) < x) :
    (⌊withSign negative y⌋ : ℚ) ≤ withSign negative x ∨ 2 ^ 53 * (⌊withSign negative y⌋ - withSign negative x) < x := by
  rcases lt_or_ge x (2 ^ (-1022 : ℤ)) with hsmall | hnormal
  · left
    obtain ⟨hhalf, hhalf'⟩ := h.le_half hsmall
    cases negative with
    | false =>
      have hfloor : ⌊y⌋ < 1 := Int.floor_lt.2 (by norm_num; linarith)
      calc (⌊y⌋ : ℚ) ≤ 0 := by exact_mod_cast Int.lt_add_one_iff.1 hfloor
        _ ≤ x := hx
    | true =>
      rcases hsign.resolve_left Bool.noConfusion with rfl | hlarge
      · simp [h.eq_zero, withSign]
      · have hpos : 0 < y := h.pos hlarge
        have hfloor : ⌊-y⌋ < 0 := Int.floor_lt.2 (by norm_num; exact hpos)
        calc (⌊-y⌋ : ℚ) ≤ -1 := by exact_mod_cast Int.le_sub_one_of_lt hfloor
          _ ≤ -x := by linarith
  · rcases h.eq_or_error_lt hnormal with rfl | herror
    · exact .inl (Int.floor_le _)
    · right
      have hfloor := Int.floor_le (withSign negative y)
      have hdiff := le_abs_self (withSign negative y - withSign negative x)
      rw [abs_withSign_sub] at hdiff
      linarith

/-- **The floor is not below** the number by more than the rounding error and one. -/
theorem lt_floor (h : Nearest x y) (hx : 0 ≤ x) : 2 ^ 53 * (withSign negative x - ⌊withSign negative y⌋ - 1) < x := by
  rcases hx.eq_or_lt with rfl | hpos
  · cases negative <;> simp [h.eq_zero, withSign]
  rcases lt_or_ge x (2 ^ (-1022 : ℤ)) with hsmall | hnormal
  · obtain ⟨hhalf, hhalf'⟩ := h.le_half hsmall
    cases negative with
    | false =>
      have hfloor : (0 : ℚ) ≤ ⌊y⌋ := by exact_mod_cast Int.floor_nonneg.2 h.representable.nonneg
      rw [withSign, withSign, if_neg Bool.noConfusion, if_neg Bool.noConfusion]
      linarith
    | true =>
      have hle : ((-1 : ℤ) : ℚ) ≤ -y := by
        push_cast
        linarith
      have hfloor : (-1 : ℚ) ≤ ⌊-y⌋ := by exact_mod_cast Int.le_floor.2 hle
      rw [withSign, withSign, if_pos rfl, if_pos rfl]
      linarith
  · have herror : 2 ^ 53 * |y - x| ≤ x := by
      rcases h.eq_or_error_lt hnormal with rfl | herror
      · rwa [sub_self, abs_zero, mul_zero]
      · exact herror.le
    have hfloor := Int.lt_floor_add_one (withSign negative y)
    have hdiff := neg_abs_le (withSign negative y - withSign negative x)
    rw [abs_withSign_sub] at hdiff
    linarith

/-- Rounding does not pass an integer up to `2 ^ 53`. -/
theorem floor_withSign_le (h : Nearest x y) (hx : 0 ≤ x) (hmax : x ≤ 2 ^ 53) :
    ⌊withSign negative x⌋ ≤ ⌊withSign negative y⌋ := by
  refine Int.le_floor.2 ?_
  cases negative with
  | false =>
    obtain ⟨n, hn⟩ := Int.eq_ofNat_of_zero_le (Int.floor_nonneg.2 hx)
    have hle : (n : ℚ) ≤ x := by
      have hfloor := Int.floor_le x
      rwa [hn] at hfloor
    have hbits : n ≤ 2 ^ 53 := by exact_mod_cast hle.trans hmax
    change (⌊x⌋ : ℚ) ≤ y
    rw [hn]
    exact h.le_of_le (representable_natCast hbits) hle
  | true =>
    obtain ⟨n, hn⟩ := Int.eq_ofNat_of_zero_le (Int.ceil_nonneg hx)
    have hle : x ≤ n := by
      have hceil := Int.le_ceil x
      rwa [hn] at hceil
    have hbits : n ≤ 2 ^ 53 := by
      have hceil : ⌈x⌉ ≤ (2 ^ 53 : ℕ) := Int.ceil_le.2 (by exact_mod_cast hmax)
      omega
    change (⌊-x⌋ : ℚ) ≤ -y
    rw [Int.floor_neg, hn, Int.cast_neg]
    exact neg_le_neg (h.ge_of_ge (representable_natCast hbits) hle)

/-- **The floor is that of the number** when the rounding error does not reach the next integer. -/
theorem floor_eq (h : Nearest x y) (hx : 0 ≤ x) (hsign : negative = false ∨ x = 0 ∨ 2 ^ (-1075 : ℤ) < x)
    (hfar : x ≤ 2 ^ 53 * (⌊withSign negative x⌋ + 1 - withSign negative x)) :
    ⌊withSign negative y⌋ = ⌊withSign negative x⌋ := by
  refine le_antisymm ?_ (h.floor_withSign_le negative hx ?_)
  · rcases h.floor_le negative hx hsign with hle | herror
    · exact Int.le_floor.2 hle
    · have hlt : (⌊withSign negative y⌋ : ℚ) < ⌊withSign negative x⌋ + 1 := by linarith
      exact Int.lt_add_one_iff.1 (by exact_mod_cast hlt)
  · have hfloor := Int.floor_le (withSign negative x)
    linarith

end Nearest

end Binary64

/-! ## Quotients of integers -/

namespace Builtin

open Binary64

variable {a b : ℤ}

/-- The sign of a quotient. -/
def quotientSign (a b : ℤ) : Bool :=
  decide (a < 0) != decide (b < 0)

theorem withSign_quotient (a b : ℤ) : withSign (quotientSign a b) (a.natAbs / b.natAbs) = (a / b : ℚ) := by
  rw [quotientSign, withSign, Nat.cast_natAbs, Nat.cast_natAbs]
  rcases lt_or_ge a 0 with ha | ha <;> rcases lt_or_ge b 0 with hb | hb
  · simp [ha, hb, abs_of_neg, neg_div_neg_eq]
  · simp [ha, hb, abs_of_neg, abs_of_nonneg, hb.not_gt, neg_div]
  · simp [ha, hb, abs_of_neg, abs_of_nonneg, ha.not_gt, div_neg]
  · simp [ha, hb, abs_of_nonneg, ha.not_gt, hb.not_gt]

/-- The exact difference from a multiple of the divisor, by the floor of the double of the quotient. -/
theorem floorMod_int_eq (a b : ℤ) :
    floorMod (.int a) (.int b) =
      if b = 0 then .error .zeroDivision
      else match shape (ofRatio (quotientSign a b) a.natAbs b.natAbs) with
        | .finite negative m e => .ok (.int (a - Binary64.floor negative m e * b))
        | _ => .error .overflow := by
  by_cases hb : b = 0
  · subst hb
    rfl
  · rw [if_neg hb]
    simp only [floorMod, Scalar.div, Scalar.widen, Scalar.divInt, if_neg hb, quotientSign]
    generalize ofRatio (decide (a < 0) != decide (b < 0)) a.natAbs b.natAbs = x
    cases hshape : shape x with
    | finite negative m e =>
      have hfinite : isFinite x = true := by rw [isFinite, hshape]
      have hfloor : Scalar.floor (.float x) = .ok (Binary64.floor negative m e) := by
        simp only [Scalar.floor, Scalar.widen, hshape]
      rw [if_pos hfinite]
      change (Scalar.floor (.float x) >>= fun q => _) = _
      rw [hfloor]
      rfl
    | infinite negative =>
      rw [if_neg (by rw [isFinite, hshape]; exact Bool.false_ne_true)]
      rfl
    | nan =>
      rw [if_neg (by rw [isFinite, hshape]; exact Bool.false_ne_true)]
      rfl

/-- A result is the exact difference from a multiple of the divisor, by the floor of the correctly rounded quotient. -/
theorem exists_of_floorMod_int {v : Scalar} (h : floorMod (.int a) (.int b) = .ok v) :
    b ≠ 0 ∧ ∃ y, Nearest (a.natAbs / b.natAbs) y ∧ v = .int (a - ⌊withSign (quotientSign a b) y⌋ * b) := by
  rw [floorMod_int_eq] at h
  by_cases hb : b = 0
  · rw [if_pos hb] at h
    cases h
  · rw [if_neg hb] at h
    have hfinite : isFinite (ofRatio (quotientSign a b) a.natAbs b.natAbs) = true := by
      rw [isFinite]
      cases hshape : shape (ofRatio (quotientSign a b) a.natAbs b.natAbs) with
      | finite negative m e => rfl
      | _ =>
        rw [hshape] at h
        cases h
    obtain ⟨m, e, hshape, hnearest⟩ := nearest_ofRatio (Int.natAbs_pos.2 hb) hfinite
    rw [hshape] at h
    cases h
    exact ⟨hb, _, hnearest, by rw [Binary64.floor_eq]⟩

/-- There is a result when the quotient is not too large. -/
theorem exists_floorMod_int (hb : b ≠ 0) (hx : (a.natAbs / b.natAbs : ℚ) < 2 ^ (1023 : ℤ)) :
    ∃ y, Nearest (a.natAbs / b.natAbs) y ∧
      floorMod (.int a) (.int b) = .ok (.int (a - ⌊withSign (quotientSign a b) y⌋ * b)) := by
  have hden : 0 < b.natAbs := Int.natAbs_pos.2 hb
  obtain ⟨m, e, hshape, hnearest⟩ := exists_nearest_ofRatio (quotientSign a b) hden (magnitudeOfRatio_lt hden hx)
  refine ⟨_, hnearest, ?_⟩
  rw [floorMod_int_eq, if_neg hb, hshape, ← Binary64.floor_eq]

theorem floor_div_eq_fdiv (a b : ℤ) : ⌊(a / b : ℚ)⌋ = a.fdiv b := by
  obtain ⟨n, rfl | rfl⟩ := Int.eq_nat_or_neg b
  · rw [Int.cast_natCast, Rat.floor_intCast_div_natCast, Int.fdiv_eq_ediv_of_nonneg _ (Int.natCast_nonneg _)]
  · rw [Int.cast_neg, div_neg, ← neg_div, ← Int.cast_neg, Int.cast_natCast, Rat.floor_intCast_div_natCast,
      ← Int.fdiv_eq_ediv_of_nonneg _ (Int.natCast_nonneg _), ← Int.neg_fdiv_neg, neg_neg]

/-- The exact remainder lies between zero and the divisor. -/
theorem fmod_mem (a : ℤ) : (0 < b → 0 ≤ a.fmod b ∧ a.fmod b < b) ∧ (b < 0 → b < a.fmod b ∧ a.fmod b ≤ 0) := by
  refine ⟨fun h => ⟨Int.fmod_nonneg_of_pos a h, Int.fmod_lt_of_pos a h⟩, fun h => ?_⟩
  have hneg : 0 < -b := neg_pos.2 h
  have hlow := Int.fmod_nonneg_of_pos (-a) hneg
  have hhigh := Int.fmod_lt_of_pos (-a) hneg
  rw [Int.neg_fmod_neg] at hlow hhigh
  omega

section Scaled

variable (hb : b ≠ 0)
include hb

theorem abs_fmod (a : ℤ) : |a.fmod b| = a.fmod b * b.sign := by
  obtain ⟨hpos, hneg⟩ := fmod_mem (b := b) a
  rcases lt_or_gt_of_ne hb with h | h
  · rw [Int.sign_eq_neg_one_of_neg h, abs_of_nonpos (hneg h).2, mul_neg_one]
  · rw [Int.sign_eq_one_of_pos h, abs_of_nonneg (hpos h).1, mul_one]

theorem quotient_mul_abs (a : ℤ) : (a / b * |(b : ℚ)|) = a * b.sign := by
  have hb' : (b : ℚ) ≠ 0 := Int.cast_ne_zero.2 hb
  rw [← Int.cast_abs, ← Int.sign_mul_self_eq_abs, Int.cast_mul]
  field_simp

theorem magnitude_mul_abs (a : ℤ) : (a.natAbs / b.natAbs * |(b : ℚ)|) = |(a : ℚ)| := by
  have hb' : |(b : ℚ)| ≠ 0 := abs_ne_zero.2 (Int.cast_ne_zero.2 hb)
  rw [Nat.cast_natAbs, Nat.cast_natAbs, Int.cast_abs, Int.cast_abs, div_mul_cancel₀ _ hb']

/-- A difference from a multiple of the divisor, counted in the direction of the divisor. -/
theorem difference_mul_sign (a q : ℤ) : (((a - q * b) * b.sign : ℤ) : ℚ) = (a / b - q) * |(b : ℚ)| := by
  rw [sub_mul, sub_mul, quotient_mul_abs hb, mul_assoc, mul_comm b, Int.sign_mul_self_eq_abs]
  push_cast
  ring

/-- Quotients whose double has the sign of the quotient, or is zero with it. -/
theorem sign_cases (h : 0 ≤ a * b ∨ |b| < 2 ^ 1075 * |a|) :
    quotientSign a b = false ∨ (a.natAbs / b.natAbs : ℚ) = 0 ∨ 2 ^ (-1075 : ℤ) < (a.natAbs / b.natAbs : ℚ) := by
  rcases h with h | h
  · rcases eq_or_ne a 0 with rfl | ha
    · exact .inr (.inl (by simp))
    · left
      rcases mul_nonneg_iff.1 h with ⟨ha', hb'⟩ | ⟨ha', hb'⟩
      · simp [quotientSign, ha'.not_gt, hb'.not_gt]
      · simp [quotientSign, ha'.lt_of_ne ha, hb'.lt_of_ne hb]
  · have hpos : (0 : ℚ) < |(b : ℚ)| := abs_pos.2 (Int.cast_ne_zero.2 hb)
    have hcast : |(b : ℚ)| < 2 ^ 1075 * |(a : ℚ)| := by
      have hlt := Int.cast_lt (R := ℚ).2 h
      rwa [Int.cast_mul, Int.cast_pow, Int.cast_ofNat, Int.cast_abs, Int.cast_abs] at hlt
    right; right
    rw [Nat.cast_natAbs, Nat.cast_natAbs, Int.cast_abs, Int.cast_abs, lt_div_iff₀ hpos, zpow_neg, zpow_ofNat,
      inv_mul_lt_iff₀ (by positivity)]
    exact hcast

/-- By the floor of a nearest double, the difference leaves its range by no more than the rounding error. -/
theorem difference_bounds {y : ℚ} (hy : Nearest (a.natAbs / b.natAbs) y) (h : 0 ≤ a * b ∨ |b| < 2 ^ 1075 * |a|) :
    -|a| ≤ 2 ^ 53 * ((a - ⌊withSign (quotientSign a b) y⌋ * b) * b.sign) ∧
      2 ^ 53 * ((a - ⌊withSign (quotientSign a b) y⌋ * b) * b.sign - |b|) < |a| := by
  have hpos : 0 < |(b : ℚ)| := abs_pos.2 (Int.cast_ne_zero.2 hb)
  have hnonneg : (0 : ℚ) ≤ a.natAbs / b.natAbs := by positivity
  have hmagnitude := magnitude_mul_abs hb a
  have hlow := hy.lt_floor (quotientSign a b) hnonneg
  have hhigh := hy.floor_le (quotientSign a b) hnonneg (sign_cases hb h)
  rw [withSign_quotient] at hlow hhigh
  generalize ⌊withSign (quotientSign a b) y⌋ = q at hlow hhigh ⊢
  have hdifference := difference_mul_sign hb a q
  constructor
  · have hbound : -|(a : ℚ)| ≤ 2 ^ 53 * ((a / b - q) * |(b : ℚ)|) := by
      rcases hhigh with hle | herror
      · have hnot : 0 ≤ (a / b - q) * |(b : ℚ)| := mul_nonneg (sub_nonneg.2 hle) hpos.le
        linarith [abs_nonneg (a : ℚ)]
      · have hscaled := mul_lt_mul_of_pos_right herror hpos
        rw [hmagnitude] at hscaled
        linarith
    rw [← hdifference] at hbound
    exact_mod_cast hbound
  · have hbound : 2 ^ 53 * ((a / b - q) * |(b : ℚ)| - |(b : ℚ)|) < |(a : ℚ)| := by
      have hscaled := mul_lt_mul_of_pos_right hlow hpos
      rw [hmagnitude] at hscaled
      linarith
    rw [← hdifference] at hbound
    exact_mod_cast hbound

/-- What the exact remainder lacks to the divisor is what the quotient lacks to the next integer. -/
theorem quotient_far (h : |a| ≤ 2 ^ 53 * (|b| - |a.fmod b|)) :
    (a.natAbs / b.natAbs : ℚ) ≤ 2 ^ 53 * (⌊(a / b : ℚ)⌋ + 1 - a / b) := by
  have hpos : 0 < |(b : ℚ)| := abs_pos.2 (Int.cast_ne_zero.2 hb)
  have hremainder : ((a.fmod b * b.sign : ℤ) : ℚ) = (a / b - ⌊(a / b : ℚ)⌋) * |(b : ℚ)| := by
    rw [← difference_mul_sign hb, floor_div_eq_fdiv, Int.fmod_def, mul_comm b]
  have hscaled : |(a : ℚ)| ≤ 2 ^ 53 * (|(b : ℚ)| - (a / b - ⌊(a / b : ℚ)⌋) * |(b : ℚ)|) := by
    rw [← hremainder, ← abs_fmod hb]
    exact_mod_cast h
  refine le_of_mul_le_mul_right ?_ hpos
  rw [magnitude_mul_abs hb]
  linarith

end Scaled

/-- **The floored modulo of integers.** A result is an integer congruent to the dividend. It leaves the range between zero and
the divisor by no more than the `2 ^ 53`rd part of the dividend, and when the dividend is at most `2 ^ 53` times what the exact
remainder lacks to the divisor there is a result, and it lies in the range. Both leave out the negative quotients that are so
near to zero that their double is zero. -/
theorem floorMod_int (hb : b ≠ 0) :
    (∀ v, floorMod (.int a) (.int b) = .ok v → ∃ r, v = .int r ∧ b ∣ a - r ∧
      (0 ≤ a * b ∨ |b| < 2 ^ 1075 * |a| → -|a| ≤ 2 ^ 53 * (r * b.sign) ∧ 2 ^ 53 * (r * b.sign - |b|) < |a|)) ∧
    (0 ≤ a * b ∨ |b| < 2 ^ 1075 * |a| → |a| ≤ 2 ^ 53 * (|b| - |a.fmod b|) →
      ∃ r, floorMod (.int a) (.int b) = .ok (.int r) ∧ b ∣ a - r ∧ (0 < b → 0 ≤ r ∧ r < b) ∧ (b < 0 → b < r ∧ r ≤ 0)) := by
  constructor
  · intro v hv
    obtain ⟨-, y, hy, rfl⟩ := exists_of_floorMod_int hv
    exact ⟨_, rfl, ⟨⌊withSign (quotientSign a b) y⌋, by ring⟩, difference_bounds hb hy⟩
  · intro h hfar
    have hnonneg : (0 : ℚ) ≤ a.natAbs / b.natAbs := by positivity
    have hfar' := quotient_far hb hfar
    have hmax : (a.natAbs / b.natAbs : ℚ) < 2 ^ (1023 : ℤ) := by
      have hfloor := Int.floor_le (a / b : ℚ)
      calc (a.natAbs / b.natAbs : ℚ) ≤ 2 ^ 53 := by linarith
        _ = 2 ^ (53 : ℤ) := (zpow_ofNat _ _).symm
        _ < 2 ^ (1023 : ℤ) := zpow_lt_zpow_right₀ one_lt_two (by decide)
    obtain ⟨y, hy, hresult⟩ := exists_floorMod_int hb hmax
    have hfloor : ⌊withSign (quotientSign a b) y⌋ = a.fdiv b := by
      rw [hy.floor_eq _ hnonneg (sign_cases hb h) (by rwa [withSign_quotient]), withSign_quotient, floor_div_eq_fdiv]
    refine ⟨a.fmod b, ?_, Int.dvd_self_sub_fmod, fmod_mem a⟩
    rw [hresult, hfloor, Int.fmod_def, mul_comm b]

/-- A negative quotient: the remainder takes the sign of the divisor. -/
theorem floorMod_int_negative :
    ∃ r, floorMod (.int (-7)) (.int 3) = .ok (.int r) ∧ (3 : ℤ) ∣ -7 - r ∧ 0 ≤ r ∧ r < 3 := by
  obtain ⟨r, hr, hdvd, hrange, -⟩ := (floorMod_int (a := -7) (b := 3) (by decide)).2 (.inr (by decide +kernel)) (by decide)
  exact ⟨r, hr, hdvd, hrange (by decide)⟩

/-- The double nearest to `2 ^ 53 + 3` is `2 ^ 53 + 4`, so the remainder by one is negative. -/
theorem floorMod_int_beyond : floorMod (.int (2 ^ 53 + 3)) (.int 1) = .ok (.int (-1)) := by
  rfl

end Builtin

end FormulaLang
