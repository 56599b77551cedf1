import FormulaLang.Proofs.Leaf.Readable
import Mathlib.Data.Nat.Init

/-!
# Numerals in a base

The digits of a natural number in a base up to sixteen, in any mix of letter case and behind any number of zeros, are read as
that number (`Number.readInt_of_writes`); in base ten there may not be too many of them.
-/

namespace FormulaLang

namespace Number

variable {base acc n d : Nat} {c : Char} {t u : Text}

/-- The digits of the number, in either case and behind zeros. -/
def Writes (base n : Nat) (t : Text) : Prop :=
  ∃ zeros, t.map Char.toLower = List.replicate zeros '0' ++ Nat.toDigits base n

/-! ## Digits -/

theorem digitIn?_digitChar (hbase : base ≤ 16) (hd : d < base) : digitIn? base (Nat.digitChar d) = some d := by
  have hvalue : ∀ d < 16, digitValue? (Nat.digitChar d) = some d := by decide
  simp [digitIn?, hvalue d (by omega), hd]

/-- A character is in lower case already, or it is a capital letter. -/
theorem toLower_cases (c : Char) : c.toLower = c ∨ 65 ≤ c.toNat ∧ c.toNat ≤ 90 ∧ c.toLower.toNat = c.toNat + 32 := by
  obtain heq | hsum := toNat_toLower c
  · exact .inl (Char.toNat_inj.1 heq)
  · unfold Char.toLower at hsum ⊢
    split at hsum
    · rename_i h
      rw [dif_pos h]
      exact .inr ⟨h.1, h.2, hsum⟩
    · omega

/-- A digit has the same value in either case. -/
theorem digitIn?_toLower (base : Nat) (c : Char) : digitIn? base c.toLower = digitIn? base c := by
  obtain heq | ⟨hlow, hhigh, hsum⟩ := toLower_cases c
  · rw [heq]
  · have hvalue : digitValue? c.toLower = digitValue? c := by
      unfold digitValue?
      dsimp only
      rw [hsum, if_neg (by omega), if_pos (by omega), if_neg (by omega), if_neg (by omega), if_pos (by omega)]
      exact congrArg some (by omega)
    rw [digitIn?, hvalue, digitIn?]

/-- The digits of a number are digits of the base. -/
theorem exists_digit_of_mem_toDigits (hbase : 1 < base) (h : c ∈ Nat.toDigits base n) : ∃ d < base, c = Nat.digitChar d := by
  induction n using Nat.strong_induction_on with
  | _ n ih =>
    by_cases hn : n < base
    · rw [Nat.toDigits_of_lt_base hn] at h
      exact ⟨n, hn, by simpa using h⟩
    · have hdiv : n / base < n := Nat.div_lt_self (by omega) hbase
      have hmod : n % base < base := Nat.mod_lt n (by omega)
      rw [Nat.toDigits_of_base_le hbase (by omega), List.mem_append, List.mem_singleton] at h
      rcases h with h | rfl
      · exact ih (n / base) hdiv h
      · exact ⟨n % base, hmod, rfl⟩

/-- So is every character of a text that writes a number. -/
theorem Writes.isDigits (hbase : 1 < base) (hle : base ≤ 16) (h : Writes base n t) : IsDigits base t := by
  obtain ⟨zeros, ht⟩ := h
  constructor
  · rintro rfl
    have hnil : Nat.toDigits base n = [] := (List.append_eq_nil_iff.1 ht.symm).2
    exact Nat.toDigits_ne_nil hnil
  · intro c hc
    have hlower : c.toLower ∈ List.replicate zeros '0' ++ Nat.toDigits base n := ht ▸ List.mem_map_of_mem hc
    have hdigit : ∃ d < base, c.toLower = Nat.digitChar d := by
      rcases List.mem_append.1 hlower with hzero | hmem
      · exact ⟨0, by omega, List.eq_of_mem_replicate hzero⟩
      · exact exists_digit_of_mem_toDigits hbase hmem
    obtain ⟨d, hd, heq⟩ := hdigit
    rw [← digitIn?_toLower, heq, digitIn?_digitChar hle hd]
    rfl

/-- The digits of a number are in lower case. -/
theorem Writes.toDigits (hbase : 1 < base) (hle : base ≤ 16) (n : Nat) : Writes base n (Nat.toDigits base n) := by
  have hlower : ∀ d < 16, (Nat.digitChar d).toLower = Nat.digitChar d := by decide
  refine ⟨0, (List.map_congr_left (g := id) fun c hc => ?_).trans (List.map_id _)⟩
  obtain ⟨d, hd, rfl⟩ := exists_digit_of_mem_toDigits hbase hc
  exact hlower d (by omega)

/-! ## Reading -/

theorem ne_underscore_of_digit (h : (digitIn? base c).isSome = true) : c ≠ '_' := by
  rintro rfl
  rw [digitIn?_underscore] at h
  cases h

theorem readDigits_cons (hc : c ≠ '_') :
    readDigits base acc (c :: t) = (digitIn? base c).bind fun d => readDigits base (acc * base + d) t := by
  rw [readDigits]
  rintro d u rfl
  exact absurd rfl hc

theorem readDigits_append (ht : ∀ c ∈ t, (digitIn? base c).isSome = true) :
    readDigits base acc (t ++ u) = (readDigits base acc t).bind fun a => readDigits base a u := by
  induction t generalizing acc with
  | nil => rfl
  | cons c t ih =>
    rw [List.forall_mem_cons] at ht
    obtain ⟨d, hd⟩ := Option.isSome_iff_exists.1 ht.1
    have hc := ne_underscore_of_digit ht.1
    rw [List.cons_append, readDigits_cons hc, readDigits_cons hc, hd, Option.bind_some, Option.bind_some, ih ht.2]

/-- Digits are read in lower case. -/
theorem readDigits_toLower (ht : ∀ c ∈ t, (digitIn? base c).isSome = true) :
    readDigits base acc (t.map Char.toLower) = readDigits base acc t := by
  induction t generalizing acc with
  | nil => rfl
  | cons c t ih =>
    rw [List.forall_mem_cons] at ht
    have hc := ne_underscore_of_digit ht.1
    have hlower : c.toLower ≠ '_' := ne_underscore_of_digit ((digitIn?_toLower base c).symm ▸ ht.1)
    rw [List.map_cons, readDigits_cons hlower, readDigits_cons hc, digitIn?_toLower]
    exact Option.bind_congr fun d _ => ih ht.2

theorem readDigits_zeros (hbase : 0 < base) (hle : base ≤ 16) (zeros : Nat) :
    readDigits base 0 (List.replicate zeros '0' ++ t) = readDigits base 0 t := by
  have hzero : digitIn? base '0' = some 0 := digitIn?_digitChar hle hbase
  induction zeros with
  | zero => rfl
  | succ zeros ih =>
    rw [List.replicate_succ, List.cons_append, readDigits_cons (by decide), hzero, Option.bind_some, Nat.zero_mul]
    exact ih

/-- **The digits of a number** are read as the number. -/
theorem readDigits_toDigits (hbase : 1 < base) (hle : base ≤ 16) (n : Nat) : readDigits base 0 (Nat.toDigits base n) = some n := by
  have hunderscore : ∀ d < base, Nat.digitChar d ≠ '_' := fun d hd =>
    ne_underscore_of_digit (Option.isSome_of_mem (digitIn?_digitChar hle hd))
  induction n using Nat.strong_induction_on with
  | _ n ih =>
    by_cases hn : n < base
    · rw [Nat.toDigits_of_lt_base hn, readDigits_cons (hunderscore n hn), digitIn?_digitChar hle hn, Option.bind_some, Nat.zero_mul,
        Nat.zero_add, readDigits]
    · have hdiv : n / base < n := Nat.div_lt_self (by omega) hbase
      have hmod : n % base < base := Nat.mod_lt n (by omega)
      have hdigits : ∀ c ∈ Nat.toDigits base (n / base), (digitIn? base c).isSome = true := by
        intro c hc
        obtain ⟨d, hd, rfl⟩ := exists_digit_of_mem_toDigits hbase hc
        rw [digitIn?_digitChar hle hd]
        rfl
      rw [Nat.toDigits_of_base_le hbase (by omega), readDigits_append hdigits, ih _ hdiv, Option.bind_some,
        readDigits_cons (hunderscore _ hmod), digitIn?_digitChar hle hmod, Option.bind_some, readDigits,
        Nat.div_add_mod']

/-- **A numeral** of a number is read as that number. -/
theorem readInt_of_writes (hbase : 1 < base) (hle : base ≤ 16) (h : Writes base n t)
    (hshort : base = 10 → t.length ≤ maxDigits) : readInt base t = .ok n := by
  have hdigits := h.isDigits hbase hle
  obtain ⟨zeros, ht⟩ := h
  have hread : readDigits base 0 t = some n := by
    rw [← readDigits_toLower hdigits.2, ht, readDigits_zeros (by omega) hle, readDigits_toDigits hbase hle]
  have hnatural : readNatural base t = some n := by
    obtain ⟨c, t, rfl⟩ := List.exists_cons_of_ne_nil hdigits.1
    rw [readDigits_cons (ne_underscore_of_digit (hdigits.2 c List.mem_cons_self)), Nat.zero_mul] at hread
    simp only [Nat.zero_add] at hread
    exact hread
  have hlength : ¬(base = 10 ∧ maxDigits < (t.filter (· != '_')).length) := by
    rintro ⟨hten, hlong⟩
    have hfilter := List.length_filter_le (· != '_') t
    have hmax := hshort hten
    omega
  rw [readInt_digits hdigits, hnatural]
  simp only [if_neg hlength, Binary64.signed]
  rfl

end Number

end FormulaLang
