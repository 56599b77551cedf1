import FormulaLang.Function.Operation
import Mathlib.Data.Int.Bitwise

/-!
# Arithmetic of 32-bit words

The bitwise operations are those of integers of any size in two's complement, reduced to the signed integer of 32 bits that is
congruent to the result; a left shift is a product with a power of two that is reduced in the same way, and a right shift is
the floored quotient of the reduced operand (`Operation.binary_word`). Reducing the operands first makes no difference, because
the lowest 32 bits of a result follow from those of its operands (`ofInt_land`, `ofInt_lor`, `ofInt_xor`). The bitwise operations
are also those of the reduced operands themselves, as they do not leave the signed range (`bitAnd_eq`, `bitXor_eq`, `bitOr_eq`).
-/

namespace FormulaLang

namespace Word32

variable {a a' b b' n r : Int}

/-! ## The signed integer of a word -/

theorem wrap_eq_bmod (n : Int) : wrap n = n.bmod (2 ^ 32) :=
  BitVec.toInt_ofInt n

/-- **The wrapped integer** is the one in the signed range that is congruent modulo `2 ^ 32`. -/
theorem wrap_eq_iff : wrap n = r ↔ -2 ^ 31 ≤ r ∧ r < 2 ^ 31 ∧ r % 2 ^ 32 = n % 2 ^ 32 := by
  rw [wrap_eq_bmod, Int.bmod_eq_iff (by decide)]
  omega

theorem toInt_range (x : BitVec 32) : -2 ^ 31 ≤ x.toInt ∧ x.toInt < 2 ^ 31 :=
  ⟨x.le_toInt, x.toInt_lt⟩

/-- Integers have the same word when they are congruent modulo `2 ^ 32`. -/
theorem ofInt_congr (h : a % 2 ^ 32 = a' % 2 ^ 32) : ofInt a = ofInt a' := by
  refine BitVec.eq_of_toNat_eq ?_
  rw [ofInt, ofInt, BitVec.toNat_ofInt, BitVec.toNat_ofInt]
  exact congrArg Int.toNat h

/-! ## Bits -/

/-- The bits of the word of an integer are its lowest bits. -/
theorem getLsbD_ofInt (n : Int) {k : Nat} (hk : k < 32) : (ofInt n).getLsbD k = n.testBit k := by
  cases n with
  | ofNat m =>
    rw [ofInt, Int.ofNat_eq_natCast, BitVec.ofInt_natCast, BitVec.getLsbD_ofNat]
    simp [hk, Int.testBit]
  | negSucc m =>
    rw [ofInt, BitVec.ofInt_negSucc_eq_not_ofNat, BitVec.getLsbD_not, BitVec.getLsbD_ofNat]
    simp [hk, Int.testBit]

/-- A word with the lowest bits of an integer is its word. -/
theorem ofInt_eq_of_testBit {x : BitVec 32} (h : ∀ k < 32, n.testBit k = x.getLsbD k) : ofInt n = x :=
  BitVec.eq_of_getLsbD_eq fun k hk => (getLsbD_ofInt n hk).trans (h k hk)

theorem ofInt_land (a b : Int) : ofInt (a.land b) = ofInt a &&& ofInt b := by
  refine ofInt_eq_of_testBit fun k hk => ?_
  rw [Int.testBit_land, BitVec.getLsbD_and, getLsbD_ofInt a hk, getLsbD_ofInt b hk]

theorem ofInt_lor (a b : Int) : ofInt (a.lor b) = ofInt a ||| ofInt b := by
  refine ofInt_eq_of_testBit fun k hk => ?_
  rw [Int.testBit_lor, BitVec.getLsbD_or, getLsbD_ofInt a hk, getLsbD_ofInt b hk]

theorem ofInt_xor (a b : Int) : ofInt (a.xor b) = ofInt a ^^^ ofInt b := by
  refine ofInt_eq_of_testBit fun k hk => ?_
  rw [Int.testBit_lxor, BitVec.getLsbD_xor, getLsbD_ofInt a hk, getLsbD_ofInt b hk]

/-! ## Wrapped operands -/

/-- An integer of the signed range. -/
def InRange (n : Int) : Prop :=
  -2 ^ 31 ≤ n ∧ n < 2 ^ 31

theorem InRange.wrap_eq (h : InRange n) : wrap n = n :=
  wrap_eq_iff.2 ⟨h.1, h.2, rfl⟩

theorem inRange_wrap (n : Int) : InRange (wrap n) :=
  toInt_range (ofInt n)

theorem ofInt_wrap (n : Int) : ofInt (wrap n) = ofInt n :=
  BitVec.ofInt_toInt

theorem inRange_natBitwise (f : Bool → Bool → Bool) {m k : Nat} (hm : m < 2 ^ 31) (hk : k < 2 ^ 31) :
    InRange (Int.natBitwise f m k) := by
  unfold Int.natBitwise InRange
  cases f false false with
  | true =>
    have hlt := Nat.bitwise_lt_two_pow (f := fun x y => !f x y) hm hk
    simp only [cond_true]
    omega
  | false =>
    have hlt := Nat.bitwise_lt_two_pow (f := f) hm hk
    simp only [cond_false]
    omega

theorem inRange_ofNat_iff {m : Nat} : InRange (.ofNat m) ↔ m < 2 ^ 31 := by
  rw [InRange, Int.ofNat_eq_natCast]
  omega

theorem inRange_negSucc_iff {m : Nat} : InRange (.negSucc m) ↔ m < 2 ^ 31 := by
  rw [InRange]
  omega

/-- An operation on the bits of two integers does not leave the signed range. -/
theorem InRange.bitwise (f : Bool → Bool → Bool) (ha : InRange a) (hb : InRange b) : InRange (Int.bitwise f a b) := by
  cases a with
  | ofNat m =>
    cases b with
    | ofNat k => exact inRange_natBitwise f (inRange_ofNat_iff.1 ha) (inRange_ofNat_iff.1 hb)
    | negSucc k => exact inRange_natBitwise (fun x y => f x !y) (inRange_ofNat_iff.1 ha) (inRange_negSucc_iff.1 hb)
  | negSucc m =>
    cases b with
    | ofNat k => exact inRange_natBitwise (fun x y => f (!x) y) (inRange_negSucc_iff.1 ha) (inRange_ofNat_iff.1 hb)
    | negSucc k => exact inRange_natBitwise (fun x y => f (!x) !y) (inRange_negSucc_iff.1 ha) (inRange_negSucc_iff.1 hb)

/-- The bits that both wrapped integers have. -/
theorem bitAnd_eq (a b : Int) : bitAnd a b = (wrap a).land (wrap b) := by
  have hrange : InRange ((wrap a).land (wrap b)) := Int.bitwise_and ▸ (inRange_wrap a).bitwise and (inRange_wrap b)
  rw [← hrange.wrap_eq, wrap, ofInt_land, ofInt_wrap, ofInt_wrap]
  rfl

/-- The bits that exactly one of the wrapped integers has. -/
theorem bitXor_eq (a b : Int) : bitXor a b = (wrap a).xor (wrap b) := by
  have hrange : InRange ((wrap a).xor (wrap b)) := Int.bitwise_xor ▸ (inRange_wrap a).bitwise xor (inRange_wrap b)
  rw [← hrange.wrap_eq, wrap, ofInt_xor, ofInt_wrap, ofInt_wrap]
  rfl

/-- The bits that one of the wrapped integers has. -/
theorem bitOr_eq (a b : Int) : bitOr a b = (wrap a).lor (wrap b) := by
  have hrange : InRange ((wrap a).lor (wrap b)) := Int.bitwise_or ▸ (inRange_wrap a).bitwise or (inRange_wrap b)
  rw [← hrange.wrap_eq, wrap, ofInt_lor, ofInt_wrap, ofInt_wrap]
  rfl

/-! ## Shifts -/

theorem shiftCount_eq (b : Int) : shiftCount b = (b % 32).toNat := by
  have hword : (ofInt b).toNat = (b % 2 ^ 32).toNat := BitVec.toNat_ofInt b
  rw [shiftCount, hword]
  omega

/-- A shift to the left is a product with a power of two. -/
theorem ofInt_shiftLeft (a : Int) (k : Nat) : ofInt (a * 2 ^ k) = ofInt a <<< k := by
  have hpow : ofInt (2 ^ k) = BitVec.twoPow 32 k := by
    refine BitVec.eq_of_toNat_eq ?_
    have hcast : ((2 : Int) ^ k) = ((2 ^ k : Nat) : Int) := by push_cast; rfl
    rw [ofInt, hcast, BitVec.ofInt_natCast, BitVec.toNat_ofNat, BitVec.toNat_twoPow]
  rw [BitVec.shiftLeft_eq_mul_twoPow, ← hpow]
  exact BitVec.ofInt_mul a (2 ^ k)

/-- A shift to the right that keeps the sign is a floored quotient. -/
theorem toInt_shiftRight (x : BitVec 32) (k : Nat) : (x.sshiftRight k).toInt = x.toInt.fdiv (2 ^ k) := by
  have hpos : (0 : Int) ≤ 2 ^ k := Int.pow_nonneg (by decide)
  rw [BitVec.toInt_sshiftRight, Int.shiftRight_eq_div_pow, Int.fdiv_eq_ediv_of_nonneg _ hpos]
  push_cast
  rfl

end Word32

namespace Operation

open Word32 (wrap ofInt)

/-- The operations on words. -/
def words : List Operation :=
  [bitAnd, bitOr, bitXor, shiftLeft, shiftRight]

/-- What an operation on words gives is the value of a word that the words of its operands determine. -/
theorem binary_words {op : Operation} (h : op ∈ words) :
    ∃ g : BitVec 32 → BitVec 32 → BitVec 32,
      ∀ a b : Int, op.binary (.int a) (.int b) = .ok (.int (g (ofInt a) (ofInt b)).toInt) := by
  simp only [words, List.mem_cons, List.not_mem_nil, or_false] at h
  rcases h with rfl | rfl | rfl | rfl | rfl
  · exact ⟨fun x y => x &&& y, fun _ _ => rfl⟩
  · exact ⟨fun x y => x ||| y, fun _ _ => rfl⟩
  · exact ⟨fun x y => x ^^^ y, fun _ _ => rfl⟩
  · exact ⟨fun x y => x <<< (y.toNat % 32), fun _ _ => rfl⟩
  · exact ⟨fun x y => x.sshiftRight (y.toNat % 32), fun _ _ => rfl⟩

/-- **The operations on words** on integers of any size and sign: `wrap` gives the congruent integer of the signed range, the
bitwise operations are those of two's complement, reduced once, a left shift is a reduced product and a right shift a floored
quotient. Every result lies in the signed range and depends on the operands modulo `2 ^ 32` only. -/
theorem binary_word :
    (∀ n r : Int, wrap n = r ↔ -2 ^ 31 ≤ r ∧ r < 2 ^ 31 ∧ r % 2 ^ 32 = n % 2 ^ 32) ∧
      (∀ a b : Int,
        bitAnd.binary (.int a) (.int b) = .ok (.int (wrap (a.land b))) ∧
        bitOr.binary (.int a) (.int b) = .ok (.int (wrap (a.lor b))) ∧
        bitXor.binary (.int a) (.int b) = .ok (.int (wrap (a.xor b))) ∧
        shiftLeft.binary (.int a) (.int b) = .ok (.int (wrap (a * 2 ^ (b % 32).toNat))) ∧
        shiftRight.binary (.int a) (.int b) = .ok (.int ((wrap a).fdiv (2 ^ (b % 32).toNat)))) ∧
      ∀ op ∈ words, ∀ a b : Int, ∃ r : Int, op.binary (.int a) (.int b) = .ok (.int r) ∧ -2 ^ 31 ≤ r ∧ r < 2 ^ 31 ∧
        ∀ a' b' : Int, a' % 2 ^ 32 = a % 2 ^ 32 → b' % 2 ^ 32 = b % 2 ^ 32 →
          op.binary (.int a') (.int b') = .ok (.int r) := by
  refine ⟨fun _ _ => Word32.wrap_eq_iff, fun a b => ⟨?_, ?_, ?_, ?_, ?_⟩, ?_⟩
  · rw [wrap, Word32.ofInt_land]
    rfl
  · rw [wrap, Word32.ofInt_lor]
    rfl
  · rw [wrap, Word32.ofInt_xor]
    rfl
  · rw [wrap, Word32.ofInt_shiftLeft, ← Word32.shiftCount_eq]
    rfl
  · rw [wrap, ← Word32.toInt_shiftRight, ← Word32.shiftCount_eq]
    rfl
  · intro op hop a b
    obtain ⟨g, hg⟩ := binary_words hop
    obtain ⟨hlow, hhigh⟩ := Word32.toInt_range (g (ofInt a) (ofInt b))
    refine ⟨_, hg a b, hlow, hhigh, fun a' b' ha hb => ?_⟩
    rw [hg, Word32.ofInt_congr ha, Word32.ofInt_congr hb]

/-- Operands beyond the word on either side give the result of the small ones that are congruent to them. -/
theorem binary_word_congruent :
    (-2 ^ 40 - 5 : Int) % 2 ^ 32 = -5 % 2 ^ 32 ∧ (2 ^ 33 + 3 : Int) % 2 ^ 32 = 3 % 2 ^ 32 ∧
      bitXor.binary (.int (-2 ^ 40 - 5)) (.int (2 ^ 33 + 3)) = bitXor.binary (.int (-5)) (.int 3) := by
  have ha : (-2 ^ 40 - 5 : Int) % 2 ^ 32 = -5 % 2 ^ 32 := by decide
  have hb : (2 ^ 33 + 3 : Int) % 2 ^ 32 = 3 % 2 ^ 32 := by decide
  obtain ⟨r, hr, -, -, hcongr⟩ := binary_word.2.2 bitXor (by decide) (-5) 3
  exact ⟨ha, hb, (hcongr _ _ ha hb).trans hr.symm⟩

end Operation

end FormulaLang
