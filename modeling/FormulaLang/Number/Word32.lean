/-!
# 32-bit words

Integers of any size are taken modulo `2 ^ 32` into the signed range from `-2 ^ 31` up to `2 ^ 31`. The bitwise operations
work on that word and give back its signed value; a shift amount counts modulo 32, and a right shift keeps the sign.
-/

namespace FormulaLang.Word32

/-- The word of an integer. -/
def ofInt (n : Int) : BitVec 32 :=
  BitVec.ofInt 32 n

/-- The signed 32-bit integer congruent to an integer. -/
def wrap (n : Int) : Int :=
  (ofInt n).toInt

/-- How far a shift goes. -/
def shiftCount (n : Int) : Nat :=
  (ofInt n).toNat % 32

/-- Shift to the left; bits beyond the word are lost. -/
def shiftLeft (a b : Int) : Int :=
  (ofInt a <<< shiftCount b).toInt

/-- Shift to the right that keeps the sign. -/
def shiftRight (a b : Int) : Int :=
  ((ofInt a).sshiftRight (shiftCount b)).toInt

/-- Bits that both words have. -/
def bitAnd (a b : Int) : Int :=
  (ofInt a &&& ofInt b).toInt

/-- Bits that exactly one of the words has. -/
def bitXor (a b : Int) : Int :=
  (ofInt a ^^^ ofInt b).toInt

/-- Bits that one of the words has. -/
def bitOr (a b : Int) : Int :=
  (ofInt a ||| ofInt b).toInt

end FormulaLang.Word32
