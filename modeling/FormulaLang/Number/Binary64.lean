/-!
# Binary floating point, exactly

A finite double is an integer mantissa times a power of two (`shape`), and every ratio of naturals has a nearest double, a
tie going to the even mantissa (`ofRatio`). Floors, remainders and comparisons are done on that exact form.
-/

namespace FormulaLang.Binary64

/-- What a double stands for. -/
inductive Shape where
  | nan
  | infinite (negative : Bool)
  /-- The number `mantissa * 2 ^ exponent`, with a sign that zero has too. -/
  | finite (negative : Bool) (mantissa : Nat) (exponent : Int)
  deriving DecidableEq, Repr

/-- The least exponent of a double. -/
def minExponent : Int := -1074

/-- The weight of the sign bit. -/
def signBit : Nat := 0x8000000000000000

/-- The weight of the lowest exponent bit, which is also the leading bit of a normal mantissa. -/
def leadingBit : Nat := 0x10000000000000

/-- The exact meaning of a double, read off its sign, exponent and fraction bits. -/
def shape (x : Float) : Shape :=
  let bits : Nat := x.toBits.toNat
  let negative := decide (signBit ≤ bits)
  let field : Nat := bits / leadingBit % 2048
  let fraction : Nat := bits % leadingBit
  if field = 2047 then
    if fraction = 0 then .infinite negative else .nan
  else if field = 0 then .finite negative fraction minExponent
  else .finite negative (leadingBit + fraction) ((field : Int) - 1075)

/-- Neither infinite nor a NaN. -/
def isFinite (x : Float) : Bool :=
  match shape x with
  | .finite .. => true
  | _ => false

/-- The bits of positive infinity. -/
def infinityBits : Nat := 2047 * leadingBit

/-- The bits of a number that is none. -/
def nanBits : Nat := infinityBits + leadingBit / 2

/-- A double from its sign and the bits of its magnitude. -/
def ofMagnitude (negative : Bool) (bits : Nat) : Float :=
  Float.ofBits (UInt64.ofNat (if negative then signBit + bits else bits))

/-- Positive or negative infinity. -/
def infinity (negative : Bool) : Float :=
  ofMagnitude negative infinityBits

/-- A quotient rounded to the nearest natural, a half going to the even neighbour. -/
def roundHalfEven (num den : Nat) : Nat :=
  let q := num / den
  let twice := 2 * (num % den)
  if twice < den then q
  else if den < twice then q + 1
  else q + q % 2

/-- The exponent at which `num / den` has 53 bits before the point, or the least exponent. -/
def exponentFor (num den : Nat) : Int :=
  let guess : Int := (Nat.log2 num : Int) - Nat.log2 den - 52
  -- The guess is right or one too large, as the quotient may fall just short of the power of two.
  let fits : Bool :=
    if 0 ≤ guess then decide (leadingBit * (den <<< guess.toNat) ≤ num)
    else decide (leadingBit * den ≤ num <<< (-guess).toNat)
  max (if fits then guess else guess - 1) minExponent

/-- The magnitude bits of the double nearest to `num / den`; infinity when that is too large. -/
def magnitudeOfRatio (num den : Nat) : Nat :=
  if num = 0 then 0
  else
    let q := exponentFor num den
    if 972 ≤ q then infinityBits
    else
      let mantissa :=
        if 0 ≤ q then roundHalfEven num (den <<< q.toNat) else roundHalfEven (num <<< (-q).toNat) den
      -- The leading bit of the mantissa carries into the exponent field.
      min (mantissa + (q - minExponent).toNat * leadingBit) infinityBits

/-- The double nearest to `num / den`, with the given sign. -/
def ofRatio (negative : Bool) (num den : Nat) : Float :=
  ofMagnitude negative (magnitudeOfRatio num den)

/-- The double nearest to `mantissa * 2 ^ exponent`. -/
def ofScaled (negative : Bool) (mantissa : Nat) (exponent : Int) : Float :=
  if 0 ≤ exponent then ofRatio negative (mantissa <<< exponent.toNat) 1
  else ofRatio negative mantissa (1 <<< (-exponent).toNat)

/-- The double nearest to an integer; infinite when there is none. -/
def ofInt (n : Int) : Float :=
  ofRatio (decide (n < 0)) n.natAbs 1

/-- Numerator and denominator of a magnitude. -/
def ratio (mantissa : Nat) (exponent : Int) : Nat × Nat :=
  if 0 ≤ exponent then (mantissa <<< exponent.toNat, 1) else (mantissa, 1 <<< (-exponent).toNat)

/-- The signed integer of a magnitude. -/
def signed (negative : Bool) (n : Nat) : Int :=
  if negative then -(n : Int) else n

/-- The greatest integer that is at most the number. -/
def floor (negative : Bool) (mantissa : Nat) (exponent : Int) : Int :=
  let (num, den) := ratio mantissa exponent
  (signed negative num).fdiv den

/-- The integer part, towards zero. -/
def truncate (negative : Bool) (mantissa : Nat) (exponent : Int) : Int :=
  let (num, den) := ratio mantissa exponent
  signed negative (num / den)

end FormulaLang.Binary64
