import FormulaLang.Number.Arithmetic

/-!
# Powers and remainders of doubles

The power of two doubles, with its limits at the infinities, and the two remainders, which are exact: that of the quotient
towards zero (`Power.fmod`) and that of the nearest quotient, a tie going to the even one (`Power.remainder`).
-/

namespace FormulaLang.Power

/-- Not a number. -/
def isNaN (x : Float) : Bool :=
  match Binary64.shape x with
  | .nan => true
  | _ => false

/-- Positive or negative infinity. -/
def isInfinite (x : Float) : Bool :=
  match Binary64.shape x with
  | .infinite _ => true
  | _ => false

/-- The sign bit is set. -/
def isNegative (x : Float) : Bool :=
  decide (Binary64.signBit ≤ x.toBits.toNat)

/-- The magnitude of `x` with the sign of `y`. -/
def copySign (x y : Float) : Float :=
  if isNegative x == isNegative y then x else -x

/-- An odd integer. -/
def isOdd (x : Float) : Bool :=
  match Binary64.shape x with
  | .finite _ mantissa exponent =>
    let (num, den) := Binary64.ratio mantissa exponent
    num % den == 0 && num / den % 2 == 1
  | _ => false

/-- Infinity. -/
def infinity : Float := Binary64.infinity false

/-- The power when the base or the exponent is infinite or a NaN. -/
def powLimit (x y : Float) : Float :=
  if isNaN x then (if y == 0 then 1 else x)
  else if isNaN y then (if x == 1 then 1 else y)
  else if isInfinite x then
    if y > 0 then (if isOdd y then x else x.abs)
    else if y == 0 then 1
    else if isOdd y then copySign 0 x else 0
  else if x.abs == 1 then 1
  else if y > 0 && x.abs > 1 then y
  else if y < 0 && x.abs < 1 then -y
  else 0

/-- The power. A negative power of zero and a fractional power of a negative number are outside the domain. -/
def pow (x y : Float) : Except Fault Float :=
  if Binary64.isFinite x && Binary64.isFinite y then
    let r := Float.pow x y
    if isNaN r then .error .domain
    else if isInfinite r then .error (if x == 0 then .domain else .overflow)
    else .ok r
  else .ok (powLimit x y)

/-- A remainder computed on the exact values of the operands: `f` gets `|x|` and `|y|` in a common unit. The result has the
sign of `x`, negated when the remainder is negative. -/
def exactRemainder (f : Nat → Nat → Int) (x y : Float) : Except Fault Float :=
  match Binary64.shape x, Binary64.shape y with
  | .nan, _ => .ok x
  | _, .nan => .ok y
  | .infinite _, _ => .error .domain
  | .finite .., .infinite _ => .ok x
  | .finite negative m p, .finite _ n q =>
    if n = 0 then .error .domain
    else
      let unit := min p q
      let r := f (m <<< (p - unit).toNat) (n <<< (q - unit).toNat)
      .ok (Binary64.ofScaled (negative != decide (r < 0)) r.natAbs unit)

/-- The remainder of the quotient towards zero; it has the sign of `x`. -/
def fmod : Float → Float → Except Fault Float :=
  exactRemainder fun a b => (a % b : Nat)

/-- The remainder of the nearest quotient. -/
def remainder : Float → Float → Except Fault Float :=
  exactRemainder fun a b => (a : Int) - (b * Binary64.roundHalfEven a b : Nat)

end FormulaLang.Power
