import FormulaLang.Number.Power

/-!
# Elementary functions

The elementary functions on doubles with their domains: a result that is not a number for an argument that is one lies
outside the domain, and an infinite result for a finite argument is a pole or, for the functions that grow without bound,
an overflow. Logarithms also take integers beyond the range of doubles.
-/

namespace FormulaLang.Elementary

open Power

/-- A function with its domain checked. -/
def checked (f : Float → Float) (grows : Bool) (x : Float) : Except Fault Float :=
  let r := f x
  if isNaN r && !isNaN x then .error .domain
  else if isInfinite r && Binary64.isFinite x then .error (if grows then .overflow else .domain)
  else .ok r

/-- Not a number. -/
def nan : Float := Binary64.ofMagnitude false Binary64.nanBits

/-- The ratio of a circle's circumference to its diameter. -/
def pi : Float := 3.141592653589793

/-- A positive double as a mantissa from one half up to one and a power of two. -/
def frexp (x : Float) : Float × Int :=
  match Binary64.shape x with
  | .finite negative mantissa exponent =>
    if mantissa = 0 then (x, 0)
    else
      let size := (Nat.log2 mantissa + 1 : Nat)
      (Binary64.ofScaled negative mantissa (-size), exponent + size)
  | _ => (x, 0)

/-- `x * 2 ^ e`. -/
def ldexp (x : Float) (e : Int) : Except Fault Float :=
  match Binary64.shape x with
  | .finite negative mantissa exponent =>
    if mantissa = 0 then .ok x
    else
      -- Far outside the range of exponents the answer does not depend on `e`.
      let e := max (-5000) (min e 5000)
      let r := Binary64.ofScaled negative mantissa (exponent + e)
      if isInfinite r then .error .overflow else .ok r
  | _ => .ok x

/-- A logarithm of a double, minus infinity being no result. -/
def logFloat (f : Float → Float) (x : Float) : Except Fault Float :=
  if isNaN x then .ok x
  else if x ≤ 0 then .error .domain
  else .ok (f x)

/-- A positive integer as a mantissa from one half up to one and a power of two. -/
def frexpNat (n : Nat) : Float × Nat :=
  let size := Nat.log2 n + 1
  let mantissa := Binary64.ofRatio false n (1 <<< size)
  -- An integer just below a power of two is rounded up to it.
  if mantissa < 1 then (mantissa, size) else (0.5, size + 1)

/-- A logarithm of a scalar. An integer beyond the doubles is scaled down by a power of two first. -/
def logScalar (f : Float → Float) (s : Scalar) : Except Fault Float :=
  match s.widen with
  | .int n =>
    if n ≤ 0 then .error .domain
    else
      match Binary64.ofInt? n with
      | .ok x => logFloat f x
      | .error _ =>
        let (mantissa, exponent) := frexpNat n.natAbs
        .ok (f mantissa + f 2 * Float.ofNat exponent)
  | s => do logFloat f (← s.toFloat)

/-- The double that follows `x` in the direction of `y`. -/
def nextAfter (x y : Float) : Float :=
  if isNaN x then x
  else if isNaN y then y
  else if x == y then y
  else
    let bits := x.toBits.toNat % Binary64.signBit
    if bits = 0 then Binary64.ofMagnitude (isNegative y) 1
    else if (x < y) != isNegative x then Binary64.ofMagnitude (isNegative x) (bits + 1)
    else Binary64.ofMagnitude (isNegative x) (bits - 1)

/-- The distance from the magnitude of `x` to the next double. -/
def ulp (x : Float) : Float :=
  let x := x.abs
  if isNaN x || isInfinite x then x
  else
    let y := nextAfter x infinity
    if isInfinite y then x - nextAfter x (-infinity) else y - x

/-- Equal up to a relative difference of `1e-9`. -/
def isClose (x y : Float) : Bool :=
  if x == y then true
  else if isInfinite x || isInfinite y then false
  else
    let gap := (y - x).abs
    let tolerance : Float := 1e-9
    gap ≤ (tolerance * y).abs || gap ≤ (tolerance * x).abs || gap ≤ 0

/-- The fractional and the integer part, both with the sign of the number. -/
def modf (x : Float) : Float × Float :=
  match Binary64.shape x with
  | .nan => (x, x)
  | .infinite negative => (Binary64.ofRatio negative 0 1, x)
  | .finite negative mantissa exponent =>
    let (num, den) := Binary64.ratio mantissa exponent
    (Binary64.ofRatio negative (num % den) den, Binary64.ofRatio negative (num / den) 1)

end FormulaLang.Elementary
