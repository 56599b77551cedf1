import FormulaLang.Number.PairedSum
import FormulaLang.Number.Power

/-!
# Exponential and logarithm near zero

`exp x - 1` and `log (1 + x)` without the loss of digits that the subtraction and the addition would bring. The argument is
reduced by a multiple of the logarithm of two, which is known to more digits than a double has, and a polynomial gives the
rest.
-/

namespace FormulaLang.NearZero

/-- The leading digits of the natural logarithm of two. -/
def logTwoHigh : Float := 0.6931471803691238

/-- The digits of the natural logarithm of two behind the leading ones. -/
def logTwoLow : Float := 1.9082149292705877e-10

/-- A number times a power of two. -/
def scale (x : Float) (k : Int) : Float :=
  match Binary64.shape x with
  | .finite negative mantissa exponent => Binary64.ofScaled negative mantissa (exponent + k)
  | _ => x

/-- A reduced argument: the whole multiple `k` of the logarithm of two that was taken off, the rest, and the rounding error of
the rest. -/
structure Reduced where
  k : Int
  rest : Float
  error : Float

/-- The rest of a difference of two parts, with its rounding error. -/
def Reduced.ofParts (k : Int) (high low : Float) : Reduced :=
  let rest := high - low
  ⟨k, rest, (high - rest) - low⟩

/-- Reduces an argument to at most half of the logarithm of two in magnitude. -/
def reduce (x : Float) : Reduced :=
  let a := x.abs
  if a < 0.3465735912322998 then ⟨0, x, 0⟩
  else if a < 1.0397205352783203 then
    if x < 0 then .ofParts (-1) (x + logTwoHigh) (-logTwoLow) else .ofParts 1 (x - logTwoHigh) logTwoLow
  else
    let nearest := 1.4426950408889634 * x + (if x < 0 then -0.5 else 0.5)
    let k := match Binary64.shape nearest with
      | .finite negative mantissa exponent => Binary64.truncate negative mantissa exponent
      | _ => 0
    let t := Binary64.ofInt k
    .ofParts k (x - t * logTwoHigh) (t * logTwoLow)

/-- The coefficients of the polynomial for the exponential. -/
def exponentialCoefficients : List Float :=
  [1, -0.03333333333333313, 0.0015873015872548146, -7.93650757867488e-05, 4.008217827329362e-06,
    -2.0109921818362437e-07]

/-- `exp x - 1` from a reduced argument. -/
def expm1Reduced (r : Reduced) : Float :=
  let x := r.rest
  let half := 0.5 * x
  let halfSquare := x * half
  let r1 := PairedSum.value exponentialCoefficients halfSquare
  let t := 3 - r1 * half
  let e := halfSquare * ((r1 - t) / (6 - x * t))
  if r.k == 0 then x - (x * e - halfSquare)
  else
    let e := x * (e - r.error) - r.error - halfSquare
    if r.k == -1 then 0.5 * (x - e) - 0.5
    else if r.k == 1 then
      if x < -0.25 then -2 * (e - (x + 0.5)) else 1 + 2 * (x - e)
    else if r.k ≤ -2 || 56 < r.k then scale (1 - (e - x)) r.k - 1
    else if r.k < 20 then scale (1 - scale 1 (-r.k) - (e - x)) r.k
    else scale (x - (e + scale 1 (-r.k)) + 1) r.k

/-- `exp x - 1`. -/
def expm1 (x : Float) : Float :=
  if Power.isNaN x then x
  else if 709.782712893384 < x then Power.infinity
  else if x ≤ -38.81622314453125 then -1
  else if x.abs < 5.551115123125783e-17 then x
  else expm1Reduced (reduce x)

/-- The coefficients of the polynomial for the logarithm. -/
def logarithmCoefficients : List Float :=
  [0, 0.6666666666666735, 0.3999999999940942, 0.2857142874366239, 0.22222198432149784, 0.1818357216161805,
    0.15313837699209373, 0.14798198605116586]

/-- An argument `u = 2 ^ k * (1 + f)` of the logarithm with `f` near zero. `error` makes up for the rounding of `u`. -/
structure Normalized where
  k : Int
  f : Float
  error : Float
  /-- `f` is so small that its square gives the logarithm. -/
  tiny : Bool

/-- Normalizes `1 + x`. -/
def normalize (x : Float) : Normalized :=
  if -0.2928934097290039 < x && x < 0.4142136573791504 then ⟨0, x, 0, false⟩
  else
    let huge := 9007199254740992.0 ≤ x
    let u := if huge then x else 1 + x
    let bits := u.toBits.toNat
    let k : Int := (bits / Binary64.leadingBit : Nat) - 1023
    let error := if huge then 0 else (if 0 < k then 1 - (u - x) else x - (u - 1)) / u
    let fraction := bits % Binary64.leadingBit
    let leading := fraction >>> 32
    -- A fraction beyond the square root of two belongs to the next power.
    if leading < 0x6a09e then ⟨k, Binary64.ofMagnitude false (1023 * Binary64.leadingBit + fraction) - 1, error, leading == 0⟩
    else ⟨k + 1, Binary64.ofMagnitude false (1022 * Binary64.leadingBit + fraction) - 1, error, (0x100000 - leading) / 4 == 0⟩

/-- `log (1 + x)` from a normalized argument. -/
def log1pNormalized (n : Normalized) : Float :=
  let f := n.f
  let k := Binary64.ofInt n.k
  let halfSquare := 0.5 * f * f
  if n.tiny then
    if f == 0 then k * logTwoHigh + (n.error + k * logTwoLow)
    else
      let r := halfSquare * (1 - 0.6666666666666666 * f)
      if n.k == 0 then f - r else k * logTwoHigh - ((r - (k * logTwoLow + n.error)) - f)
  else
    let s := f / (2 + f)
    let r := PairedSum.value logarithmCoefficients (s * s)
    if n.k == 0 then f - (halfSquare - s * (halfSquare + r))
    else k * logTwoHigh - ((halfSquare - (s * (halfSquare + r) + (k * logTwoLow + n.error))) - f)

/-- `log (1 + x)`, not a number below minus one. -/
def log1p (x : Float) : Float :=
  if Power.isNaN x || x ≤ -1 then (1 + x).log
  else if x.abs < 5.551115123125783e-17 then x
  else if x.abs < 1.862645149230957e-09 then x - x * x * 0.5
  else if Power.isInfinite x then x
  else log1pNormalized (normalize x)

end FormulaLang.NearZero
