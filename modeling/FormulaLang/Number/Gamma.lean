import FormulaLang.Number.Elementary

/-!
# The gamma function

Lanczos' approximation with thirteen terms, reflected for negative arguments; small positive integers have exact values.
-/

namespace FormulaLang.Gamma

open Power

/-- The shift of the approximation. -/
def shift : Float := 6.024680040776729583740234375

/-- The shift less one half. -/
def shiftMinusHalf : Float := 5.524680040776729583740234375

/-- The coefficients of numerator and denominator, the constant terms first. -/
def coefficients : List (Float × Float) :=
  [(23531376880.41075968857200767445163675473076, 0.0),
    (42919803642.64909876895789904700198885092635584, 39916800.0),
    (35711959237.35566804944018545154716670596048863, 120543840.0),
    (17921034426.037209699919755754458931112671403, 150917976.0),
    (6039542586.35202800506429164430729792106993884, 105258076.0),
    (1439720407.3117216736632230727949123939715485, 45995730.0),
    (248874557.86205415651146038641322942321632125, 13339535.0),
    (31426415.58540019438061423162831820536287468, 2637558.0),
    (2876370.6289353724412254090516208496135991145, 357423.0),
    (186056.26539522349504029498971604569928220784236328, 32670.0),
    (8071.6720023658162106380029022722506138218516325024, 1925.0),
    (210.82427775157934587250973392071336271166969580291, 66.0),
    (2.5066282746310002701649081771338373386264310793408, 1.0)]

/-- The rational function of the approximation, in powers of `x` or of its inverse. -/
def lanczosSum (x : Float) : Float :=
  let (num, den) :=
    if x < 5 then coefficients.reverse.foldl (fun (n, d) (c, e) => (n * x + c, d * x + e)) (0, 0)
    else coefficients.foldl (fun (n, d) (c, e) => (n / x + c, d / x + e)) (0, 0)
  num / den

/-- The number as an integer, when it is one. -/
def asInteger? (x : Float) : Option Int :=
  match Binary64.shape x with
  | .finite negative mantissa exponent =>
    let (num, den) := Binary64.ratio mantissa exponent
    if num % den = 0 then some (Binary64.signed negative (num / den)) else none
  | _ => none

/-- The sine of `pi * x` for a finite `x`, reduced to the nearest half. -/
def sinPi (x : Float) : Float :=
  match Binary64.shape x with
  | .finite negative mantissa exponent =>
    let (num, den) := Binary64.ratio mantissa exponent
    let part := num % (2 * den)
    let y := Binary64.ofRatio false part den
    -- Halves are counted with a half rounded away from zero.
    let r :=
      match (4 * part + den) / (2 * den) with
      | 0 => (Elementary.pi * y).sin
      | 1 => (Elementary.pi * (y - 0.5)).cos
      | 2 => (Elementary.pi * (1 - y)).sin
      | 3 => -(Elementary.pi * (y - 1.5)).cos
      | _ => (Elementary.pi * (y - 2)).sin
    if negative then -r else r
  | _ => Elementary.nan

/-- The factorial. -/
def factorial : Nat → Nat
  | 0 => 1
  | n + 1 => (n + 1) * factorial n

/-- The correction for the rounding of `x + shift - 1/2 = y`. -/
def roundingError (x y : Float) : Float :=
  let z := if x > shiftMinusHalf then (y - x) - shiftMinusHalf else (y - shiftMinusHalf) - x
  z * shift / y

/-- A power in one step, or in two when one would overflow. -/
def scaleByPower (f : Float → Float → Float) (r y x : Float) : Float :=
  if x < 140 then f r (y.pow (x - 0.5))
  else
    let root := y.pow (x / 2 - 0.25)
    f (f r root) root

/-- The gamma function at an argument that is no pole and no small integer. -/
def approximate (x : Float) : Float :=
  let a := x.abs
  let y := a + shiftMinusHalf
  let z := roundingError a y
  if x < 0 then
    let r := -Elementary.pi / sinPi a / a * y.exp / lanczosSum a
    scaleByPower (· / ·) (r - z * r) y a
  else
    let r := lanczosSum a / y.exp
    scaleByPower (· * ·) (r + z * r) y a

/-- The gamma function; zero and the negative integers are poles. -/
def gamma (x : Float) : Except Fault Float :=
  if isNaN x then .ok x
  else if isInfinite x then (if isNegative x then .error .domain else .ok x)
  else
    let finite (r : Float) : Except Fault Float := if isInfinite r then .error .overflow else .ok r
    match asInteger? x with
    | some n =>
      if n ≤ 0 then .error .domain
      else if n ≤ 23 then .ok (Binary64.ofInt (factorial (n.toNat - 1)))
      else if 200 < n then .error .overflow
      else finite (approximate x)
    | none =>
      if x.abs < 1e-20 then finite (1 / x)
      else if x.abs > 200 then (if x < 0 then .ok (0 / sinPi x) else .error .overflow)
      else finite (approximate x)

/-- The logarithm of pi. -/
def logPi : Float := 1.144729885849400174143427351353058711647

/-- The logarithm of the magnitude of the gamma function. -/
def logGamma (x : Float) : Except Fault Float :=
  if isNaN x then .ok x
  else if isInfinite x then .ok infinity
  else
    let a := x.abs
    let whole := asInteger? x
    if whole.any (· ≤ 0) then .error .domain
    else if whole.any (· ≤ 2) then .ok 0
    else if a < 1e-20 then .ok (-a.log)
    else
      let r := (lanczosSum a).log - shift
      let r := r + (a - 0.5) * ((a + shift - 0.5).log - 1)
      let r := if x < 0 then logPi - (sinPi a).abs.log - a.log - r else r
      if isInfinite r then .error .overflow else .ok r

end FormulaLang.Gamma
