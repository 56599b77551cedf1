import FormulaLang.Function.Builtin
import FormulaLang.Function.Operation
import FormulaLang.Number.ErrorFunction
import FormulaLang.Number.Gamma
import FormulaLang.Number.NearZero
import FormulaLang.Number.Norm

/-!
# Standard functions

The functions of a numeric library: elementary and special functions on doubles, functions on integers, tests that give
truth values, and the smallest and greatest of several numbers. Drawing a random number is the one function whose result
does not follow from its arguments; it is drawn from the host of the evaluation and has no meaning here.
-/

namespace FormulaLang

/-- A function of the numeric library. -/
inductive Standard where
  | acos | acosh | asin | asinh | atan | atan2 | atanh | cbrt | ceil | comb | copysign | cos | cosh | degrees | dist
  | erf | erfc | exp | exp2 | expm1 | fabs | factorial | floor | fmod | frexp | fsum | gamma | gcd | hypot | isclose
  | isfinite | isinf | isnan | isqrt | lcm | ldexp | lgamma | log | log10 | log1p | log2 | modf | nextafter | perm | pow
  | prod | radians | remainder | sin | sinh | sqrt | tan | tanh | trunc | ulp
  | abs | min | max | round | sign | random
  deriving DecidableEq, Repr

namespace Standard

/-- Every function with its name. -/
def names : List (Text × Standard) :=
  [("acos".toList, acos), ("acosh".toList, acosh), ("asin".toList, asin), ("asinh".toList, asinh), ("atan".toList, atan),
    ("atan2".toList, atan2), ("atanh".toList, atanh), ("cbrt".toList, cbrt), ("ceil".toList, ceil),
    ("comb".toList, comb), ("copysign".toList, copysign), ("cos".toList, cos), ("cosh".toList, cosh),
    ("degrees".toList, degrees), ("dist".toList, dist), ("erf".toList, erf), ("erfc".toList, erfc), ("exp".toList, exp),
    ("exp2".toList, exp2), ("expm1".toList, expm1), ("fabs".toList, fabs), ("factorial".toList, factorial),
    ("floor".toList, floor), ("fmod".toList, fmod), ("frexp".toList, frexp), ("fsum".toList, fsum),
    ("gamma".toList, gamma), ("gcd".toList, gcd), ("hypot".toList, hypot), ("isclose".toList, isclose),
    ("isfinite".toList, isfinite), ("isinf".toList, isinf), ("isnan".toList, isnan), ("isqrt".toList, isqrt),
    ("lcm".toList, lcm), ("ldexp".toList, ldexp), ("lgamma".toList, lgamma), ("log".toList, log),
    ("log10".toList, log10), ("log1p".toList, log1p), ("log2".toList, log2), ("modf".toList, modf),
    ("nextafter".toList, nextafter), ("perm".toList, perm), ("pow".toList, pow), ("prod".toList, prod),
    ("radians".toList, radians), ("remainder".toList, remainder), ("sin".toList, sin), ("sinh".toList, sinh),
    ("sqrt".toList, sqrt), ("tan".toList, tan), ("tanh".toList, tanh), ("trunc".toList, trunc), ("ulp".toList, ulp),
    ("abs".toList, abs), ("min".toList, min), ("max".toList, max), ("round".toList, round), ("sign".toList, sign),
    ("random".toList, random)]

/-- A function of one double. -/
def real (f : Float → Except Fault Float) (v : Value) : Except Fault Value := do
  return .float (← f (← v.toFloat))

/-- A function of one double with its domain checked. -/
def analytic (f : Float → Float) (grows : Bool) (v : Value) : Except Fault Value :=
  real (Elementary.checked f grows) v

/-- A test of one double. -/
def test (f : Float → Bool) (v : Value) : Except Fault Value := do
  return .bool (f (← v.toFloat))

/-- A function of one scalar with an integer result. -/
def whole (f : Scalar → Except Fault Int) (v : Value) : Except Fault Value := do
  return .int (← f (← v.toScalar))

/-- The quotient of two logarithms. -/
def logBase (x base : Value) : Except Fault Value := do
  let num ← Elementary.logScalar Float.log (← x.toScalar)
  let den ← Elementary.logScalar Float.log (← base.toScalar)
  if den == 0 then throw .zeroDivision
  return .float (num / den)

/-- The least integer that is at least the scalar. -/
def ceiling (s : Scalar) : Except Fault Int := do
  return -(← s.neg.floor)

/-- One, zero or minus one. -/
def signOf (s : Scalar) : Int :=
  (if (Scalar.int 0).less s then 1 else 0) - (if s.less (.int 0) then 1 else 0)

/-- The best of two or more scalars. -/
def best (choose : Scalar → Scalar → Scalar) : List Value → Except Fault Value
  | first :: second :: rest => do
    let first ← first.toScalar
    let others ← (second :: rest).mapM Value.toScalar
    return .scalar (others.foldl choose first)
  | _ => .error .argument

/-- A function applied to its arguments. -/
def apply : Standard → List Value → Except Fault Value
  | acos, [x] => analytic Float.acos false x
  | acosh, [x] => analytic Float.acosh false x
  | asin, [x] => analytic Float.asin false x
  | asinh, [x] => analytic Float.asinh false x
  | atan, [x] => analytic Float.atan false x
  | atan2, [y, x] => Operation.onFloats (fun y x => .ok (Float.atan2 y x)) y x
  | atanh, [x] => analytic Float.atanh false x
  | cbrt, [x] => analytic Float.cbrt false x
  | ceil, [x] => whole ceiling x
  | comb, [n, k] => do
    let n ← n.toInt
    let k ← k.toInt
    return .int (Combinatorics.selections (← Combinatorics.natural n) (← Combinatorics.natural k))
  | copysign, [x, y] => Operation.onFloats (fun x y => .ok (Power.copySign x y)) x y
  | cos, [x] => analytic Float.cos false x
  | cosh, [x] => analytic Float.cosh true x
  | degrees, [x] => real (fun x => .ok (x * (180 / Elementary.pi))) x
  | erf, [x] => real (fun x => .ok (ErrorFunction.erf x)) x
  | erfc, [x] => real (fun x => .ok (ErrorFunction.erfc x)) x
  | exp, [x] => analytic Float.exp true x
  | exp2, [x] => analytic Float.exp2 true x
  | expm1, [x] => analytic NearZero.expm1 true x
  | fabs, [x] => analytic Float.abs false x
  | factorial, [n] => do return .int (← Combinatorics.factorial (← n.toInt))
  | floor, [x] => whole Scalar.floor x
  | fmod, [x, y] => Operation.onFloats Power.fmod x y
  | frexp, [x] => do
    let (m, e) := Elementary.frexp (← x.toFloat)
    return .list [.float m, .int e]
  | gamma, [x] => real Gamma.gamma x
  | gcd, ns => do return .int (Combinatorics.gcd (← ns.mapM Value.toInt))
  | hypot, xs => do return .float (Norm.norm (← xs.mapM Value.toFloat))
  | isclose, [x, y] => do return .bool (Elementary.isClose (← x.toFloat) (← y.toFloat))
  | isfinite, [x] => test Binary64.isFinite x
  | isinf, [x] => test Power.isInfinite x
  | isnan, [x] => test Power.isNaN x
  | isqrt, [n] => do return .int (Combinatorics.isqrt (← Combinatorics.natural (← n.toInt)))
  | lcm, ns => do return .int (Combinatorics.lcm (← ns.mapM Value.toInt))
  | ldexp, [x, e] => do
    let x ← x.toFloat
    return .float (← Elementary.ldexp x (← e.toInt))
  | lgamma, [x] => real Gamma.logGamma x
  | log, [x] => do return .float (← Elementary.logScalar Float.log (← x.toScalar))
  | log, [x, base] => logBase x base
  | log10, [x] => do return .float (← Elementary.logScalar Float.log10 (← x.toScalar))
  | log1p, [x] => analytic NearZero.log1p false x
  | log2, [x] => do return .float (← Elementary.logScalar Float.log2 (← x.toScalar))
  | modf, [x] => do
    let (part, whole) := Elementary.modf (← x.toFloat)
    return .list [.float part, .float whole]
  | nextafter, [x, y] => Operation.onFloats (fun x y => .ok (Elementary.nextAfter x y)) x y
  | perm, [n] => do return .int (← Combinatorics.factorial (← n.toInt))
  | perm, [n, .none] => do return .int (← Combinatorics.factorial (← n.toInt))
  | perm, [n, k] => do
    let n ← n.toInt
    let k ← k.toInt
    return .int (Combinatorics.arrangements (← Combinatorics.natural n) (← Combinatorics.natural k))
  | pow, [x, y] => Operation.onFloats Power.pow x y
  | radians, [x] => real (fun x => .ok (x * (Elementary.pi / 180))) x
  | remainder, [x, y] => Operation.onFloats Power.remainder x y
  | sin, [x] => analytic Float.sin false x
  | sinh, [x] => analytic Float.sinh true x
  | sqrt, [x] => analytic Float.sqrt false x
  | tan, [x] => analytic Float.tan false x
  | tanh, [x] => analytic Float.tanh false x
  | trunc, [x] => whole Scalar.truncate x
  | ulp, [x] => real (fun x => .ok (Elementary.ulp x)) x
  | abs, [x] => do return .scalar (← x.toScalar).abs
  | min, xs => best Scalar.min xs
  | max, xs => best Scalar.max xs
  | round, [x] => whole Scalar.round x
  | sign, [x] => whole (fun s => .ok (signOf s)) x
  | _, _ => .error .argument

end Standard

end FormulaLang
