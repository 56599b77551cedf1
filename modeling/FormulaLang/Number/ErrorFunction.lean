import FormulaLang.Number.Elementary
import FormulaLang.Number.PairedSum

/-!
# The error function

The error function and its complement are approximated by quotients of polynomials on four ranges of the magnitude: up to
0.84375, around one, and two ranges of the tail, where the quotient is the logarithm of what is left beside the bell curve.
-/

namespace FormulaLang.ErrorFunction

open PairedSum

/-- The share of `x` by which the error function exceeds `x` near zero, from the square of `x`. -/
def excess (square : Float) : Float :=
  ratio [0.12837916709551256, -0.3250421072470015, -0.02848174957559851, -0.005770270296489442, -2.3763016656650163e-05]
    [1, 0.39791722395915535, 0.0650222499887673, 0.005081306281875766, 0.00013249473800432164, -3.960228278775368e-06]
    square

/-- The limit of `excess` at zero. -/
def excessAtZero : Float := 0.1283791670955126

/-- The error function at one, rounded to few digits. -/
def atOne : Float := 0.8450629115104675

/-- What the error function at `1 + s` exceeds `atOne` by. -/
def aboveOne (s : Float) : Float :=
  ratio [-0.0023621185607526594, 0.41485611868374833, -0.3722078760357013, 0.31834661990116175, -0.11089469428239668,
      0.035478304325618236, -0.002166375594868791]
    [1, 0.10642088040084423, 0.540397917702171, 0.07182865441419627, 0.12617121980876164, 0.01363708391202905,
      0.011984499846799107] s

/-- The correction to the logarithm of the tail up to `1 / 0.35`, from the inverse square of the argument. -/
def nearTail (s : Float) : Float :=
  ratio [-0.009864944034847148, -0.6938585727071818, -10.558626225323291, -62.375332450326006, -162.39666946257347,
      -184.60509290671104, -81.2874355063066, -9.814329344169145]
    [1, 19.651271667439257, 137.65775414351904, 434.56587747522923, 645.3872717332679, 429.00814002756783,
      108.63500554177944, 6.570249770319282, -0.0604244152148581] s

/-- The correction to the logarithm of the tail from `1 / 0.35` on. -/
def farTail (s : Float) : Float :=
  ratio [-0.0098649429247001, -0.799283237680523, -17.757954917754752, -160.63638485582192, -637.5664433683896,
      -1025.0951316110772, -483.5191916086514]
    [1, 30.33806074348246, 325.7925129965739, 1536.729586084437, 3199.8582195085955, 2553.0504064331644,
      474.52854120695537, -22.44095244658582] s

/-- The complement at a positive `x`, the tail being near below `bound`. The square in the exponent of the bell curve is
split at a number whose square is exact. -/
def complement (bound x : Float) : Float :=
  let s := 1 / (x * x)
  let correction := if x < bound then nearTail s else farTail s
  let z := Binary64.ofMagnitude false (x.toBits.toNat >>> 32 <<< 32)
  (-z * z - 0.5625).exp * ((z - x) * (z + x) + correction).exp / x

/-- The error function. -/
def erf (x : Float) : Float :=
  let a := x.abs
  let withSign (y : Float) : Float := if x < 0 then -y else y
  if Power.isNaN x then x
  else if a < 2.848094538889218e-306 then 0.0625 * (16 * x + 16 * excessAtZero * x)
  else if a < 3.725290298461914e-09 then x + excessAtZero * x
  else if a < 0.84375 then x + x * excess (x * x)
  else if a < 1.25 then withSign (atOne + aboveOne (a - 1))
  else if a < 6 then withSign (1 - complement 2.8571434020996094 a)
  else withSign 1

/-- One minus the error function. -/
def erfc (x : Float) : Float :=
  let a := x.abs
  if Power.isNaN x then x
  else if a < 1.3877787807814457e-17 then 1 - x
  else if x < 0.25 && a < 0.84375 then 1 - (x + x * excess (x * x))
  else if a < 0.84375 then 0.5 - (x * excess (x * x) + (x - 0.5))
  else if a < 1.25 then
    if x < 0 then 1 + (atOne + aboveOne (a - 1)) else 1 - atOne - aboveOne (a - 1)
  else if x ≤ -6 then 2
  else if a < 28 then
    let rest := complement 2.8571414947509766 a
    if x < 0 then 2 - rest else rest
  else 0

end FormulaLang.ErrorFunction
