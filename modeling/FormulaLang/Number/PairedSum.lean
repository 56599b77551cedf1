import FormulaLang.Number.Binary64

/-!
# Polynomials on doubles

A polynomial is summed in pairs of neighbouring terms: each pair is a linear polynomial, and the pairs are added up from the
lowest power on. The sum is not rounded like that of another order, so this one is fixed here.
-/

namespace FormulaLang.PairedSum

/-- The linear polynomials of neighbouring coefficients, the constant one first. -/
def pairs (x : Float) : List Float → List Float
  | [] => []
  | [a] => [a]
  | a :: b :: rest => (a + x * b) :: pairs x rest

/-- The even powers up to the eighth. -/
def evenPowers (x : Float) : List Float :=
  let x2 := x * x
  let x4 := x2 * x2
  [1, x2, x4, x4 * x2, x4 * x4]

/-- The value at `x` of the polynomial with these coefficients, at most ten and the constant one first. -/
def value (coefficients : List Float) (x : Float) : Float :=
  ((evenPowers x).zip (pairs x coefficients)).foldl (fun sum (power, pair) => sum + power * pair) 0

/-- The quotient of two polynomials at `x`. -/
def ratio (numerator denominator : List Float) (x : Float) : Float :=
  value numerator x / value denominator x

end FormulaLang.PairedSum
