import FormulaLang.Fault

/-!
# Counting and divisors

Factorials, arrangements and selections of naturals, greatest common divisors and least common multiples of integers, and
integer square roots.
-/

namespace FormulaLang.Combinatorics

/-- `n * (n - 1) * … `, `k` factors. -/
def fallingFactorial (n : Nat) : Nat → Nat
  | 0 => 1
  | k + 1 => fallingFactorial n k * (n - k)

/-- The number of arrangements of `k` out of `n`. -/
def arrangements (n k : Nat) : Nat :=
  if n < k then 0 else fallingFactorial n k

/-- The number of selections of `k` out of `n`. -/
def selections (n k : Nat) : Nat :=
  if n < k then 0
  else
    let k := min k (n - k)
    fallingFactorial n k / fallingFactorial k k

/-- The greatest natural whose square is at most `n`. -/
def isqrt (n : Nat) : Nat :=
  if h : n = 0 then 0
  else
    let r := 2 * isqrt (n / 4)
    if (r + 1) * (r + 1) ≤ n then r + 1 else r
termination_by n
decreasing_by omega

/-- The natural of an argument, which may not be negative. -/
def natural (n : Int) : Except Fault Nat :=
  if n < 0 then .error .domain else .ok n.toNat

/-- The greatest factorial argument that is tried. -/
def maxFactorial : Nat := 0x7fffffffffffffff

/-- The factorial of an integer. -/
def factorial (n : Int) : Except Fault Int := do
  let n ← natural n
  if maxFactorial < n then throw .overflow
  return fallingFactorial n n

/-- The greatest common divisor of any number of integers. -/
def gcd (ns : List Int) : Int :=
  ns.foldl (fun d n => (Int.gcd d n : Int)) 0

/-- The least common multiple of any number of integers. -/
def lcm (ns : List Int) : Int :=
  ns.foldl (fun m n => (Int.lcm m n : Int)) 1

end FormulaLang.Combinatorics
