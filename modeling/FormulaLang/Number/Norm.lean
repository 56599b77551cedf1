import FormulaLang.Number.Combinatorics
import FormulaLang.Number.Power

/-!
# The Euclidean norm

The norm of any number of coordinates, as the double nearest to the root of the exact sum of squares.
-/

namespace FormulaLang.Norm

/-- The mantissa of a finite double in units of `2 ^ unit`. -/
def inUnits (unit : Int) (x : Float) : Nat :=
  match Binary64.shape x with
  | .finite _ mantissa exponent => mantissa <<< (exponent - unit).toNat
  | _ => 0

/-- The least exponent among finite doubles that are not zero. -/
def commonUnit (xs : List Float) : Int :=
  xs.foldl
    (fun unit x =>
      match Binary64.shape x with
      | .finite _ mantissa exponent => if mantissa = 0 then unit else min unit exponent
      | _ => unit)
    971

/-- The double nearest to `sqrt n * 2 ^ unit`. The root is taken of `n * 2 ^ 128`, and a remainder is kept as a last bit. -/
def rootOf (n : Nat) (unit : Int) : Float :=
  let scaled := n <<< 128
  let root := Combinatorics.isqrt scaled
  let sticky := if root * root = scaled then 2 * root else 2 * root + 1
  Binary64.ofScaled false sticky (unit - 65)

/-- The norm of a vector; an infinite coordinate outweighs one that is not a number. -/
def norm (xs : List Float) : Float :=
  if xs.any Power.isInfinite then Power.infinity
  else
    match xs.find? Power.isNaN with
    | some x => x
    | none =>
      let unit := commonUnit xs
      rootOf (xs.foldl (fun sum x => sum + inUnits unit x * inUnits unit x) 0) unit

end FormulaLang.Norm
