import FormulaLang.Fault
import FormulaLang.Number.Shortest

/-!
# Scalars

The values that a literal can hold: integers of any size, doubles and truth values. A finite integer or double is a
number; a truth value is not one, though it counts as 0 or 1 in arithmetic. Text comes in two forms: the exact text of a
scalar (`Scalar.exactText`), in which a double always shows a point or an exponent, and the text in a formula
(`Scalar.text`), in which a whole double below `10 ^ 21` is written as an integer.
-/

namespace FormulaLang

/-- A value of a literal. -/
inductive Scalar where
  | bool (b : Bool)
  | int (n : Int)
  | float (x : Float)

namespace Scalar

/-- Integers and finite doubles. -/
def isNumber : Scalar → Bool
  | bool _ => false
  | int _ => true
  | float x => Binary64.isFinite x

/-- A truth value as the integer 0 or 1. -/
def widen : Scalar → Scalar
  | bool b => int (if b then 1 else 0)
  | s => s

/-- The most digits an integer may have in decimal text. -/
def maxDigits : Nat := 4300

/-- The least natural with more digits than that. -/
def digitBound : Nat := Nat.pow 10 maxDigits

/-- The decimal text of an integer. -/
def intText (n : Int) : Except Fault Text :=
  if digitBound ≤ n.natAbs then .error .digitLimit
  else
    let digits := Shortest.naturalDigits n.natAbs
    .ok (if n < 0 then '-' :: digits else digits)

/-- Digits with a point in them; the point stands `point` places after the start. -/
def positional (d : Shortest.Digits) : Text :=
  if d.point ≤ 0 then "0.".toList ++ List.replicate (-d.point).toNat '0' ++ d.digits
  else if (d.digits.length : Int) ≤ d.point then
    d.digits ++ List.replicate (d.point.toNat - d.digits.length) '0' ++ ".0".toList
  else d.digits.take d.point.toNat ++ '.' :: d.digits.drop d.point.toNat

/-- Digits with an exponent, which has a sign and two digits at least. -/
def scientific (d : Shortest.Digits) : Text :=
  let mantissa :=
    match d.digits with
    | [] => ['0']
    | [c] => [c]
    | c :: rest => c :: '.' :: rest
  let e := d.point - 1
  let digits := Shortest.naturalDigits e.natAbs
  mantissa ++ ['e', if e < 0 then '-' else '+'] ++ (if digits.length < 2 then '0' :: digits else digits)

/-- The exact text of a double: positional from `10 ^ (-4)` up to `10 ^ 16`, with an exponent elsewhere. -/
def floatText (x : Float) : Text :=
  match Binary64.shape x with
  | .nan => "nan".toList
  | .infinite negative => if negative then "-inf".toList else "inf".toList
  | .finite negative mantissa exponent =>
    let magnitude :=
      if mantissa = 0 then "0.0".toList
      else
        let d := Shortest.ofPositive mantissa exponent
        if -4 < d.point ∧ d.point ≤ 16 then positional d else scientific d
    if negative then '-' :: magnitude else magnitude

/-- The text of a truth value. -/
def boolText (b : Bool) : Text :=
  if b then "True".toList else "False".toList

/-- The text that tells integers from doubles. -/
def exactText : Scalar → Except Fault Text
  | bool b => .ok (boolText b)
  | int n => intText n
  | float x => .ok (floatText x)

/-- Whole doubles are written as integers below this. -/
def wholeLimit : Nat := 1000000000000000000000

/-- The text of a scalar in a formula. -/
def text : Scalar → Except Fault Text
  | bool b => .ok (boolText b)
  | int n => intText n
  | float x =>
    match Binary64.shape x with
    | .finite negative mantissa exponent =>
      let (num, den) := Binary64.ratio mantissa exponent
      if num % den = 0 ∧ num / den < wholeLimit then intText (Binary64.signed negative (num / den))
      else .ok (floatText x)
    | _ => .ok (floatText x)

end Scalar

end FormulaLang
