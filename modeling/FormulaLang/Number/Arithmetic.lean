import FormulaLang.Number.Scalar

/-!
# Arithmetic on scalars

Integers are added, subtracted and multiplied exactly; their quotient is the double nearest to the exact quotient. As soon
as a double takes part the other operand is turned into one, which fails for an integer beyond the range of doubles. Order
and equality compare the exact values of integers and doubles; a NaN is unequal to everything and in no order.
-/

namespace FormulaLang

/-- The double nearest to an integer. -/
def Binary64.ofInt? (n : Int) : Except Fault Float :=
  let x := Binary64.ofInt n
  if Binary64.isFinite x then .ok x else .error .overflow

namespace Scalar

/-- The double of a scalar. -/
def toFloat : Scalar → Except Fault Float
  | bool b => .ok (if b then 1 else 0)
  | int n => Binary64.ofInt? n
  | float x => .ok x

/-- An operation that is exact on integers and done in doubles otherwise. -/
def arithmetic (onInt : Int → Int → Int) (onFloat : Float → Float → Float) (a b : Scalar) : Except Fault Scalar :=
  match a.widen, b.widen with
  | int m, int n => .ok (int (onInt m n))
  | a, b => do
    let x ← a.toFloat
    let y ← b.toFloat
    return float (onFloat x y)

/-- The sum. -/
def add : Scalar → Scalar → Except Fault Scalar :=
  arithmetic (· + ·) (· + ·)

/-- The difference. -/
def sub : Scalar → Scalar → Except Fault Scalar :=
  arithmetic (· - ·) (· - ·)

/-- The product. -/
def mul : Scalar → Scalar → Except Fault Scalar :=
  arithmetic (· * ·) (· * ·)

/-- The quotient of two integers as the nearest double; zero takes its sign from a negative divisor. -/
def divInt (m n : Int) : Except Fault Float :=
  if n = 0 then .error .zeroDivision
  else
    let x := Binary64.ofRatio (decide (m < 0) != decide (n < 0)) m.natAbs n.natAbs
    if Binary64.isFinite x then .ok x else .error .overflow

/-- The quotient, always a double. -/
def div (a b : Scalar) : Except Fault Scalar :=
  match a.widen, b.widen with
  | int m, int n => return float (← divInt m n)
  | a, b => do
    let x ← a.toFloat
    let y ← b.toFloat
    if y == 0 then throw .zeroDivision
    return float (x / y)

/-- The negative. -/
def neg (a : Scalar) : Scalar :=
  match a.widen with
  | int n => int (-n)
  | float x => float (-x)
  | bool b => bool b

/-- The magnitude. -/
def abs (a : Scalar) : Scalar :=
  match a.widen with
  | int n => int n.natAbs
  | float x => float x.abs
  | bool b => bool b

/-- Neither zero nor false. -/
def truthy : Scalar → Bool
  | bool b => b
  | int n => n != 0
  | float x => !(x == 0)

/-- The exact value of an integer or a finite double as a ratio; infinities and NaN have none. -/
def ratio? : Scalar → Option (Int × Nat)
  | bool b => some (if b then 1 else 0, 1)
  | int n => some (n, 1)
  | float x =>
    match Binary64.shape x with
    | .finite negative mantissa exponent =>
      let (num, den) := Binary64.ratio mantissa exponent
      some (Binary64.signed negative num, den)
    | _ => none

/-- The sign of an infinity, zero for a finite value; a NaN has none. -/
def rank? : Scalar → Option Int
  | float x =>
    match Binary64.shape x with
    | .nan => none
    | .infinite negative => some (if negative then -1 else 1)
    | .finite .. => some 0
  | _ => some 0

/-- The order of two scalars by their exact values; none when a NaN takes part. -/
def order? (a b : Scalar) : Option Ordering :=
  match a.ratio?, b.ratio? with
  | some (m, d), some (n, e) => some (compare (m * e) (n * d))
  | _, _ =>
    -- At least one of them is infinite or a NaN, so only its kind and sign count.
    match a.rank?, b.rank? with
    | some r, some s => some (compare r s)
    | _, _ => none

/-- Strictly smaller. -/
def less (a b : Scalar) : Bool :=
  a.order? b == some .lt

/-- Smaller or equal. -/
def atMost (a b : Scalar) : Bool :=
  match a.order? b with
  | some .lt | some .eq => true
  | _ => false

/-- Equal values. -/
def same (a b : Scalar) : Bool :=
  a.order? b == some .eq

/-- The greatest integer that is at most the scalar. -/
def floor (a : Scalar) : Except Fault Int :=
  match a.widen with
  | int n => .ok n
  | float x =>
    match Binary64.shape x with
    | .finite negative mantissa exponent => .ok (Binary64.floor negative mantissa exponent)
    | .infinite _ => .error .overflow
    | .nan => .error .domain
  | bool _ => .ok 0

/-- The integer part of a scalar, towards zero. -/
def truncate (a : Scalar) : Except Fault Int :=
  match a.widen with
  | int n => .ok n
  | float x =>
    match Binary64.shape x with
    | .finite negative mantissa exponent => .ok (Binary64.truncate negative mantissa exponent)
    | .infinite _ => .error .overflow
    | .nan => .error .domain
  | bool _ => .ok 0

/-- The later of two in their order; the first when neither is greater. -/
def max (a b : Scalar) : Scalar :=
  if a.less b then b else a

/-- The earlier of two in their order; the first when neither is smaller. -/
def min (a b : Scalar) : Scalar :=
  if b.less a then b else a

end Scalar

end FormulaLang
