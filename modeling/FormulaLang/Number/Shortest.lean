import FormulaLang.Text.CharSet
import FormulaLang.Number.Binary64

/-!
# Shortest decimal digits

The decimal digits of a double are the fewest that still read back as that double, and of those the nearest to it. Every
number of digits gives a grid of decimals around the value; of a grid only the two neighbours of the value can matter, so
they are tested against the interval of numbers that round to the double, in exact arithmetic.
-/

namespace FormulaLang.Shortest

/-- The decimal digits of a natural. -/
def naturalDigits (n : Nat) : Text :=
  Nat.toDigits 10 n

/-- How many decimal digits a natural has; zero has none. -/
def digitCount (n : Nat) : Nat :=
  if n = 0 then 0 else (naturalDigits n).length

/-- A positive decimal `0.d₁d₂… * 10 ^ point`, its digits without zeros at the end. -/
structure Digits where
  digits : Text
  point : Int

/-- The interval of numbers that round to a double, in units of which the double is a whole number. -/
structure Interval where
  low : Nat
  value : Nat
  high : Nat
  /-- One is this many units. -/
  unit : Nat
  /-- The ends belong to the interval. -/
  closed : Bool

/-- The numbers that round to `mantissa * 2 ^ exponent`. Below a power of two the doubles lie twice as dense. -/
def interval (mantissa : Nat) (exponent : Int) : Interval :=
  let below := if mantissa = Binary64.leadingBit ∧ Binary64.minExponent < exponent then 1 else 2
  let (scale, unit) := Binary64.ratio 1 (exponent - 2)
  ⟨(4 * mantissa - below) * scale, 4 * mantissa * scale, (4 * mantissa + 2) * scale, unit, mantissa % 2 == 0⟩

/-- The power of ten just above the value. -/
def pointOf (value unit : Nat) : Int :=
  if unit ≤ value then digitCount (value / unit) else 1 - (digitCount ((unit - 1) / value) : Int)

/-- `n * 10 ^ e`, for a comparison with multiples of `10 ^ (-e)` when `e` is negative. -/
def shifted (n : Nat) (e : Int) : Nat :=
  n * Nat.pow 10 e.toNat

/-- The decimal of `count` digits nearest to the value, if one of that many digits rounds to the double. Of two that are
equally near, it is the one with an even last digit. -/
def candidate? (i : Interval) (point : Int) (count : Nat) : Option Nat :=
  let step := point - count
  -- A multiple `k` of `10 ^ step` is compared as `k * grid` with the interval times `scale`.
  let grid := shifted i.unit step
  let scale := Nat.pow 10 (-step).toNat
  let inside (k : Nat) : Bool :=
    if i.closed then decide (i.low * scale ≤ k * grid) && decide (k * grid ≤ i.high * scale)
    else decide (i.low * scale < k * grid) && decide (k * grid < i.high * scale)
  let k := i.value * scale / grid
  let rest := i.value * scale % grid
  if inside k && inside (k + 1) then some (if 2 * rest < grid || (2 * rest == grid && k % 2 == 0) then k else k + 1)
  else if inside k then some k
  else if inside (k + 1) then some (k + 1)
  else none

/-- The first grid with a hit, the number of digits growing. -/
def search (i : Interval) (point : Int) (count : Nat) : (tries : Nat) → Nat × Nat
  | 0 => (0, count)
  | tries + 1 =>
    match candidate? i point count with
    | some k => (k, count)
    | none => search i point (count + 1) tries

/-- The digits without the zeros at their end. -/
def withoutTrailingZeros (digits : Text) : Text :=
  (digits.reverse.dropWhile (· == '0')).reverse

/-- The shortest digits of `mantissa * 2 ^ exponent`, a positive double. -/
def ofPositive (mantissa : Nat) (exponent : Int) : Digits :=
  let i := interval mantissa exponent
  let point := pointOf i.value i.unit
  let (k, count) := search i point 1 17
  let digits := naturalDigits k
  -- Rounding up to a power of ten gives one digit more.
  ⟨withoutTrailingZeros digits, point + ((digits.length : Int) - count)⟩

end FormulaLang.Shortest
