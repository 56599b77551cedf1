import FormulaLang.Fault
import FormulaLang.Text.Blank
import FormulaLang.Text.Decimal
import FormulaLang.Number.Shortest

/-!
# Reading numbers

The texts of integers (`readInt`) and of doubles (`readFloat`). White space may stand around a number, a sign before it and
a single underscore between two of its digits; decimal digits of every script are read. An integer in base 2 or 16 may
carry the mark of its base, and one in base 10 has at most 4300 digits. A double is the one nearest to the decimal that is
written, infinite when that is too large.
-/

namespace FormulaLang.Number

/-- White space that is skipped around a number once foreign white space has become a plain space. -/
def isMargin (c : Char) : Bool :=
  c == ' ' || (decide (9 ≤ c.toNat) && decide (c.toNat ≤ 13))

/-- A character beyond ASCII as it is read: a digit by its value, white space as a space. -/
def plainChar (c : Char) : Char :=
  if c.toNat < 127 then c
  else if Text.isBlank c then ' '
  else
    match Text.decimalValue? c with
    | some d => Char.ofNat (48 + d)
    | none => '?'

/-- The text in plain digits and without the white space around it. -/
def plain (t : Text) : Text :=
  let t := t.map plainChar
  ((t.dropWhile isMargin).reverse.dropWhile isMargin).reverse

/-- A leading sign: whether it is a minus, and what follows. -/
def readSign : Text → Bool × Text
  | '-' :: rest => (true, rest)
  | '+' :: rest => (false, rest)
  | t => (false, t)

/-- The value of a digit in bases up to 36. -/
def digitValue? (c : Char) : Option Nat :=
  let n := c.toNat
  if 48 ≤ n ∧ n ≤ 57 then some (n - 48)
  else if 97 ≤ n ∧ n ≤ 122 then some (n - 87)
  else if 65 ≤ n ∧ n ≤ 90 then some (n - 55)
  else none

/-- The value of a digit that the base has. -/
def digitIn? (base : Nat) (c : Char) : Option Nat :=
  (digitValue? c).filter (· < base)

/-- Digits with a single underscore at most between two of them, on top of what was read before. -/
def readDigits (base acc : Nat) : Text → Option Nat
  | [] => some acc
  | '_' :: c :: rest => (digitIn? base c).bind fun d => readDigits base (acc * base + d) rest
  | c :: rest => (digitIn? base c).bind fun d => readDigits base (acc * base + d) rest

/-- What follows the mark of a base, an underscore after the mark included. -/
def dropMark (base : Nat) : Text → Text
  | t@('0' :: mark :: rest) =>
    if (base = 16 ∧ mark.toLower = 'x') ∨ (base = 2 ∧ mark.toLower = 'b') then
      match rest with
      | '_' :: rest => rest
      | rest => rest
    else t
  | t => t

/-- A natural number without a sign: it starts with a digit. -/
def readNatural (base : Nat) (t : Text) : Option Nat :=
  match t with
  | [] => none
  | c :: rest => (digitIn? base c).bind fun d => readDigits base d rest

/-- The most digits of an integer that is read in base 10. -/
def maxDigits : Nat := 4300

/-- The integer that a text writes in a base. -/
def readInt (base : Nat) (t : Text) : Except Fault Int :=
  let (negative, rest) := readSign (plain t)
  let digits := dropMark base rest
  match readNatural base digits with
  | none => .error .domain
  | some n =>
    if base = 10 ∧ maxDigits < (digits.filter (· != '_')).length then .error .domain
    else .ok (Binary64.signed negative n)

/-- Underscores stand between two digits only. -/
def underscoresFit : (before : Option Char) → Text → Bool
  | before, '_' :: rest =>
    before.any Char.isDigit && rest.head?.any Char.isDigit && underscoresFit (some '_') rest
  | _, c :: rest => underscoresFit (some c) rest
  | _, [] => true

/-- A decimal with an exponent: the digits without the point, and the power of ten of the last of them. -/
structure Decimal where
  digits : Text
  exponent : Int

/-- The exponent of a decimal, when there is one. -/
def readExponent : Text → Option Int
  | [] => some 0
  | c :: rest =>
    if c == 'e' || c == 'E' then
      let (negative, digits) := readSign rest
      if digits.all Char.isDigit then (readNatural 10 digits).map (Binary64.signed negative) else none
    else none

/-- Digits, a point among them or not, and an exponent or none. -/
def readDecimal (t : Text) : Option Decimal :=
  let whole := t.takeWhile Char.isDigit
  let rest := t.dropWhile Char.isDigit
  let (part, rest) :=
    match rest with
    | '.' :: after => (after.takeWhile Char.isDigit, after.dropWhile Char.isDigit)
    | rest => ([], rest)
  if (whole ++ part).isEmpty then none
  else (readExponent rest).map fun e => ⟨whole ++ part, e - part.length⟩

/-- The double nearest to a decimal. -/
def Decimal.toFloat (negative : Bool) (d : Decimal) : Float :=
  let digits := d.digits.dropWhile (· == '0')
  let n := digits.foldl (fun acc c => acc * 10 + (c.toNat - 48)) 0
  let size := (digits.length : Int) + d.exponent
  -- Beyond these bounds the double is infinity or zero, whatever the digits.
  if n = 0 ∨ size < -400 then Binary64.ofRatio negative 0 1
  else if 400 < size then Binary64.infinity negative
  else if 0 ≤ d.exponent then Binary64.ofRatio negative (n * Nat.pow 10 d.exponent.toNat) 1
  else Binary64.ofRatio negative n (Nat.pow 10 (-d.exponent).toNat)

/-- The double that a text writes. -/
def readFloat (t : Text) : Except Fault Float :=
  let text := plain t
  let (negative, rest) := readSign (text.filter (· != '_'))
  let word := rest.map Char.toLower
  if !underscoresFit none text then .error (.notNumeric t)
  else if word == "inf".toList || word == "infinity".toList then .ok (Binary64.infinity negative)
  else if word == "nan".toList then .ok (Binary64.ofMagnitude negative Binary64.nanBits)
  else
    match readDecimal rest with
    | some d => .ok (d.toFloat negative)
    | none => .error (.notNumeric t)

end FormulaLang.Number
