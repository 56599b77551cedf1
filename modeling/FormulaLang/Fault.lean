import FormulaLang.Text.Quoted

/-!
# Faults

The ways in which computing a value can fail. Evaluation takes a calculation fault as the sign that an operation has no
result and goes on symbolically (`Fault.isCalculation`); a fault of the caller's own functions passes through.
-/

namespace FormulaLang

/-- What keeps a node from having a text or a value, or from being made. Rules and trees made by hand can lead to it, the
default grammar cannot. -/
inductive Defect where
  /-- Another number of parts than the node has. -/
  | count
  /-- A node where text has to stand. -/
  | text
  /-- A part without the name, the white space, the symbol or the parameters that it should have. -/
  | part
  /-- Too few separators for the parameters of a group. -/
  | separator
  deriving DecidableEq, Repr

/-- The wording of a defect. -/
def Defect.message : Defect → Text
  | count => "wrong number of parts".toList
  | text => "a node in the place of text".toList
  | part => "an unsuitable part".toList
  | separator => "too few separators".toList

/-- Why a value could not be computed. -/
inductive Fault where
  /-- A division by zero. -/
  | zeroDivision
  /-- A result that is too large for its type. -/
  | overflow
  /-- An argument outside the domain of a function. -/
  | domain
  /-- The wrong number of arguments, or an argument of the wrong type. -/
  | argument
  /-- An integer with too many digits to be written in decimal. -/
  | digitLimit
  /-- A text that is not the text of a number. -/
  | notNumeric (text : Text)
  /-- An operand that is no node, but of another kind. -/
  | valueless (kind : Text)
  /-- A node that is not well formed. -/
  | malformed (d : Defect)
  /-- A failure raised by one of the caller's functions, under the caller's own name. -/
  | raised (name : Text)
  deriving DecidableEq, Repr

namespace Fault

/-- The faults of a calculation, which leave a formula symbolic. -/
def isCalculation : Fault → Bool
  | raised _ | valueless _ | malformed _ => false
  | _ => true

/-- The wording of the faults that a session reports. -/
def message : Fault → Text
  | zeroDivision => "division by zero".toList
  | overflow => "math range error".toList
  | domain => "math domain error".toList
  | argument => "wrong arguments".toList
  | digitLimit =>
    "Exceeds the limit (4300 digits) for integer string conversion; use sys.set_int_max_str_digits() to increase the limit".toList
  | notNumeric text => "could not convert string to float: ".toList ++ Text.quoted text
  | valueless kind => "Cannot evaluate ".toList ++ kind
  | malformed d => d.message
  | raised name => name

end Fault

end FormulaLang
