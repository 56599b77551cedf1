import FormulaLang.Function.Value
import FormulaLang.Number.Word32
import FormulaLang.Number.Power

/-!
# Operations

The meanings that an operator can have in a grammar. Arithmetic is exact on integers except for the quotient, the power and
the remainder, which are doubles; comparisons give 1 or 0; the logical connectives give back one of their operands; the
bitwise operations work on 32-bit words.
-/

namespace FormulaLang

/-- The meaning of an operator. -/
inductive Operation where
  | pow | mul | div | rem | add | sub
  | shiftLeft | shiftRight
  | less | greater | atMost | atLeast | equal | unequal
  | bitAnd | bitXor | bitOr
  | and | or
  | pos | neg | not
  deriving DecidableEq, Repr

namespace Operation

/-- Every operation with the name that a grammar gives it. -/
def names : List (Text × Operation) :=
  [("pow".toList, pow), ("mul".toList, mul), ("div".toList, div), ("rem".toList, rem), ("add".toList, add),
    ("sub".toList, sub), ("lsh".toList, shiftLeft), ("rsh".toList, shiftRight), ("lt".toList, less),
    ("gt".toList, greater), ("le".toList, atMost), ("ge".toList, atLeast), ("eq".toList, equal), ("ne".toList, unequal),
    ("bit_and".toList, bitAnd), ("bit_xor".toList, bitXor), ("bit_or".toList, bitOr), ("and".toList, and),
    ("or".toList, or), ("pos".toList, pos), ("neg".toList, neg), ("not".toList, not)]

/-- The operation of a name. -/
def ofName? (name : Text) : Option Operation :=
  names.lookup name

/-- The name of an operation. -/
def name (op : Operation) : Text :=
  ((names.find? fun entry => entry.2 == op).map (·.1)).getD []

/-- An operation on two scalars. -/
def onScalars (f : Scalar → Scalar → Except Fault Scalar) (a b : Value) : Except Fault Value := do
  return .scalar (← f (← a.toScalar) (← b.toScalar))

/-- An operation on two doubles. -/
def onFloats (f : Float → Float → Except Fault Float) (a b : Value) : Except Fault Value := do
  let x ← a.toFloat
  let y ← b.toFloat
  return .float (← f x y)

/-- A comparison of two scalars. -/
def onOrder (f : Scalar → Scalar → Bool) (a b : Value) : Except Fault Value := do
  return .flag (f (← a.toScalar) (← b.toScalar))

/-- An operation on the integer parts of two scalars. -/
def onWords (f : Int → Int → Int) (a b : Value) : Except Fault Value := do
  return .int (f (← (← a.toScalar).truncate) (← (← b.toScalar).truncate))

/-- An operation with two operands. -/
def binary : Operation → Value → Value → Except Fault Value
  | pow, a, b => onFloats Power.pow a b
  | mul, a, b => onScalars Scalar.mul a b
  | div, a, b => onScalars Scalar.div a b
  | rem, a, b => onFloats Power.fmod a b
  | add, a, b => onScalars Scalar.add a b
  | sub, a, b => onScalars Scalar.sub a b
  | shiftLeft, a, b => onWords Word32.shiftLeft a b
  | shiftRight, a, b => onWords Word32.shiftRight a b
  | less, a, b => onOrder Scalar.less a b
  | greater, a, b => onOrder (fun a b => b.less a) a b
  | atMost, a, b => onOrder Scalar.atMost a b
  | atLeast, a, b => onOrder (fun a b => b.atMost a) a b
  | equal, a, b => .ok (.flag (a.same b))
  | unequal, a, b => .ok (.flag !(a.same b))
  | bitAnd, a, b => onWords Word32.bitAnd a b
  | bitXor, a, b => onWords Word32.bitXor a b
  | bitOr, a, b => onWords Word32.bitOr a b
  | and, a, b => .ok (if a.truthy then b else a)
  | or, a, b => .ok (if a.truthy then a else b)
  | _, _, _ => .error .argument

/-- An operation with one operand. -/
def unary : Operation → Value → Except Fault Value
  | pos, v => .ok v
  | neg, v => do return .scalar (← v.toScalar).neg
  | not, v => .ok (.flag !v.truthy)
  | _, _ => .error .argument

/-- An operation applied to as many operands as there are. -/
def apply (op : Operation) : List Value → Except Fault Value
  | [v] => op.unary v
  | [a, b] => op.binary a b
  | _ => .error .argument

end Operation

end FormulaLang
