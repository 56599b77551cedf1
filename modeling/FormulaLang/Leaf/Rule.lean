import FormulaLang.Leaf.Pattern
import FormulaLang.Node.Basic
import FormulaLang.Number.Reader

/-!
# Leaf rules

A leaf rule says by which pattern a kind of leaf is found. The leaf is made from the matched text: a name as it is, a
literal by reading its number, which fails when the text is not the text of a number.
-/

namespace FormulaLang

/-- The kinds of leaves. -/
inductive LeafKind where
  | hex
  | binary
  | identifier
  | decimal
  deriving DecidableEq, Repr

namespace LeafKind

/-- Every kind with its name. -/
def names : List (Text × LeafKind) :=
  [("hex".toList, hex), ("binary".toList, binary), ("identifier".toList, identifier), ("decimal".toList, decimal)]

/-- The kind of a name. -/
def ofName? (name : Text) : Option LeafKind :=
  names.lookup name

/-- The name of a kind. -/
def name (k : LeafKind) : Text :=
  ((names.find? fun entry => entry.2 == k).map (·.1)).getD []

/-- The digits of a hexadecimal literal, without its mark. -/
def hexDigitsOf : Text → Text
  | '#' :: rest => rest
  | t => t.drop 2

/-- The number of a decimal literal: an integer when it has digits alone, and not too many of them. -/
def readDecimal (t : Text) : Except Fault Scalar :=
  let whole := if !t.isEmpty && t.all Text.isDigitSign then (Number.readInt 10 t).toOption else none
  match whole with
  | some n => .ok (.int n)
  | none => do return .float (← Number.readFloat t)

/-- The leaf of a matched text. -/
def leaf (k : LeafKind) (t : Text) : Except Fault Node :=
  match k with
  | hex => do return .number .none (.int (← Number.readInt 16 (hexDigitsOf t))) t
  | binary => do return .number .none (.int (← Number.readInt 2 (t.drop 2))) t
  | identifier => .ok (.identifier .none t)
  | decimal => do return .number .none (← readDecimal t) t

end LeafKind

/-- A kind of leaf and the pattern by which it is found. -/
structure LeafRule where
  kind : LeafKind
  pattern : Pattern
  deriving DecidableEq, Repr

end FormulaLang
