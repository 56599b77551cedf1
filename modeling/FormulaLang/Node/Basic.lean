import FormulaLang.Function.Basic
import FormulaLang.Text.Blank

/-!
# Formula trees

A formula tree is built from nodes. Text that no rule has claimed stays in it as a raw fragment; every other node carries
the white space around it, so that the source text of a tree is the text it was read from. A group holds the texts of its
brackets and separators between its parameters, and a call holds the node that names a function and a group of arguments.
The equation is the buffer in which a formula is read: the root of a tree, or one parameter of a group.

The operator of an operation is the raw text that was written for it, and the argument of a call is a group. Rules of a
grammar may put other nodes in their places; such a node stays without a symbol or without parameters (`Node.symbol`,
`Node.params?`).
-/

namespace FormulaLang

/-- The white space attached to a node. -/
structure Pad where
  before : Text
  after : Text
  deriving DecidableEq, Repr

/-- No white space. -/
def Pad.none : Pad := ⟨[], []⟩

/-- A text between the white space attached to it. -/
def Pad.wrap (p : Pad) (t : Text) : Text :=
  p.before ++ t ++ p.after

/-- The texts of the brackets and separators of a group, and the white space attached to it. -/
structure Brackets where
  pad : Pad
  opener : Text
  separators : List Text
  closer : Text
  deriving DecidableEq, Repr

/-- Where a variable finds its value. -/
inductive Reference where
  /-- In the variable table of the formula. -/
  | table (name : Text)
  /-- Nowhere: a variable that was put into a formula by hand. -/
  | loose (name : Text)
  deriving DecidableEq, Repr

/-- The name that is looked up. -/
def Reference.name : Reference → Text
  | table name => name
  | loose name => name

/-- The kinds of tokens that stand alone. -/
inductive TokenKind where
  | operator
  | delimiter
  | separator
  deriving DecidableEq, Repr

/-- A node of a formula tree. -/
inductive Node where
  /-- Text that no rule has claimed. -/
  | raw (text : Text)
  /-- A literal, or the value of a folded formula with the source text of that formula. -/
  | number (pad : Pad) (value : Scalar) (text : Text)
  /-- A name that is not yet a variable or the name of a call. -/
  | identifier (pad : Pad) (text : Text)
  | var (pad : Pad) (reference : Reference) (text : Text)
  | token (pad : Pad) (kind : TokenKind) (text : Text)
  | group (brackets : Brackets) (params : List Node)
  /-- A function, called by the name of `callee`, with the parameters of `argument`. -/
  | call (pad : Pad) (callee : Node) (function : Option Function) (argument : Node)
  | unary (pad : Pad) (symbol : Node) (operation : Option Operation) (operand : Node)
  | binary (pad : Pad) (left : Node) (symbol : Node) (operation : Option Operation) (right : Node)
  /-- A buffer whose first character has the position `offset` in the text that was read. -/
  | equation (pad : Pad) (sentences : List Node) (offset : Int)

namespace Node

instance : Inhabited Node := ⟨raw []⟩

/-- The raw fragment of a text, or nothing for the empty text. -/
def raws (t : Text) : List Node :=
  if t.isEmpty then [] else [raw t]

/-- The white space attached to a node. -/
def pad : Node → Pad
  | raw _ => .none
  | number p _ _ => p
  | identifier p _ => p
  | var p _ _ => p
  | token p _ _ => p
  | group b _ => b.pad
  | call p _ _ _ => p
  | unary p _ _ _ => p
  | binary p _ _ _ _ => p
  | equation p _ _ => p

/-- A node with other white space attached to it. A raw fragment has none. -/
def withPad (p : Pad) : Node → Node
  | raw t => raw t
  | number _ v t => number p v t
  | identifier _ t => identifier p t
  | var _ r t => var p r t
  | token _ k t => token p k t
  | group b ps => group { b with pad := p } ps
  | call _ c f a => call p c f a
  | unary _ s o x => unary p s o x
  | binary _ l s o r => binary p l s o r
  | equation _ ss o => equation p ss o

/-- Text that no rule has claimed. -/
def isRaw : Node → Bool
  | raw _ => true
  | _ => false

/-- A literal. -/
def isNumber : Node → Bool
  | number _ _ _ => true
  | _ => false

/-- A name that waits to be resolved. -/
def isIdentifier : Node → Bool
  | identifier _ _ => true
  | _ => false

/-- A bracketed group. -/
def isGroup : Node → Bool
  | group _ _ => true
  | _ => false

/-- A node that can be an operand. -/
def isValue : Node → Bool
  | number _ _ _ | var _ _ _ | group _ _ | call _ _ _ _ | unary _ _ _ _ | binary _ _ _ _ _ => true
  | _ => false

/-- A delimiter, separator or operator that stands alone. -/
def isToken : Node → Bool
  | token _ _ _ => true
  | _ => false

/-- The text of a raw fragment. -/
def rawText? : Node → Option Text
  | raw t => some t
  | _ => none

/-- The name of a node that has one: an identifier, a variable, or a call, which has the name of its function. -/
def name? : Node → Option Text
  | identifier _ t => some t
  | var _ r _ => some r.name
  | call _ c _ _ => c.name?
  | _ => none

/-- The name of a node, or the empty text. -/
def name (n : Node) : Text :=
  n.name?.getD []

/-- The parameters of a group. -/
def params? : Node → Option (List Node)
  | group _ ps => some ps
  | _ => none

/-- The symbol of an operator: its text without white space. A node is no operator. -/
def symbol : Node → Except Fault Text
  | raw t => .ok (Text.trim t)
  | _ => .error (.malformed .part)

/-- A raw fragment of white space alone. -/
def isBlankRaw : Node → Bool
  | raw t => Text.allBlank t
  | _ => false

/-- The name of the kind of a node. -/
def kindName : Node → Text
  | raw _ => "text".toList
  | number _ _ _ => "number".toList
  | identifier _ _ => "identifier".toList
  | var _ _ _ => "variable".toList
  | token _ .operator _ => "operator".toList
  | token _ .delimiter _ => "delimiter".toList
  | token _ .separator _ => "separator".toList
  | group _ _ => "group".toList
  | call _ _ _ _ => "function".toList
  | unary _ _ _ _ => "unary".toList
  | binary _ _ _ _ _ => "binary".toList
  | equation _ _ _ => "equation".toList

end Node

end FormulaLang
