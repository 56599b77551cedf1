import FormulaLang.Node.Source
import FormulaLang.Text.Lines
import FormulaLang.Text.Quoted

/-!
# Display

Two views of a tree for people: its structure in one line (`Node.display`) and an outline with one line for every node that
is not a token (`Node.outline`).
-/

namespace FormulaLang.Node

/-- A bracketed list. -/
def listed (items : List Text) : Text :=
  '[' :: Text.joinWith ", ".toList items ++ [']']

/-- The word for a kind of token. -/
def tokenWord : TokenKind → Text
  | .operator => "Operator".toList
  | .delimiter => "Delimiter".toList
  | .separator => "Separator".toList

mutual
/-- The structure of a tree in one line. -/
def display : Node → Except Fault Text
  | raw t => .ok (Text.quoted t)
  | number _ v _ => do return "NumberLiteral<".toList ++ (← v.exactText) ++ ['>']
  | identifier _ t => .ok ("Identifier<".toList ++ Text.quoted t ++ ['>'])
  | var _ r _ => .ok ("Variable<".toList ++ Text.quoted r.name ++ ['>'])
  | token _ k t => .ok (tokenWord k ++ '<' :: Text.quoted t ++ ['>'])
  | group b ps => do
    return "Group(".toList ++ Text.trim b.opener ++ listed (← displays ps) ++ Text.trim b.closer ++ [')']
  | call _ c _ a => do
    return "FunctionCall<".toList ++ Text.quoted c.name ++ " args=".toList ++ listed (← argumentDisplays a) ++ ['>']
  | unary _ s _ x => do
    let symbol ← s.symbol
    return "UnaryOp<".toList ++ Text.quoted symbol ++ ' ' :: (← display x) ++ ['>']
  | binary _ l s _ r => do
    let left ← display l
    let symbol ← s.symbol
    let right ← display r
    return "BinaryOp<".toList ++ left ++ ' ' :: Text.quoted symbol ++ ' ' :: right ++ ['>']
  | equation _ ss _ => do return "Equation(".toList ++ listed (← displays ss) ++ [')']

/-- The structures of several trees. -/
def displays : List Node → Except Fault (List Text)
  | [] => .ok []
  | n :: rest => do
    let t ← display n
    return t :: (← displays rest)

/-- The structures of the parameters of a call. -/
def argumentDisplays : Node → Except Fault (List Text)
  | group _ ps => displays ps
  | _ => .error (.malformed .part)
end

/-- A line of an outline: the kind of a node and a quotation of its source text. A level below zero is not indented. -/
def outlineLine (indent : Nat) (level : Int) (n : Node) : Text :=
  List.replicate (indent * level.toNat) ' ' ++ n.kindName ++ ' ' :: Text.quoted n.sourceText

mutual
/-- The outline of a tree, a line for the node and then those of its parts one level deeper, tokens left out. -/
def outline (indent : Nat) (level : Int) : Node → List Text
  | group b ps => outlineLine indent level (group b ps) :: outlines indent (level + 1) ps
  | call p c f a =>
    outlineLine indent level (call p c f a) ::
      ((if c.isToken then [] else outline indent (level + 1) c) ++
        if a.isToken then [] else outline indent (level + 1) a)
  | unary p s o x =>
    outlineLine indent level (unary p s o x) :: if x.isToken then [] else outline indent (level + 1) x
  | binary p l s o r =>
    outlineLine indent level (binary p l s o r) ::
      ((if l.isToken then [] else outline indent (level + 1) l) ++
        if r.isToken then [] else outline indent (level + 1) r)
  | equation p ss o => outlineLine indent level (equation p ss o) :: outlines indent (level + 1) ss
  | n => [outlineLine indent level n]

/-- The outlines of several nodes. -/
def outlines (indent : Nat) (level : Int) : List Node → List Text
  | [] => []
  | n :: rest => (if n.isToken then [] else outline indent level n) ++ outlines indent level rest
end

end FormulaLang.Node
