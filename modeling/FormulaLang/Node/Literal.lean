import FormulaLang.Node.Source
import FormulaLang.Text.Lines

/-!
# Literals

The canonical text of a formula: every operation in parentheses, numbers by their values, operators and brackets without
white space, one comma between parameters. It fails for an integer with too many digits, and for a node with an unsuitable
part.
-/

namespace FormulaLang.Node

mutual
/-- The canonical text of a tree. -/
def literal : Node → Except Fault Text
  | raw t => .ok t
  | number _ v _ => v.text
  | identifier _ t => .ok t
  | var _ r _ => .ok r.name
  | token _ _ t => .ok (Text.trim t)
  | group b ps => groupLiteral b ps
  | call _ c _ a => do return c.name ++ (← argumentLiteral a)
  | unary _ s _ x => do return '(' :: (← s.symbol) ++ (← literal x) ++ [')']
  | binary _ l s _ r => do
    let left ← literal l
    let right ← literal r
    return '(' :: left ++ (← s.symbol) ++ right ++ [')']
  | equation _ ss _ => do return (← literals ss).flatten

/-- The canonical texts of nodes. -/
def literals : List Node → Except Fault (List Text)
  | [] => .ok []
  | n :: rest => do
    let t ← literal n
    return t :: (← literals rest)

/-- The canonical text of a group. -/
def groupLiteral (b : Brackets) (ps : List Node) : Except Fault Text := do
  return Text.trim b.opener ++ Text.joinWith [','] (← literals ps) ++ Text.trim b.closer

/-- The canonical text of the argument of a call, which has to be a group. -/
def argumentLiteral : Node → Except Fault Text
  | group b ps => groupLiteral b ps
  | _ => .error (.malformed .part)
end

end FormulaLang.Node
