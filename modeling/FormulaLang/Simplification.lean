import FormulaLang.Evaluation

/-!
# Simplification

Constant folding. A node whose operands are all literals is replaced by a literal of its value when that is a number; the
literal keeps the source text and the white space of what it replaces. Calls of unknown and of volatile functions stay.
-/

namespace FormulaLang

variable {σ : Type}

/-- A literal of the value of a node with the node's source text, or the node itself when its value is not a number. -/
def foldToLiteral (host : Host σ) (n : Node) : Action σ Node := do
  match ← evaluate host (fun _ => none) n with
  | .number v =>
    match n.textDefect? with
    | some d => throw (.malformed d)
    | none => return .number n.pad v n.coreText
  | .symbolic _ => return n

/-- Folds a node when its operands are literals. -/
def foldIf (host : Host σ) (literals : Bool) (n : Node) : Action σ Node :=
  if literals then foldToLiteral host n else return n

mutual
/-- The tree with its constant parts replaced by literals. -/
def simplify (host : Host σ) (isVolatile : Function → Bool) : Node → Action σ Node
  | .binary p l s o r => do
    let left ← simplify host isVolatile l
    let right ← simplify host isVolatile r
    foldIf host (left.isNumber && right.isNumber) (.binary p left s o right)
  | .unary p s o x => do
    let operand ← simplify host isVolatile x
    foldIf host operand.isNumber (.unary p s o operand)
  | .call p c f a => do
    let argument ← simplifyArguments host isVolatile a
    let known := f.any fun f => !isVolatile f
    foldIf host (known && (argument.params?.getD []).all Node.isNumber) (.call p c f argument)
  | .group b ps => do
    let params ← simplifyAll host isVolatile ps
    foldIf host (params.length == 1 && params.all Node.isNumber) (.group b params)
  | .equation p ss o => do
    match ← simplifyAll host isVolatile ss with
    | [s] => return if s.isNumber then s else .equation p [s] o
    | sentences => return .equation p sentences o
  | n => return n

/-- The argument of a call, a group, with the constant parts of its parameters replaced by literals. -/
def simplifyArguments (host : Host σ) (isVolatile : Function → Bool) : Node → Action σ Node
  | .group b ps => do return .group b (← simplifyAll host isVolatile ps)
  | _ => throw (.malformed .part)

/-- Several trees, each with its constant parts replaced by literals. -/
def simplifyAll (host : Host σ) (isVolatile : Function → Bool) : List Node → Action σ (List Node)
  | [] => return []
  | n :: rest => do
    let m ← simplify host isVolatile n
    return m :: (← simplifyAll host isVolatile rest)
end

end FormulaLang
