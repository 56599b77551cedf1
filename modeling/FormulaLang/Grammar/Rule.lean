import FormulaLang.Node.Source
import FormulaLang.Text.Quoted

/-!
# Fold rules

A fold rule looks for neighbouring sentences of given shapes and puts one node in their place. The rules of a tier compete:
the leftmost match of any of them wins, and at one place the rule that is declared first (`Tier.leftmost?`).
-/

namespace FormulaLang

/-- The shape of one sentence in a rule. -/
inductive Element where
  /-- A raw fragment of white space, at least one character. -/
  | space
  /-- Anything but raw text. -/
  | node
  /-- A node that can be an operand. -/
  | value
  | identifier
  | group
  /-- A raw fragment that holds this symbol and white space around it. -/
  | symbol (text : Text)
  deriving DecidableEq, Repr

namespace Element

/-- A text that is a symbol with white space around it. -/
def isSymbol (symbol : Text) (t : Text) : Bool :=
  (symbol.isPrefixOf t && Text.allBlank (t.drop symbol.length)) ||
    match t with
    | [] => false
    | c :: rest => Text.isBlank c && isSymbol symbol rest

/-- A sentence has the shape. -/
def fits : Element → Node → Bool
  | space, .raw t => !t.isEmpty && Text.allBlank t
  | symbol s, .raw t => isSymbol s t
  | _, .raw _ => false
  | node, _ => true
  | value, n => n.isValue
  | identifier, n => n.isIdentifier
  | group, n => n.isGroup
  | space, _ => false
  | symbol _, _ => false

/-- The shapes that a grammar calls by a word; any other word is a symbol. -/
def ofText (t : Text) : Element :=
  if t == "space".toList then space
  else if t == "node".toList then node
  else if t == "value".toList then value
  else if t == "identifier".toList then identifier
  else if t == "group".toList then group
  else symbol t

/-- A shape as it is shown in a rule. -/
def display : Element → Text
  | space => "space".toList
  | node => "Node".toList
  | value => "Value".toList
  | identifier => "Identifier".toList
  | group => "Group".toList
  | symbol s => Text.quoted s

end Element

/-- What a rule makes of the sentences that it matched. -/
inductive Builder where
  /-- White space goes to the node behind it. -/
  | spaceBefore
  /-- White space goes to the node before it. -/
  | spaceAfter
  | functionCall
  | variableUse
  | binary
  /-- A binary operation whose operator is not written. -/
  | implicit
  | unary
  deriving DecidableEq, Repr

namespace Builder

/-- Every builder with its name. -/
def names : List (Text × Builder) :=
  [("space-before".toList, spaceBefore), ("space-after".toList, spaceAfter), ("function-call".toList, functionCall),
    ("variable".toList, variableUse), ("binary".toList, binary), ("implicit".toList, implicit), ("unary".toList, unary)]

/-- The builder of a name. -/
def ofName? (name : Text) : Option Builder :=
  names.lookup name

/-- The name of a builder. -/
def name (b : Builder) : Text :=
  ((names.find? fun entry => entry.2 == b).map (·.1)).getD []

end Builder

/-- A rule: the shapes of the sentences it matches and what it makes of them. -/
structure Rule where
  pattern : List Element
  builder : Builder
  operation : Option Operation
  deriving DecidableEq, Repr

namespace Rule

/-- The node that the rule makes is one of the sentences it matched, with more white space attached to it. -/
def keepsNode (r : Rule) : Bool :=
  match r.builder with
  | .spaceBefore | .spaceAfter => true
  | _ => false

/-- The pattern matches the sentences from the first one on. -/
def matchesHere : List Element → List Node → Bool
  | [], _ => true
  | _ :: _, [] => false
  | e :: es, n :: ns => e.fits n && matchesHere es ns

/-- The first place at which a rule matches. -/
def find? (r : Rule) : List Node → Option Nat
  | [] => if r.pattern.isEmpty then some 0 else none
  | n :: rest =>
    if matchesHere r.pattern (n :: rest) then some 0 else (find? r rest).map (· + 1)

/-- The node that a rule makes of the sentences it matched, or what is unsuitable about them. `resolve` finds the function
of a name. -/
def build (r : Rule) (resolve : Text → Option Function) (matched : List Node) : Except Defect Node :=
  match r.builder, matched with
  | .spaceBefore, [space, n] =>
    if n.isRaw then .error .part
    else
      match space with
      | .raw t => .ok (n.withPad { n.pad with before := t ++ n.pad.before })
      | _ => .error .text
  | .spaceAfter, [n, space] =>
    if n.isRaw then .error .part
    else
      match space with
      | .raw t => .ok (n.withPad { n.pad with after := n.pad.after ++ t })
      | _ => .error .text
  | .functionCall, [callee, argument] =>
    match callee.name? with
    | some name => .ok (.call .none callee (resolve name) argument)
    | none => .error .part
  | .variableUse, [.identifier p t] => .ok (.var p (.table t) t)
  | .variableUse, [_] => .error .part
  | .binary, [left, symbol, right] => .ok (.binary .none left symbol r.operation right)
  | .implicit, [left, right] => .ok (.binary .none left (.raw []) r.operation right)
  | .unary, [symbol, operand] => .ok (.unary .none symbol r.operation operand)
  | _, _ => .error .count

/-- A rule as it is shown. -/
def display (r : Rule) : Text :=
  "<FoldRule ".toList ++ r.builder.name ++ " [".toList ++
    (match r.pattern.map Element.display with
      | [] => []
      | e :: es => e ++ (es.flatMap fun e => ", ".toList ++ e)) ++ "]>".toList

end Rule

/-- Rules that bind equally tightly. -/
structure Tier where
  name : Text
  rules : List Rule
  deriving DecidableEq, Repr

namespace Tier

/-- The leftmost match of any rule; at one place the first rule wins. -/
def leftmost? (t : Tier) (ss : List Node) : Option (Nat × Rule) :=
  t.rules.foldl
    (fun best r =>
      match r.find? ss, best with
      | none, best => best
      | some start, none => some (start, r)
      | some start, some (s, r') => if start < s then some (start, r) else some (s, r'))
    none

end Tier

end FormulaLang
