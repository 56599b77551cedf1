import FormulaLang.Parse.Parser
import FormulaLang.Parse.Sharing
import FormulaLang.Simplification

/-!
# Formulas

A formula is a text together with its tree and its variable table. All occurrences of a name read the same slot of the
table, so that a new binding shows in the next value without another parse. A formula is made by a parse, which may fail;
what a failure leaves behind is a formula too.
-/

namespace FormulaLang

/-- The value of one variable. -/
structure Slot where
  name : Text
  value : Value

/-- A slot as it is shown. -/
def Slot.display (s : Slot) : Except Fault Text := do
  return "<Slot ".toList ++ s.name ++ '=' :: (← s.value.exactText) ++ ['>']

/-- A text with its tree and its variables. -/
structure Formula where
  text : Text
  root : Node
  slots : List Slot

namespace Formula

variable {σ : Type}

/-- The formula of a text that has not been parsed. -/
def new (t : Text) : Formula :=
  ⟨t, .equation .none (Node.raws t) 0, []⟩

/-! ## Variables -/

/-- The slot of a name. -/
def slot? (f : Formula) (name : Text) : Option Slot :=
  f.slots.find? (·.name == name)

/-- The formula with a slot for a name, a new one if there was none. -/
def intern (f : Formula) (name : Text) : Formula :=
  if (f.slot? name).isSome then f else { f with slots := f.slots ++ [⟨name, .none⟩] }

/-- Binds a name; a name that the formula does not use is ignored. -/
def bind (f : Formula) (name : Text) (v : Value) : Formula :=
  { f with slots := f.slots.map fun s => if s.name == name then { s with value := v } else s }

/-- The names that have no number. -/
def unset (f : Formula) : List Text :=
  (f.slots.filter fun s => !s.value.isNumber).map (·.name)

/-- The number that a variable of the tree is bound to. -/
def lookup (f : Formula) : Reference → Option Scalar
  | .table name => (f.slot? name).bind fun s => if s.value.isNumber then s.value.toScalar.toOption else none
  | .loose _ => none

/-! ## Values and texts -/

/-- The value under the present bindings. -/
def value (f : Formula) (host : Host σ) : Action σ Result :=
  evaluate host f.lookup f.root

/-- The value of a node of the tree under the present bindings. -/
def valueOf (f : Formula) (host : Host σ) (n : Node) : Action σ Result :=
  evaluate host f.lookup n

/-- The formula with the constant parts of its tree replaced by literals. -/
def simplify (f : Formula) (host : Host σ) (isVolatile : Function → Bool) : Action σ Formula := do
  return { f with root := ← FormulaLang.simplify host isVolatile f.root }

/-- The source text of the tree. -/
def sourceText (f : Formula) : Text :=
  f.root.sourceText

/-- The canonical text of the tree. -/
def literal (f : Formula) : Except Fault Text :=
  f.root.literal

/-- The formula as it is shown. -/
def display (f : Formula) : Text :=
  "<System ".toList ++ Text.quoted f.text ++ " variables=[".toList ++
    Text.joinWith ", ".toList (f.slots.map (·.name)) ++ "]>".toList

/-! ## Warnings -/

/-- What a warning is about. -/
inductive WarningCode where
  | unknownFunction
  | unexpectedVariable
  deriving DecidableEq, Repr

/-- The word for a code. -/
def WarningCode.text : WarningCode → Text
  | unknownFunction => "unknown-function".toList
  | unexpectedVariable => "unexpected-variable".toList

/-- A name in the tree that may not be meant. -/
structure Warning where
  code : WarningCode
  name : Text
  node : Node

/-- The warning about a node: a call of an unknown function, or a variable that is not among the allowed ones. -/
def warningOf? (allowed : Option (List Text)) : Node → Option Warning
  | .call p c none a => some ⟨.unknownFunction, c.name, .call p c none a⟩
  | .var p r t =>
    match allowed with
    | some names => if names.contains r.name then none else some ⟨.unexpectedVariable, r.name, .var p r t⟩
    | none => none
  | _ => none

/-- The warnings about the nodes of the tree in the order of the source. -/
def warnings (f : Formula) (allowed : Option (List Text)) : List Warning :=
  f.root.walk.filterMap (warningOf? allowed)

/-! ## Parsing -/

/-- A stage of a parse. -/
inductive Stage where
  | lex
  | group
  | fold
  deriving DecidableEq, Repr

/-- A stage on the buffer at a position. -/
def Stage.run (l : Language) (offset : Int) (ss : List Node) : Stage → Traced Failure (List Node)
  | lex => lexStage l.grammar offset ss
  | group => groupStage l offset ss
  | fold => foldStage l offset ss

/-- What a parse comes to: the formula as it is afterwards, also after a failure. -/
structure Outcome where
  formula : Formula
  failure : Option Failure
  events : List Event

/-- The names of the variables that a parse has met. -/
def metVariables (events : List Event) : List Text :=
  events.filterMap fun
    | .variableMet name => some name
    | _ => none

/-- The formula after work on the buffer of its root. -/
def settle (f : Formula) (pad : Pad) (offset : Int) (work : Traced Failure (List Node)) : Outcome :=
  let known := (metVariables work.events).foldl intern f
  match work.result with
  | .ok ss => ⟨{ known with root := .equation pad ss offset }, none, work.events⟩
  | .error e => ⟨{ known with root := .equation pad (e.left work.events) offset }, some e, work.events⟩

/-- One stage on the buffer of the root. A root that has been simplified to a literal has no buffer. -/
def advance? (l : Language) (stage : Stage) (f : Formula) : Option Outcome :=
  match f.root with
  | .equation p ss o => some (f.settle p o (stage.run l o ss))
  | _ => none

/-- Parses a text. -/
def parse (l : Language) (t : Text) : Outcome :=
  (new t).settle .none 0 (parseText l t)

/-- The buffer of the root with a node in the place of `length` sentences from `start` on, or the position of `start` if the
node is raw text. A root without a buffer gives nothing. -/
def replace? (f : Formula) (start length : Int) (n : Node) : Option (Except Int Formula) :=
  match f.root with
  | .equation p ss o =>
    some (if n.isRaw then .error (Node.position o ss start 0)
      else .ok { f with root := .equation p (Slice.before start ss ++ n :: Slice.onward (start + length) ss) o })
  | _ => none

end Formula

end FormulaLang
