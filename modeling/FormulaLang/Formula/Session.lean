import FormulaLang.Formula.Log
import FormulaLang.Formula.Report
import FormulaLang.Function.Registry
import FormulaLang.Grammar.Default

/-!
# Sessions

A session reads formulas and commands line by line and answers each of them. A formula that parses becomes the current one;
`:set name number` binds a variable of it, `:vars` lists its variables, `:tree` shows its outline, and `:simplify` folds its
constants. Whatever fails is reported and leaves the current formula as it was. Alternatively one formula is evaluated under
given bindings.
-/

namespace FormulaLang

/-- The default grammar with the functions that are always there. -/
def Language.default : Language :=
  ⟨.default, Registry.initial.resolve?⟩

namespace Session

variable {σ : Type}

/-- What is written. -/
structure Output where
  out : Text
  err : Text

/-- Nothing is written. -/
def Output.none : Output := ⟨[], []⟩

/-- A line on the standard output. -/
def Output.say (t : Text) : Output := ⟨t ++ ['\n'], []⟩

/-- A line on the error output. -/
def Output.complain (t : Text) : Output := ⟨[], t ++ ['\n']⟩

instance : Append Output := ⟨fun a b => ⟨a.out ++ b.out, a.err ++ b.err⟩⟩

/-- A failure as it is reported. -/
def Output.ofFault (e : Fault) : Output :=
  .complain ("Error: ".toList ++ e.message)

/-- The text before the first space, and the text after it. -/
def splitWord (t : Text) : Text × Text :=
  (Text.breakFirst ' ' t).getD (t, [])

/-- The text of the value of a formula. -/
def valueText (host : Host σ) (f : Formula) : Action σ Text := do
  let v ← f.value host
  Action.ofExcept v.text

/-- Computes an answer to write. A fault is reported. -/
def answer (x : Action σ Text) : StateM σ Output := do
  match ← x.run with
  | .ok t => return .say t
  | .error e => return .ofFault e

/-- The value of a variable in a listing. -/
def slotText (s : Slot) : Text :=
  match s.value with
  | .none => ['?']
  | v => (v.exactText.toOption).getD []

/-- A parse of a line, with its log. -/
def tryParse (verbosity : Nat) (t : Text) : Formula.Outcome × Output :=
  let o := Formula.parse .default (Formula.withoutDeclaration t)
  (o, ⟨[], Log.text verbosity o⟩)

/-- The warning about a function that is not known. -/
def warningText (w : Formula.Warning) : Text :=
  "Warning: ".toList ++ w.code.text ++ ' ' :: w.name

/-- What a line asks for. -/
inductive Command where
  | blank
  | exit
  | set (arguments : Text)
  | listVariables
  | tree
  | simplify
  | unknown (word : Text)
  | formula (text : Text)
  deriving DecidableEq, Repr

/-- Reads a line. -/
def Command.ofLine (line : Text) : Command :=
  match Text.trim line with
  | [] => .blank
  | ':' :: rest =>
    let (word, arguments) := splitWord (':' :: rest)
    if word == ":set".toList then .set arguments
    else if word == ":vars".toList then .listVariables
    else if word == ":tree".toList then .tree
    else if word == ":simplify".toList then .simplify
    else .unknown word
  | t => if t == "exit".toList then .exit else .formula t

/-- Carries out a command on the current formula. -/
def runOn (host : Host σ) (f : Formula) : Command → StateM σ (Formula × Output)
  | .set arguments => do
    let (name, number) := splitWord (Text.trim arguments)
    match Number.readFloat number with
    | .error e => return (f, .ofFault e)
    | .ok x =>
      let f := f.bind name (.float x)
      return (f, ← answer (valueText host f))
  | .listVariables =>
    return (f, ⟨f.slots.flatMap fun s => s.name ++ " = ".toList ++ slotText s ++ ['\n'], []⟩)
  | .tree => return (f, .say (Text.joinWith ['\n'] (f.root.outline 2 0)))
  | .simplify => do
    match ← (f.simplify host Registry.initial.isVolatile).run with
    | .error e => return (f, .ofFault e)
    | .ok f => return (f, ← answer (Action.ofExcept f.literal))
  | .unknown word => return (f, .complain ("Error: unknown command ".toList ++ word))
  | _ => return (f, .none)

/-- Parses a line; a formula becomes the current one. -/
def readFormula (host : Host σ) (verbosity : Nat) (current : Option Formula) (t : Text) :
    StateM σ (Option Formula × Output) := do
  let (o, log) := tryParse verbosity t
  match o.failure with
  | some e => return (current, log ++ .complain (Report.failure (Formula.withoutDeclaration t) e))
  | none =>
    let f := o.formula
    let warnings : Output := ⟨[], (f.warnings none).flatMap fun w => warningText w ++ ['\n']⟩
    return (some f, log ++ warnings ++ (← answer (valueText host f)))

/-- Answers a line, and tells whether the session goes on. -/
def step (host : Host σ) (verbosity : Nat) (current : Option Formula) (line : Text) :
    StateM σ (Option Formula × Output × Bool) := do
  match Command.ofLine line with
  | .blank => return (current, .none, true)
  | .exit => return (current, .none, false)
  | .formula t => do
    let (current, output) ← readFormula host verbosity current t
    return (current, output, true)
  | command =>
    match current with
    | none => return (none, .complain "Error: no formula yet".toList, true)
    | some f => do
      let (f, output) ← runOn host f command
      return (some f, output, true)

/-- What is written before the first line. -/
def greeting : Output :=
  ⟨"jigmath REPL v0.1\nType 'exit' or press Ctrl+D to quit.\n".toList, []⟩

/-- What is written before every line is read. -/
def prompt : Output := ⟨">> ".toList, []⟩

/-- What is written at the end of the input. -/
def farewell : Output := ⟨"\nExiting.\n".toList, []⟩

/-- A session on given lines. -/
def run (host : Host σ) (verbosity : Nat) (current : Option Formula) : List Text → StateM σ Output
  | [] => return prompt ++ farewell
  | line :: rest => do
    let (current, output, goesOn) ← step host verbosity current line
    if goesOn then return prompt ++ output ++ (← run host verbosity current rest)
    else return prompt ++ output

/-- The lines of an input; a line feed at its end starts no further line. -/
def inputLines (t : Text) : List Text :=
  let lines := Text.splitLineFeeds t
  if lines.getLast? == some [] then lines.dropLast else lines

/-! ## One formula -/

/-- How one formula ends. -/
inductive Ending where
  /-- As expected. -/
  | done
  /-- With an exit code. -/
  | exit (code : Nat)
  /-- With a fault that nothing catches. -/
  | fault (e : Fault)

/-- Reads a binding such as `x=2`. -/
def readBinding (t : Text) : Except Text (Text × Float) :=
  match Text.breakFirst '=' t with
  | some (name@(_ :: _), number@(_ :: _)) =>
    match Number.readFloat number with
    | .ok x => .ok (Text.trim name, x)
    | .error e => .error e.message
  | _ => .error ("Expected name=value, got ".toList ++ Text.quoted t)

/-- Binds variables, up to the first binding that cannot be read. -/
def bindAll (f : Formula) : List Text → Except Text Formula
  | [] => .ok f
  | t :: rest => do
    let (name, x) ← readBinding t
    bindAll (f.bind name (.float x)) rest

/-- Evaluates one formula under bindings. -/
def evaluateOnce (host : Host σ) (verbosity : Nat) (formula : Text) (bindings : List Text) :
    StateM σ (Output × Ending) := do
  let (o, log) := tryParse verbosity formula
  match o.failure with
  | some e => return (log ++ .complain (Report.failure (Formula.withoutDeclaration formula) e), .exit 1)
  | none =>
    match bindAll o.formula bindings with
    | .error message => return (log ++ .complain ("Error: ".toList ++ message), .exit 2)
    | .ok f =>
      match ← (valueText host f).run with
      | .ok t => return (log ++ .say t, .done)
      | .error e => return (log, .fault e)

/-- The verbosity that options such as `-v` and `-vv` ask for, and the arguments behind them. -/
def readOptions : List Text → Nat × List Text
  | [] => (0, [])
  | argument :: rest =>
    match argument with
    | '-' :: 'v' :: more =>
      if more.all (· == 'v') then
        let (n, arguments) := readOptions rest
        (more.length + 1 + n, arguments)
      else (0, argument :: rest)
    | _ => (0, argument :: rest)

/-- The program: one formula when there are arguments, otherwise a session on the input. -/
def program (host : Host σ) (arguments : List Text) (input : Text) : StateM σ (Output × Ending) := do
  let (count, arguments) := readOptions arguments
  let verbosity := Log.verbosity count
  match arguments with
  | formula :: bindings => evaluateOnce host verbosity formula bindings
  | [] => do
    let output ← run host verbosity none (inputLines input)
    return (greeting ++ output, .done)

end Session

end FormulaLang
