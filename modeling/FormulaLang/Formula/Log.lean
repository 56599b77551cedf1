import FormulaLang.Formula.Basic
import FormulaLang.Node.Display

/-!
# Log

Every step of a parse makes a log entry with a level of detail; an entry is written when the verbosity is at least its level.
The verbosity has no influence on results.
-/

namespace FormulaLang.Log

/-- A log entry. -/
structure Entry where
  /-- 1 for news, 2 for the steps of a parse, 3 for whole buffers. -/
  level : Nat
  message : Text

/-- The greatest level. -/
def maxLevel : Nat := 3

/-- The verbosity that a caller's number stands for. -/
def verbosity (n : Int) : Nat :=
  min n.toNat maxLevel

/-- The conventional number of the threshold of a verbosity. -/
def threshold : Nat → Nat
  | 0 => 30
  | 1 => 20
  | 2 => 10
  | _ => 5

/-- The word for a level. -/
def levelName : Nat → Text
  | 0 => "WARNING".toList
  | 1 => "INFO".toList
  | 2 => "DEBUG".toList
  | _ => "TRACE".toList

/-- The message of an event; there is none when it holds a number that is too long to be written. -/
def message (e : Event) : Except Fault Text := do
  match e with
  | .lexed cuts =>
    return "Equation parsed: ".toList ++ Node.listed (← Node.displays (cuts.flatMap (·.2)))
  | .grouped ss => return "Equation grouped: ".toList ++ Node.listed (← Node.displays ss)
  | .folded ss => return "Equation joined: ".toList ++ Node.listed (← Node.displays ss)
  | .collapsed _ window n | .replaced _ window n _ =>
    return "Replaced ".toList ++ Node.listed (← Node.displays window) ++ " by ".toList ++ (← n.display)
  | .unknownFunction name => return "Unknown function ".toList ++ name
  | .opened _ _ | .entered _ | .left | .variableMet _ => return []

/-- The level of an event, if it is logged at all. -/
def level? : Event → Option Nat
  | .lexed _ | .grouped _ | .folded _ => some 3
  | .collapsed _ _ _ | .replaced _ _ _ _ | .unknownFunction _ => some 2
  | .opened _ _ | .entered _ | .left | .variableMet _ => none

/-- The entry of an event that the verbosity lets through. -/
def entryOf? (verbosity : Nat) (e : Event) : Option Entry := do
  let level ← level? e
  if level ≤ verbosity then
    let text ← (message e).toOption
    return ⟨level, text⟩
  else none

/-- The entry for the outcome of a parse. A failure is news for those who try a parse. -/
def outcomeOf? (verbosity : Nat) (o : Formula.Outcome) : Option Entry :=
  match o.failure with
  | none =>
    if 2 ≤ verbosity then
      o.formula.root.display.toOption.map fun tree =>
        ⟨2, "Parsed ".toList ++ Text.quoted o.formula.text ++ " into ".toList ++ tree⟩
    else none
  | some f => if 1 ≤ verbosity then some ⟨1, "Formula rejected: ".toList ++ f.cause.message⟩ else none

/-- The entries of a tried parse. -/
def entries (verbosity : Nat) (o : Formula.Outcome) : List Entry :=
  o.events.filterMap (entryOf? verbosity) ++ (outcomeOf? verbosity o).toList

/-- An entry as a line. -/
def line (e : Entry) : Text :=
  "[jigmath] [".toList ++ levelName e.level ++ "] ".toList ++ e.message ++ ['\n']

/-- The lines of a tried parse. -/
def text (verbosity : Nat) (o : Formula.Outcome) : Text :=
  (entries verbosity o).flatMap line

end FormulaLang.Log
