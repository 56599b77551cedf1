import FormulaLang.Parse.Bracket
import FormulaLang.Text.Quoted

/-!
# Failures of a parse

A failure names its cause and the equation in which it arose: the innermost buffer, as it stood then, with the sentence and
the position of the offender. When it arose within a parameter, it also tells which group of the buffer in which the parse
began was being made.
-/

namespace FormulaLang

/-- Why a text is no formula. -/
inductive Cause where
  /-- A leaf that looks like a number and is none. -/
  | badLiteral (literal : Text)
  | unmatchedCloser (bracket : Text)
  | unmatchedOpener (bracket : Text)
  /-- A rule that could make no node of what it matched. -/
  | unsuitableRule (d : Defect)
  deriving DecidableEq, Repr

/-- The wording of a cause. -/
def Cause.message : Cause → Text
  | badLiteral literal => "Invalid number literal ".toList ++ Text.quoted literal
  | unmatchedCloser bracket => "Unmatched closing bracket ".toList ++ Text.quoted bracket
  | unmatchedOpener bracket => "Unmatched opening bracket ".toList ++ Text.quoted bracket
  | unsuitableRule d => d.message

/-- A failed parse. -/
structure Failure where
  cause : Cause
  /-- The buffer in which the failure arose. -/
  equation : List Node
  /-- The position of the first character of that buffer. -/
  offset : Int
  /-- The sentence of that buffer that holds the offender. -/
  index : Nat
  /-- The position of the offender. -/
  position : Int
  /-- The outermost group that was being made, in the buffer in which the parse began. -/
  around : Option Window

namespace Failure

/-- The failure of a literal in the buffer at a position. -/
def ofBadLiteral (offset : Int) (e : BadLiteral) : Failure :=
  ⟨.badLiteral e.literal, e.before ++ .raw e.text :: e.after, offset, e.before.length,
    offset + (Node.sourceTexts e.before).length + e.start, none⟩

/-- The failure of a closing bracket without an opening one. -/
def ofCloser (offset : Int) (closer : Text) (buffer : List Node) (index : Nat) : Failure :=
  ⟨.unmatchedCloser closer, buffer, offset, index, offset + (Node.sourceTexts (buffer.take index)).length, none⟩

/-- The failure of an opening bracket that is left. -/
def ofOpener (offset : Int) (opener : Text) (buffer : List Node) (p : Place) : Failure :=
  ⟨.unmatchedOpener opener, buffer, offset, p.before.length,
    offset + (Node.sourceTexts p.before).length + p.head.length, none⟩

/-- The failure of a rule in a buffer. -/
def ofRule (offset : Int) (d : Defect) (buffer : List Node) : Failure :=
  ⟨.unsuitableRule d, buffer, offset, 0, offset, none⟩

/-- The failure of a parameter, seen from the buffer around its group. -/
def within (w : Window) (f : Failure) : Failure :=
  { f with around := some w }

end Failure

end FormulaLang
