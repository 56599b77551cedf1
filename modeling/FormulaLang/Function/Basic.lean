import FormulaLang.Function.Operation
import FormulaLang.Function.Standard

/-!
# Functions and their host

A formula calls the functions of the language, those of the numeric library, and custom functions that the caller knows
under handles. What a handle means and where random numbers come from is up to the host of the evaluation, which may keep
a state of its own between calls. All other functions are determined by their arguments (`Function.call_pure`).
-/

namespace FormulaLang

/-- A function that a formula can call. Custom functions are told apart by their handles. -/
inductive Function where
  | builtin (f : Builtin)
  | standard (f : Standard)
  | custom (handle : Text)
  deriving DecidableEq, Repr

/-- A computation that may fail and may change the state of the host. A failure keeps the state. -/
abbrev Action (σ : Type) := ExceptT Fault (StateM σ)

/-- What an evaluation takes from its surroundings. -/
structure Host (σ : Type) where
  /-- Draws a number from zero up to one. -/
  random : Action σ Float
  /-- Calls a custom function. -/
  custom : Text → List Value → Action σ Value

variable {σ : Type}

/-- A computation without effect on the host. -/
def Action.ofExcept {α : Type} (e : Except Fault α) : Action σ α :=
  ExceptT.mk (pure e)

namespace Function

/-- The function that draws random numbers. -/
def random : Function := .standard .random

/-- A function applied to its arguments. -/
def call (host : Host σ) : Function → List Value → Action σ Value
  | builtin f, args => Action.ofExcept (f.apply args)
  | standard .random, [] => do return .float (← host.random)
  | standard f, args => Action.ofExcept (f.apply args)
  | custom handle, args => host.custom handle args

/-- Functions whose result follows from their arguments whatever the host. -/
def isPure : Function → Bool
  | builtin _ => true
  | standard f => f != .random
  | custom _ => false

/-- A pure function has no effect and does not look at the host. -/
theorem call_pure {f : Function} (h : f.isPure = true) (args : List Value) :
    ∃ e : Except Fault Value, ∀ host : Host σ, call host f args = Action.ofExcept e := by
  cases f with
  | builtin f => exact ⟨f.apply args, fun _ => rfl⟩
  | standard f =>
    refine ⟨f.apply args, fun host => ?_⟩
    cases f <;> first | rfl | simp [isPure] at h
  | custom _ => simp [isPure] at h

end Function

end FormulaLang
