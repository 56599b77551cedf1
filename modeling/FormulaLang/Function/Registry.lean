import FormulaLang.Function.Basic
import FormulaLang.Text.LetterCase
import FormulaLang.Text.Order

/-!
# The registry of functions

Functions are looked up by name in lower case: the custom functions that the caller has registered come first, then the
functions of the language, then those of the numeric library. The registry also keeps the volatile functions, calls of
which are never replaced by a constant; drawing a random number always is volatile.
-/

namespace FormulaLang

/-- The registered custom functions and the volatile functions. -/
structure Registry where
  custom : List (Text × Function)
  volatile : List Function
  deriving DecidableEq, Repr

namespace Registry

/-- The volatile functions that stay volatile whatever is unregistered. -/
def alwaysVolatile : List Function := [.random]

/-- The registry before any registration. -/
def initial : Registry := ⟨[], alwaysVolatile⟩

/-- The function that a name stands for. -/
def resolve? (r : Registry) (name : Text) : Option Function :=
  let key := Text.lower name
  (r.custom.lookup key).or
    (((Builtin.names.lookup key).map .builtin).or ((Standard.names.lookup key).map .standard))

/-- A function stays symbolic when constants are folded. -/
def isVolatile (r : Registry) (f : Function) : Bool :=
  r.volatile.contains f

/-- Registers a function under a name, in place of an earlier one of that name. -/
def register (r : Registry) (name : Text) (f : Function) (isVolatile : Bool) : Registry :=
  let key := Text.lower name
  { custom := (key, f) :: r.custom.filter (·.1 != key)
    volatile := if isVolatile && !r.volatile.contains f then r.volatile ++ [f] else r.volatile }

/-- Removes a name; its function is no longer volatile, unless it always is. -/
def unregister (r : Registry) (name : Text) : Registry :=
  let key := Text.lower name
  { custom := r.custom.filter (·.1 != key)
    volatile :=
      match r.custom.lookup key with
      | some f => if alwaysVolatile.contains f then r.volatile else r.volatile.erase f
      | none => r.volatile }

/-- The registered names in order. -/
def names (r : Registry) : List Text :=
  (r.custom.map (·.1)).mergeSort Text.precedes

end Registry

end FormulaLang
