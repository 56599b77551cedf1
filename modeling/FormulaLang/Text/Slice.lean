import FormulaLang.Text.CharSet

/-!
# Signed positions

A position in a list counts from the front, or from the end when it is negative; beyond either end it stands for that end.
The items before a position and those from it on make up the list (`Slice.before_append_onward`).
-/

namespace FormulaLang.Slice

variable {α : Type}

/-- The number of items in front of a position in a list of `size` items. -/
def index (size : Nat) (i : Int) : Nat :=
  if 0 ≤ i then i.toNat else size - i.natAbs

/-- The items before a position. -/
def before (i : Int) (xs : List α) : List α :=
  xs.take (index xs.length i)

/-- The items from a position on. -/
def onward (i : Int) (xs : List α) : List α :=
  xs.drop (index xs.length i)

theorem before_append_onward (i : Int) (xs : List α) : before i xs ++ onward i xs = xs :=
  List.take_append_drop _ _

end FormulaLang.Slice
