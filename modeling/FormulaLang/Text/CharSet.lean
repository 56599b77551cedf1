/-!
# Texts and sets of characters

A text is a list of characters. A set of characters is stored as the sorted array of the code points at which membership
changes: a character is in the set when an odd number of them are at most its code point.
-/

namespace FormulaLang

/-- Source text. -/
abbrev Text := List Char

/-- A set of characters, given by the code points at which membership changes. -/
structure CharSet where
  flips : Array Nat

namespace CharSet

/-- How many entries of the sorted array `flips` in the window from `lo` of `size` places are at most `n`, plus `lo`. -/
def countUpTo (flips : Array Nat) (n lo size : Nat) : Nat :=
  if _h : size = 0 then lo
  else
    let half := size / 2
    match flips[lo + half]? with
    | none => lo
    | some x => if x ≤ n then countUpTo flips n (lo + half + 1) (size - half - 1) else countUpTo flips n lo half
termination_by size
decreasing_by all_goals omega

/-- Membership. -/
def contains (s : CharSet) (c : Char) : Bool :=
  countUpTo s.flips c.toNat 0 s.flips.size % 2 == 1

end CharSet

end FormulaLang
