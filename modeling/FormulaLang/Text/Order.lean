import FormulaLang.Text.CharSet

/-!
# The order of texts

Texts are ordered by the code points of their characters, a text standing behind its prefixes.
-/

namespace FormulaLang.Text

/-- The first text does not stand behind the second. -/
def precedes : Text → Text → Bool
  | [], _ => true
  | _ :: _, [] => false
  | a :: s, b :: t => decide (a.toNat < b.toNat) || (a == b && precedes s t)

end FormulaLang.Text
