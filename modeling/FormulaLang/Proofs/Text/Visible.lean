import FormulaLang.Text.Blank

/-!
# Visible text

A text without its white space.
-/

namespace FormulaLang

/-- A text without its white space. -/
def Text.visible (t : Text) : Text :=
  t.filter fun c => !Text.isBlank c

theorem Text.visible_append (s t : Text) : Text.visible (s ++ t) = Text.visible s ++ Text.visible t :=
  List.filter_append s t

theorem Text.visible_eq_nil_iff {t : Text} : Text.visible t = [] ↔ Text.allBlank t = true := by
  simp [Text.visible, Text.allBlank]

end FormulaLang
