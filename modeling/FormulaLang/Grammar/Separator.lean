import FormulaLang.Text.Blank
import FormulaLang.Text.Break

/-!
# Separators

A separator cuts the interior of a group into parameters. It is a single character, alone or together with the white space
around it. A cut keeps the whole text (`Separator.search?_eq_some`).
-/

namespace FormulaLang

/-- What separates the parameters of a group. -/
inductive Separator where
  /-- A character alone. -/
  | plain (mark : Char)
  /-- A character and the white space around it. -/
  | spaced (mark : Char)
  /-- A separator that is only known by its text and stands nowhere. -/
  | unknown (source : Text)
  deriving DecidableEq, Repr

namespace Separator

/-- Every known separator with the regular expression that a grammar writes for it. -/
def sources : List (Text × Separator) :=
  [("\\s*,\\s*".toList, spaced ','), ("\\s*;\\s*".toList, spaced ';'), (",".toList, plain ','), (";".toList, plain ';')]

/-- The separator of a regular expression. -/
def ofSource (source : Text) : Separator :=
  (sources.lookup source).getD (unknown source)

/-- The regular expression of a separator. -/
def source : Separator → Text
  | unknown s => s
  | p => ((sources.find? fun entry => entry.2 == p).map (·.1)).getD []

/-- The white space at the end of a text. -/
def trailingBlanks (t : Text) : Text :=
  (t.reverse.takeWhile Text.isBlank).reverse

/-- A separator between the text before and the text after it. -/
structure Cut where
  before : Text
  separator : Text
  after : Text

/-- The first separator in a text. -/
def search? : Separator → Text → Option Cut
  | plain mark, t => (Text.breakFirst mark t).map fun (before, after) => ⟨before, [mark], after⟩
  | spaced mark, t =>
    (Text.breakFirst mark t).map fun (before, after) =>
      ⟨Text.trimRight before, trailingBlanks before ++ mark :: after.takeWhile Text.isBlank,
        after.dropWhile Text.isBlank⟩
  | unknown _, _ => none

theorem trimRight_append_trailingBlanks (t : Text) : Text.trimRight t ++ trailingBlanks t = t := by
  simp only [Text.trimRight, trailingBlanks]
  rw [← List.reverse_append, List.takeWhile_append_dropWhile, List.reverse_reverse]

/-- A cut keeps the text, and the separator is not empty. -/
theorem search?_eq_some {s : Separator} {t : Text} {c : Cut} (h : s.search? t = some c) :
    c.before ++ c.separator ++ c.after = t ∧ c.separator ≠ [] := by
  cases s with
  | plain mark =>
    obtain ⟨⟨b, a⟩, hb, rfl⟩ := Option.map_eq_some_iff.1 h
    obtain ⟨rfl, -⟩ := Text.breakFirst_eq_some hb
    simp
  | spaced mark =>
    obtain ⟨⟨b, a⟩, hb, rfl⟩ := Option.map_eq_some_iff.1 h
    obtain ⟨rfl, -⟩ := Text.breakFirst_eq_some hb
    refine ⟨?_, by simp⟩
    calc Text.trimRight b ++ (trailingBlanks b ++ mark :: a.takeWhile Text.isBlank) ++ a.dropWhile Text.isBlank
        = (Text.trimRight b ++ trailingBlanks b) ++ mark :: (a.takeWhile Text.isBlank ++ a.dropWhile Text.isBlank) := by
          simp
      _ = b ++ mark :: a := by rw [trimRight_append_trailingBlanks, List.takeWhile_append_dropWhile]
  | unknown _ => simp [search?] at h

theorem Cut.length_lt {s : Separator} {t : Text} {c : Cut} (h : s.search? t = some c) :
    c.before.length + c.after.length < t.length := by
  obtain ⟨rfl, hne⟩ := search?_eq_some h
  have := List.length_pos_iff.2 hne
  simp only [List.length_append]
  omega

end Separator

end FormulaLang
