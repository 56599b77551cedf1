import FormulaLang.Formula.Basic
import FormulaLang.Text.Break
import FormulaLang.Text.Lines

/-!
# Reports

A rejected text is reported with the line and the column of the offender, the lines around it, and a caret under it. Lines
are numbered by line feeds, while the lines that are shown end at every line boundary. A declaration such as `f(x,y)=` in
front of a formula is dropped before it is parsed.
-/

namespace FormulaLang.Report

/-- The length of a text up to and with its last line feed. -/
def lineStart (t : Text) : Nat :=
  match Text.breakLast '\n' t with
  | some (before, _) => before.length + 1
  | none => 0

/-- The line and the column of a position, both counted from one. A negative position has the line that it has from the end
of the text. -/
def lineAndColumn (source : Text) (position : Int) : Nat × Int :=
  let before := Slice.before position source
  (before.count '\n' + 1, position - lineStart before + 1)

/-- The decimal text of a natural. -/
def natText (n : Nat) : Text :=
  Nat.toDigits 10 n

/-- The decimal text of an integer. -/
def intText (n : Int) : Text :=
  if n < 0 then '-' :: natText n.natAbs else natText n.natAbs

/-- A text with spaces before it up to a width. -/
def padLeft (width : Nat) (t : Text) : Text :=
  List.replicate (width - t.length) ' ' ++ t

/-- A numbered line, marked when it holds the offender, and the caret line below the marked one. -/
def contextLine (width line : Nat) (column : Int) (number : Nat) (content : Text) : List Text :=
  let mark := if number = line then '>' else ' '
  let shown := mark :: ' ' :: padLeft width (natText number) ++ " | ".toList ++ content
  if number = line then
    [shown, "  ".toList ++ List.replicate width ' ' ++ " | ".toList ++ List.replicate (column - 1).toNat ' ' ++ ['^']]
  else [shown]

/-- How many lines are shown before and after the marked one. -/
def radius : Nat := 2

/-- The lines around a line with a caret under a column, if there is such a line. -/
def context (source : Text) (line : Nat) (column : Int) : List Text :=
  let lines := match Text.lines source with
    | [] => [[]]
    | lines => lines
  if line < 1 ∨ lines.length < line then []
  else
    let first := max 1 (line - radius)
    let last := min lines.length (line + radius)
    let width := (natText last).length
    let shown := (lines.drop (first - 1)).take (last - first + 1)
    (shown.zipIdx first).flatMap fun (content, number) => contextLine width line column number content

/-- The report of an error with a message, at a position if it has one. -/
def error (source message : Text) (position : Option Int) : Text :=
  let title := "ParseError: ".toList ++ message
  match position with
  | none => title
  | some p =>
    let (line, column) := lineAndColumn source p
    title ++ " (line ".toList ++ natText line ++ ", col ".toList ++ intText column ++ ")\n".toList ++
      Text.joinWith ['\n'] (context source line column)

/-- The report of a failed parse. -/
def failure (source : Text) (f : Failure) : Text :=
  error source f.cause.message (some f.position)

end FormulaLang.Report

namespace FormulaLang.Formula

/-- A text without the declaration of a function in front of it. -/
def withoutDeclaration (t : Text) : Text :=
  match t with
  | 'f' :: '(' :: rest =>
    let isNameOrComma (c : Char) : Bool := Text.isWord c || c == ','
    match rest.takeWhile isNameOrComma, rest.dropWhile isNameOrComma with
    | _ :: _, ')' :: '=' :: formula => formula
    | _, _ => t
  | t => t

end FormulaLang.Formula
