import FormulaLang.Text.CharSet

/-!
# Lines

A text is cut into lines at every line boundary of Unicode and at the separators of files, groups and records; carriage
return and line feed together are one boundary. A boundary at the end of the text starts no further line.
-/

namespace FormulaLang.Text

/-- The characters that end a line. -/
def isLineEnd (c : Char) : Bool :=
  let n := c.toNat
  (decide (10 ≤ n) && decide (n ≤ 13)) || (decide (28 ≤ n) && decide (n ≤ 30)) || n == 0x85 || n == 0x2028 || n == 0x2029

/-- The lines of a text whose current line, reversed, is `line`. -/
def linesFrom (line : Text) : Text → List Text
  | [] => if line.isEmpty then [] else [line.reverse]
  | '\r' :: '\n' :: rest => line.reverse :: linesFrom [] rest
  | c :: rest => if isLineEnd c then line.reverse :: linesFrom [] rest else linesFrom (c :: line) rest

/-- The lines of a text, without what ends them. -/
def lines (t : Text) : List Text :=
  linesFrom [] t

/-- The texts with `sep` between neighbours. -/
def joinWith (sep : Text) : List Text → Text
  | [] => []
  | [t] => t
  | t :: rest => t ++ sep ++ joinWith sep rest

/-- The parts of a text between the line feeds. -/
def splitLineFeeds : Text → List Text
  | [] => [[]]
  | c :: rest =>
    match splitLineFeeds rest with
    | [] => [[c]]
    | line :: others => if c == '\n' then [] :: line :: others else (c :: line) :: others

end FormulaLang.Text
