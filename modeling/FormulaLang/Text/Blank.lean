import FormulaLang.Text.CharSet

/-!
# White space

The white space of Unicode together with the four information separators. A text of white space alone is blank; the empty
text is blank.
-/

namespace FormulaLang.Text

/-- White space: the ASCII spaces and separators, the next-line control and the spaces of Unicode. -/
def isBlank (c : Char) : Bool :=
  let n := c.toNat
  if n < 128 then (decide (9 ≤ n) && decide (n ≤ 13)) || (decide (28 ≤ n) && decide (n ≤ 32))
  else
    n == 0x85 || n == 0xA0 || n == 0x1680 || (decide (0x2000 ≤ n) && decide (n ≤ 0x200A)) || n == 0x2028 || n == 0x2029 ||
      n == 0x202F || n == 0x205F || n == 0x3000

/-- White space alone, or nothing. -/
def allBlank (t : Text) : Bool :=
  t.all isBlank

/-- A text without its leading white space. -/
def trimLeft (t : Text) : Text :=
  t.dropWhile isBlank

/-- A text without its trailing white space. -/
def trimRight (t : Text) : Text :=
  (t.reverse.dropWhile isBlank).reverse

/-- A text without the white space at its ends. -/
def trim (t : Text) : Text :=
  trimRight (trimLeft t)

end FormulaLang.Text
