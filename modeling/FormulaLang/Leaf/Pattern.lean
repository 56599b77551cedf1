import FormulaLang.Text.Word

/-!
# Leaf patterns

The patterns by which leaves are found in raw text. A pattern matches at a place of the text as far as it can
(`Pattern.matchAt?`); it may look at the character before that place. The search takes the first place at which it matches
(`Pattern.search?`). A match is a non-empty piece of the text (`Pattern.search?_eq_some`), which is what makes lexing end.
-/

namespace FormulaLang

/-- A pattern for a leaf. -/
inductive Pattern where
  /-- `#` or `0x` and hexadecimal digits. -/
  | hexLiteral
  /-- `0b` and binary digits. -/
  | binaryLiteral
  /-- A letter or underscore and any word characters. After a digit a name does not start with an exponent. -/
  | name
  /-- Digits with an optional fraction and an optional exponent. -/
  | decimalLiteral
  /-- Letters. -/
  | letters
  /-- Decimal digits. -/
  | digits
  /-- Word characters. -/
  | word
  /-- A pattern that is only known by its text and matches nothing. -/
  | unknown (source : Text)
  deriving DecidableEq, Repr

namespace Pattern

/-- Every known pattern with the regular expression that a grammar writes for it. -/
def sources : List (Text × Pattern) :=
  [("(?:#|0x)[0-9a-f]+".toList, hexLiteral), ("0b[01]+".toList, binaryLiteral),
    ("(?:(?<=\\d)(?!e[+-]?\\d)|(?<!\\d))[a-z_]\\w*".toList, name),
    ("\\d+(?:\\.\\d+)?(?:e[+-]?\\d+)?".toList, decimalLiteral), ("[a-z]+".toList, letters), ("\\d+".toList, digits),
    ("\\w+".toList, word)]

/-- The pattern of a regular expression. -/
def ofSource (source : Text) : Pattern :=
  (sources.lookup source).getD (unknown source)

/-- The regular expression of a pattern. -/
def source : Pattern → Text
  | unknown s => s
  | p => ((sources.find? fun entry => entry.2 == p).map (·.1)).getD []

/-- A letter of the basic alphabet in either case; the dotted and dotless i, the long s and the Kelvin sign count too, as
their other case is such a letter. -/
def isLetter (c : Char) : Bool :=
  c.isAlpha || c == 'İ' || c == 'ı' || c == 'ſ' || c == '\u212A'

/-- A hexadecimal digit. -/
def isHexDigit (c : Char) : Bool :=
  c.isDigit || (decide ('a' ≤ c) && decide (c ≤ 'f')) || (decide ('A' ≤ c) && decide (c ≤ 'F'))

/-- A binary digit. -/
def isBinaryDigit (c : Char) : Bool :=
  c == '0' || c == '1'

/-- The longest non-empty run of characters at the start of a text, and the rest. -/
def run? (p : Char → Bool) (t : Text) : Option (Text × Text) :=
  if (t.takeWhile p).isEmpty then none else some (t.takeWhile p, t.dropWhile p)

/-- A run after a mark that has been read. -/
def markedRun? (mark : Text) (p : Char → Bool) (t : Text) : Option (Text × Text) :=
  (run? p t).map fun (m, rest) => (mark ++ m, rest)

/-- A hexadecimal literal. -/
def hex? : Text → Option (Text × Text)
  | '#' :: rest => markedRun? ['#'] isHexDigit rest
  | '0' :: 'x' :: rest => markedRun? ['0', 'x'] isHexDigit rest
  | '0' :: 'X' :: rest => markedRun? ['0', 'X'] isHexDigit rest
  | _ => none

/-- A binary literal. -/
def binary? : Text → Option (Text × Text)
  | '0' :: 'b' :: rest => markedRun? ['0', 'b'] isBinaryDigit rest
  | '0' :: 'B' :: rest => markedRun? ['0', 'B'] isBinaryDigit rest
  | _ => none

/-- A point and digits. -/
def fraction? : Text → Option (Text × Text)
  | '.' :: rest => markedRun? ['.'] Text.isDecimal rest
  | _ => none

/-- A sign or none, and digits, after a mark that has been read. -/
def signedRun? (mark : Text) : Text → Option (Text × Text)
  | '+' :: rest => markedRun? (mark ++ ['+']) Text.isDecimal rest
  | '-' :: rest => markedRun? (mark ++ ['-']) Text.isDecimal rest
  | t => markedRun? mark Text.isDecimal t

/-- The letter of an exponent, a sign or none, and digits. -/
def exponent? : Text → Option (Text × Text)
  | 'e' :: rest => signedRun? ['e'] rest
  | 'E' :: rest => signedRun? ['E'] rest
  | _ => none

/-- What has been read, continued as far as `more?` goes. -/
def extend (more? : Text → Option (Text × Text)) : Text × Text → Text × Text
  | (m, rest) =>
    match more? rest with
    | some (m', rest') => (m ++ m', rest')
    | none => (m, rest)

/-- A decimal literal. -/
def decimal? (t : Text) : Option (Text × Text) :=
  ((run? Text.isDecimal t).map (extend fraction?)).map (extend exponent?)

/-- A name that starts here. -/
def nameHere? : Text → Option (Text × Text)
  | c :: rest =>
    if isLetter c || c == '_' then some (c :: rest.takeWhile Text.isWord, rest.dropWhile Text.isWord) else none
  | [] => none

/-- A name behind the character `before`. -/
def name? (before : Option Char) (t : Text) : Option (Text × Text) :=
  if before.any Text.isDecimal && (exponent? t).isSome then none else nameHere? t

/-- The piece of text that a pattern matches at a place, as long as it can be, and the text after it. -/
def matchAt? : Pattern → (before : Option Char) → Text → Option (Text × Text)
  | hexLiteral, _, t => hex? t
  | binaryLiteral, _, t => binary? t
  | name, before, t => name? before t
  | decimalLiteral, _, t => decimal? t
  | letters, _, t => run? isLetter t
  | digits, _, t => run? Text.isDecimal t
  | word, _, t => run? Text.isWord t
  | unknown _, _, _ => none

/-- A found piece of text between the text before and the text after it. -/
structure Found where
  before : Text
  matched : Text
  after : Text

/-- The first place at which a pattern matches. -/
def searchFrom? (p : Pattern) (before : Option Char) : Text → Option Found
  | [] => none
  | c :: rest =>
    match p.matchAt? before (c :: rest) with
    | some (m, after) => some ⟨[], m, after⟩
    | none => (searchFrom? p (some c) rest).map fun f => { f with before := c :: f.before }

/-- The first match of a pattern in a text. -/
def search? (p : Pattern) (t : Text) : Option Found :=
  p.searchFrom? none t

/-! ## A match is a non-empty piece of the text -/

/-- `r` is a non-empty piece at the start of `t` and what follows it. -/
def Splits (t : Text) (r : Text × Text) : Prop :=
  r.1 ++ r.2 = t ∧ r.1 ≠ []

theorem splits_run {p : Char → Bool} {t : Text} {r : Text × Text} (h : run? p t = some r) : Splits t r := by
  unfold run? at h
  split at h
  · simp at h
  · rename_i hne
    obtain rfl := Option.some.inj h
    exact ⟨List.takeWhile_append_dropWhile, by simpa using hne⟩

theorem splits_markedRun {mark : Text} {p : Char → Bool} {t : Text} {r : Text × Text}
    (h : markedRun? mark p t = some r) : Splits (mark ++ t) r := by
  obtain ⟨s, hs, rfl⟩ := Option.map_eq_some_iff.1 h
  obtain ⟨h₁, h₂⟩ := splits_run hs
  exact ⟨by simp [← h₁], by simp [h₂]⟩

theorem splits_hex {t : Text} {r : Text × Text} (h : hex? t = some r) : Splits t r := by
  unfold hex? at h
  split at h
  · exact splits_markedRun h
  · exact splits_markedRun h
  · exact splits_markedRun h
  · simp at h

theorem splits_binary {t : Text} {r : Text × Text} (h : binary? t = some r) : Splits t r := by
  unfold binary? at h
  split at h
  · exact splits_markedRun h
  · exact splits_markedRun h
  · simp at h

theorem splits_fraction {t : Text} {r : Text × Text} (h : fraction? t = some r) : Splits t r := by
  unfold fraction? at h
  split at h
  · exact splits_markedRun h
  · simp at h

theorem splits_signedRun {mark t : Text} {r : Text × Text} (h : signedRun? mark t = some r) :
    Splits (mark ++ t) r := by
  unfold signedRun? at h
  split at h
  · simpa using splits_markedRun h
  · simpa using splits_markedRun h
  · exact splits_markedRun h

theorem splits_exponent {t : Text} {r : Text × Text} (h : exponent? t = some r) : Splits t r := by
  unfold exponent? at h
  split at h
  · exact splits_signedRun h
  · exact splits_signedRun h
  · simp at h

theorem splits_extend {more? : Text → Option (Text × Text)} (hm : ∀ t r, more? t = some r → Splits t r)
    {t : Text} {r : Text × Text} (h : Splits t r) : Splits t (extend more? r) := by
  unfold extend
  split
  rename_i m rest
  split
  · rename_i m' rest' h'
    obtain ⟨h₁, -⟩ := hm _ _ h'
    exact ⟨by simpa [← h₁] using h.1, by simp [h.2]⟩
  · exact h

theorem splits_decimal {t : Text} {r : Text × Text} (h : decimal? t = some r) : Splits t r := by
  obtain ⟨s, hs, rfl⟩ := Option.map_eq_some_iff.1 h
  obtain ⟨u, hu, rfl⟩ := Option.map_eq_some_iff.1 hs
  exact splits_extend (fun _ _ => splits_exponent) (splits_extend (fun _ _ => splits_fraction) (splits_run hu))

theorem splits_name {before : Option Char} {t : Text} {r : Text × Text} (h : name? before t = some r) :
    Splits t r := by
  unfold name? at h
  split at h
  · simp at h
  · unfold nameHere? at h
    split at h
    · split at h
      · obtain rfl := Option.some.inj h
        exact ⟨by simp, by simp⟩
      · simp at h
    · simp at h

theorem splits_matchAt {p : Pattern} {before : Option Char} {t : Text} {r : Text × Text}
    (h : p.matchAt? before t = some r) : Splits t r := by
  cases p with
  | hexLiteral => exact splits_hex h
  | binaryLiteral => exact splits_binary h
  | name => exact splits_name h
  | decimalLiteral => exact splits_decimal h
  | letters => exact splits_run h
  | digits => exact splits_run h
  | word => exact splits_run h
  | unknown _ => simp [matchAt?] at h

theorem searchFrom?_eq_some {p : Pattern} {before : Option Char} {t : Text} {f : Found}
    (h : p.searchFrom? before t = some f) : f.before ++ f.matched ++ f.after = t ∧ f.matched ≠ [] := by
  induction t generalizing before f with
  | nil => simp [searchFrom?] at h
  | cons c rest ih =>
    rw [searchFrom?] at h
    split at h
    · rename_i m after hm
      obtain rfl := Option.some.inj h
      exact splits_matchAt hm
    · obtain ⟨g, hg, rfl⟩ := Option.map_eq_some_iff.1 h
      obtain ⟨h₁, h₂⟩ := ih hg
      exact ⟨by simp [← h₁], h₂⟩

/-- A match is a non-empty piece of the text. -/
theorem search?_eq_some {p : Pattern} {t : Text} {f : Found} (h : p.search? t = some f) :
    f.before ++ f.matched ++ f.after = t ∧ f.matched ≠ [] :=
  searchFrom?_eq_some h

end Pattern

end FormulaLang
