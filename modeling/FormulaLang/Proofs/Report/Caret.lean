import FormulaLang.Formula.Session
import FormulaLang.Proofs.Parse.Offender
import FormulaLang.Proofs.Text.Lines

/-!
# The caret of a report

A report counts the lines before the offender by their line feeds and shows lines that end at every line boundary. Where no
line before the offender has a stray end the two agree: the marked line holds the offender and the caret stands under it.
After a stray end the marked line ends before the offender, and the caret points elsewhere (`Report.marks_failure`).

What a report shows is read off its text: `Report.marked?` finds the marked line and the line under it, and
`Report.aboveCaret?` the character of the one that stands above the end of the other.
-/

namespace FormulaLang.Report

open Text (lines strayEnds lineEnds Unbroken IsEnding splitLineFeeds isLineEnd)

/-! ## Reading a report -/

/-- The marked line of a report and the line under it. -/
def marked? : List Text → Option (Text × Text)
  | line :: below :: rest => if line.head? = some '>' then some (line, below) else marked? (below :: rest)
  | _ => none

/-- The character of the marked line above the caret, the last character of the line under it. -/
def aboveCaret? (report : Text) : Option Char :=
  (marked? (splitLineFeeds report)).bind fun (shown, caret) => shown[caret.length - 1]?

/-- The report marks the text `line` with the number `number`, and the caret stands under its character `column`. -/
def Marks (report : Text) (number : Nat) (line : Text) (column : Nat) : Prop :=
  ∃ blanks gutter : Text, (∀ c ∈ blanks, c = ' ') ∧
    gutter.length = ("> ".toList ++ blanks ++ natText number ++ " | ".toList).length ∧
    marked? (splitLineFeeds report) =
      some ("> ".toList ++ blanks ++ natText number ++ " | ".toList ++ line, gutter ++ List.replicate column ' ' ++ ['^'])

/-- The character above the caret is the one at its column. -/
theorem Marks.aboveCaret? {report marked : Text} {number column : Nat} (h : Marks report number marked column) :
    aboveCaret? report = marked[column]? := by
  obtain ⟨blanks, gutter, -, hlength, hmarked⟩ := h
  rw [Report.aboveCaret?, hmarked, Option.bind_some]
  have hcaret : (gutter ++ List.replicate column ' ' ++ ['^']).length - 1 = gutter.length + column := by simp
  show (_ ++ marked)[_]? = marked[column]?
  rw [hcaret, hlength, List.getElem?_append_right (Nat.le_add_right _ _), Nat.add_sub_cancel_left]

theorem marked?_append {above below : List Text} {line caret : Text} (habove : ∀ l ∈ above, l.head? ≠ some '>')
    (hline : line.head? = some '>') : marked? (above ++ line :: caret :: below) = some (line, caret) := by
  induction above with
  | nil => simp [marked?, hline]
  | cons l above ih =>
    obtain ⟨hl, habove⟩ := List.forall_mem_cons.1 habove
    cases above with
    | nil => simpa [marked?, hl] using ih habove
    | cons l' above => simpa [marked?, hl] using ih habove

/-! ## The line of the offender -/

theorem lineStart_of_not_mem {t : Text} (h : '\n' ∉ t) : lineStart t = 0 := by
  rw [lineStart, Text.breakLast_eq_none.2 h]

/-- Behind a line feed the start of the line is found in the rest. -/
theorem lineStart_feed {front : Text} (h : front.getLast? = some '\n') (rest : Text) :
    lineStart (front ++ rest) = front.length + lineStart rest := by
  obtain ⟨front, rfl⟩ : ∃ ys, front = ys ++ ['\n'] := List.getLast?_eq_some_iff.1 h
  cases hbreak : Text.breakLast '\n' rest with
  | none =>
    have hrest : '\n' ∉ rest := Text.breakLast_eq_none.1 hbreak
    have hmark : Text.breakLast '\n' (front ++ ['\n'] ++ rest) = some (front, rest) := by
      cases hwhole : Text.breakLast '\n' (front ++ ['\n'] ++ rest) with
      | none =>
        have hnot := Text.breakLast_eq_none.1 hwhole
        simp at hnot
      | some split =>
        obtain ⟨before, after⟩ := split
        obtain ⟨heq, hafter⟩ := Text.breakLast_eq_some hwhole
        rw [List.append_assoc, List.singleton_append] at heq
        obtain ⟨rfl, rfl⟩ := split_last_unique hrest hafter heq
        rfl
    rw [lineStart_of_not_mem hrest, lineStart, hmark]
    simp
  | some split =>
    obtain ⟨before, after⟩ := split
    obtain ⟨rfl, hafter⟩ := Text.breakLast_eq_some hbreak
    cases hwhole : Text.breakLast '\n' (front ++ ['\n'] ++ (before ++ '\n' :: after)) with
    | none =>
      have hnot := Text.breakLast_eq_none.1 hwhole
      simp at hnot
    | some split =>
      obtain ⟨before', after'⟩ := split
      obtain ⟨heq, hafter'⟩ := Text.breakLast_eq_some hwhole
      rw [← List.append_assoc] at heq
      obtain ⟨rfl, rfl⟩ := split_last_unique hafter hafter' heq
      simp only [lineStart, hwhole, hbreak, List.length_append]
      omega

/-- Every line up to that of a character lies in the text: it ends before the character or it is the line that holds it, and
this starts behind the last line feed when no line before the character has a stray end. -/
theorem exists_line {t u v : Text} {b : Char} (ht : t = u ++ b :: v) (hb : isLineEnd b = false) {n : Nat}
    (hn : n ≤ lineEnds u) :
    ∃ x line y, t = x ++ line ++ y ∧ (lines t)[n]? = some line ∧
      (n < lineEnds u → x.length + line.length < u.length) ∧
      (n = lineEnds u → x.length ≤ u.length ∧ u.length < x.length + line.length ∧
        (strayEnds u = 0 → x.length = lineStart u)) := by
  induction t using Text.line_induction generalizing u n with
  | last t hunbroken =>
    subst ht
    obtain ⟨hu, -⟩ := Text.unbroken_append.1 hunbroken
    have hzero : lineEnds u = 0 := Text.lineEnds_unbroken hu
    obtain rfl : n = 0 := by omega
    refine ⟨[], u ++ b :: v, [], by simp, ?_, by omega, fun _ => ⟨by simp, by simp, fun _ => ?_⟩⟩
    · rw [Text.lines_unbroken hunbroken]
      simp
    · exact (lineStart_of_not_mem (hu.not_mem rfl)).symm
  | ending first e rest hfirst he ih =>
    rw [Text.lines_ending hfirst he]
    rcases Text.line_cases hb he ht with ⟨w, rfl⟩ | ⟨u', rfl, rfl, he'⟩
    · obtain ⟨hu, -⟩ := Text.unbroken_append.1 hfirst
      have hzero : lineEnds u = 0 := Text.lineEnds_unbroken hu
      obtain rfl : n = 0 := by omega
      refine ⟨[], u ++ b :: w, e ++ rest, by simp, rfl, by omega, fun _ => ⟨by simp, by simp, fun _ => ?_⟩⟩
      exact (lineStart_of_not_mem (hu.not_mem rfl)).symm
    · have hends : lineEnds (first ++ e ++ u') = lineEnds u' + 1 := Text.lineEnds_ending hfirst he'
      cases n with
      | zero =>
        refine ⟨[], first, e ++ (u' ++ b :: v), by simp, rfl, fun _ => ?_, by omega⟩
        have := List.length_pos_iff.2 he.ne_nil
        simp only [List.length_append, List.length_nil]
        omega
      | succ n =>
        obtain ⟨x, line, y, hxy, hline, hbefore, hat⟩ := ih rfl (show n ≤ lineEnds u' by omega)
        refine ⟨first ++ e ++ x, line, y, by rw [hxy]; simp, by simpa using hline, fun hlt => ?_, fun heq => ?_⟩
        · have := hbefore (by omega)
          simp only [List.length_append]
          omega
        · obtain ⟨hle, hlt, hstart⟩ := hat (by omega)
          refine ⟨?_, ?_, fun hstray => ?_⟩
          · simp only [List.length_append]
            omega
          · simp only [List.length_append]
            omega
          · rcases Text.ending_cases hfirst he' with ⟨hlast, hstray', -⟩ | ⟨hstray', -⟩
            · have hfeed : (first ++ e).getLast? = some '\n' := by simp [hlast]
              rw [lineStart_feed hfeed, ← hstart (by omega), List.length_append]
            · omega

/-! ## The lines around the offender -/

theorem length_natText_le {m n : Nat} (h : m ≤ n) : (natText m).length ≤ (natText n).length := by
  have hpos : 0 < (natText n).length := Nat.length_toDigits_pos
  have hlt : n < 10 ^ (natText n).length := (Nat.length_toDigits_le_iff (by decide) hpos).1 (Nat.le_refl _)
  exact (Nat.length_toDigits_le_iff (by decide) hpos).2 (Nat.lt_of_le_of_lt h hlt)

theorem feed_not_mem_natText (n : Nat) : '\n' ∉ natText n := by
  intro h
  have hdigit : Char.isDigit '\n' = true := Nat.isDigit_of_mem_toDigits (by decide) (by decide) h
  cases hdigit

theorem feed_not_mem_padLeft (width n : Nat) : '\n' ∉ padLeft width (natText n) := by
  simp [padLeft, feed_not_mem_natText, List.mem_replicate]

/-- A line of a report holds no line feed when what it shows holds none. -/
theorem feed_not_mem_contextLine {width line number : Nat} {column : Int} {content : Text} (h : '\n' ∉ content) :
    ∀ l ∈ contextLine width line column number content, '\n' ∉ l := by
  have hpad := feed_not_mem_padLeft width number
  unfold contextLine
  split
  · simp [hpad, h, List.mem_replicate]
  · simp [hpad, h]

theorem feed_not_mem_contextLines {width line k : Nat} {column : Int} {contents : List Text}
    (h : ∀ content ∈ contents, '\n' ∉ content) :
    ∀ l ∈ (contents.zipIdx k).flatMap (fun (content, number) => contextLine width line column number content), '\n' ∉ l := by
  intro l hl
  obtain ⟨⟨content, number⟩, hmem, hl⟩ := List.mem_flatMap.1 hl
  exact feed_not_mem_contextLine (h content (List.fst_mem_of_mem_zipIdx hmem)) l hl

/-- A line that is not that of the offender is not marked. -/
theorem head?_contextLine {width line number : Nat} {column : Int} {content : Text} (h : number ≠ line) :
    ∀ l ∈ contextLine width line column number content, l.head? ≠ some '>' := by
  simp [contextLine, h]

theorem feed_not_mem_context (source : Text) (line : Nat) (column : Int) :
    ∀ l ∈ context source line column, '\n' ∉ l := by
  intro l hl
  unfold context at hl
  split at hl
  all_goals
    dsimp only at hl
    split at hl
    · cases hl
    · refine feed_not_mem_contextLines (fun content hmem => ?_) l hl
      have hcontent := List.mem_of_mem_drop (List.mem_of_mem_take hmem)
      first
        | exact (Text.unbroken_of_mem_lines hcontent).not_mem rfl
        | simp_all

/-- The lines around the offender's with the caret line: unmarked lines, the marked line and the caret, and what is below
them. -/
theorem context_eq {source content : Text} {n : Nat} (h : (lines source)[n]? = some content) (column : Int) :
    ∃ (above below : List Text) (width : Nat), (natText (n + 1)).length ≤ width ∧ (∀ l ∈ above, l.head? ≠ some '>') ∧
      context source (n + 1) column = above ++ (contextLine width (n + 1) column (n + 1) content ++ below) := by
  obtain ⟨hlt, -⟩ := List.getElem?_eq_some_iff.1 h
  have hne : lines source ≠ [] := List.ne_nil_of_length_pos (by omega)
  have hrange : ¬ (n + 1 < 1 ∨ (lines source).length < n + 1) := by omega
  generalize hfirst : max 1 (n + 1 - radius) = first
  generalize hlast : min (lines source).length (n + 1 + radius) = last
  have hshown : (((lines source).drop (first - 1)).take (last - first + 1))[n + 1 - first]? = some content := by
    rw [List.getElem?_take_of_lt (by omega), List.getElem?_drop, ← h]
    congr 1
    omega
  obtain ⟨before, after, heq, hlength⟩ := exists_append_cons_of_getElem? hshown
  refine ⟨(before.zipIdx first).flatMap fun (c, number) => contextLine (natText last).length (n + 1) column number c,
    (after.zipIdx (n + 1 + 1)).flatMap fun (c, number) => contextLine (natText last).length (n + 1) column number c,
    (natText last).length, length_natText_le (by omega), ?_, ?_⟩
  · intro l hl
    obtain ⟨⟨c, number⟩, hc, hl⟩ := List.mem_flatMap.1 hl
    obtain ⟨-, hlt, -⟩ := List.mem_zipIdx hc
    exact head?_contextLine (by omega) l hl
  · simp only [context, if_neg hrange, hfirst, hlast, heq]
    rw [List.zipIdx_append, List.zipIdx_cons, show first + before.length = n + 1 by omega, List.flatMap_append,
      List.flatMap_cons]

/-! ## Reports -/

theorem feed_not_mem_intText (n : Int) : '\n' ∉ intText n := by
  unfold intText
  split <;> simp [feed_not_mem_natText]

/-- The first line of a report. -/
def title (message : Text) (line : Nat) (column : Int) : Text :=
  "ParseError: ".toList ++ message ++ " (line ".toList ++ natText line ++ ", col ".toList ++ intText column ++ [')']

theorem feed_not_mem_title {message : Text} (h : '\n' ∉ message) (line : Nat) (column : Int) :
    '\n' ∉ title message line column := by
  have hline := feed_not_mem_natText line
  have hcolumn := feed_not_mem_intText column
  unfold title
  generalize natText line = number at hline ⊢
  generalize intText column = place at hcolumn ⊢
  simp [h, hline, hcolumn]

theorem head?_title (message : Text) (line : Nat) (column : Int) : (title message line column).head? ≠ some '>' := by
  unfold title
  generalize natText line = number
  generalize intText column = place
  simp

theorem error_eq {source message : Text} {position column : Int} {line : Nat}
    (hplace : lineAndColumn source position = (line, column)) :
    error source message (some position) =
      title message line column ++ '\n' :: Text.joinWith ['\n'] (context source line column) := by
  have hend : ")\n".toList = [')', '\n'] := by decide
  unfold error title
  simp only
  rw [hplace]
  simp only
  rw [hend]
  simp only [List.append_assoc, List.cons_append, List.nil_append]

/-- A report at a position is its title and the lines around the offender. -/
theorem splitLineFeeds_error {source message : Text} {position column : Int} {line : Nat}
    (hplace : lineAndColumn source position = (line, column)) (hmessage : '\n' ∉ message)
    (hne : context source line column ≠ []) :
    splitLineFeeds (error source message (some position)) =
      title message line column :: context source line column := by
  rw [error_eq hplace, Text.splitLineFeeds_feed (feed_not_mem_title hmessage line column),
    Text.splitLineFeeds_joinWith hne (feed_not_mem_context source line column)]

/-- A report at a position marks the line with the number of the line feeds before it. -/
theorem marks_error {source message line : Text} {p : Nat} (hmessage : '\n' ∉ message)
    (hline : (lines source)[(source.take p).count '\n']? = some line) :
    Marks (error source message (some p)) ((source.take p).count '\n' + 1) line (p - lineStart (source.take p)) := by
  generalize hn : (source.take p).count '\n' = n at hline ⊢
  generalize hstart : lineStart (source.take p) = start
  have hplace : lineAndColumn source p = (n + 1, (p : Int) - start + 1) := by
    simp [lineAndColumn, Slice.before, Slice.index, hn, hstart]
  have hcolumn : ((p : Int) - start + 1 - 1).toNat = p - start := by omega
  obtain ⟨above, below, width, hwidth, habove, hcontext⟩ := context_eq hline (p - start + 1)
  have hne : context source (n + 1) (p - start + 1) ≠ [] := by
    rw [hcontext]
    simp [contextLine]
  have htitle := head?_title message (n + 1) (p - start + 1)
  refine ⟨List.replicate (width - (natText (n + 1)).length) ' ', "  ".toList ++ List.replicate width ' ' ++ " | ".toList,
    by simp [List.mem_replicate], ?_, ?_⟩
  · simp only [List.length_append, List.length_replicate, String.length_toList]
    have hlengths : ("  ".length, "> ".length) = (2, 2) := rfl
    simp only [Prod.mk.injEq] at hlengths
    omega
  · rw [splitLineFeeds_error hplace hmessage hne, hcontext, contextLine, if_pos rfl, if_pos rfl, hcolumn, ← List.cons_append]
    refine marked?_append (List.forall_mem_cons.2 ⟨htitle, habove⟩) ?_
    rfl

/-! ## Rejected texts -/

/-- The brackets of the default grammar end no line, and neither do their quotations. -/
theorem brackets_default : ∀ p ∈ Grammar.default.brackets, Unbroken (p.1 ++ p.2) ∧
    '\n' ∉ Text.quoted p.1 ++ Text.quoted p.2 := by
  have hbrackets : ∀ p ∈ Grammar.default.brackets, (p.1 ++ p.2).all (fun c => !isLineEnd c) = true ∧
      '\n' ∉ Text.quoted p.1 ++ Text.quoted p.2 := by decide +kernel
  intro p hp
  obtain ⟨hends, hquoted⟩ := hbrackets p hp
  exact ⟨fun c hc => by simpa using List.all_eq_true.1 hends c hc, hquoted⟩

theorem feed_not_mem_message {bracket : Text} (h : '\n' ∉ Text.quoted bracket) :
    '\n' ∉ (Cause.unmatchedCloser bracket).message ∧ '\n' ∉ (Cause.unmatchedOpener bracket).message := by
  constructor
  · show '\n' ∉ "Unmatched closing bracket ".toList ++ Text.quoted bracket
    simp [h]
  · show '\n' ∉ "Unmatched opening bracket ".toList ++ Text.quoted bracket
    simp [h]

/-- The offending bracket ends no line, and neither does the message that names it. -/
theorem unbroken_of_offends {f : Failure} {b : Char} (h : f.Offends Grammar.default.brackets b) :
    isLineEnd b = false ∧ '\n' ∉ f.cause.message := by
  rcases h.cause with ⟨hcause, hmem⟩ | ⟨hcause, hmem⟩
  all_goals
    obtain ⟨⟨opener, closer⟩, hp, heq⟩ := List.mem_map.1 hmem
    obtain ⟨hends, hquoted⟩ := brackets_default _ hp
    obtain ⟨hopener, hcloser⟩ := Text.unbroken_append.1 hends
    rw [List.mem_append, not_or] at hquoted
    cases heq
    rw [hcause]
  · exact ⟨hcloser b (by simp), (feed_not_mem_message hquoted.2).1⟩
  · exact ⟨hopener b (by simp), (feed_not_mem_message hquoted.1).2⟩

/-- **The caret of a report** on a text that the default grammar rejects. The report marks a whole line of the text. When no
line before the offending bracket has a stray end, the marked line holds the bracket and the caret stands under it; otherwise
the marked line ends before the bracket. -/
theorem marks_failure (resolve : Text → Option Function) {t : Text} {f : Failure}
    (h : (Formula.parse ⟨.default, resolve⟩ t).failure = some f) :
    ∃ (b : Char) (p number column : Nat) (x line y : Text),
      (f.cause = .unmatchedCloser [b] ∨ f.cause = .unmatchedOpener [b]) ∧ f.position = p ∧ t[p]? = some b ∧
        t = x ++ line ++ y ∧ (lines t)[number]? = some line ∧ Marks (failure t f) (number + 1) line column ∧
        (strayEnds (t.take p) = 0 →
          p < x.length + line.length ∧ x.length + column = p ∧ aboveCaret? (failure t f) = some b) ∧
        (strayEnds (t.take p) ≠ 0 → x.length + line.length < p) := by
  obtain ⟨b, p, hoffends, hposition, hchar⟩ := offends_of_parseText rfl (Formula.parse_failure_eq_some_iff.1 h)
  obtain ⟨hb, hmessage⟩ := unbroken_of_offends hoffends
  obtain ⟨u, v, rfl, rfl⟩ := exists_append_cons_of_getElem? hchar
  have htake : (u ++ b :: v).take u.length = u := List.take_left
  have hnumber : u.count '\n' ≤ lineEnds u := Nat.le_add_right _ _
  obtain ⟨x, line, y, hxy, hline, hbefore, hat⟩ := exists_line rfl hb hnumber
  have hmarks : Marks (failure (u ++ b :: v) f) (u.count '\n' + 1) line (u.length - lineStart u) := by
    have hmarks := marks_error (p := u.length) hmessage (by rwa [htake])
    rwa [htake, ← hposition] at hmarks
  have hcause : f.cause = .unmatchedCloser [b] ∨ f.cause = .unmatchedOpener [b] :=
    hoffends.cause.imp And.left And.left
  refine ⟨b, u.length, u.count '\n', u.length - lineStart u, x, line, y, hcause, hposition, hchar, hxy, hline, hmarks, ?_, ?_⟩
  · rw [htake]
    intro hstray
    obtain ⟨hle, hlt, hstart⟩ := hat (by rw [lineEnds, hstray, Nat.add_zero])
    have hcolumn : x.length + (u.length - lineStart u) = u.length := by
      rw [← hstart hstray]
      omega
    refine ⟨hlt, hcolumn, ?_⟩
    generalize u.length - lineStart u = column at hmarks hcolumn ⊢
    have hshift : (x ++ line ++ y)[x.length + column]? = (line)[column]? := by
      rw [List.append_assoc, List.getElem?_append_right (Nat.le_add_right _ _), Nat.add_sub_cancel_left,
        List.getElem?_append_left (by omega)]
    rw [hmarks.aboveCaret?, ← hshift, ← hxy, hcolumn, hchar]
  · rw [htake]
    intro hstray
    exact hbefore (by unfold lineEnds; omega)

theorem marks_failure_secondLine :
    ∃ f, (Formula.parse .default "1+\r\n [2".toList).failure = some f ∧
      aboveCaret? (failure "1+\r\n [2".toList f) = some '[' := by
  have hposition : (Formula.parse .default "1+\r\n [2".toList).failure.map (·.position) = some 5 := by decide +kernel
  obtain ⟨f, hf, hfive⟩ := Option.map_eq_some_iff.1 hposition
  obtain ⟨b, p, _, _, x, line, y, -, hp, hchar, -, -, -, hcaret, -⟩ := marks_failure Language.default.resolve hf
  obtain rfl : p = 5 := by omega
  obtain rfl : '[' = b := Option.some.inj hchar
  exact ⟨f, hf, (hcaret (by decide)).2.2⟩

/-- A carriage return alone ends the marked line before the offender. The caret stands beyond it, under nothing. -/
theorem caret_carriageReturn :
    (Formula.parse .default "1\r)".toList).failure.map (fun f => aboveCaret? (failure "1\r)".toList f)) = some none := by
  decide +kernel

end FormulaLang.Report
