import FormulaLang.Text.Lines

/-!
# Lines of a text

A text is its last line, or a line with its end and a text behind it (`Text.line_induction`). A line ends at a line feed, with
or without a carriage return before it, or else it has a stray end (`Text.strayEnds`). The parts between line feeds put
together with line feeds are these parts again (`Text.splitLineFeeds_joinWith`).
-/

namespace FormulaLang.Text

/-- No line ends in a text. -/
def Unbroken (t : Text) : Prop :=
  ∀ c ∈ t, isLineEnd c = false

/-- The text `e`, with `rest` behind it, ends one line: a carriage return and a line feed together, or a single character. -/
inductive IsEnding : Text → Text → Prop
  | pair (rest : Text) : IsEnding ['\r', '\n'] rest
  | single (c : Char) (rest : Text) (hend : isLineEnd c = true) (hpair : c = '\r' → rest.head? ≠ some '\n') :
      IsEnding [c] rest

/-- The number of lines that do not end at a line feed. -/
def strayEnds : Text → Nat
  | [] => 0
  | '\r' :: '\n' :: rest => strayEnds rest
  | c :: rest => (if isLineEnd c && c != '\n' then 1 else 0) + strayEnds rest

/-- The number of lines that end in a text. -/
def lineEnds (t : Text) : Nat :=
  t.count '\n' + t.strayEnds

theorem Unbroken.not_mem {t : Text} (h : t.Unbroken) {c : Char} (hc : isLineEnd c = true) : c ∉ t := by
  intro hmem
  rw [h c hmem] at hc
  cases hc

theorem unbroken_cons {c : Char} {t : Text} : Unbroken (c :: t) ↔ isLineEnd c = false ∧ t.Unbroken :=
  List.forall_mem_cons

theorem unbroken_append {s t : Text} : Unbroken (s ++ t) ↔ s.Unbroken ∧ t.Unbroken :=
  List.forall_mem_append

namespace IsEnding

variable {e rest : Text}

theorem isLineEnd (h : IsEnding e rest) : ∀ c ∈ e, isLineEnd c = true := by
  cases h with
  | pair => simp [Text.isLineEnd]
  | single c _ hend => simpa using hend

theorem ne_nil (h : IsEnding e rest) : e ≠ [] := by
  cases h <;> simp

/-- What ends a line before a text ends it before the front of that text. -/
theorem of_append {front back : Text} (h : IsEnding e (front ++ back)) : IsEnding e front := by
  cases h with
  | pair => exact .pair front
  | single c _ hend hpair =>
    refine .single c front hend fun hc hfront => hpair hc ?_
    rw [List.head?_append, hfront]
    rfl

end IsEnding

/-! ## One line at a time -/

/-- **Induction over lines**. -/
@[elab_as_elim]
theorem line_induction {motive : Text → Prop} (last : ∀ t, t.Unbroken → motive t)
    (ending : ∀ line e rest, line.Unbroken → IsEnding e rest → motive rest → motive (line ++ e ++ rest)) (t : Text) :
    motive t := by
  suffices h : ∀ line : Text, line.Unbroken → motive (line ++ t) from h [] (by simp [Unbroken])
  fun_induction strayEnds t with
  | case1 => exact fun line hline => by simpa using last line hline
  | case2 rest ih =>
    intro line hline
    have hrest : motive rest := ih [] (by simp [Unbroken])
    simpa using ending line _ rest hline (.pair rest) hrest
  | case3 c rest hpair ih =>
    intro line hline
    cases hc : isLineEnd c with
    | true =>
      have hrest : motive rest := ih [] (by simp [Unbroken])
      refine (List.append_assoc line [c] rest) ▸ ending line [c] rest hline (.single c rest hc ?_) hrest
      rintro rfl hhead
      cases rest with
      | nil => cases hhead
      | cons d rest =>
        cases hhead
        exact hpair rest rfl rfl
    | false =>
      have hmore : (line ++ [c]).Unbroken := unbroken_append.2 ⟨hline, unbroken_cons.2 ⟨hc, by simp [Unbroken]⟩⟩
      have hrest : motive (line ++ [c] ++ rest) := ih (line ++ [c]) hmore
      rwa [List.append_assoc] at hrest

section Ending

variable {line e rest : Text}

theorem linesFrom_unbroken (hline : line.Unbroken) (acc : Text) :
    linesFrom acc (line ++ rest) = linesFrom (line.reverse ++ acc) rest := by
  induction line generalizing acc with
  | nil => rfl
  | cons c line ih =>
    obtain ⟨hc, hline⟩ := unbroken_cons.1 hline
    have hne : c ≠ '\r' := by
      rintro rfl
      cases hc
    have hstep : linesFrom acc (c :: (line ++ rest)) = linesFrom (c :: acc) (line ++ rest) := by
      rw [linesFrom]
      · simp [hc]
      · exact fun _ hr => absurd hr hne
    rw [List.cons_append, hstep, ih hline]
    simp

theorem lines_unbroken (hline : line.Unbroken) : lines line = if line = [] then [] else [line] := by
  have h : linesFrom [] (line ++ []) = linesFrom (line.reverse ++ []) [] := linesFrom_unbroken hline []
  rw [List.append_nil, List.append_nil] at h
  rw [lines, h, linesFrom]
  simp

theorem lines_ending (hline : line.Unbroken) (he : IsEnding e rest) : lines (line ++ e ++ rest) = line :: lines rest := by
  rw [lines, List.append_assoc, linesFrom_unbroken hline, List.append_nil]
  cases he with
  | pair => simp [linesFrom, lines]
  | single c _ hend hpair =>
    rw [List.singleton_append, linesFrom]
    · simp [hend, lines]
    · rintro rest' rfl rfl
      exact hpair rfl rfl

theorem strayEnds_unbroken (hline : line.Unbroken) : strayEnds (line ++ rest) = strayEnds rest := by
  induction line with
  | nil => rfl
  | cons c line ih =>
    obtain ⟨hc, hline⟩ := unbroken_cons.1 hline
    have hne : c ≠ '\r' := by
      rintro rfl
      cases hc
    rw [List.cons_append, strayEnds, ih hline]
    · simp [hc]
    · exact fun _ hr => absurd hr hne

theorem count_unbroken (hline : line.Unbroken) : (line ++ rest).count '\n' = rest.count '\n' := by
  rw [List.count_append, List.count_eq_zero_of_not_mem (hline.not_mem rfl), Nat.zero_add]

/-- A line ends at a line feed, which is the last character of its end, or it has a stray end. -/
theorem ending_cases (hline : line.Unbroken) (he : IsEnding e rest) :
    (e.getLast? = some '\n' ∧ strayEnds (line ++ e ++ rest) = strayEnds rest ∧
        (line ++ e ++ rest).count '\n' = rest.count '\n' + 1) ∨
      (strayEnds (line ++ e ++ rest) = strayEnds rest + 1 ∧ (line ++ e ++ rest).count '\n' = rest.count '\n') := by
  rw [List.append_assoc, strayEnds_unbroken hline, count_unbroken hline]
  cases he with
  | pair => exact .inl ⟨rfl, by simp [strayEnds], by simp⟩
  | single c _ hend hpair =>
    have hstray : strayEnds ([c] ++ rest) = (if isLineEnd c && c != '\n' then 1 else 0) + strayEnds rest := by
      rw [List.singleton_append, strayEnds]
      rintro rest' rfl rfl
      exact hpair rfl rfl
    rw [hstray]
    by_cases hc : c = '\n'
    · subst hc
      exact .inl ⟨rfl, by simp, by simp⟩
    · exact .inr ⟨by simp [hend, hc, Nat.add_comm], by simp [hc]⟩

theorem lineEnds_ending (hline : line.Unbroken) (he : IsEnding e rest) :
    lineEnds (line ++ e ++ rest) = lineEnds rest + 1 := by
  unfold lineEnds
  rcases ending_cases hline he with ⟨-, hstray, hcount⟩ | ⟨hstray, hcount⟩ <;> omega

theorem lineEnds_unbroken (hline : line.Unbroken) : lineEnds line = 0 := by
  have hcount : (line ++ []).count '\n' = 0 := count_unbroken hline
  have hstray : strayEnds (line ++ []) = 0 := strayEnds_unbroken hline
  rw [List.append_nil] at hcount hstray
  rw [lineEnds, hcount, hstray]

end Ending

theorem unbroken_of_mem_lines {t line : Text} (h : line ∈ lines t) : line.Unbroken := by
  induction t using line_induction with
  | last t ht =>
    rw [lines_unbroken ht] at h
    split at h
    · cases h
    · rwa [List.mem_singleton.1 h]
  | ending first e rest hfirst he ih =>
    rw [lines_ending hfirst he] at h
    rcases List.mem_cons.1 h with rfl | h
    · exact hfirst
    · exact ih h

/-- A character that ends no line stands in the first line, or behind the end of it. -/
theorem line_cases {line e rest u v : Text} {b : Char} (hb : isLineEnd b = false) (he : IsEnding e rest)
    (h : line ++ e ++ rest = u ++ b :: v) :
    (∃ w, line = u ++ b :: w) ∨ ∃ u', u = line ++ e ++ u' ∧ rest = u' ++ b :: v ∧ IsEnding e u' := by
  have hnot : b ∉ e := by
    intro hmem
    rw [he.isLineEnd b hmem] at hb
    cases hb
  rw [List.append_assoc] at h
  rcases List.append_eq_append_iff.1 h with ⟨m, rfl, hm⟩ | ⟨m, rfl, hm⟩
  · rcases List.append_eq_append_iff.1 hm with ⟨u', rfl, rfl⟩ | ⟨m', rfl, hm'⟩
    · exact .inr ⟨u', (List.append_assoc line e u').symm, rfl, he.of_append⟩
    · cases m' with
      | nil =>
        obtain rfl : rest = b :: v := hm'.symm
        rw [List.append_nil] at he ⊢
        exact .inr ⟨[], by simp, rfl, he.of_append⟩
      | cons c m' =>
        cases hm'
        simp at hnot
  · cases m with
    | nil =>
      cases e with
      | nil => exact absurd rfl he.ne_nil
      | cons c e =>
        cases hm
        simp at hnot
    | cons c m =>
      cases hm
      exact .inl ⟨m, rfl⟩

/-! ## Between line feeds -/

theorem splitLineFeeds_ne_nil (t : Text) : splitLineFeeds t ≠ [] := by
  cases t with
  | nil => simp [splitLineFeeds]
  | cons c t =>
    rw [splitLineFeeds]
    split
    · simp
    · split <;> simp

theorem splitLineFeeds_line {line : Text} (h : '\n' ∉ line) : splitLineFeeds line = [line] := by
  induction line with
  | nil => rfl
  | cons c line ih =>
    obtain ⟨hc, hline⟩ : '\n' ≠ c ∧ '\n' ∉ line := by simpa using h
    simp [splitLineFeeds, ih hline, Ne.symm hc]

theorem splitLineFeeds_feed {line : Text} (h : '\n' ∉ line) (rest : Text) :
    splitLineFeeds (line ++ '\n' :: rest) = line :: splitLineFeeds rest := by
  induction line with
  | nil =>
    rw [List.nil_append, splitLineFeeds]
    split
    · rename_i hnil
      exact absurd hnil (splitLineFeeds_ne_nil rest)
    · rename_i hsplit
      simp [hsplit]
  | cons c line ih =>
    obtain ⟨hc, hline⟩ : '\n' ≠ c ∧ '\n' ∉ line := by simpa using h
    simp [splitLineFeeds, ih hline, Ne.symm hc]

/-- **Lines put together** with line feeds are split into these lines. -/
theorem splitLineFeeds_joinWith {ls : List Text} (hne : ls ≠ []) (h : ∀ line ∈ ls, '\n' ∉ line) :
    splitLineFeeds (joinWith ['\n'] ls) = ls := by
  induction ls with
  | nil => exact absurd rfl hne
  | cons line ls ih =>
    obtain ⟨hline, hls⟩ := List.forall_mem_cons.1 h
    cases ls with
    | nil => exact splitLineFeeds_line hline
    | cons next ls =>
      rw [joinWith, List.append_assoc, List.singleton_append, splitLineFeeds_feed hline, ih (by simp) hls]
      simp

end FormulaLang.Text
