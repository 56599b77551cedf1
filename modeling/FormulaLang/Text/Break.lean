import FormulaLang.Text.CharSet

/-!
# Breaking a text

The text before and after the first or the last occurrence of a character (`breakFirst`, `breakLast`) or of another text
(`splitFirst`, `splitLast`). The empty text occurs nowhere.
-/

namespace FormulaLang.Text

/-- The text before the first occurrence of a character, and the text after it. -/
def breakFirst (mark : Char) : Text → Option (Text × Text)
  | [] => none
  | c :: rest =>
    if c == mark then some ([], rest)
    else (breakFirst mark rest).map fun (before, after) => (c :: before, after)

/-- The text before the last occurrence of a character, and the text after it. -/
def breakLast (mark : Char) : Text → Option (Text × Text)
  | [] => none
  | c :: rest =>
    match breakLast mark rest with
    | some (before, after) => some (c :: before, after)
    | none => if c == mark then some ([], rest) else none

theorem breakFirst_eq_some {mark : Char} {t before after : Text} (h : breakFirst mark t = some (before, after)) :
    t = before ++ mark :: after ∧ mark ∉ before := by
  induction t generalizing before with
  | nil => simp [breakFirst] at h
  | cons c rest ih =>
    rw [breakFirst] at h
    split at h
    · cases h
      simp_all
    · rename_i hc
      obtain ⟨⟨b, a⟩, hb, hba⟩ := Option.map_eq_some_iff.1 h
      cases hba
      obtain ⟨rfl, hnot⟩ := ih hb
      exact ⟨rfl, by simpa [hnot] using fun e => hc (by simp [e])⟩

theorem breakFirst_eq_none {mark : Char} {t : Text} : breakFirst mark t = none ↔ mark ∉ t := by
  induction t with
  | nil => simp [breakFirst]
  | cons c rest ih =>
    by_cases h : c = mark
    · simp [breakFirst, h]
    · simp [breakFirst, h, ih, Ne.symm h]

theorem breakFirst_append {mark : Char} {x : Text} (hx : mark ∉ x) (y : Text) :
    breakFirst mark (x ++ mark :: y) = some (x, y) := by
  induction x with
  | nil => simp [breakFirst]
  | cons d x ih =>
    rw [List.mem_cons, not_or] at hx
    simp [breakFirst, Ne.symm hx.1, ih hx.2]

theorem breakLast_eq_none {mark : Char} {t : Text} : breakLast mark t = none ↔ mark ∉ t := by
  induction t with
  | nil => simp [breakLast]
  | cons c rest ih =>
    rw [breakLast]
    split
    · rename_i hb
      have : mark ∈ rest := Classical.byContradiction fun hn => by simp [ih.2 hn] at hb
      simp [this]
    · rename_i hb
      by_cases h : c = mark
      · simp [h]
      · simp [h, ih.1 hb, Ne.symm h]

theorem breakLast_eq_some {mark : Char} {t before after : Text} (h : breakLast mark t = some (before, after)) :
    t = before ++ mark :: after ∧ mark ∉ after := by
  induction t generalizing before with
  | nil => simp [breakLast] at h
  | cons c rest ih =>
    rw [breakLast] at h
    split at h
    · rename_i b a hb
      cases h
      obtain ⟨rfl, hnot⟩ := ih hb
      exact ⟨rfl, hnot⟩
    · rename_i hb
      split at h
      · cases h
        exact ⟨by simp_all, breakLast_eq_none.1 hb⟩
      · cases h

theorem breakLast_append {mark : Char} (x : Text) {y : Text} (hy : mark ∉ y) :
    breakLast mark (x ++ mark :: y) = some (x, y) := by
  induction x with
  | nil => simp [breakLast, breakLast_eq_none.2 hy]
  | cons d x ih => simp [breakLast, ih]

/-! ## Occurrences of a text -/

/-- The text behind `mark` at the front of a text. -/
def strip? (mark t : Text) : Option Text :=
  if !mark.isEmpty && mark.isPrefixOf t then some (t.drop mark.length) else none

/-- The text before the first occurrence of `mark`, and the text after it. -/
def splitFirst (mark : Text) : Text → Option (Text × Text)
  | [] => none
  | c :: rest =>
    match strip? mark (c :: rest) with
    | some after => some ([], after)
    | none => (splitFirst mark rest).map fun (before, after) => (c :: before, after)

/-- The text before the last occurrence of `mark`, and the text after it. -/
def splitLast (mark : Text) : Text → Option (Text × Text)
  | [] => none
  | c :: rest =>
    match splitLast mark rest with
    | some (before, after) => some (c :: before, after)
    | none => (strip? mark (c :: rest)).map fun after => ([], after)

theorem strip?_eq_some {mark t after : Text} (h : strip? mark t = some after) : t = mark ++ after ∧ mark ≠ [] := by
  unfold strip? at h
  split at h
  · rename_i hm
    obtain ⟨hne, hp⟩ := Bool.and_eq_true_iff.1 hm
    obtain ⟨rest, rfl⟩ := List.isPrefixOf_iff_prefix.1 hp
    cases h
    exact ⟨by simp, by simpa using hne⟩
  · cases h

/-- A split keeps the text. -/
theorem splitFirst_eq_some {mark t before after : Text} (h : splitFirst mark t = some (before, after)) :
    t = before ++ mark ++ after ∧ mark ≠ [] := by
  induction t generalizing before with
  | nil => cases h
  | cons c rest ih =>
    rw [splitFirst] at h
    split at h
    · rename_i hs
      cases h
      simpa using strip?_eq_some hs
    · obtain ⟨⟨b, a⟩, hb, hba⟩ := Option.map_eq_some_iff.1 h
      cases hba
      obtain ⟨rfl, hne⟩ := ih hb
      exact ⟨by simp, hne⟩

/-- A split keeps the text. -/
theorem splitLast_eq_some {mark t before after : Text} (h : splitLast mark t = some (before, after)) :
    t = before ++ mark ++ after ∧ mark ≠ [] := by
  induction t generalizing before with
  | nil => cases h
  | cons c rest ih =>
    rw [splitLast] at h
    split at h
    · rename_i hs
      cases h
      obtain ⟨rfl, hne⟩ := ih hs
      exact ⟨by simp, hne⟩
    · obtain ⟨a, ha, hba⟩ := Option.map_eq_some_iff.1 h
      cases hba
      simpa using strip?_eq_some ha

/-- A text of one character occurs where the character does. -/
theorem splitFirst_singleton (c : Char) (t : Text) : splitFirst [c] t = breakFirst c t := by
  induction t with
  | nil => rfl
  | cons d rest ih =>
    by_cases h : d = c
    · simp [splitFirst, strip?, breakFirst, h]
    · simp [splitFirst, strip?, breakFirst, h, Ne.symm h, ih]

theorem splitLast_singleton (c : Char) (t : Text) : splitLast [c] t = breakLast c t := by
  induction t with
  | nil => rfl
  | cons d rest ih =>
    by_cases h : d = c
    · simp [splitLast, strip?, breakLast, h, ih]
    · simp [splitLast, strip?, breakLast, h, Ne.symm h, ih]

end FormulaLang.Text
