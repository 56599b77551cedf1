import FormulaLang.Proofs.Literal.Parsed
import Mathlib.Data.List.DropRight

/-!
# Squeezed text

White space in raw text counts in one place alone, between two characters of operators, which would be another symbol without
it. A squeezed text has one blank in such a place and no other white space (`Text.squeeze`). Brackets and commas divide it as
they divide the text itself (`Text.squeeze_append_mark`), and it holds the same symbols (`Element.isSymbol_squeeze`).
-/

namespace FormulaLang

open Nesting (isMark isMark_of_isBlank)

namespace Text

/-- What stands in front of a character of raw text. -/
inductive Front where
  /-- Nothing that the character could run together with. -/
  | free
  /-- A character of an operator. -/
  | joined
  /-- White space behind a character of an operator. -/
  | parted
  deriving DecidableEq, Repr

namespace Front

/-- What stands in front of the text behind a character. -/
def next (f : Front) (c : Char) : Front :=
  if isBlank c then (if f = free then free else parted)
  else if isMark c then free
  else joined

/-- What a squeezed text has in the place of a character. -/
def text (f : Front) (c : Char) : Text :=
  if isBlank c then []
  else if isMark c = false ∧ f = parted then [' ', c]
  else [c]

variable {f : Front} {c : Char}

theorem text_of_isBlank (h : isBlank c = true) : f.text c = [] := by
  rw [text, if_pos h]

theorem not_isBlank_of_isMark (h : isMark c = true) : isBlank c = false :=
  Bool.eq_false_iff.2 fun hc => by rw [isMark_of_isBlank hc] at h; cases h

theorem text_of_isMark (h : isMark c = true) : f.text c = [c] := by
  simp [text, not_isBlank_of_isMark h, h]

theorem next_of_isMark (h : isMark c = true) : f.next c = free := by
  simp [next, not_isBlank_of_isMark h, h]

theorem next_free_of_isBlank (h : isBlank c = true) : free.next c = free := by
  simp [next, h]

theorem text_of_ne_parted (hf : f ≠ parted) (hc : isBlank c = false) : f.text c = [c] := by
  simp [text, hc, hf]

theorem next_of_symbol (hc : isBlank c = false) (hm : isMark c = false) : f.next c = joined := by
  simp [next, hc, hm]

theorem next_joined_of_isBlank (h : isBlank c = true) : joined.next c = parted := by
  simp [next, h]

theorem next_ne_joined_of_isBlank (h : isBlank c = true) : f.next c ≠ joined := by
  rw [next, if_pos h]
  split <;> simp

/-- White space behind white space, or in front of everything, makes no difference. -/
theorem next_of_isBlank (hf : f ≠ joined) (h : isBlank c = true) : f.next c = f := by
  cases f <;> simp_all [next]

/-- White space in front of a character makes no difference to what stands in front of the text behind it. -/
theorem next_next_of_isBlank (h : isBlank c = true) (f : Front) (d : Char) : (f.next c).next d = f.next d := by
  cases hd : isBlank d with
  | true => cases f <;> simp [next, h, hd]
  | false => simp [next, hd]

/-- What a character leaves behind ends with it. -/
theorem text_of_not_isBlank (hc : isBlank c = false) : ∃ x, f.text c = x ++ [c] := by
  rw [text, if_neg (by simp [hc])]
  split
  · exact ⟨[' '], rfl⟩
  · exact ⟨[], rfl⟩

theorem mem_text_iff {d : Char} (hd : isMark d = true) : d ∈ f.text c ↔ d = c := by
  cases hc : isBlank c with
  | true =>
    rw [text_of_isBlank hc, iff_false_left List.not_mem_nil]
    rintro rfl
    rw [not_isBlank_of_isMark hd] at hc
    cases hc
  | false =>
    have hspace : d ≠ ' ' := by
      rintro rfl
      exact absurd hd (by decide)
    rw [text, if_neg (by simp [hc])]
    split <;> simp [hspace]

end Front

/-- A text without the white space that does not count, behind what stands in front of it. -/
def squeezeFrom : Front → Text → Text
  | _, [] => []
  | f, c :: t => f.text c ++ squeezeFrom (f.next c) t

/-- A text without the white space that does not count. -/
def squeeze (t : Text) : Text :=
  squeezeFrom .free t

variable {f : Front} {c : Char}

theorem squeezeFrom_append (f : Front) (s t : Text) :
    squeezeFrom f (s ++ t) = squeezeFrom f s ++ squeezeFrom (s.foldl Front.next f) t := by
  induction s generalizing f with
  | nil => rfl
  | cons c s ih => rw [List.cons_append, squeezeFrom, ih, squeezeFrom, List.append_assoc, List.foldl_cons]

theorem squeezeFrom_of_isMark (h : isMark c = true) (t : Text) : squeezeFrom f (c :: t) = c :: squeeze t := by
  rw [squeezeFrom, Front.text_of_isMark h, Front.next_of_isMark h]
  rfl

/-- **A bracket or comma** divides the squeezed text. -/
theorem squeeze_append_mark (h : isMark c = true) (x y : Text) : squeeze (x ++ c :: y) = squeeze x ++ c :: squeeze y := by
  rw [squeeze, squeezeFrom_append, squeezeFrom_of_isMark h]
  rfl

/-- Nothing is left of white space alone. -/
theorem squeezeFrom_eq_nil_iff {t : Text} : squeezeFrom f t = [] ↔ allBlank t = true := by
  induction t generalizing f with
  | nil => exact iff_of_true rfl rfl
  | cons c t ih =>
    have hcons : allBlank (c :: t) = true ↔ isBlank c = true ∧ allBlank t = true := by simp [allBlank]
    rw [squeezeFrom, List.append_eq_nil_iff, ih, hcons]
    refine and_congr_left fun _ => ?_
    cases hc : isBlank c with
    | true => exact iff_of_true (Front.text_of_isBlank hc) rfl
    | false =>
      obtain ⟨x, hx⟩ := Front.text_of_not_isBlank (f := f) hc
      simp [hx]

theorem squeeze_eq_nil_iff {t : Text} : squeeze t = [] ↔ allBlank t = true :=
  squeezeFrom_eq_nil_iff

theorem mem_squeezeFrom_iff (hc : isMark c = true) {t : Text} : c ∈ squeezeFrom f t ↔ c ∈ t := by
  induction t generalizing f with
  | nil => rfl
  | cons d t ih => rw [squeezeFrom, List.mem_append, ih, Front.mem_text_iff hc, List.mem_cons]

theorem mem_squeeze_iff (hc : isMark c = true) {t : Text} : c ∈ squeeze t ↔ c ∈ t :=
  mem_squeezeFrom_iff hc

/-! ## White space at the ends -/

theorem squeeze_blank_append {b : Text} (hb : allBlank b = true) (t : Text) : squeeze (b ++ t) = squeeze t := by
  induction b with
  | nil => rfl
  | cons c b ih =>
    rw [allBlank, List.all_cons, Bool.and_eq_true] at hb
    rw [List.cons_append, squeeze, squeezeFrom, Front.text_of_isBlank hb.1, Front.next_free_of_isBlank hb.1]
    exact ih hb.2

theorem squeeze_append_blank {b : Text} (hb : allBlank b = true) (t : Text) : squeeze (t ++ b) = squeeze t := by
  rw [squeeze, squeezeFrom_append, squeezeFrom_eq_nil_iff.2 hb, List.append_nil, squeeze]

theorem squeeze_trimLeft (t : Text) : squeeze (trimLeft t) = squeeze t := by
  conv_rhs => rw [← List.takeWhile_append_dropWhile (p := isBlank) (l := t)]
  rw [squeeze_blank_append List.all_takeWhile, trimLeft]

theorem squeeze_trimRight (t : Text) : squeeze (trimRight t) = squeeze t := by
  have hblank : allBlank (Separator.trailingBlanks t) = true := by
    rw [Separator.trailingBlanks, allBlank, List.all_reverse]
    exact List.all_takeWhile
  conv_rhs => rw [← Separator.trimRight_append_trailingBlanks t]
  rw [squeeze_append_blank hblank]

theorem head?_squeeze (t : Text) : ∀ c ∈ (squeeze t).head?, isBlank c = false := by
  induction t with
  | nil => simp [squeeze, squeezeFrom]
  | cons d t ih =>
    rw [squeeze, squeezeFrom]
    cases hd : isBlank d with
    | true =>
      rw [Front.text_of_isBlank hd, Front.next_free_of_isBlank hd]
      exact ih
    | false =>
      rw [Front.text_of_ne_parted (by simp) hd]
      intro c hc
      cases Option.mem_some_iff.1 hc
      exact hd

theorem getLast?_squeezeFrom (t : Text) : ∀ c ∈ (squeezeFrom f t).getLast?, isBlank c = false := by
  induction t generalizing f with
  | nil => simp [squeezeFrom]
  | cons d t ih =>
    intro c hc
    rw [squeezeFrom, List.getLast?_append] at hc
    cases hlast : (squeezeFrom (f.next d) t).getLast? with
    | some e =>
      rw [hlast, Option.some_or] at hc
      exact ih c (hlast.trans hc)
    | none =>
      rw [hlast, Option.none_or] at hc
      cases hd : isBlank d with
      | true =>
        rw [Front.text_of_isBlank hd] at hc
        cases hc
      | false =>
        obtain ⟨x, hx⟩ := Front.text_of_not_isBlank (f := f) hd
        rw [hx, List.getLast?_concat, Option.mem_some_iff] at hc
        rwa [← hc]

theorem trimLeft_squeeze (t : Text) : trimLeft (squeeze t) = squeeze t :=
  dropWhile_blank (b := []) rfl (head?_squeeze t)

theorem trimRight_squeeze (t : Text) : trimRight (squeeze t) = squeeze t := by
  have hlast : ∀ c ∈ (squeeze t).reverse.head?, isBlank c = false := by
    rw [List.head?_reverse]
    exact getLast?_squeezeFrom t
  have hdrop : (squeeze t).reverse.dropWhile isBlank = (squeeze t).reverse := dropWhile_blank (b := []) rfl hlast
  rw [trimRight, hdrop, List.reverse_reverse]

theorem trim_trimLeft (t : Text) : trim (trimLeft t) = trim t := by
  rw [trim, trim, trimLeft, trimLeft, List.dropWhile_idempotent]

/-- A squeezed text has no white space at its ends. -/
theorem trim_squeeze (t : Text) : trim (squeeze t) = squeeze t := by
  rw [trim, trimLeft_squeeze, trimRight_squeeze]

theorem allBlank_squeeze (t : Text) : allBlank (squeeze t) = allBlank t := by
  rw [Bool.eq_iff_iff, ← squeeze_eq_nil_iff (t := t)]
  constructor
  · intro h
    rw [← trimLeft_squeeze, trimLeft, List.dropWhile_eq_nil_iff]
    exact List.all_eq_true.1 h
  · intro h
    rw [h]
    rfl

/-! ## Symbols -/

/-- No white space, brackets and commas. -/
def Plain (s : Text) : Prop :=
  ∀ c ∈ s, isBlank c = false ∧ isMark c = false

/-- A text without white space, brackets and commas stays as it is. -/
theorem Plain.squeezeFrom_eq {s : Text} (hs : Plain s) (hf : f ≠ .parted) :
    squeezeFrom f s = s := by
  induction s generalizing f with
  | nil => rfl
  | cons c s ih =>
    rw [Plain, List.forall_mem_cons] at hs
    rw [squeezeFrom, Front.text_of_ne_parted hf hs.1.1, Front.next_of_symbol hs.1.1 hs.1.2, ih hs.2 (by simp)]
    rfl

/-- Behind white space that parts it from a symbol, nothing is plain but white space. -/
theorem Plain.squeezeFrom_parted {t : Text} (h : Plain (squeezeFrom .parted t)) : allBlank t = true := by
  induction t with
  | nil => rfl
  | cons c t ih =>
    rw [squeezeFrom] at h
    cases hc : isBlank c with
    | true =>
      rw [Front.text_of_isBlank hc, List.nil_append, Front.next_of_isBlank (by simp) hc] at h
      simpa [allBlank, hc] using ih h
    | false =>
      -- a blank or a mark would be left
      cases hm : isMark c with
      | true => cases hm.symm.trans (h c (by simp [Front.text_of_isMark hm])).2
      | false => exact absurd (h ' ' (by simp [Front.text, hc, hm])).1 (by decide)

/-- Behind a character of a symbol, plain text is followed by white space alone. -/
theorem Plain.squeezeFrom_joined {t : Text} (h : Plain (squeezeFrom .joined t)) :
    ∃ a, allBlank a = true ∧ t = squeezeFrom .joined t ++ a := by
  induction t with
  | nil => exact ⟨[], rfl, rfl⟩
  | cons c t ih =>
    rw [squeezeFrom] at h ⊢
    cases hc : isBlank c with
    | true =>
      rw [Front.text_of_isBlank hc, List.nil_append, Front.next_joined_of_isBlank hc] at h ⊢
      have hblank : allBlank t = true := h.squeezeFrom_parted
      exact ⟨c :: t, by simpa [allBlank, hc] using hblank, by rw [squeezeFrom_eq_nil_iff.2 hblank]; rfl⟩
    | false =>
      rw [Front.text_of_ne_parted (by simp) hc] at h ⊢
      have hm : isMark c = false := (h c (by simp)).2
      rw [Front.next_of_symbol hc hm] at h ⊢
      obtain ⟨a, ha, ht⟩ := ih fun d hd => h d (List.mem_append_right _ hd)
      exact ⟨a, ha, by rw [List.append_assoc, ← ht]; rfl⟩

/-- A squeezed text that is plain is the whole text but for the white space around it. -/
theorem Plain.exists_of_squeeze {t : Text} (h : Plain (squeeze t)) :
    ∃ b a, allBlank b = true ∧ allBlank a = true ∧ t = b ++ squeeze t ++ a := by
  have hleft : allBlank (t.takeWhile isBlank) = true := List.all_takeWhile
  rw [← squeeze_trimLeft] at h ⊢
  obtain ⟨a, ha, ht⟩ : ∃ a, allBlank a = true ∧ trimLeft t = squeeze (trimLeft t) ++ a := by
    cases hrest : trimLeft t with
    | nil => exact ⟨[], rfl, rfl⟩
    | cons c rest =>
      have hc : isBlank c = false := by
        rw [trimLeft] at hrest
        have hhead := List.head_dropWhile_not isBlank (l := t) (by simp [hrest])
        simpa only [hrest, List.head_cons] using hhead
      rw [hrest, squeeze, squeezeFrom, Front.text_of_ne_parted (by simp) hc] at h
      have hm : isMark c = false := (h c (by simp)).2
      rw [Front.next_of_symbol hc hm] at h
      have hrest' : Plain (squeezeFrom .joined rest) := fun d hd => h d (List.mem_append_right _ hd)
      obtain ⟨a, ha, ht⟩ := hrest'.squeezeFrom_joined
      refine ⟨a, ha, ?_⟩
      rw [squeeze, squeezeFrom, Front.text_of_ne_parted (by simp) hc, Front.next_of_symbol hc hm, List.append_assoc, ← ht]
      rfl
  refine ⟨_, a, hleft, ha, ?_⟩
  rw [List.append_assoc, ← ht, trimLeft, List.takeWhile_append_dropWhile]

end Text

namespace IsSymbol

variable {s t : Text}

theorem squeeze_eq (hs : IsSymbol s) : Text.squeeze s = s :=
  Text.Plain.squeezeFrom_eq (fun c hc => ⟨hs.not_isBlank c hc, (hs.plain c hc).2⟩) (by simp)

/-- A symbol in white space is squeezed to the symbol. -/
theorem squeeze_of_trim (hs : IsSymbol s) (h : Text.trim t = s) : Text.squeeze t = s := by
  rw [← hs.squeeze_eq, ← h, Text.trim, Text.squeeze_trimRight, Text.squeeze_trimLeft]

/-- The squeezed text of a symbol in white space is trimmed to the symbol. -/
theorem trim_squeeze (h : IsSymbol (Text.trim t)) : Text.trim (Text.squeeze t) = Text.trim t := by
  rw [Text.trim_squeeze, h.squeeze_of_trim rfl]

theorem isSymbol_iff (hs : IsSymbol s) : Element.isSymbol s t = true ↔ Text.squeeze t = s := by
  constructor
  · exact fun h => hs.squeeze_of_trim (hs.trim_of_fits h)
  · intro h
    have hplain : Text.Plain (Text.squeeze t) := by
      rw [h]
      exact fun c hc => ⟨hs.not_isBlank c hc, (hs.plain c hc).2⟩
    obtain ⟨b, a, hb, ha, ht⟩ := hplain.exists_of_squeeze
    rw [ht, h]
    exact Element.isSymbol_of_blank hb ha

/-- **The squeezed text** holds the symbol that the text holds. -/
theorem isSymbol_squeeze (hs : IsSymbol s) (t : Text) : Element.isSymbol s (Text.squeeze t) = Element.isSymbol s t := by
  rw [Bool.eq_iff_iff, hs.isSymbol_iff (t := t)]
  constructor
  · intro h
    rw [← Text.trim_squeeze t]
    exact hs.trim_of_fits h
  · intro h
    rw [h, hs.isSymbol_iff]
    exact hs.squeeze_eq

end IsSymbol

end FormulaLang
