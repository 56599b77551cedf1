import FormulaLang.Proofs.Leaf.Local
import FormulaLang.Proofs.Leaf.Numerals

/-!
# Words

A name in which no other literal stands (`IsName`) and the digits of a numeral are found as they are when nothing follows that
belongs to a leaf (`StopsWord`). What may follow does not have to be a break: a sign ends a word too, although it may stand in
an exponent. The names that lexing cuts out of a text are such names (`isName_of_leafCut?`).
-/

namespace FormulaLang

namespace Pattern

/-! ## The end of a word -/

/-- A character that ends a name or a numeral, whatever stands behind it. -/
structure EndsWord (c : Char) : Prop where
  word : Text.isWord c = false
  mark : c ≠ '#'
  point : c ≠ '.'

instance (c : Char) : Decidable (EndsWord c) :=
  decidable_of_iff (_ ∧ _ ∧ _) ⟨fun ⟨h₁, h₂, h₃⟩ => ⟨h₁, h₂, h₃⟩, fun ⟨h₁, h₂, h₃⟩ => ⟨h₁, h₂, h₃⟩⟩

/-- A word in front of the text ends there. -/
def StopsWord (t : Text) : Prop :=
  ∀ c ∈ t.head?, EndsWord c

theorem stopsWord_nil : StopsWord [] :=
  fun _ h => by cases h

theorem stopsWord_cons {c : Char} (h : EndsWord c) (t : Text) : StopsWord (c :: t) := by
  intro d hd
  cases Option.mem_some_iff.1 hd
  exact h

/-! ## Searches -/

variable {p : Pattern} {c : Char} {x t : Text}

theorem getLast?_cons_or (c : Char) (x : Text) (before : Option Char) :
    (c :: x).getLast?.or before = x.getLast?.or (some c) := by
  rw [List.getLast?_cons, Option.some_or]
  cases x.getLast? <;> rfl

theorem search?_of_matchAt? (hne : x ≠ []) (h : p.matchAt? none (x ++ t) = some (x, t)) :
    p.search? (x ++ t) = some ⟨[], x, t⟩ := by
  cases x with
  | nil => exact absurd rfl hne
  | cons d x =>
    rw [List.cons_append] at h ⊢
    rw [search?, searchFrom?, h]

/-- The search passes over characters at which the pattern does not match. -/
theorem searchFrom?_skip {q : Char → Bool} (hq : ∀ before d t, q d = false → p.matchAt? before (d :: t) = none)
    (hx : ∀ d ∈ x, q d = false) (before : Option Char) (t : Text) :
    p.searchFrom? before (x ++ t) =
      (p.searchFrom? (x.getLast?.or before) t).map fun f => { f with before := x ++ f.before } := by
  induction x generalizing before with
  | nil => simp
  | cons d x ih =>
    rw [List.forall_mem_cons] at hx
    rw [List.cons_append, searchFrom?, hq before d _ hx.1, ih hx.2, getLast?_cons_or, Option.map_map]
    rfl

theorem search?_skip {q : Char → Bool} (hq : ∀ before d t, q d = false → p.matchAt? before (d :: t) = none)
    (hx : ∀ d ∈ x, q d = false) : p.search? x = none := by
  have hskip := searchFrom?_skip hq hx none []
  rwa [List.append_nil, searchFrom?.eq_1, Option.map_none] at hskip

/-- Such characters divide the search. -/
theorem divides_of_skip {q : Char → Bool} (hq : ∀ before d t, q d = false → p.matchAt? before (d :: t) = none)
    (hx : ∀ d ∈ x, q d = false) (hc : q c = false) (hw : Text.isWord c = false) (y : Text) : p.Divides c x y := by
  have hxc : ∀ d ∈ x ++ [c], q d = false := List.forall_mem_append.2 ⟨hx, List.forall_mem_singleton.2 hc⟩
  have hskip := searchFrom?_skip hq hxc none y
  rw [List.append_assoc, List.singleton_append, List.getLast?_concat, Option.some_or, searchFrom?_behind hw] at hskip
  rw [Divides, search?_skip hq hx, search?, search?, hskip]
  simp

/-- A text that is matched as a whole is found as it is. -/
theorem search?_whole (hne : x ≠ []) (h : p.matchAt? none (x ++ []) = some (x, [])) : p.search? x = some ⟨[], x, []⟩ := by
  have hsearch := search?_of_matchAt? hne h
  rwa [List.append_nil] at hsearch

/-- A match that stays the same in front of `c` divides the search. -/
theorem divides_of_matchAt? (hne : x ≠ []) {y : Text} (h : p.matchAt? none (x ++ []) = some (x, []))
    (hc : p.matchAt? none (x ++ c :: y) = some (x, c :: y)) : p.Divides c x y := by
  rw [Divides, search?_whole hne h, search?_of_matchAt? hne hc]
  rfl

/-- Where a pattern is found in no longer text, it is found in no part of it. -/
theorem search?_part (hmore : ∀ before before' s t r, p.matchAt? before s = some r → p.matchAt? before' (s ++ t) ≠ none)
    {u : Text} (h : p.search? (u ++ x ++ t) = none) : p.search? x = none := by
  have hback : ∀ (before : Option Char) (u y : Text), p.searchFrom? before (u ++ y) = none →
      ∃ before, p.searchFrom? before y = none := by
    intro before u
    induction u generalizing before with
    | nil => exact fun y h => ⟨before, h⟩
    | cons d u ih => exact fun y h => ih (some d) y (searchFrom?_cons_eq_none_iff.1 h).2
  have hfront : ∀ (before before' : Option Char) (x : Text), p.searchFrom? before (x ++ t) = none →
      p.searchFrom? before' x = none := by
    intro before before' x
    induction x generalizing before before' with
    | nil => exact fun _ => rfl
    | cons d x ih =>
      intro h
      obtain ⟨hhere, hrest⟩ := searchFrom?_cons_eq_none_iff.1 h
      refine searchFrom?_cons_eq_none_iff.2 ⟨?_, ih _ _ hrest⟩
      exact Option.eq_none_iff_forall_ne_some.2 fun r hr => hmore before' before (d :: x) t r hr hhere
  rw [List.append_assoc] at h
  obtain ⟨before, h⟩ := hback none u (x ++ t) h
  exact hfront before none x h

theorem markedRun?_append_ne_none {mark s t : Text} {q : Char → Bool} {r : Text × Text}
    (h : markedRun? mark q s = some r) : markedRun? mark q (s ++ t) ≠ none := by
  obtain ⟨v, hv, -⟩ := Option.map_eq_some_iff.1 h
  cases s with
  | nil => cases hv
  | cons d s =>
    have hd : q d = true := by
      refine Decidable.not_not.1 fun hd => ?_
      rw [run?_cons_eq_none_iff.2 (Bool.eq_false_iff.2 hd)] at hv
      cases hv
    intro hnone
    rw [markedRun?, Option.map_eq_none_iff, List.cons_append, run?_cons_eq_none_iff, hd] at hnone
    cases hnone

theorem hex?_append_ne_none {s t : Text} {r : Text × Text} (h : hex? s = some r) : hex? (s ++ t) ≠ none := by
  unfold hex? at h
  split at h
  · exact markedRun?_append_ne_none h
  · exact markedRun?_append_ne_none h
  · exact markedRun?_append_ne_none h
  · cases h

theorem binary?_append_ne_none {s t : Text} {r : Text × Text} (h : binary? s = some r) : binary? (s ++ t) ≠ none := by
  unfold binary? at h
  split at h
  · exact markedRun?_append_ne_none h
  · exact markedRun?_append_ne_none h
  · cases h

/-- No part of a text without literals in base 16 and 2 has such literals. -/
theorem unmarked_part {u : Text} (hhex : hexLiteral.search? (u ++ x ++ t) = none)
    (hbinary : binaryLiteral.search? (u ++ x ++ t) = none) :
    hexLiteral.search? x = none ∧ binaryLiteral.search? x = none :=
  ⟨search?_part (fun _ _ _ _ _ => hex?_append_ne_none) hhex,
    search?_part (fun _ _ _ _ _ => binary?_append_ne_none) hbinary⟩

/-! ## Names and numerals -/

/-- A name in which no hexadecimal or binary literal stands. -/
structure IsName (t : Text) : Prop where
  shape : ∃ c rest, t = c :: rest ∧ (isLetter c || c == '_') = true ∧ ∀ d ∈ rest, Text.isWord d = true
  hex : hexLiteral.search? t = none
  binary : binaryLiteral.search? t = none

theorem IsName.ne_nil (h : IsName x) : x ≠ [] := by
  obtain ⟨c, rest, rfl, -⟩ := h.shape
  exact List.cons_ne_nil c rest

theorem nameHere?_append (h : IsName x) (ht : StopsWord t) : nameHere? (x ++ t) = some (x, t) := by
  obtain ⟨c, rest, rfl, hc, hrest⟩ := h.shape
  obtain ⟨htake, hdrop⟩ := Number.takeWhile_append_of_run hrest fun d hd => (ht d hd).word
  rw [List.cons_append, nameHere?, if_pos hc, htake, hdrop]

theorem exponent?_eq_none (ht : StopsWord t) : exponent? t = none := by
  unfold exponent?
  split
  · exact absurd (ht 'e' rfl).word (by decide)
  · exact absurd (ht 'E' rfl).word (by decide)
  · rfl

theorem name_matchAt?_eq_none (before : Option Char) (d : Char) (t : Text) (h : (isLetter d || d == '_') = false) :
    name.matchAt? before (d :: t) = none := by
  show name? before (d :: t) = none
  unfold name?
  split
  · rfl
  · rw [nameHere?, if_neg (by simp [h])]

theorem decimal_matchAt?_eq_none (before : Option Char) (d : Char) (t : Text) (h : Text.isDecimal d = false) :
    decimalLiteral.matchAt? before (d :: t) = none := by
  show decimal? (d :: t) = none
  rw [decimal?, run?_cons_eq_none_iff.2 h]
  rfl

end Pattern

/-! ## Cuts -/

open Pattern (IsName EndsWord StopsWord)

theorem leafCut?_append (front back : List LeafRule) (t : Text) :
    leafCut? (front ++ back) t = (leafCut? front t).or (leafCut? back t) :=
  List.findSome?_append

/-- Rules that are tried later do not matter in front of a character where the earlier ones find something. -/
theorem CutsApart.append {c : Char} {front : List LeafRule} {x y : Text} (h : CutsApart front c x y) {d : LeafCut}
    (hd : leafCut? front x = some d) (back : List LeafRule) : CutsApart (front ++ back) c x y := by
  simp only [CutsApart, leafCut?_append] at h ⊢
  obtain ⟨-, hnone, -⟩ | ⟨e, he, hwhole⟩ | ⟨e, he, hwhole⟩ := h
  · cases hnone.symm.trans hd
  · exact .inr (.inl ⟨e, by rw [he, Option.some_or], by rw [hwhole, Option.some_or]⟩)
  · exact .inr (.inr ⟨e, by rw [he, Option.some_or], by rw [hwhole, Option.some_or]⟩)

theorem leafCut?_nil (rules : List LeafRule) : leafCut? rules [] = none := by
  refine Option.eq_none_iff_forall_ne_some.2 fun c hc => ?_
  obtain ⟨happend, hne⟩ := leafCut?_eq_some hc
  exact hne (List.append_eq_nil_iff.1 (List.append_eq_nil_iff.1 happend).1).2

/-- The first three of the default rules cut a name out as it is. -/
theorem leafCut?_name {t : Text} (h : IsName t) :
    leafCut? (Grammar.defaultLeaves.take 3) t = some ⟨[], t, [], .identifier⟩ := by
  have hname : Pattern.name.search? t = some ⟨[], t, []⟩ :=
    Pattern.search?_whole h.ne_nil (Pattern.nameHere?_append h Pattern.stopsWord_nil)
  simp [leafCut?, Grammar.defaultLeaves, h.hex, h.binary, hname]

theorem leafCut?_default_name {t : Text} (h : IsName t) :
    leafCut? Grammar.defaultLeaves t = some ⟨[], t, [], .identifier⟩ := by
  rw [← List.take_append_drop 3 Grammar.defaultLeaves, leafCut?_append, leafCut?_name h, Option.some_or]

/-! ## Names that are found -/

/-- No rule in front of the one for decimals finds anything. -/
structure Pattern.Nameless (t : Text) : Prop where
  hex : hexLiteral.search? t = none
  binary : binaryLiteral.search? t = none
  name : Pattern.name.search? t = none

/-- A literal in base 16 or 2 is cut out first, then a name, and a decimal only where there are none of these. -/
theorem leafCut?_default_cases {t : Text} {c : LeafCut} (h : leafCut? Grammar.defaultLeaves t = some c) :
    (c.kind = .hex ∨ c.kind = .binary) ∨
      (Pattern.hexLiteral.search? t = none ∧ Pattern.binaryLiteral.search? t = none ∧
        Pattern.name.search? t = some ⟨c.before, c.matched, c.after⟩ ∧ c.kind = .identifier) ∨
      (Pattern.Nameless t ∧ Pattern.decimalLiteral.search? t = some ⟨c.before, c.matched, c.after⟩ ∧ c.kind = .decimal) := by
  simp only [leafCut?, Grammar.defaultLeaves, List.findSome?_cons] at h
  cases hhex : Pattern.hexLiteral.search? t with
  | some f =>
    rw [hhex] at h
    cases h
    exact .inl (.inl rfl)
  | none =>
    cases hbinary : Pattern.binaryLiteral.search? t with
    | some f =>
      rw [hhex, hbinary] at h
      cases h
      exact .inl (.inr rfl)
    | none =>
      cases hname : Pattern.name.search? t with
      | some f =>
        rw [hhex, hbinary, hname] at h
        cases h
        exact .inr (.inl ⟨rfl, rfl, rfl, rfl⟩)
      | none =>
        rw [hhex, hbinary, hname] at h
        cases hdecimal : Pattern.decimalLiteral.search? t with
        | none =>
          rw [hdecimal] at h
          cases h
        | some f =>
          rw [hdecimal] at h
          cases h
          exact .inr (.inr ⟨⟨hhex, hbinary, hname⟩, rfl, rfl⟩)

/-- **The names** that are cut out of a text have no hexadecimal or binary literal in them. -/
theorem isName_of_leafCut? {t : Text} {c : LeafCut} (h : leafCut? Grammar.defaultLeaves t = some c)
    (hkind : c.kind = .identifier) : IsName c.matched := by
  obtain (hc | hc) | ⟨hhex, hbinary, hname, -⟩ | ⟨-, -, hc⟩ := leafCut?_default_cases h
  · cases hkind.symm.trans hc
  · cases hkind.symm.trans hc
  · obtain ⟨happend, -⟩ := Pattern.search?_eq_some hname
    rw [← happend] at hhex hbinary
    obtain ⟨before, u, hmatch⟩ := Pattern.search?_matchAt hname
    obtain ⟨hhex, hbinary⟩ := Pattern.unmarked_part hhex hbinary
    exact ⟨Pattern.name?_shape hmatch, hhex, hbinary⟩
  · cases hkind.symm.trans hc

end FormulaLang
