import FormulaLang.Proofs.Leaf.Found

/-!
# Leaves do not reach past a break

A character that stands in no leaf, such as a bracket, a comma or white space, divides the search for leaves: what a pattern
finds on one side of it does not depend on the other side (`Pattern.searchFrom?_of_stops`), and so the cut of the first rule
is a cut of one of the sides (`cutsApart_break`). After the default rules no letter, underscore or decimal digit is left in raw
text, and where there is none of them there is nothing to cut (`leafCut?_default_eq_none_iff`).
-/

namespace FormulaLang

namespace Pattern

/-! ## Reading up to a break -/

/-- A reader of the front of a text that does not look past the character `c`. -/
def Stops (c : Char) (read? : Text → Option (Text × Text)) : Prop :=
  ∀ x y, read? (x ++ c :: y) = (read? x).map fun r => (r.1, r.2 ++ c :: y)

variable {c : Char}

theorem takeWhile_break {p : Char → Bool} (hc : p c = false) (x y : Text) :
    (x ++ c :: y).takeWhile p = x.takeWhile p ∧ (x ++ c :: y).dropWhile p = x.dropWhile p ++ c :: y := by
  induction x with
  | nil => simp [hc]
  | cons d x ih => cases hd : p d <;> simp [hd, ih]

theorem stops_run? {p : Char → Bool} (hc : p c = false) : Stops c (run? p) := by
  intro x y
  obtain ⟨htake, hdrop⟩ := takeWhile_break hc x y
  unfold run?
  rw [htake, hdrop]
  split <;> rfl

theorem stops_markedRun? (mark : Text) {p : Char → Bool} (hc : p c = false) : Stops c (markedRun? mark p) := by
  intro x y
  rw [markedRun?, stops_run? hc, markedRun?, Option.map_map, Option.map_map]
  rfl

section Word

variable (hw : Text.isWord c = false)

include hw

theorem not_of_not_isWord {p : Char → Bool} (hp : ∀ d, p d = true → Text.isWord d = true) : p c = false :=
  Bool.eq_false_iff.2 fun h => Bool.eq_false_iff.1 hw (hp c h)

theorem ne_of_not_isWord {d : Char} (hd : Text.isWord d = true) : c ≠ d := by
  rintro rfl
  rw [hd] at hw
  cases hw

theorem stops_hex? (hmark : c ≠ '#') : Stops c hex? := by
  have hzero : c ≠ '0' := ne_of_not_isWord hw (by decide)
  have hlower : c ≠ 'x' := ne_of_not_isWord hw (by decide)
  have hupper : c ≠ 'X' := ne_of_not_isWord hw (by decide)
  have hrun (mark : Text) : Stops c (markedRun? mark isHexDigit) :=
    stops_markedRun? mark (not_of_not_isWord hw fun _ => isWord_of_isHexDigit)
  intro x y
  fun_cases hex? x with
  | case1 rest => exact hrun ['#'] rest y
  | case2 rest => exact hrun ['0', 'x'] rest y
  | case3 rest => exact hrun ['0', 'X'] rest y
  | case4 h₁ h₂ h₃ =>
    rw [Option.map_none, hex?]
    all_goals rcases x with _ | ⟨d, _ | ⟨e, x⟩⟩ <;> simp_all

theorem stops_binary? : Stops c binary? := by
  have hzero : c ≠ '0' := ne_of_not_isWord hw (by decide)
  have hlower : c ≠ 'b' := ne_of_not_isWord hw (by decide)
  have hupper : c ≠ 'B' := ne_of_not_isWord hw (by decide)
  have hrun (mark : Text) : Stops c (markedRun? mark isBinaryDigit) :=
    stops_markedRun? mark (not_of_not_isWord hw fun _ => isWord_of_isBinaryDigit)
  intro x y
  fun_cases binary? x with
  | case1 rest => exact hrun ['0', 'b'] rest y
  | case2 rest => exact hrun ['0', 'B'] rest y
  | case3 h₁ h₂ =>
    rw [Option.map_none, binary?]
    all_goals rcases x with _ | ⟨d, _ | ⟨e, x⟩⟩ <;> simp_all

theorem stops_nameHere? : Stops c nameHere? := by
  have hletter : isLetter c = false := not_of_not_isWord hw fun _ => isWord_of_isLetter
  have hunderscore : c ≠ '_' := ne_of_not_isWord hw (by decide)
  intro x y
  cases x with
  | nil => simp [nameHere?, hletter, hunderscore]
  | cons d x =>
    obtain ⟨htake, hdrop⟩ := takeWhile_break hw x y
    simp only [List.cons_append, nameHere?, htake, hdrop]
    split <;> rfl

theorem not_isDecimal_of_not_isWord : Text.isDecimal c = false :=
  not_of_not_isWord hw fun _ => Text.isWord_of_isDecimal

/-- Behind a character that is part of no word a pattern matches as at the start of a text. -/
theorem matchAt?_behind (p : Pattern) (t : Text) : p.matchAt? (some c) t = p.matchAt? none t := by
  cases p with
  | name => simp [matchAt?, name?, not_isDecimal_of_not_isWord hw]
  | _ => rfl

theorem searchFrom?_behind (p : Pattern) (t : Text) : p.searchFrom? (some c) t = p.searchFrom? none t := by
  cases t with
  | nil => rfl
  | cons d t => rw [searchFrom?, searchFrom?, matchAt?_behind hw]

/-- **The search** finds the first match in front of a character that the pattern does not look past, or else the first
match behind it. -/
theorem searchFrom?_of_stops {p : Pattern} (hs : ∀ before, Stops c (p.matchAt? before)) (before : Option Char) (x y : Text) :
    p.searchFrom? before (x ++ c :: y) =
      match p.searchFrom? before x with
      | some f => some { f with after := f.after ++ c :: y }
      | none => (p.searchFrom? none y).map fun f => { f with before := x ++ c :: f.before } := by
  induction x generalizing before with
  | nil =>
    have hnone : p.matchAt? before (c :: y) = none := by
      have hbreak := hs before [] y
      have hempty : p.matchAt? before [] = none := by
        refine Option.eq_none_iff_forall_ne_some.2 fun r hr => ?_
        obtain ⟨happend, hne⟩ := splits_matchAt hr
        exact hne (List.append_eq_nil_iff.1 happend).1
      rwa [hempty, Option.map_none, List.nil_append] at hbreak
    rw [List.nil_append, searchFrom?.eq_2, hnone, searchFrom?_behind hw]
    rfl
  | cons d x ih =>
    rw [List.cons_append, searchFrom?, searchFrom?, ← List.cons_append, hs before (d :: x) y]
    cases hm : p.matchAt? before (d :: x) with
    | some r => rfl
    | none =>
      simp only [Option.map_none, ih]
      cases p.searchFrom? (some d) x with
      | some f => rfl
      | none => simp [Function.comp_def]

end Word

theorem ne_of_not_leafChar (hc : ¬LeafChar c) {d : Char} (hd : LeafChar d) : c ≠ d := by
  rintro rfl
  exact hc hd

section Break

variable (hc : ¬LeafChar c)

include hc

theorem not_isWord_of_not_leafChar : Text.isWord c = false :=
  Bool.eq_false_iff.2 fun h => hc (.inl h)

theorem not_isDecimal_of_not_leafChar : Text.isDecimal c = false :=
  not_isDecimal_of_not_isWord (not_isWord_of_not_leafChar hc)

theorem stops_fraction? : Stops c fraction? := by
  have hpoint : c ≠ '.' := ne_of_not_leafChar hc (by decide)
  intro x y
  fun_cases fraction? x with
  | case1 rest => exact stops_markedRun? ['.'] (not_isDecimal_of_not_leafChar hc) rest y
  | case2 h₁ =>
    rw [Option.map_none, fraction?]
    rcases x with _ | ⟨d, x⟩ <;> simp_all

theorem stops_signedRun? (mark : Text) : Stops c (signedRun? mark) := by
  have hplus : c ≠ '+' := ne_of_not_leafChar hc (by decide)
  have hminus : c ≠ '-' := ne_of_not_leafChar hc (by decide)
  have hrun (mark : Text) : Stops c (markedRun? mark Text.isDecimal) :=
    stops_markedRun? mark (not_isDecimal_of_not_leafChar hc)
  intro x y
  fun_cases signedRun? mark x with
  | case1 rest => exact hrun (mark ++ ['+']) rest y
  | case2 rest => exact hrun (mark ++ ['-']) rest y
  | case3 h₁ h₂ =>
    rw [← hrun mark x y, signedRun?]
    all_goals rcases x with _ | ⟨d, x⟩ <;> simp_all

theorem stops_exponent? : Stops c exponent? := by
  have hlower : c ≠ 'e' := ne_of_not_leafChar hc (by decide)
  have hupper : c ≠ 'E' := ne_of_not_leafChar hc (by decide)
  intro x y
  fun_cases exponent? x with
  | case1 rest => exact stops_signedRun? hc ['e'] rest y
  | case2 rest => exact stops_signedRun? hc ['E'] rest y
  | case3 h₁ h₂ =>
    rw [Option.map_none, exponent?]
    all_goals rcases x with _ | ⟨d, x⟩ <;> simp_all

omit hc in
/-- An optional part read up to a break. -/
theorem extend_break {more? : Text → Option (Text × Text)} (h : Stops c more?) (m rest y : Text) :
    extend more? (m, rest ++ c :: y) = ((extend more? (m, rest)).1, (extend more? (m, rest)).2 ++ c :: y) := by
  simp only [extend, h rest y]
  cases more? rest <;> rfl

theorem stops_decimal? : Stops c decimal? := by
  intro x y
  simp only [decimal?, stops_run? (not_isDecimal_of_not_leafChar hc) x y, Option.map_map]
  refine Option.map_congr fun r _ => ?_
  simp only [Function.comp_apply, extend_break (stops_fraction? hc), extend_break (stops_exponent? hc)]

/-- **A pattern** does not look past a break. -/
theorem stops_matchAt? (p : Pattern) (before : Option Char) : Stops c (p.matchAt? before) := by
  have hw := not_isWord_of_not_leafChar hc
  cases p with
  | hexLiteral => exact stops_hex? hw (ne_of_not_leafChar hc (by decide))
  | binaryLiteral => exact stops_binary? hw
  | name =>
    intro x y
    simp only [matchAt?, name?, stops_nameHere? hw x y, stops_exponent? hc x y, Option.isSome_map]
    split <;> rfl
  | decimalLiteral => exact stops_decimal? hc
  | letters => exact stops_run? (not_of_not_isWord hw fun _ => isWord_of_isLetter)
  | digits => exact stops_run? (not_isDecimal_of_not_leafChar hc)
  | word => exact stops_run? hw
  | unknown source => exact fun _ _ => rfl

end Break

end Pattern

/-- The search for a pattern goes through the text in front of the character `c` and then through the text behind it. -/
def Pattern.Divides (c : Char) (p : Pattern) (x y : Text) : Prop :=
  p.search? (x ++ c :: y) =
    match p.search? x with
    | some f => some { f with after := f.after ++ c :: y }
    | none => (p.search? y).map fun f => { f with before := x ++ c :: f.before }

/-- The first cut is one in front of the character `c`, or one behind it, or there is none on either side. -/
def CutsApart (rules : List LeafRule) (c : Char) (x y : Text) : Prop :=
  (leafCut? rules (x ++ c :: y) = none ∧ leafCut? rules x = none ∧ leafCut? rules y = none) ∨
    (∃ d, leafCut? rules x = some d ∧ leafCut? rules (x ++ c :: y) = some { d with after := d.after ++ c :: y }) ∨
    ∃ d, leafCut? rules y = some d ∧ leafCut? rules (x ++ c :: y) = some { d with before := x ++ c :: d.before }

theorem cutsApart_of_divides {c : Char} {rules : List LeafRule} {x y : Text}
    (h : ∀ r ∈ rules, r.pattern.Divides c x y) : CutsApart rules c x y := by
  induction rules with
  | nil => exact .inl ⟨rfl, rfl, rfl⟩
  | cons r rules ih =>
    rw [List.forall_mem_cons] at h
    have ih := ih h.2
    have hr := h.1
    unfold CutsApart Pattern.Divides at *
    simp only [leafCut?, List.findSome?_cons, hr] at ih ⊢
    cases r.pattern.search? x with
    | some f => exact .inr (.inl ⟨_, rfl, rfl⟩)
    | none =>
      cases r.pattern.search? y with
      | some f => exact .inr (.inr ⟨_, rfl, rfl⟩)
      | none => exact ih

/-- **A cut** in a text with a break is the cut of one of its sides. -/
theorem cutsApart_break {c : Char} (hc : ¬Pattern.LeafChar c) (rules : List LeafRule) (x y : Text) :
    CutsApart rules c x y :=
  cutsApart_of_divides fun r _ =>
    Pattern.searchFrom?_of_stops (Pattern.not_isWord_of_not_leafChar hc) (Pattern.stops_matchAt? hc r.pattern) none x y

/-! ## Breaks -/

/-- White space is no part of a word. -/
theorem Text.isWord_of_isBlank {c : Char} (h : Text.isBlank c = true) : Text.isWord c = false := by
  have hwide : ([0x85, 0xA0, 0x1680, 0x2000, 0x2001, 0x2002, 0x2003, 0x2004, 0x2005, 0x2006, 0x2007, 0x2008, 0x2009, 0x200A,
      0x2028, 0x2029, 0x202F, 0x205F, 0x3000].all fun n => !Text.isWord (Char.ofNat n)) = true := by
    decide +kernel
  have hnarrow : ([9, 10, 11, 12, 13, 28, 29, 30, 31, 32].all fun n => !Text.isWord (Char.ofNat n)) = true := by
    decide +kernel
  rw [List.all_eq_true] at hwide hnarrow
  rw [← Char.ofNat_toNat c, ← Bool.not_eq_true']
  unfold Text.isBlank at h
  dsimp only at h
  split at h
  · simp only [Bool.or_eq_true, Bool.and_eq_true, decide_eq_true_eq] at h
    refine hnarrow _ ?_
    simp only [List.mem_cons, List.not_mem_nil, or_false]
    omega
  · simp only [Bool.or_eq_true, Bool.and_eq_true, decide_eq_true_eq, beq_iff_eq] at h
    refine hwide _ ?_
    simp only [List.mem_cons, List.not_mem_nil, or_false]
    omega

theorem Pattern.not_leafChar_of_isBlank {c : Char} (h : Text.isBlank c = true) : ¬Pattern.LeafChar c := by
  rintro (hword | hmark)
  · rw [Text.isWord_of_isBlank h] at hword
    cases hword
  · simp only [List.mem_cons, List.not_mem_nil, or_false] at hmark
    rcases hmark with rfl | rfl | rfl | rfl <;> exact absurd h (by decide)

/-! ## Text without leaves -/

/-- A character that some leaf of the default grammar takes up wherever it stands. -/
def Pattern.isLeafStart (c : Char) : Bool :=
  isLetter c || c == '_' || Text.isDecimal c

namespace Pattern

theorem isLeafStart_of_isHexDigit {c : Char} (h : isHexDigit c = true) : isLeafStart c = true := by
  simp only [isLeafStart, Bool.or_eq_true]
  rcases isHexDigit_cases h with hdecimal | ⟨halpha, -⟩
  · exact .inr hdecimal
  · exact .inl (.inl (by simp [isLetter, halpha]))

theorem searchFrom?_cons_eq_none_iff {p : Pattern} {before : Option Char} {c : Char} {t : Text} :
    p.searchFrom? before (c :: t) = none ↔ p.matchAt? before (c :: t) = none ∧ p.searchFrom? (some c) t = none := by
  rw [searchFrom?]
  cases p.matchAt? before (c :: t) <;> simp

theorem run?_cons_eq_none_iff {q : Char → Bool} {c : Char} {t : Text} : run? q (c :: t) = none ↔ q c = false := by
  unfold run?
  cases hc : q c <;> simp [hc]

/-- Where no decimal literal is found, no decimal digit stands. -/
theorem not_isDecimal_of_searchFrom? {before : Option Char} {t : Text}
    (h : decimalLiteral.searchFrom? before t = none) : ∀ c ∈ t, Text.isDecimal c = false := by
  induction t generalizing before with
  | nil => simp
  | cons c t ih =>
    obtain ⟨hmatch, hrest⟩ := searchFrom?_cons_eq_none_iff.1 h
    simp only [matchAt?, decimal?, Option.map_eq_none_iff, run?_cons_eq_none_iff] at hmatch
    exact List.forall_mem_cons.2 ⟨hmatch, ih hrest⟩

/-- Where no name is found and no decimal digit stands, no letter or underscore stands either, whatever follows. -/
theorem not_nameStart_of_searchFrom? {before : Option Char} {t u : Text} (hb : before.any Text.isDecimal = false)
    (ht : ∀ c ∈ t, Text.isDecimal c = false) (h : name.searchFrom? before (t ++ u) = none) :
    ∀ c ∈ t, (isLetter c || c == '_') = false := by
  induction t generalizing before with
  | nil => simp
  | cons c t ih =>
    rw [List.forall_mem_cons] at ht ⊢
    obtain ⟨hmatch, hrest⟩ := searchFrom?_cons_eq_none_iff.1 h
    refine ⟨?_, ih (by simp [ht.1]) ht.2 hrest⟩
    simpa [matchAt?, name?, hb, nameHere?] using hmatch

section NoLeaf

variable {t : Text} (ht : ∀ c ∈ t, isLeafStart c = false)

include ht

theorem zero_not_mem : '0' ∉ t := by
  intro h0
  exact absurd (ht '0' h0) (by decide)

theorem run?_eq_none {q : Char → Bool} (hq : ∀ c, q c = true → isLeafStart c = true) : run? q t = none := by
  cases t with
  | nil => rfl
  | cons c t =>
    refine run?_cons_eq_none_iff.2 (Bool.eq_false_iff.2 fun hc => ?_)
    exact absurd (hq c hc) (Bool.eq_false_iff.1 (ht c List.mem_cons_self))

theorem hex?_eq_none : hex? t = none := by
  have hzero := zero_not_mem ht
  unfold hex?
  split
  · rw [markedRun?, run?_eq_none (List.forall_mem_cons.1 ht).2 fun _ => isLeafStart_of_isHexDigit]
    rfl
  · simp at hzero
  · simp at hzero
  · rfl

theorem binary?_eq_none : binary? t = none := by
  have hzero := zero_not_mem ht
  unfold binary?
  split
  · simp at hzero
  · simp at hzero
  · rfl

theorem name?_eq_none (before : Option Char) : name? before t = none := by
  unfold name?
  split
  · rfl
  · cases t with
    | nil => rfl
    | cons c t =>
      have hc := (List.forall_mem_cons.1 ht).1
      simp only [isLeafStart, Bool.or_eq_false_iff] at hc
      simp [nameHere?, hc.1.1, hc.1.2]

theorem decimal?_eq_none : decimal? t = none := by
  rw [decimal?, run?_eq_none ht fun c hc => by simp [isLeafStart, hc]]
  rfl

/-- The default patterns match nothing where no leaf starts. -/
theorem matchAt?_eq_none {p : Pattern} (hp : p ∈ Grammar.defaultLeaves.map LeafRule.pattern) (before : Option Char) :
    p.matchAt? before t = none := by
  simp only [Grammar.defaultLeaves, List.map_cons, List.map_nil, List.mem_cons, List.not_mem_nil, or_false] at hp
  rcases hp with rfl | rfl | rfl | rfl
  · exact hex?_eq_none ht
  · exact binary?_eq_none ht
  · exact name?_eq_none ht before
  · exact decimal?_eq_none ht

end NoLeaf

end Pattern

/-- **Nothing is left to cut** exactly where no letter, underscore or decimal digit stands. -/
theorem leafCut?_default_eq_none_iff {t : Text} :
    leafCut? Grammar.defaultLeaves t = none ↔ ∀ c ∈ t, Pattern.isLeafStart c = false := by
  rw [leafCut?, List.findSome?_eq_none_iff]
  simp only [Option.map_eq_none_iff]
  constructor
  · intro h
    have hdecimal : ∀ c ∈ t, Text.isDecimal c = false :=
      Pattern.not_isDecimal_of_searchFrom? (h ⟨.decimal, .decimalLiteral⟩ (by simp [Grammar.defaultLeaves]))
    have hsearch : Pattern.name.searchFrom? none (t ++ []) = none := by
      rw [List.append_nil]
      exact h ⟨.identifier, .name⟩ (by simp [Grammar.defaultLeaves])
    have hname : ∀ c ∈ t, (Pattern.isLetter c || c == '_') = false :=
      Pattern.not_nameStart_of_searchFrom? (by simp) hdecimal hsearch
    intro c hc
    rw [Pattern.isLeafStart, hname c hc, hdecimal c hc]
    rfl
  · intro h r hr
    have hsearch : ∀ (before : Option Char) (t : Text), (∀ c ∈ t, Pattern.isLeafStart c = false) →
        r.pattern.searchFrom? before t = none := by
      intro before t ht
      induction t generalizing before with
      | nil => rfl
      | cons c t ih =>
        have hmatch := Pattern.matchAt?_eq_none ht (List.mem_map_of_mem hr) before
        exact Pattern.searchFrom?_cons_eq_none_iff.2 ⟨hmatch, ih (some c) (List.forall_mem_cons.1 ht).2⟩
    exact hsearch none t h

end FormulaLang
