import FormulaLang.Proofs.Leaf.Words

/-!
# Tokens

A token is a text that one of the default rules takes as a whole: a literal in base 16 or 2, a decimal literal, or a name in
which no such literal stands (`LeafKind.IsToken`). Although every rule is tried on the whole text before the next one, a token is
cut out as it is (`LeafKind.IsToken.leafCut?_eq`), and a character that ends words divides the cuts of the token in front of it
(`LeafKind.IsToken.cutsApart`): what an earlier rule finds is not in the token, and the exponent of a decimal is no name.
-/

namespace FormulaLang

open Number (IsRun Fraction Exponent IsDecimal Writes takeWhile_append_of_run)
open Pattern (EndsWord StopsWord IsName isHexDigit isBinaryDigit)

/-- The texts of the leaves of a kind. -/
inductive LeafKind.IsToken : LeafKind → Text → Prop
  | hex {mark part : Text} (hm : mark = ['#'] ∨ mark = ['0', 'x'] ∨ mark = ['0', 'X']) (hp : IsRun isHexDigit part) :
      IsToken .hex (mark ++ part)
  | binary {mark part : Text} (hm : mark = ['0', 'b'] ∨ mark = ['0', 'B']) (hp : IsRun isBinaryDigit part) :
      IsToken .binary (mark ++ part)
  | identifier {t : Text} (h : IsName t) : IsToken .identifier t
  | decimal {t : Text} (h : IsDecimal Text.isDecimal t) : IsToken .decimal t

theorem Number.IsDecimal.of_digits {t : Text} (h : IsRun Text.isDecimal t) : IsDecimal Text.isDecimal t := by
  simpa using IsDecimal.mk h .absent .absent

namespace Pattern

variable {p : Pattern} {q : Char → Bool} {c : Char} {x part t : Text}

/-! ## Matches up to the end of a token -/

theorem run?_append (hx : IsRun q x) (ht : ∀ c ∈ t.head?, q c = false) : run? q (x ++ t) = some (x, t) := by
  obtain ⟨htake, hdrop⟩ := takeWhile_append_of_run hx.2 ht
  rw [run?, htake, hdrop, if_neg (by simpa using hx.1)]

theorem markedRun?_append (mark : Text) (hx : IsRun q x) (ht : ∀ c ∈ t.head?, q c = false) :
    markedRun? mark q (x ++ t) = some (mark ++ x, t) := by
  rw [markedRun?, run?_append hx ht]
  rfl

/-- The end of a word is none of the characters that the word is made of. -/
theorem StopsWord.head (ht : StopsWord t) (hq : ∀ c, q c = true → Text.isWord c = true) : ∀ c ∈ t.head?, q c = false :=
  fun c hc => not_of_not_isWord (ht c hc).word hq

theorem hex?_append {mark : Text} (hm : mark = ['#'] ∨ mark = ['0', 'x'] ∨ mark = ['0', 'X'])
    (hp : IsRun isHexDigit part) (ht : StopsWord t) : hex? (mark ++ part ++ t) = some (mark ++ part, t) := by
  have hend := ht.head fun _ => isWord_of_isHexDigit
  rcases hm with rfl | rfl | rfl <;> exact markedRun?_append _ hp hend

theorem binary?_append {mark : Text} (hm : mark = ['0', 'b'] ∨ mark = ['0', 'B']) (hp : IsRun isBinaryDigit part)
    (ht : StopsWord t) : binary? (mark ++ part ++ t) = some (mark ++ part, t) := by
  have hend := ht.head fun _ => isWord_of_isBinaryDigit
  rcases hm with rfl | rfl <;> exact markedRun?_append _ hp hend

theorem signedRun?_append (mark : Text) {sign : Text} (hs : sign = [] ∨ sign = ['+'] ∨ sign = ['-'])
    (hp : IsRun Text.isDecimal part) (ht : ∀ c ∈ t.head?, Text.isDecimal c = false) :
    signedRun? mark (sign ++ part ++ t) = some (mark ++ (sign ++ part), t) := by
  rcases hs with rfl | rfl | rfl
  · obtain ⟨d, part, rfl⟩ := List.exists_cons_of_ne_nil hp.1
    have hd : Text.isDecimal d = true := hp.2 d List.mem_cons_self
    rw [List.nil_append, List.cons_append, signedRun?, ← List.cons_append]
    · exact markedRun?_append mark hp ht
    · intro _ heq
      rw [(List.cons.inj heq).1] at hd
      cases hd
    · intro _ heq
      rw [(List.cons.inj heq).1] at hd
      cases hd
  · rw [← List.append_assoc]
    exact markedRun?_append (mark ++ ['+']) hp ht
  · rw [← List.append_assoc]
    exact markedRun?_append (mark ++ ['-']) hp ht

theorem exponent?_append {mark : Char} {sign : Text} (hm : mark = 'e' ∨ mark = 'E')
    (hs : sign = [] ∨ sign = ['+'] ∨ sign = ['-']) (hp : IsRun Text.isDecimal part)
    (ht : ∀ c ∈ t.head?, Text.isDecimal c = false) :
    exponent? (mark :: (sign ++ part) ++ t) = some (mark :: (sign ++ part), t) := by
  rcases hm with rfl | rfl <;> exact signedRun?_append _ hs hp ht

/-- What follows a decimal's mantissa, an exponent or the end of the token, starts with no decimal digit and no point. -/
theorem exponent_head {e : Text} (he : Exponent Text.isDecimal e) (ht : StopsWord t) :
    ∀ c ∈ (e ++ t).head?, Text.isDecimal c = false ∧ c ≠ '.' := by
  cases he with
  | absent => exact fun c hc => ⟨ht.head (fun _ => Text.isWord_of_isDecimal) c hc, (ht c hc).point⟩
  | present hm hs h =>
    intro c hc
    cases hc
    rcases hm with rfl | rfl <;> decide

/-- **A decimal** is matched as a whole. -/
theorem decimal?_append_of_isDecimal (hx : IsDecimal Text.isDecimal x) (ht : StopsWord t) :
    decimal? (x ++ t) = some (x, t) := by
  obtain @⟨whole, fraction, exponent, hw, hf, he⟩ := hx
  have hend := exponent_head he ht
  have hexponent : extend exponent? (whole ++ fraction, exponent ++ t) = (whole ++ fraction ++ exponent, t) := by
    cases he with
    | absent => simp only [extend, List.nil_append, exponent?_eq_none ht, List.append_nil]
    | present hm hs hp =>
      simp only [extend, exponent?_append hm hs hp (ht.head fun _ => Text.isWord_of_isDecimal)]
  have hfraction : extend fraction? (whole, fraction ++ (exponent ++ t)) = (whole ++ fraction, exponent ++ t) := by
    cases hf with
    | absent =>
      have hnone : fraction? (exponent ++ t) = none := by
        unfold fraction?
        split
        · rename_i rest heq
          exact absurd rfl (hend '.' (by rw [heq]; rfl)).2
        · rfl
      simp only [extend, List.nil_append, hnone, List.append_nil]
    | @present part hp =>
      have hsome : fraction? ('.' :: part ++ (exponent ++ t)) = some ('.' :: part, exponent ++ t) :=
        markedRun?_append ['.'] hp fun c hc => (hend c hc).1
      simp only [extend, hsome]
  have hpoint : ∀ c ∈ (fraction ++ (exponent ++ t)).head?, Text.isDecimal c = false := by
    cases hf with
    | absent => exact fun c hc => (hend c hc).1
    | present hp =>
      intro c hc
      cases hc
      decide
  rw [List.append_assoc, List.append_assoc, decimal?, run?_append hw hpoint, Option.map_some, hfraction, Option.map_some,
    hexponent, List.append_assoc]

/-! ## Searches that pass over a token -/

/-- Nothing is found in a text at no place of which the pattern matches. -/
theorem search?_eq_none_of_suffix (h : ∀ before d s, d :: s <:+ x → p.matchAt? before (d :: s) = none) :
    p.search? x = none := by
  have hnone : ∀ before, p.searchFrom? before x = none := by
    induction x with
    | nil => exact fun _ => rfl
    | cons d x ih =>
      intro before
      refine searchFrom?_cons_eq_none_iff.2 ⟨h before d x List.suffix_rfl, ih (fun before' e s hs => ?_) (some d)⟩
      exact h before' e s (hs.trans (List.suffix_cons d x))
  exact hnone none

/-- No literal of base 16 stands in a text without the marks of such literals. -/
theorem hexLiteral_search?_eq_none (hx : ∀ c ∈ x, c ≠ '#' ∧ c ≠ 'x' ∧ c ≠ 'X') : hexLiteral.search? x = none := by
  refine search?_eq_none_of_suffix fun before d s hs => ?_
  have hmem : ∀ c ∈ d :: s, c ≠ '#' ∧ c ≠ 'x' ∧ c ≠ 'X' := fun c hc => hx c (hs.subset hc)
  generalize d :: s = u at hmem
  show hex? u = none
  unfold hex?
  split
  · exact absurd rfl (hmem '#' (by simp)).1
  · exact absurd rfl (hmem 'x' (by simp)).2.1
  · exact absurd rfl (hmem 'X' (by simp)).2.2
  · rfl

/-- No literal of base 2 stands in a text without the marks of such literals. -/
theorem binaryLiteral_search?_eq_none (hx : ∀ c ∈ x, c ≠ 'b' ∧ c ≠ 'B') : binaryLiteral.search? x = none := by
  refine search?_eq_none_of_suffix fun before d s hs => ?_
  have hmem : ∀ c ∈ d :: s, c ≠ 'b' ∧ c ≠ 'B' := fun c hc => hx c (hs.subset hc)
  generalize d :: s = u at hmem
  show binary? u = none
  unfold binary?
  split
  · exact absurd rfl (hmem 'b' (by simp)).1
  · exact absurd rfl (hmem 'B' (by simp)).2
  · rfl

theorem not_nameStart_of_isDecimal {d : Char} (h : Text.isDecimal d = true) : (isLetter d || d == '_') = false := by
  have hne : ∀ e : Char, Text.isDecimal e = false → d ≠ e := by
    rintro e he rfl
    rw [h] at he
    cases he
  have halpha : d.isAlpha = false := by
    rw [Bool.eq_false_iff]
    intro hd
    have hrange : 65 ≤ d.toNat ∧ d.toNat < 128 := by
      rcases Bool.or_eq_true_iff.1 hd with hupper | hlower
      · have hbounds : 65 ≤ d.toNat ∧ d.toNat ≤ 90 := of_decide_eq_true hupper
        omega
      · obtain ⟨hlow, hhigh⟩ := Bool.and_eq_true_iff.1 hlower
        have hlow : 97 ≤ d.toNat := of_decide_eq_true hlow
        have hhigh : d.toNat ≤ 122 := of_decide_eq_true hhigh
        omega
    unfold Text.isDecimal Text.decimalValue? at h
    dsimp only at h
    rw [if_pos hrange.2, if_neg (by omega)] at h
    cases h
  simp [isLetter, halpha, hne 'İ' (by decide), hne 'ı' (by decide), hne 'ſ' (by decide), hne '\u212A' (by decide),
    hne '_' (by decide)]

theorem not_nameStart_of_sign {sign : Text} (hs : sign = [] ∨ sign = ['+'] ∨ sign = ['-']) :
    ∀ c ∈ sign, (isLetter c || c == '_') = false := by
  obtain rfl | rfl | rfl := hs
  · exact List.forall_mem_nil _
  · exact List.forall_mem_singleton.2 (by decide)
  · exact List.forall_mem_singleton.2 (by decide)

theorem signedRun?_append_ne_none {mark s : Text} {r : Text × Text} (h : signedRun? mark s = some r) :
    signedRun? mark (s ++ t) ≠ none := by
  unfold signedRun? at h
  split at h
  · exact markedRun?_append_ne_none h
  · exact markedRun?_append_ne_none h
  · rename_i hplus hminus
    cases s with
    | nil => cases h
    | cons d s =>
      rw [List.cons_append, signedRun?, ← List.cons_append]
      · exact markedRun?_append_ne_none h
      · exact fun _ heq => hplus s (by rw [(List.cons.inj heq).1])
      · exact fun _ heq => hminus s (by rw [(List.cons.inj heq).1])

/-- An exponent is one whatever stands behind it. -/
theorem exponent?_isSome_append {e : Text} (h : (exponent? e).isSome = true) (t : Text) :
    (exponent? (e ++ t)).isSome = true := by
  obtain ⟨r, hr⟩ := Option.isSome_iff_exists.1 h
  rw [Option.isSome_iff_ne_none]
  unfold exponent? at hr
  split at hr
  · exact signedRun?_append_ne_none hr
  · exact signedRun?_append_ne_none hr
  · cases hr

/-- The letter of an exponent behind a digit starts no name, and no name starts behind it. -/
theorem name_searchFrom?_exponent {d : Char} (hd : Text.isDecimal d = true) {e : Text} (he : Exponent Text.isDecimal e)
    (ht : StopsWord t) :
    name.searchFrom? (some d) (e ++ t) =
      (name.searchFrom? (e.getLast?.or (some d)) t).map fun f => { f with before := e ++ f.before } := by
  cases he with
  | absent => simp
  | @present mark sign part hm hs hp =>
    have hexponent := exponent?_append hm hs hp (ht.head fun _ => Text.isWord_of_isDecimal)
    have hmark : name.matchAt? (some d) (mark :: (sign ++ part) ++ t) = none := by
      rw [matchAt?, name?, hexponent]
      simp [hd]
    have hrest : ∀ c ∈ sign ++ part, (isLetter c || c == '_') = false := by
      exact List.forall_mem_append.2 ⟨not_nameStart_of_sign hs, fun c hc => not_nameStart_of_isDecimal (hp.2 c hc)⟩
    rw [List.cons_append] at hmark ⊢
    rw [searchFrom?, hmark, searchFrom?_skip name_matchAt?_eq_none hrest, Option.map_map, getLast?_cons_or]
    rfl

/-- A run of digits ends with a digit, and no name starts in it. -/
theorem exists_concat_of_isRun (hp : IsRun Text.isDecimal part) :
    ∃ front d, part = front ++ [d] ∧ Text.isDecimal d = true ∧ ∀ c ∈ front ++ [d], (isLetter c || c == '_') = false := by
  obtain rfl | ⟨front, d, rfl⟩ := List.eq_nil_or_concat part
  · exact absurd rfl hp.1
  · rw [List.concat_eq_append] at hp ⊢
    exact ⟨front, d, rfl, hp.2 d (by simp), fun c hc => not_nameStart_of_isDecimal (hp.2 c hc)⟩

/-- So do digits with a fraction. -/
theorem exists_concat_of_fraction {whole fraction : Text} (hw : IsRun Text.isDecimal whole)
    (hf : Fraction Text.isDecimal fraction) :
    ∃ front d, whole ++ fraction = front ++ [d] ∧ Text.isDecimal d = true ∧
      ∀ c ∈ front ++ [d], (isLetter c || c == '_') = false := by
  cases hf with
  | absent =>
    rw [List.append_nil]
    exact exists_concat_of_isRun hw
  | @present part hp =>
    obtain ⟨front, d, rfl, hd, hplain⟩ := exists_concat_of_isRun hp
    refine ⟨whole ++ '.' :: front, d, by simp, hd, ?_⟩
    have hwhole : ∀ c ∈ whole, (isLetter c || c == '_') = false := fun c hc => not_nameStart_of_isDecimal (hw.2 c hc)
    rw [List.append_assoc, List.cons_append]
    exact List.forall_mem_append.2 ⟨hwhole, List.forall_mem_cons.2 ⟨by decide, hplain⟩⟩

/-- **No name** is found in a decimal. -/
theorem name_searchFrom?_decimal (hx : IsDecimal Text.isDecimal x) (ht : StopsWord t) :
    name.searchFrom? none (x ++ t) =
      (name.searchFrom? x.getLast? t).map fun f => { f with before := x ++ f.before } := by
  obtain ⟨hw, hf, he⟩ := hx
  obtain ⟨front, d, hfront, hd, hskip⟩ := exists_concat_of_fraction hw hf
  rw [hfront, List.append_assoc, searchFrom?_skip name_matchAt?_eq_none hskip, List.getLast?_concat, Option.some_or,
    name_searchFrom?_exponent hd he ht, Option.map_map, List.getLast?_append, List.getLast?_concat]
  simp [Function.comp_def]

theorem name_search?_decimal (hx : IsDecimal Text.isDecimal x) : name.search? x = none := by
  have hsearch := name_searchFrom?_decimal hx stopsWord_nil
  rwa [List.append_nil, searchFrom?.eq_1, Option.map_none] at hsearch

theorem isWord_of_nameStart {d : Char} (hd : (isLetter d || d == '_') = true) : Text.isWord d = true := by
  rcases Bool.or_eq_true_iff.1 hd with hletter | hline
  · exact isWord_of_isLetter hletter
  · rw [beq_iff_eq.1 hline]
    decide

/-- A character that ends words is the start of no name. -/
theorem not_nameStart_of_endsWord (hc : EndsWord c) : (isLetter c || c == '_') = false :=
  not_of_not_isWord (p := fun d => isLetter d || d == '_') hc.word fun _ => isWord_of_nameStart

theorem name_divides_decimal (hx : IsDecimal Text.isDecimal x) (hc : EndsWord c) (y : Text) : name.Divides c x y := by
  have hhere : name.matchAt? x.getLast? (c :: y) = none := name_matchAt?_eq_none _ c y (not_nameStart_of_endsWord hc)
  rw [Divides, name_search?_decimal hx, search?, name_searchFrom?_decimal hx (stopsWord_cons hc y), searchFrom?, hhere,
    searchFrom?_behind hc.word, Option.map_map]
  rfl

/-- A literal in base 16 or 2 does not reach past the end of a word. -/
theorem marked_divides (hc : EndsWord c) (x y : Text) : hexLiteral.Divides c x y ∧ binaryLiteral.Divides c x y :=
  ⟨searchFrom?_of_stops (p := .hexLiteral) hc.word (fun _ => stops_hex? hc.word hc.mark) none x y,
    searchFrom?_of_stops (p := .binaryLiteral) hc.word (fun _ => stops_binary? hc.word) none x y⟩

end Pattern

/-! ## Cuts -/

/-- The first rules divide a text where one of them finds something in front of the character. -/
theorem cutsApart_of_take {rules : List LeafRule} {c : Char} {x y : Text} (n : Nat)
    (h : ∀ r ∈ rules.take n, r.pattern.Divides c x y) (hfound : (leafCut? (rules.take n) x).isSome = true) :
    CutsApart rules c x y := by
  obtain ⟨d, hd⟩ := Option.isSome_iff_exists.1 hfound
  rw [← List.take_append_drop n rules]
  exact (cutsApart_of_divides h).append hd _

namespace LeafKind.IsToken

variable {c : Char} {k : LeafKind} {x : Text}

theorem ne_nil (hx : k.IsToken x) : x ≠ [] := by
  cases hx with
  | hex hm hp => exact List.append_ne_nil_of_right_ne_nil _ hp.1
  | binary hm hp => exact List.append_ne_nil_of_right_ne_nil _ hp.1
  | identifier h => exact h.ne_nil
  | decimal h =>
    obtain ⟨hw, hf, he⟩ := h
    exact List.append_ne_nil_of_left_ne_nil (List.append_ne_nil_of_left_ne_nil hw.1 _) _

/-- No mark of a literal in base 16 stands in a binary literal. -/
theorem hexLiteral_search?_binary {mark part : Text} (hm : mark = ['0', 'b'] ∨ mark = ['0', 'B'])
    (hp : IsRun Pattern.isBinaryDigit part) : Pattern.hexLiteral.search? (mark ++ part) = none := by
  refine Pattern.hexLiteral_search?_eq_none (List.forall_mem_append.2 ⟨?_, fun c hc => ?_⟩)
  · obtain rfl | rfl := hm <;> simp
  · have hc := hp.2 c hc
    simp only [Pattern.isBinaryDigit, Bool.or_eq_true, beq_iff_eq] at hc
    rcases hc with rfl | rfl <;> decide

/-- No mark of a literal in base 16 or 2 stands in a decimal. -/
theorem search?_decimal (hx : Number.IsDecimal Text.isDecimal x) :
    Pattern.hexLiteral.search? x = none ∧ Pattern.binaryLiteral.search? x = none := by
  have hne : ∀ (d : Char), Text.isDecimal d = true → ∀ e : Char, Text.isDecimal e = false → d ≠ e := by
    rintro d hd e he rfl
    rw [hd] at he
    cases he
  refine ⟨Pattern.hexLiteral_search?_eq_none ?_, Pattern.binaryLiteral_search?_eq_none ?_⟩
  · exact hx.forall_mem (fun c hc => ⟨hne c hc _ (by decide), hne c hc _ (by decide), hne c hc _ (by decide)⟩)
      (by decide) (by decide) (by decide)
  · exact hx.forall_mem (fun c hc => ⟨hne c hc _ (by decide), hne c hc _ (by decide)⟩) (by decide) (by decide) (by decide)

/-- **A token** is cut out as it is. -/
theorem leafCut?_eq (hx : k.IsToken x) : leafCut? Grammar.defaultLeaves x = some ⟨[], x, [], k⟩ := by
  have hne := hx.ne_nil
  cases hx with
  | hex hm hp =>
    have hhex := Pattern.search?_whole (p := .hexLiteral) hne (Pattern.hex?_append hm hp Pattern.stopsWord_nil)
    simp [leafCut?, Grammar.defaultLeaves, hhex]
  | binary hm hp =>
    have hbinary := Pattern.search?_whole (p := .binaryLiteral) hne (Pattern.binary?_append hm hp Pattern.stopsWord_nil)
    simp [leafCut?, Grammar.defaultLeaves, hexLiteral_search?_binary hm hp, hbinary]
  | identifier h => exact leafCut?_default_name h
  | decimal h =>
    obtain ⟨hhex, hbinary⟩ := search?_decimal h
    have hdecimal := Pattern.search?_whole (p := .decimalLiteral) hne (Pattern.decimal?_append_of_isDecimal h Pattern.stopsWord_nil)
    simp [leafCut?, Grammar.defaultLeaves, hhex, hbinary, Pattern.name_search?_decimal h, hdecimal]

/-- **A character that ends words** divides the cuts of the token in front of it. -/
theorem cutsApart (hx : k.IsToken x) (hc : EndsWord c) (y : Text) : CutsApart Grammar.defaultLeaves c x y := by
  obtain ⟨hhex, hbinary⟩ := Pattern.marked_divides hc x y
  cases hx with
  | hex hm hp =>
    have hfound := Pattern.search?_whole (p := .hexLiteral) (IsToken.hex hm hp).ne_nil
      (Pattern.hex?_append hm hp Pattern.stopsWord_nil)
    refine cutsApart_of_take 1 ?_ (by simp [leafCut?, Grammar.defaultLeaves, hfound])
    simpa [Grammar.defaultLeaves] using hhex
  | binary hm hp =>
    have hfound := Pattern.search?_whole (p := .binaryLiteral) (IsToken.binary hm hp).ne_nil
      (Pattern.binary?_append hm hp Pattern.stopsWord_nil)
    refine cutsApart_of_take 2 ?_
      (by simp [leafCut?, Grammar.defaultLeaves, hexLiteral_search?_binary hm hp, hfound])
    simpa [Grammar.defaultLeaves] using ⟨hhex, hbinary⟩
  | identifier h =>
    have hname : Pattern.name.Divides c x y :=
      Pattern.divides_of_matchAt? h.ne_nil (Pattern.nameHere?_append h Pattern.stopsWord_nil)
        (Pattern.nameHere?_append h (Pattern.stopsWord_cons hc y))
    refine cutsApart_of_take 3 ?_ (by rw [leafCut?_name h]; rfl)
    simpa [Grammar.defaultLeaves] using ⟨hhex, hbinary, hname⟩
  | decimal h =>
    refine cutsApart_of_divides ?_
    have hdecimal : Pattern.decimalLiteral.Divides c x y :=
      Pattern.divides_of_matchAt? (IsToken.decimal h).ne_nil (Pattern.decimal?_append_of_isDecimal h Pattern.stopsWord_nil)
        (Pattern.decimal?_append_of_isDecimal h (Pattern.stopsWord_cons hc y))
    simp only [Grammar.defaultLeaves, List.forall_mem_cons]
    exact ⟨hhex, hbinary, Pattern.name_divides_decimal h hc y, hdecimal, by simp⟩

end LeafKind.IsToken

/-! ## Words -/

/-- A name, the digits of a numeral, or nothing. -/
inductive IsWord : Text → Prop
  | empty : IsWord []
  | name {t : Text} (h : IsName t) : IsWord t
  | numeral {t : Text} (hne : t ≠ []) (h : ∀ d ∈ t, d.isDigit = true) : IsWord t

/-- **A character that ends words** divides the cuts of the words in front of it. -/
theorem IsWord.cutsApart {c : Char} {x : Text} (hx : IsWord x) (hc : EndsWord c) (y : Text) :
    CutsApart Grammar.defaultLeaves c x y := by
  cases hx with
  | empty =>
    refine cutsApart_of_divides ?_
    obtain ⟨hhex, hbinary⟩ := Pattern.marked_divides hc [] y
    have hname := Pattern.divides_of_skip (x := []) Pattern.name_matchAt?_eq_none (by simp)
      (Pattern.not_nameStart_of_endsWord hc) hc.word y
    have hdecimal := Pattern.divides_of_skip (x := []) Pattern.decimal_matchAt?_eq_none (by simp)
      (Pattern.not_isDecimal_of_not_isWord hc.word) hc.word y
    simp only [Grammar.defaultLeaves, List.forall_mem_cons]
    exact ⟨hhex, hbinary, hname, hdecimal, by simp⟩
  | name hx => exact (LeafKind.IsToken.identifier hx).cutsApart hc y
  | numeral hne hx =>
    exact (LeafKind.IsToken.decimal (.of_digits ⟨hne, fun d hd => Text.isDecimal_of_isDigit (hx d hd)⟩)).cutsApart hc y

/-! ## Numerals -/

section Numerals

variable {n : Nat} {t mark : Text}

theorem Pattern.isHexDigit_of_digitIn? {c : Char} (h : (Number.digitIn? 16 c).isSome = true) : isHexDigit c = true := by
  have hrange := Number.toNat_of_digitIn? h
  have hcases : (48 ≤ c.toNat ∧ c.toNat ≤ 57) ∨ (97 ≤ c.toNat ∧ c.toNat ≤ 102) ∨ (65 ≤ c.toNat ∧ c.toNat ≤ 70) := by omega
  simp only [isHexDigit, Bool.or_eq_true, Bool.and_eq_true, decide_eq_true_eq]
  rcases hcases with hdigit | hlower | hupper
  · exact .inl (.inl (Char.isDigit_iff_toNat.2 hdigit))
  · exact .inl (.inr hlower)
  · exact .inr hupper

theorem Pattern.isBinaryDigit_of_digitIn? {c : Char} (h : (Number.digitIn? 2 c).isSome = true) : isBinaryDigit c = true := by
  have hrange := Number.toNat_of_digitIn? h
  have hcases : c.toNat = '0'.toNat ∨ c.toNat = '1'.toNat := by
    have hzero : '0'.toNat = 48 := rfl
    have hone : '1'.toNat = 49 := rfl
    omega
  rw [isBinaryDigit, Bool.or_eq_true, beq_iff_eq, beq_iff_eq]
  exact hcases.imp Char.toNat_inj.1 Char.toNat_inj.1

namespace LeafKind

theorem isToken_of_writes_ten (h : Writes 10 n t) : decimal.IsToken t :=
  .decimal (.of_digits ⟨(h.isDigits (by decide) (by decide)).1, fun c hc => Text.isDecimal_of_isDigit (h.isDigit c hc)⟩)

theorem isToken_of_writes_sixteen (hm : mark = ['#'] ∨ mark = ['0', 'x'] ∨ mark = ['0', 'X']) (h : Writes 16 n t) :
    hex.IsToken (mark ++ t) ∧ hex.leaf (mark ++ t) = .ok (.number .none (.int n) (mark ++ t)) := by
  obtain ⟨hne, hdigits⟩ := h.isDigits (by decide) (by decide)
  refine ⟨.hex hm ⟨hne, fun c hc => Pattern.isHexDigit_of_digitIn? (hdigits c hc)⟩, ?_⟩
  have hpart : hexDigitsOf (mark ++ t) = t := by
    rcases hm with rfl | rfl | rfl <;> rfl
  rw [leaf, hpart, Number.readInt_of_writes (by decide) (by decide) h fun hten => absurd hten (by decide)]
  rfl

theorem isToken_of_writes_two (hm : mark = ['0', 'b'] ∨ mark = ['0', 'B']) (h : Writes 2 n t) :
    binary.IsToken (mark ++ t) ∧ binary.leaf (mark ++ t) = .ok (.number .none (.int n) (mark ++ t)) := by
  obtain ⟨hne, hdigits⟩ := h.isDigits (by decide) (by decide)
  refine ⟨.binary hm ⟨hne, fun c hc => Pattern.isBinaryDigit_of_digitIn? (hdigits c hc)⟩, ?_⟩
  have hpart : (mark ++ t).drop 2 = t := by
    rcases hm with rfl | rfl <;> rfl
  rw [leaf, hpart, Number.readInt_of_writes (by decide) (by decide) h fun hten => absurd hten (by decide)]
  rfl

end LeafKind

end Numerals

/-! ## Cuts are tokens -/

/-- **What is cut out** of a text is a token. -/
theorem isToken_of_leafCut? {t : Text} {c : LeafCut} (h : leafCut? Grammar.defaultLeaves t = some c) :
    c.kind.IsToken c.matched := by
  obtain ⟨r, hr, hkind, before, t', hm⟩ := leafCut?_matchAt h
  have hname := isName_of_leafCut? h
  rw [hkind] at hname ⊢
  simp only [Grammar.defaultLeaves, List.mem_cons, List.not_mem_nil, or_false] at hr
  rcases hr with rfl | rfl | rfl | rfl
  · obtain ⟨mark, part, hmatched, hmark, hp⟩ := Pattern.hex?_run hm
    rw [show c.matched = mark ++ part from hmatched]
    exact .hex hmark hp
  · obtain ⟨mark, part, hmatched, hmark, hp⟩ := Pattern.binary?_run hm
    rw [show c.matched = mark ++ part from hmatched]
    exact .binary hmark hp
  · exact .identifier (hname rfl)
  · exact .decimal (Pattern.decimal?_isDecimal hm)

end FormulaLang
