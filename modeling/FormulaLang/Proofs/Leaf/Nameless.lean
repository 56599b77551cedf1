import FormulaLang.Proofs.Leaf.Tokens

/-!
# Texts without names

Behind a digit a name does not start with an exponent, and a search looks only at the text that it is given. In front of the
place where a name is found there is no name (`Pattern.name_searchFrom?_before`), also when that text is cut off, and behind a
decimal that is cut out of a text without names a name is found at one place only: right there, at an exponent that the digit
in front of it had made the search pass over (`Pattern.name_search?_behind`).
-/

namespace FormulaLang

open Number (IsRun Exponent)

namespace Pattern

variable {p : Pattern} {before : Option Char} {c : Char} {t u v x : Text} {f : Found}

/-! ## Places of a search -/

/-- What is found is matched at its place. -/
theorem matchAt?_of_searchFrom? (h : p.searchFrom? before t = some f) :
    p.matchAt? (f.before.getLast?.or before) (f.matched ++ f.after) = some (f.matched, f.after) := by
  induction t generalizing before f with
  | nil => cases h
  | cons c t ih =>
    rw [searchFrom?] at h
    split at h
    · rename_i m after hm
      cases h
      have happend : m ++ after = c :: t := (splits_matchAt hm).1
      rwa [happend]
    · obtain ⟨g, hg, rfl⟩ := Option.map_eq_some_iff.1 h
      rw [getLast?_cons_or]
      exact ih hg

/-- A search that finds nothing finds nothing in the rest of the text. -/
theorem searchFrom?_suffix (h : p.searchFrom? before (u ++ v) = none) : p.searchFrom? (u.getLast?.or before) v = none := by
  induction u generalizing before with
  | nil => exact h
  | cons c u ih =>
    rw [getLast?_cons_or]
    exact ih (searchFrom?_cons_eq_none_iff.1 h).2

/-! ## Exponents -/

/-- An exponent stands at the start of a text when the text starts with its letter, a sign or none, and a digit. -/
theorem exponent?_isSome_iff :
    (exponent? t).isSome = true ↔ ∃ mark sign d rest, t = mark :: (sign ++ d :: rest) ∧ (mark = 'e' ∨ mark = 'E') ∧
      (sign = [] ∨ sign = ['+'] ∨ sign = ['-']) ∧ Text.isDecimal d = true := by
  constructor
  · intro h
    obtain ⟨r, hr⟩ := Option.isSome_iff_exists.1 h
    obtain ⟨happend, hne⟩ := splits_exponent hr
    generalize hx : r.1 = x at happend hne
    have hshape : Exponent Text.isDecimal x := hx ▸ exponent?_isExponent hr
    cases hshape with
    | absent => exact absurd rfl hne
    | @present mark sign part hm hs hp =>
      obtain ⟨d, part, rfl⟩ := List.exists_cons_of_ne_nil hp.1
      exact ⟨mark, sign, d, part ++ r.2, by rw [← happend]; simp, hm, hs, hp.2 d List.mem_cons_self⟩
  · rintro ⟨mark, sign, d, rest, rfl, hm, hs, hd⟩
    have hrun : IsRun Text.isDecimal [d] := ⟨by simp, by simpa using hd⟩
    have hfront : (exponent? (mark :: (sign ++ [d]))).isSome = true := by
      have happend := exponent?_append (t := []) hm hs hrun (by simp)
      rw [List.append_nil] at happend
      rw [happend]
      rfl
    have happend := exponent?_isSome_append hfront rest
    simpa using happend

/-- Where `v` starts with a character of `q`, a run of characters outside `q` that starts in front of `v` ends there too. -/
theorem exists_split_of_append {q : Char → Bool} {s rest : Text} {d : Char}
    (hv : ∀ c ∈ v.head?, q c = true) (hs : ∀ c ∈ s ++ [d], q c = false) (h : u ++ v = s ++ d :: rest) :
    ∃ rest', u = s ++ d :: rest' := by
  have hstart : ∀ c s', v = c :: s' → q c ≠ false := by
    rintro c s' rfl hc
    rw [hv c rfl] at hc
    cases hc
  induction s generalizing u with
  | nil =>
    cases u with
    | nil => exact absurd (hs d (by simp)) (hstart d rest h)
    | cons e u =>
      rw [(List.cons.inj h).1]
      exact ⟨u, rfl⟩
  | cons c s ih =>
    rw [List.cons_append, List.forall_mem_cons] at hs
    cases u with
    | nil => exact absurd hs.1 (hstart c _ h)
    | cons e u =>
      obtain ⟨rfl, htail⟩ := List.cons.inj h
      obtain ⟨rest', rfl⟩ := ih hs.2 htail
      exact ⟨rest', rfl⟩

/-- An exponent in front of a name does not reach into the name. -/
theorem exponent?_isSome_of_append (hne : u ≠ []) (hv : ∀ c ∈ v.head?, (isLetter c || c == '_') = true)
    (h : (exponent? (u ++ v)).isSome = true) : (exponent? u).isSome = true := by
  obtain ⟨mark, sign, d, rest, heq, hm, hs, hd⟩ := exponent?_isSome_iff.1 h
  obtain ⟨e, u, rfl⟩ := List.exists_cons_of_ne_nil hne
  obtain ⟨rfl, htail⟩ := List.cons.inj heq
  have hplain : ∀ c ∈ sign ++ [d], (isLetter c || c == '_') = false :=
    List.forall_mem_append.2 ⟨not_nameStart_of_sign hs, List.forall_mem_singleton.2 (not_nameStart_of_isDecimal hd)⟩
  obtain ⟨rest', rfl⟩ := exists_split_of_append hv hplain htail
  exact exponent?_isSome_iff.2 ⟨e, sign, d, rest', rfl, hm, hs, hd⟩

/-- A decimal in front of an exponent has one itself. -/
theorem mark_mem_of_decimal? (h : decimal? t = some (x, v)) (hv : (exponent? v).isSome = true) : 'e' ∈ x ∨ 'E' ∈ x := by
  obtain ⟨⟨m, rest⟩, -, hr⟩ := Option.map_eq_some_iff.1 h
  cases hexponent : exponent? rest with
  | none =>
    simp only [extend, hexponent, Prod.mk.injEq] at hr
    rw [← hr.2, hexponent] at hv
    cases hv
  | some r =>
    obtain ⟨happend, -⟩ := splits_exponent hexponent
    obtain ⟨mark, sign, d, tail, heq, hm, -⟩ := exponent?_isSome_iff.1 (Option.isSome_of_mem hexponent)
    simp only [extend, hexponent, Prod.mk.injEq] at hr
    have hmem : mark ∈ r.1 := by
      obtain ⟨e, part, hpart⟩ := List.exists_cons_of_ne_nil (splits_exponent hexponent).2
      rw [hpart, heq] at happend
      rw [hpart, ← (List.cons.inj happend).1]
      exact List.mem_cons_self
    rw [← hr.1]
    rcases hm with rfl | rfl
    · exact .inl (List.mem_append_right m hmem)
    · exact .inr (List.mem_append_right m hmem)

/-! ## Names -/

theorem name?_eq_none_iff : name? before t = none ↔
    before.any Text.isDecimal = true ∧ (exponent? t).isSome = true ∨ nameHere? t = none := by
  unfold name?
  split
  · rename_i hguard
    rw [Bool.and_eq_true] at hguard
    simp [hguard]
  · rename_i hguard
    rw [Bool.and_eq_true] at hguard
    simp [hguard]

theorem nameHere?_cons_eq_none_iff : nameHere? (c :: t) = none ↔ (isLetter c || c == '_') = false := by
  rw [nameHere?]
  cases isLetter c || c == '_' <;> simp

/-- A name starts with a letter or underscore, and ends where the word does. -/
theorem ends_of_nameHere? (h : nameHere? t = some (x, v)) :
    (∀ c ∈ x.head?, (isLetter c || c == '_') = true) ∧ ∀ c ∈ v.head?, Text.isWord c = false := by
  cases t with
  | nil => cases h
  | cons c t =>
    rw [nameHere?] at h
    split at h
    · rename_i hc
      cases h
      refine ⟨by simpa using hc, fun d hd => ?_⟩
      have hdrop := List.head?_dropWhile_not Text.isWord t
      rw [Option.mem_def.1 hd] at hdrop
      simpa using hdrop
    · cases h

/-- A name is made of word characters. -/
theorem isWord_of_nameHere? (h : nameHere? t = some (x, v)) : ∀ c ∈ x, Text.isWord c = true := by
  cases t with
  | nil => cases h
  | cons c t =>
    rw [nameHere?] at h
    split at h
    · rename_i hc
      cases h
      exact List.forall_mem_cons.2 ⟨isWord_of_nameStart hc, fun d hd => List.mem_takeWhile_imp hd⟩
    · cases h

theorem nameHere?_of_name? {r : Text × Text} (h : name? before t = some r) : nameHere? t = some r := by
  unfold name? at h
  split at h
  · cases h
  · exact h

/-- **No name** is found in the text in front of the place where one is found. -/
theorem name_searchFrom?_before (h : name.searchFrom? before t = some f) : name.searchFrom? before f.before = none := by
  have hstart : ∀ c ∈ (f.matched ++ f.after).head?, (isLetter c || c == '_') = true := by
    obtain ⟨m, rest, hm⟩ := List.exists_cons_of_ne_nil (searchFrom?_eq_some h).2
    have hhead := (ends_of_nameHere? (nameHere?_of_name? (matchAt?_of_searchFrom? h))).1
    rw [hm] at hhead ⊢
    exact hhead
  induction t generalizing before f with
  | nil => cases h
  | cons c t ih =>
    have happend := (searchFrom?_eq_some h).1
    rw [searchFrom?] at h
    split at h
    · cases h
      rfl
    · rename_i hhere
      obtain ⟨g, hg, rfl⟩ := Option.map_eq_some_iff.1 h
      refine searchFrom?_cons_eq_none_iff.2 ⟨name?_eq_none_iff.2 ?_, ih hg hstart⟩
      rw [← happend, List.append_assoc] at hhere
      obtain ⟨hdigit, hexponent⟩ | hnone := name?_eq_none_iff.1 hhere
      · exact .inl ⟨hdigit, exponent?_isSome_of_append (by simp) hstart hexponent⟩
      · rw [List.cons_append, nameHere?_cons_eq_none_iff] at hnone
        exact .inr (nameHere?_cons_eq_none_iff.2 hnone)

/-- Where no name is found behind a character, none is found without looking at that character either, unless an
exponent stands there: then the name starts where the exponent does. -/
theorem name_search?_behind (h : name.searchFrom? before t = none) :
    name.search? t = none ∨ (exponent? t).isSome = true ∧
      ∃ x v, name.search? t = some ⟨[], x, v⟩ ∧ nameHere? t = some (x, v) := by
  cases t with
  | nil => exact .inl rfl
  | cons c t =>
    obtain ⟨hhere, hrest⟩ := searchFrom?_cons_eq_none_iff.1 h
    obtain ⟨-, hexponent⟩ | hnone := name?_eq_none_iff.1 hhere
    · cases hname : nameHere? (c :: t) with
      | none => exact .inl (searchFrom?_cons_eq_none_iff.2 ⟨name?_eq_none_iff.2 (.inr hname), hrest⟩)
      | some r =>
        refine .inr ⟨hexponent, r.1, r.2, ?_, rfl⟩
        have hmatch : name.matchAt? none (c :: t) = some r := by simpa [matchAt?, name?] using hname
        rw [search?, searchFrom?, hmatch]
    · exact .inl (searchFrom?_cons_eq_none_iff.2 ⟨name?_eq_none_iff.2 (.inr hnone), hrest⟩)

/-! ## Decimals -/

/-- In front of the first decimal stands no decimal digit. -/
theorem not_isDecimal_before (h : decimalLiteral.searchFrom? before t = some f) :
    ∀ c ∈ f.before, Text.isDecimal c = false := by
  induction t generalizing before f with
  | nil => cases h
  | cons c t ih =>
    rw [searchFrom?] at h
    split at h
    · cases h
      simp
    · rename_i hhere
      obtain ⟨g, hg, rfl⟩ := Option.map_eq_some_iff.1 h
      simp only [matchAt?, decimal?, Option.map_eq_none_iff, run?_cons_eq_none_iff] at hhere
      exact List.forall_mem_cons.2 ⟨hhere, ih hg⟩

/-! ## Parts of a text without names -/

/-- The text in front of the first name. -/
theorem nameless_before (hhex : hexLiteral.search? t = none) (hbinary : binaryLiteral.search? t = none)
    (h : name.search? t = some f) : Nameless f.before := by
  have happend : [] ++ f.before ++ (f.matched ++ f.after) = t := by simpa using (search?_eq_some h).1
  rw [← happend] at hhex hbinary
  obtain ⟨hhex, hbinary⟩ := unmarked_part hhex hbinary
  exact ⟨hhex, hbinary, name_searchFrom?_before h⟩

/-- The first cut is that of a decimal. -/
theorem Nameless.decimal_of_leafCut? (ht : Nameless t) {c : LeafCut} (h : leafCut? Grammar.defaultLeaves t = some c) :
    decimalLiteral.search? t = some ⟨c.before, c.matched, c.after⟩ ∧ c.kind = .decimal := by
  simp only [leafCut?, Grammar.defaultLeaves, List.findSome?_cons, ht.hex, ht.binary, ht.name, Option.map_none] at h
  cases hdecimal : decimalLiteral.search? t with
  | none =>
    rw [hdecimal] at h
    cases h
  | some f =>
    rw [hdecimal] at h
    cases h
    exact ⟨rfl, rfl⟩

/-- Nothing is cut out of the text in front of the first decimal. -/
theorem Nameless.leafCut?_before (ht : Nameless t) (h : decimalLiteral.search? t = some f) :
    leafCut? Grammar.defaultLeaves f.before = none := by
  have happend := (search?_eq_some h).1
  have hname := ht.name
  rw [← happend, List.append_assoc] at hname
  have hdigits := not_isDecimal_before h
  have hletters := not_nameStart_of_searchFrom? rfl hdigits hname
  refine leafCut?_default_eq_none_iff.2 fun c hc => ?_
  rw [isLeafStart, hletters c hc, hdigits c hc]
  rfl

/-- No literal in base 16 or 2 is found in the rest of the text. -/
theorem Nameless.unmarked_suffix (ht : Nameless t) (happend : u ++ v = t) :
    hexLiteral.search? v = none ∧ binaryLiteral.search? v = none := by
  have hsplit : u ++ v ++ [] = t := by rw [List.append_nil, happend]
  exact unmarked_part (hsplit ▸ ht.hex) (hsplit ▸ ht.binary)

/-- **Behind the first decimal** stands a text without names, or a name that starts with an exponent, and behind that name there
is no further one. -/
theorem Nameless.after (ht : Nameless t) (h : decimalLiteral.search? t = some f) :
    Nameless f.after ∨ ∃ x v, leafCut? Grammar.defaultLeaves f.after = some ⟨[], x, v, .identifier⟩ ∧
      nameHere? f.after = some (x, v) ∧ (exponent? f.after).isSome = true ∧ Nameless v := by
  have happend := (search?_eq_some h).1
  obtain ⟨hhex, hbinary⟩ := ht.unmarked_suffix happend
  have hname := ht.name
  rw [← happend] at hname
  obtain hnone | ⟨hexponent, x, v, hfound, hhere⟩ := name_search?_behind (searchFrom?_suffix hname)
  · exact .inl ⟨hhex, hbinary, hnone⟩
  · have hafter : x ++ v = f.after := by simpa using (search?_eq_some hfound).1
    rw [← hafter, ← List.append_assoc] at hname happend
    obtain ⟨hhex', hbinary'⟩ := ht.unmarked_suffix happend
    -- The name ends where the word does, so no exponent stands behind it.
    have hv : Pattern.name.search? v = none := by
      obtain hnone | ⟨hmark, -⟩ := name_search?_behind (searchFrom?_suffix hname)
      · exact hnone
      · obtain ⟨mark, sign, d, rest, rfl, hm, -⟩ := exponent?_isSome_iff.1 hmark
        have hend : Text.isWord mark = false := (ends_of_nameHere? hhere).2 mark rfl
        rcases hm with rfl | rfl <;> cases hend
    refine .inr ⟨x, v, ?_, hhere, hexponent, hhex', hbinary', hv⟩
    simp [leafCut?, Grammar.defaultLeaves, hhex, hbinary, hfound]

end Pattern

end FormulaLang
