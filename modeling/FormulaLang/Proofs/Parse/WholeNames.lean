import FormulaLang.Proofs.Leaf.Nameless
import FormulaLang.Proofs.Parse.Separated

/-!
# Names are whole

Behind a name stands no word character: the text ends there or goes on with something that is no part of a word, or with a
literal in base 16 or 2, which is cut out first (`EndsName`). There is one exception. A name may not start with the letter of
an exponent behind a digit, but lexing forgets the digit when it cuts out the decimal that ends with it. So of `1e5e6x` the rule
for names takes the `x`, and when the decimal `1e5` is gone, it takes the `e6` that it had passed over (`BehindExponent`); this
is the only way in which two names can stand side by side (`endsName_lexText`).
-/

namespace FormulaLang

open Node (sourceTexts)
open Pattern (Nameless)

/-- A name that starts with the letter of an exponent and a digit, directly behind a decimal that has an exponent. -/
structure BehindExponent (front : List Node) (x : Text) : Prop where
  literal : ∃ front' v u, front = front' ++ [.number .none v u] ∧ Number.IsDecimal Text.isDecimal u ∧ ('e' ∈ u ∨ 'E' ∈ u)
  name : ∃ mark d rest, x = mark :: d :: rest ∧ (mark = 'e' ∨ mark = 'E') ∧ Text.isDecimal d = true

/-- What may stand behind the name `x`. -/
inductive EndsName (front : List Node) (x : Text) (back : List Node) : Prop
  | stop (h : ∀ n ∈ back.head?, ∀ c ∈ n.sourceText.head?, Text.isWord c = false)
  | literal {v : Scalar} {u : Text} {back' : List Node} (hback : back = .number .none v u :: back')
      (hu : LeafKind.hex.IsToken u ∨ LeafKind.binary.IsToken u)
  | name {y : Text} {back' : List Node} (hback : back = .identifier .none y :: back') (h : BehindExponent front x)

theorem BehindExponent.append {front : List Node} {x : Text} (h : BehindExponent front x) (ss : List Node) :
    BehindExponent (ss ++ front) x := by
  obtain ⟨⟨front', v, u, rfl, hu, hmark⟩, hname⟩ := h
  exact ⟨⟨ss ++ front', v, u, by rw [List.append_assoc], hu, hmark⟩, hname⟩

namespace EndsName

variable {front back : List Node} {x : Text}

theorem append_front (h : EndsName front x back) (ss : List Node) : EndsName (ss ++ front) x back := by
  cases h with
  | stop h => exact .stop h
  | literal hback hu => exact .literal hback hu
  | name hback h => exact .name hback (h.append ss)

theorem append_back (h : EndsName front x back) (hne : back ≠ []) (ss : List Node) : EndsName front x (back ++ ss) := by
  cases h with
  | stop h => exact .stop (by rwa [List.head?_append_of_ne_nil _ hne])
  | literal hback hu => exact .literal (by rw [hback]; rfl) hu
  | name hback h => exact .name (by rw [hback]; rfl) h

end EndsName

/-! ## Cuts -/

/-- Where something is cut out, the parts of the text are lexed by themselves. -/
theorem exists_of_lexText_cut {rules : List LeafRule} {t : Text} {out : List Node} {c : LeafCut}
    (h : lexText rules t = .ok out) (hc : leafCut? rules t = some c) :
    ∃ leaf left right, c.kind.leaf c.matched = .ok leaf ∧ lexText rules c.before = .ok left ∧
      lexText rules c.after = .ok right ∧ out = left ++ leaf :: right := by
  rw [lexText] at h
  split at h
  · rename_i hnone
    cases hnone.symm.trans hc
  · rename_i c' hc'
    cases hc'.symm.trans hc
    split at h
    · cases h
    · rename_i leaf hleaf
      split at h
      · cases h
      · rename_i left hleft
        split at h
        · cases h
        · rename_i right hright
          cases h
          exact ⟨leaf, left, right, hleaf, hleft, hright, rfl⟩

/-- What is left raw is no name. -/
theorem not_identifier_mem_raws {t : Text} {p : Pad} {x : Text} : .identifier p x ∉ Node.raws t := by
  unfold Node.raws
  split <;> simp

/-- The last sentence of three parts is the one in the middle or the last of the right part. -/
theorem eq_concat_of_append_cons {left right front : List Node} {m n : Node} (h : left ++ m :: right = front ++ [n]) :
    (right = [] ∧ m = n ∧ left = front) ∨ ∃ right', right = right' ++ [n] ∧ front = left ++ m :: right' := by
  obtain rfl | ⟨right', k, rfl⟩ := List.eq_nil_or_concat right
  · obtain ⟨hleft, hm⟩ := List.append_inj' h rfl
    exact .inl ⟨rfl, (List.cons.inj hm).1, hleft⟩
  · rw [List.concat_eq_append] at h ⊢
    rw [← List.cons_append, ← List.append_assoc] at h
    obtain ⟨hfront, hk⟩ := List.append_inj' h rfl
    rw [(List.cons.inj hk).1]
    exact .inr ⟨right', rfl, hfront.symm⟩

/-! ## Names behind an exponent -/

/-- A word that starts with an exponent starts with its letter and a digit. -/
theorem exists_digit_of_exponent {x : Text} (h : (Pattern.exponent? x).isSome = true) (hx : ∀ c ∈ x, Text.isWord c = true) :
    ∃ mark d rest, x = mark :: d :: rest ∧ (mark = 'e' ∨ mark = 'E') ∧ Text.isDecimal d = true := by
  obtain ⟨mark, sign, d, rest, rfl, hm, hs, hd⟩ := Pattern.exponent?_isSome_iff.1 h
  rcases hs with rfl | rfl | rfl
  · exact ⟨mark, d, rest, rfl, hm, hd⟩
  · cases hx '+' (by simp)
  · cases hx '-' (by simp)

/-- A decimal that is cut out in front of an exponent has one itself. -/
theorem exists_decimal_of_cut {w : Text} {c : LeafCut} {leaf : Node}
    (hfound : Pattern.decimalLiteral.search? w = some ⟨c.before, c.matched, c.after⟩) (hkind : c.kind = .decimal)
    (hleaf : c.kind.leaf c.matched = .ok leaf) (hexponent : (Pattern.exponent? c.after).isSome = true) :
    ∃ v u, leaf = .number .none v u ∧ Number.IsDecimal Text.isDecimal u ∧ ('e' ∈ u ∨ 'E' ∈ u) := by
  have hmatch : Pattern.decimal? (c.matched ++ c.after) = some (c.matched, c.after) := Pattern.matchAt?_of_searchFrom? hfound
  rcases LeafKind.leaf_cases hleaf with ⟨v, rfl⟩ | rfl
  · exact ⟨v, c.matched, rfl, Pattern.decimal?_isDecimal hmatch, Pattern.mark_mem_of_decimal? hmatch hexponent⟩
  · cases hkind.symm.trans (LeafKind.eq_identifier_of_leaf hleaf)

/-- **The last name** in a text in which no rule in front of the one for decimals finds anything stands behind an exponent. -/
theorem behindExponent_of_nameless {w : Text} (hw : Nameless w) {front : List Node} {p : Pad} {x : Text}
    (h : lexText Grammar.defaultLeaves w = .ok (front ++ [.identifier p x])) : BehindExponent front x := by
  induction hn : w.length using Nat.strong_induction_on generalizing w front with
  | _ n ih =>
    subst hn
    cases hc : leafCut? Grammar.defaultLeaves w with
    | none =>
      have hraws : Node.raws w = front ++ [.identifier p x] := Except.ok.inj ((lexText_of_none hc).symm.trans h)
      exact absurd (hraws ▸ by simp) (not_identifier_mem_raws (t := w) (p := p) (x := x))
    | some c =>
      obtain ⟨leaf, left, right, hleaf, hleft, hright, hout⟩ := exists_of_lexText_cut h hc
      have hlength := LeafCut.length_lt hc
      obtain ⟨hfound, hkind⟩ := hw.decimal_of_leafCut? hc
      obtain ⟨-, hlast, -⟩ | ⟨right', hright', rfl⟩ := eq_concat_of_append_cons hout.symm
      · cases hkind.symm.trans (LeafKind.eq_identifier_of_leaf (hlast ▸ hleaf))
      rw [hright'] at hright
      obtain hafter | ⟨y, v, hcut, hhere, hexponent, hv⟩ := hw.after hfound
      · have hlt : c.after.length < w.length := by omega
        have hrest := (ih c.after.length hlt hafter hright rfl).append (left ++ [leaf])
        rwa [List.append_assoc] at hrest
      · obtain ⟨name, before, rest, hname, hbefore, hrest, happend⟩ := exists_of_lexText_cut hright hcut
        cases hname
        cases (lexText_of_none (leafCut?_nil _)).symm.trans hbefore
        have hafter : y ++ v = c.after := (leafCut?_eq_some hcut).1
        obtain ⟨rfl, hlast, rfl⟩ | ⟨rest', rfl, rfl⟩ := eq_concat_of_append_cons happend.symm
        · cases hlast
          have hnil : v = [] := (sourceTexts_lexText hrest).symm
          rw [hnil, List.append_nil] at hafter
          obtain ⟨k, u, rfl, hu, hmark⟩ := exists_decimal_of_cut hfound hkind hleaf hexponent
          rw [← hafter] at hexponent
          exact ⟨⟨left, k, u, rfl, hu, hmark⟩, exists_digit_of_exponent hexponent (Pattern.isWord_of_nameHere? hhere)⟩
        · have hlt : v.length < w.length := by
            have hlength' := congrArg List.length hafter
            rw [List.length_append] at hlength'
            omega
          have hbehind := (ih v.length hlt hv hrest rfl).append (left ++ [leaf, .identifier .none y])
          rwa [List.append_assoc, List.cons_append, List.singleton_append] at hbehind

/-! ## Lexed texts -/

/-- What stands behind a name that is cut out is no part of a word. -/
theorem endsName_of_cut {t : Text} {c : LeafCut} (h : leafCut? Grammar.defaultLeaves t = some c) (hkind : c.kind = .identifier)
    (front : List Node) (x : Text) {right : List Node} (hright : lexText Grammar.defaultLeaves c.after = .ok right) :
    EndsName front x right := by
  obtain (hc | hc) | ⟨-, -, hname, -⟩ | ⟨-, -, hc⟩ := leafCut?_default_cases h
  · cases hkind.symm.trans hc
  · cases hkind.symm.trans hc
  · have hend := (Pattern.ends_of_nameHere? (Pattern.nameHere?_of_name? (Pattern.matchAt?_of_searchFrom? hname))).2
    refine .stop fun n hn d hd => hend d ?_
    cases right with
    | nil => cases hn
    | cons m right =>
      cases Option.mem_some_iff.1 hn
      obtain ⟨rest, hrest⟩ := List.head?_eq_some_iff.1 hd
      have htext : c.after = n.sourceText ++ sourceTexts right := (sourceTexts_lexText hright).symm
      rw [htext, hrest]
      rfl
  · cases hkind.symm.trans hc

/-- Behind a name at the end of the left part of a cut stands a literal in base 16 or 2, or the name that is cut out. -/
theorem endsName_of_left {t : Text} {c : LeafCut} (h : leafCut? Grammar.defaultLeaves t = some c) {leaf : Node}
    (hleaf : c.kind.leaf c.matched = .ok leaf) {front : List Node} {p : Pad} {x : Text}
    (hleft : lexText Grammar.defaultLeaves c.before = .ok (front ++ [.identifier p x])) (right : List Node) :
    EndsName front x (leaf :: right) := by
  have htoken := isToken_of_leafCut? h
  obtain hmarked | ⟨hhex, hbinary, hname, hkind⟩ | ⟨hnameless, hdecimal, -⟩ := leafCut?_default_cases h
  · have hnumber : ∃ v, leaf = .number .none v c.matched := by
      rcases LeafKind.leaf_cases hleaf with hnumber | rfl
      · exact hnumber
      · rw [LeafKind.eq_identifier_of_leaf hleaf] at hmarked
        rcases hmarked with hk | hk <;> cases hk
    obtain ⟨v, rfl⟩ := hnumber
    rcases hmarked with hk | hk
    · exact .literal rfl (.inl (hk ▸ htoken))
    · exact .literal rfl (.inr (hk ▸ htoken))
  · rw [hkind] at hleaf
    cases hleaf
    exact .name rfl (behindExponent_of_nameless (Pattern.nameless_before hhex hbinary hname) hleft)
  · have hraws := (lexText_of_none (hnameless.leafCut?_before hdecimal)).symm.trans hleft
    exact absurd (Except.ok.inj hraws ▸ by simp) (not_identifier_mem_raws (t := c.before) (p := p) (x := x))

/-- **Every name** of a lexed text ends with its word. -/
theorem endsName_lexText {t : Text} {out : List Node} (h : lexText Grammar.defaultLeaves t = .ok out) {front back : List Node}
    {p : Pad} {x : Text} (hout : out = front ++ .identifier p x :: back) : EndsName front x back := by
  generalize hrules : Grammar.defaultLeaves = rules at h
  fun_induction lexText rules t generalizing out front back with
  | case1 t hc =>
    cases h
    exact absurd (hout ▸ by simp) (not_identifier_mem_raws (t := t) (p := p) (x := x))
  | case2 => cases h
  | case3 => cases h
  | case4 => cases h
  | case5 t c hc leaf hleaf left hleft right hright ih₁ ih₂ =>
    cases h
    subst hrules
    have hhere : leaf = .identifier p x → ∀ front, EndsName front x right := by
      rintro rfl front
      exact endsName_of_cut hc (LeafKind.eq_identifier_of_leaf hleaf) front x hright
    obtain ⟨inner, rfl, hinner⟩ | ⟨inner, rfl, hinner⟩ := List.append_eq_append_iff.1 hout
    · cases inner with
      | nil =>
        obtain ⟨hname, rfl⟩ := List.cons.inj hinner
        exact hhere hname _
      | cons n inner =>
        obtain ⟨rfl, rfl⟩ := List.cons.inj hinner
        have hends := (ih₂ rfl hright).append_front (left ++ [leaf])
        rwa [List.append_assoc] at hends
    · cases inner with
      | nil =>
        obtain ⟨hname, rfl⟩ := List.cons.inj hinner
        exact hhere hname.symm _
      | cons n inner =>
        obtain ⟨rfl, rfl⟩ := List.cons.inj hinner
        by_cases hinner : inner = []
        · rw [hinner] at hleft ⊢
          exact endsName_of_left hc hleaf hleft right
        · exact (ih₁ rfl hleft).append_back hinner _

/-- The names of a lexed text are names in which no other literal stands. -/
theorem isName_of_lexText {t : Text} {out : List Node} (h : lexText Grammar.defaultLeaves t = .ok out) {p : Pad} {x : Text}
    (hx : .identifier p x ∈ out) : p = .none ∧ Pattern.IsName x := by
  have hall : ∀ n ∈ out, ∀ p x, n = .identifier p x → p = .none ∧ Pattern.IsName x := by
    refine forall_mem_lexText (fun u p x hn => by cases hn) (fun u c n hc hleaf p x hn => ?_) h
    subst hn
    have hkind : c.kind = .identifier := LeafKind.eq_identifier_of_leaf hleaf
    have hname := isName_of_leafCut? hc hkind
    rw [hkind] at hleaf
    cases hleaf
    exact ⟨rfl, hname⟩
  exact hall _ hx p x rfl

/-- **Two names** stand side by side only behind an exponent. -/
theorem behindExponent_of_lexText {t : Text} {out : List Node} (h : lexText Grammar.defaultLeaves t = .ok out)
    {front back : List Node} {p q : Pad} {x y : Text} (hout : out = front ++ .identifier p x :: .identifier q y :: back) :
    BehindExponent front x := by
  obtain ⟨rfl, hy⟩ := isName_of_lexText h (p := q) (x := y) (by simp [hout])
  cases endsName_lexText h hout with
  | stop hstop =>
    obtain ⟨c, rest, rfl, hc, -⟩ := hy.shape
    have hend := hstop _ rfl c (by simp [Node.sourceText, Pad.wrap, Pad.none])
    cases hend.symm.trans (Pattern.isWord_of_nameStart hc)
  | literal hback hu => cases hback
  | name hback hbehind => exact hbehind

/-- **The names** that lexing finds in a new formula with the default leaf rules are whole: no word character stands behind a
name, but only a literal in base 16 or 2, and no name stands directly behind another one, except where the first one is made of
the exponent that a decimal with an exponent has behind it. -/
theorem Formula.lex_names {l : Language} (hl : l.grammar.leaves = Grammar.defaultLeaves) (t : Text) :
    ∃ o ss, (new t).advance? l .lex = some o ∧ o.failure = none ∧ o.formula = ⟨t, .equation .none ss 0, []⟩ ∧
      (∀ front p x q y back, ss = front ++ .identifier p x :: .identifier q y :: back → BehindExponent front x) ∧
      ∀ front p x back, ss = front ++ .identifier p x :: back → EndsName front x back := by
  obtain ⟨ss, hlexed⟩ := lexText_ok readable_default t
  obtain ⟨o, ho, hfailure, hformula⟩ := advance?_lex_new hl hlexed
  exact ⟨o, ss, ho, hfailure, hformula, fun _ _ _ _ _ _ hss => behindExponent_of_lexText hlexed hss,
    fun _ _ _ _ hss => endsName_lexText hlexed hss⟩

/-- The names of a text with a digit and an exponent in front of names. -/
theorem Formula.lex_names_behindDigit :
    Language.default.grammar.leaves = Grammar.defaultLeaves ∧
      ∃ o ss, (new "2e + 3e4e5y0x1F".toList).advance? .default .lex = some o ∧ o.failure = none ∧
        o.formula = ⟨"2e + 3e4e5y0x1F".toList, .equation .none ss 0, []⟩ ∧
        (∀ front p x q y back, ss = front ++ .identifier p x :: .identifier q y :: back → BehindExponent front x) ∧
        ∀ front p x back, ss = front ++ .identifier p x :: back → EndsName front x back :=
  ⟨rfl, lex_names rfl _⟩

/-- Two names side by side: the decimal in front of the first one ends with the digit behind which it may not start. -/
theorem Formula.lex_names_cut :
    ∃ o v, (new "1e5e6x".toList).advance? .default .lex = some o ∧ o.failure = none ∧
      o.formula = ⟨"1e5e6x".toList, .equation .none [.number .none v "1e5".toList, .identifier .none "e6".toList,
        .identifier .none "x".toList] 0, []⟩ := by
  have hempty : lexText Grammar.defaultLeaves [] = .ok [] := lexText_of_none (leafCut?_nil _)
  have hdecimal : Number.IsDecimal Text.isDecimal "1e5".toList :=
    @Number.IsDecimal.mk _ ['1'] [] ['e', '5'] (by decide) .absent
      (@Number.Exponent.present _ 'e' [] ['5'] (by decide) (by decide) (by decide))
  obtain ⟨v, hv⟩ : ∃ v, LeafKind.decimal.leaf "1e5".toList = .ok (.number .none v "1e5".toList) := by
    obtain ⟨n, hn⟩ := LeafKind.leaf_decimal_ok hdecimal
    rcases LeafKind.leaf_cases hn with ⟨v, rfl⟩ | rfl
    · exact ⟨v, hn⟩
    · cases LeafKind.eq_identifier_of_leaf hn
  have hname : lexText Grammar.defaultLeaves "e6".toList = .ok [.identifier .none "e6".toList] :=
    lexText_of_cut (c := ⟨[], "e6".toList, [], .identifier⟩) rfl rfl hempty hempty
  have hfront : lexText Grammar.defaultLeaves "1e5e6".toList =
      .ok [.number .none v "1e5".toList, .identifier .none "e6".toList] :=
    lexText_of_cut (c := ⟨[], "1e5".toList, "e6".toList, .decimal⟩) rfl hv hempty hname
  have hlexed : lexText Grammar.defaultLeaves "1e5e6x".toList = .ok [.number .none v "1e5".toList,
      .identifier .none "e6".toList, .identifier .none "x".toList] :=
    lexText_of_cut (c := ⟨"1e5e6".toList, "x".toList, [], .identifier⟩) rfl rfl hfront hempty
  obtain ⟨o, ho⟩ := advance?_lex_new (l := .default) rfl hlexed
  exact ⟨o, v, ho⟩

end FormulaLang
