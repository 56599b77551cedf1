import FormulaLang.Proofs.Evaluation.Shape
import FormulaLang.Proofs.Literal.Printed
import FormulaLang.Proofs.Parse.Positions
import FormulaLang.Proofs.Simplification.Agreement

/-!
# Parsed trees

The default grammar makes trees of literals, names, groups, calls and its own operators (`Node.Parsed`). Such a tree is
printable when its equations hold one sentence each, its brackets are round and its literals are integers that can be written
(`Node.isPlain`), when no factors run together (`Node.isApart`), and when every group with several parameters is the argument of
a call (`Node.Parsed.printable`). In an explicit tree (`Node.isExplicit`) no operator is left out.
-/

namespace FormulaLang

open Pattern (IsName)
open Precedence (Operator prefixOperators binaryOperators)

variable {l : Language}

/-! ## Symbols in white space -/

theorem Element.exists_of_isSymbol {s t : Text} (h : Element.isSymbol s t = true) :
    ∃ b a, Text.allBlank b = true ∧ Text.allBlank a = true ∧ t = b ++ s ++ a := by
  induction t with
  | nil =>
    rw [Element.isSymbol] at h
    obtain ⟨rfl, -⟩ : s = [] ∧ Text.allBlank [] = true := by simpa using h
    exact ⟨[], [], rfl, rfl, rfl⟩
  | cons c t ih =>
    rw [Element.isSymbol, Bool.or_eq_true, Bool.and_eq_true, Bool.and_eq_true] at h
    rcases h with ⟨hp, hb⟩ | ⟨hc, ht⟩
    · obtain ⟨u, hu⟩ := List.isPrefixOf_iff_prefix.1 hp
      rw [← hu, List.drop_left] at hb
      exact ⟨[], u, rfl, hb, hu.symm⟩
    · obtain ⟨b, a, hb, ha, rfl⟩ := ih ht
      exact ⟨c :: b, a, by simpa [Text.allBlank, hc] using hb, ha, rfl⟩

theorem Text.dropWhile_blank {b t : Text} (hb : allBlank b = true) (ht : ∀ c ∈ t.head?, isBlank c = false) :
    (b ++ t).dropWhile isBlank = t := by
  rw [List.dropWhile_append_of_pos (List.all_eq_true.1 hb)]
  cases t with
  | nil => rfl
  | cons c t => rw [List.dropWhile_cons_of_neg (by simpa using ht c rfl)]

/-- Trimming takes the white space around a text away. -/
theorem Text.trim_of_blank {b s a : Text} (hb : allBlank b = true) (ha : allBlank a = true) (hne : s ≠ [])
    (hs : ∀ c ∈ s, isBlank c = false) : trim (b ++ s ++ a) = s := by
  have hleft : trimLeft (b ++ (s ++ a)) = s ++ a := by
    refine dropWhile_blank hb fun c hc => hs c ?_
    rw [List.head?_append_of_ne_nil _ hne] at hc
    exact List.mem_of_mem_head? hc
  have hright : (a.reverse ++ s.reverse).dropWhile isBlank = s.reverse := by
    refine dropWhile_blank (by rwa [allBlank, List.all_reverse]) fun c hc => hs c ?_
    exact List.mem_reverse.1 (List.mem_of_mem_head? hc)
  rw [trim, List.append_assoc, hleft, trimRight, List.reverse_append, hright, List.reverse_reverse]

theorem IsSymbol.not_isBlank {s : Text} : IsSymbol s → ∀ c ∈ s, Text.isBlank c = false :=
  fun hs c hc => by simpa using hs.all_char (p := fun c => !Text.isBlank c) (by decide) c hc

/-- A fragment in which a symbol stands is that symbol when it is trimmed. -/
theorem IsSymbol.trim_of_fits {s t : Text} (hs : IsSymbol s) (h : (Element.symbol s).fits (.raw t) = true) :
    Text.trim t = s := by
  obtain ⟨b, a, hb, ha, rfl⟩ := Element.exists_of_isSymbol h
  exact Text.trim_of_blank hb ha hs.ne_nil hs.not_isBlank

theorem Element.isValue_of_fits {n : Node} (h : Element.value.fits n = true) : n.isValue = true := by
  cases n <;> first | rfl | cases h

/-! ## The trees of the default grammar -/

/-- The rule makes an operation of the default grammar, or no operation at all. -/
def Rule.known (r : Rule) : Bool :=
  match r.builder, r.pattern with
  | .spaceBefore, _ | .spaceAfter, _ | .variableUse, _ => true
  | .functionCall, [.identifier, .group] => true
  | .binary, [.value, .symbol s, .value] => binaryOperators.any fun o => o.symbol == s && r.operation == some o.operation
  | .implicit, [.value, .value] => r.operation == some .mul
  | .unary, [.symbol s, .value] => prefixOperators.any fun o => o.symbol == s && r.operation == some o.operation
  | _, _ => false

theorem known_default : ∀ t ∈ Grammar.default.tiers, ∀ r ∈ t.rules, r.known = true := by
  decide

namespace Node

/-- A tree that the default grammar makes, with whatever sentences in its equations that are left over. -/
inductive Parsed (l : Language) : Node → Prop
  | number (p : Pad) (v : Scalar) (t : Text) (hv : ∀ n, v = .int n → 0 ≤ n) : Parsed l (.number p v t)
  | var (p : Pad) {name : Text} (hname : IsName name) : Parsed l (.var p (.table name) name)
  | group (b : Brackets) {ps : List Node} (hps : ∀ q ∈ ps, Parsed l q) : Parsed l (.group b ps)
  | call (p q : Pad) {name : Text} (hname : IsName name) (b : Brackets) {ps : List Node} (hps : ∀ q ∈ ps, Parsed l q) :
      Parsed l (.call p (.identifier q name) (l.resolve name) (.group b ps))
  | unary (p : Pad) {op : Operator} (hop : op ∈ prefixOperators) {s : Text} (hs : Text.trim s = op.symbol) {x : Node}
      (hx : Parsed l x) : Parsed l (.unary p (.raw s) (some op.operation) x)
  | binary (p : Pad) {op : Operator} (hop : op ∈ binaryOperators) {s : Text} (hs : Text.trim s = op.symbol) {x y : Node}
      (hx : Parsed l x) (hy : Parsed l y) : Parsed l (.binary p x (.raw s) (some op.operation) y)
  | implicit (p : Pad) {x y : Node} (hx : Parsed l x) (hy : Parsed l y) (hxv : x.isValue = true) (hyv : y.isValue = true) :
      Parsed l (.binary p x (.raw []) (some .mul) y)
  | equation (p : Pad) {ss : List Node} (hss : ∀ s ∈ ss, s.isRaw = false → s.isIdentifier = false → Parsed l s) (o : Int) :
      Parsed l (.equation p ss o)

/-- A sentence is raw text, a name, or a tree that the default grammar makes. -/
structure ParsedSentence (l : Language) (n : Node) : Prop where
  name : ∀ p t, n = .identifier p t → IsName t
  tree : n.isRaw = false → n.isIdentifier = false → n.Parsed l

theorem Parsed.sentence {n : Node} (h : n.Parsed l) : n.ParsedSentence l where
  name p t heq := by
    subst heq
    cases h
  tree _ _ := h

theorem Parsed.withPad {n : Node} (h : n.Parsed l) (p : Pad) : (n.withPad p).Parsed l := by
  cases h with
  | number _ v t hv => exact .number p v t hv
  | var _ hname => exact .var p hname
  | group b hps => exact .group _ hps
  | call _ q hname b hps => exact .call p q hname b hps
  | unary _ hop hs hx => exact .unary p hop hs hx
  | binary _ hop hs hx hy => exact .binary p hop hs hx hy
  | implicit _ hx hy hxv hyv => exact .implicit p hx hy hxv hyv
  | equation _ hss o => exact .equation p hss o

namespace ParsedSentence

variable {n : Node}

theorem of_name {p : Pad} {t : Text} (h : IsName t) : ParsedSentence l (.identifier p t) where
  name _ _ heq := by
    cases heq
    exact h
  tree _ hname := by cases hname

theorem raw (t : Text) : ParsedSentence l (.raw t) where
  name _ _ heq := by cases heq
  tree hraw _ := by cases hraw

theorem withPad (h : n.ParsedSentence l) (hraw : n.isRaw = false) (p : Pad) : (n.withPad p).ParsedSentence l := by
  cases n with
  | raw t => cases hraw
  | identifier q t => exact .of_name (h.name q t rfl)
  | _ => exact ((h.tree rfl rfl).withPad p).sentence

/-- A sentence that is a value is a tree. -/
theorem of_value (h : n.ParsedSentence l) (hn : Element.value.fits n = true) : n.Parsed l := by
  refine h.tree ?_ ?_ <;> cases n <;> first | rfl | cases hn

end ParsedSentence

theorem parsed_params {b : Brackets} {ps : List Node} (h : Parsed l (.group b ps)) : ∀ q ∈ ps, q.Parsed l := by
  cases h with
  | group => assumption

end Node

open Node (ParsedSentence)

/-- The leaves of the default grammar. -/
theorem parsedSentence_leaf {t : Text} {c : LeafCut} {n : Node} (h : leafCut? Grammar.defaultLeaves t = some c)
    (hleaf : c.kind.leaf c.matched = .ok n) : n.ParsedSentence l := by
  rcases LeafKind.leaf_cases hleaf with ⟨v, rfl⟩ | rfl
  · refine Node.Parsed.sentence (.number _ v _ ?_)
    rintro k rfl
    exact nonneg_of_leafCut? h hleaf
  · exact .of_name (isName_of_leafCut? h (LeafKind.eq_identifier_of_leaf hleaf))

/-- A known rule makes a parsed sentence of parsed sentences. -/
theorem Rule.Builds.parsedSentence {r : Rule} {matched : List Node} (hr : r.known = true)
    (hfits : List.Forall₂ (fun e n => e.fits n = true) r.pattern matched) {n : Node} (h : r.Builds l.resolve matched n)
    (hm : ∀ m ∈ matched, m.ParsedSentence l) : n.ParsedSentence l := by
  unfold Rule.known at hr
  cases h with
  | @spaceBefore t n hb hn => exact (hm n (by simp)).withPad hn _
  | @spaceAfter t n hb hn => exact (hm n (by simp)).withPad hn _
  | @variableUse p t hb => exact Node.Parsed.sentence (.var _ ((hm _ List.mem_cons_self).name p t rfl))
  | @functionCall c a name hb hname =>
    split at hr <;> simp_all only [reduceCtorEq, Bool.false_eq_true]
    obtain _ | ⟨hc, _ | ⟨hgroup, ⟨⟩⟩⟩ := hfits
    obtain ⟨p, t, rfl⟩ := Element.identifier_of_fits hc
    obtain ⟨b, ps, rfl⟩ := Element.group_of_fits hgroup
    cases hname
    have hgroup : Node.Parsed l (.group b ps) := (hm _ (by simp)).tree rfl rfl
    exact Node.Parsed.sentence (.call _ p ((hm _ List.mem_cons_self).name p name rfl) b (Node.parsed_params hgroup))
  | @binary x s y hb =>
    split at hr <;> simp_all only [reduceCtorEq, Bool.false_eq_true, List.any_eq_true, Bool.and_eq_true, beq_iff_eq]
    obtain _ | ⟨hx, _ | ⟨hs, _ | ⟨hy, ⟨⟩⟩⟩⟩ := hfits
    obtain ⟨t, rfl⟩ := Element.raw_of_fits_symbol hs
    obtain ⟨op, hop, rfl, hoperation⟩ := hr
    have htrim : Text.trim t = op.symbol := IsSymbol.trim_of_fits ⟨op, List.mem_append_left _ hop, rfl⟩ hs
    rw [hoperation]
    exact Node.Parsed.sentence (.binary _ hop htrim ((hm x (by simp)).of_value hx) ((hm y (by simp)).of_value hy))
  | @implicit x y hb =>
    split at hr <;> simp_all only [reduceCtorEq, Bool.false_eq_true, beq_iff_eq]
    obtain _ | ⟨hx, _ | ⟨hy, ⟨⟩⟩⟩ := hfits
    exact Node.Parsed.sentence (.implicit _ ((hm x (by simp)).of_value hx) ((hm y (by simp)).of_value hy)
      (Element.isValue_of_fits hx) (Element.isValue_of_fits hy))
  | @unary s x hb =>
    split at hr <;> simp_all only [reduceCtorEq, Bool.false_eq_true, List.any_eq_true, Bool.and_eq_true, beq_iff_eq]
    obtain _ | ⟨hs, _ | ⟨hx, ⟨⟩⟩⟩ := hfits
    obtain ⟨t, rfl⟩ := Element.raw_of_fits_symbol hs
    obtain ⟨op, hop, rfl, hoperation⟩ := hr
    have htrim : Text.trim t = op.symbol := IsSymbol.trim_of_fits ⟨op, List.mem_append_right _ hop, rfl⟩ hs
    rw [hoperation]
    exact Node.Parsed.sentence (.unary _ hop htrim ((hm x (by simp)).of_value hx))

/-- No sentence of an equation is a name. -/
def Node.Resolved : Node → Prop
  | .equation _ ss _ => ∀ s ∈ ss, s.isIdentifier = false
  | _ => True

section Parsing

variable (hl : l.grammar = .default)

include hl

theorem carries_parsedSentence : l.Carries (ParsedSentence l) where
  raw := ParsedSentence.raw
  leaf t c n hc hleaf := parsedSentence_leaf (congrArg Grammar.leaves hl ▸ hc) hleaf
  empty := Node.Parsed.sentence (.number _ _ _ (by rintro n ⟨⟩; exact Int.le_refl 0))
  group ss w offset params _ hp := by
    refine Node.Parsed.sentence (.group _ fun q hq => ?_)
    obtain ⟨p, -, out, rfl, hout⟩ := exists_of_forall₂ hp q hq
    exact .equation _ (fun s hs => (hout s hs).tree) _
  fold offset ss out h hs := by
    refine forall_mem_foldStage_of_fits ?_ ?_ h hs
    · exact fun t ht r hr => Rule.pattern_ne_nil_of_suits (suits_default t (hl ▸ ht) r hr)
    · intro t ht r hr matched n hfits hn hm
      exact hn.parsedSentence (known_default t (hl ▸ ht) r hr) hfits hm

/-- **The tree of a text** is one that the default grammar makes. -/
theorem parsed_parseText {t : Text} {out : List Node} (h : (parseText l t).result = .ok out) :
    (Node.equation .none out 0).Parsed l :=
  .equation _ (fun s hs => ((carries_parsedSentence hl).parseText (hl ▸ distinctBrackets_default) h s hs).tree) 0

/-! ## Names are resolved -/

/-- Folding leaves no name. -/
theorem not_isIdentifier_of_parseBuffer {offset : Int} {ss out : List Node}
    (h : (parseBuffer l offset ss).result = .ok out) : ∀ n ∈ out, n.isIdentifier = false := by
  obtain ⟨lexed, grouped, -, -, hfold⟩ := parseBuffer_ok_iff_stages.1 h
  rw [foldStage_ok_iff, hl] at hfold
  obtain ⟨named, hnamed, hoperators⟩ := foldTiers_append_ok_iff.1 hfold
  obtain ⟨spaced, -, hnames⟩ := foldTiers_append_ok_iff.1 hnamed
  cases (foldTiers_names spaced).symm.trans hnames
  refine foldTiers_keep (P := fun ss => ∀ n ∈ ss, n.isIdentifier = false) ?_ hoperators ?_
  · intro t ht ss m n hm hn hs
    have hbuilder : ∀ t ∈ Grammar.operatorTiers, ∀ r ∈ t.rules, r.pattern ≠ [] ∧
        (r.builder = .binary ∨ r.builder = .implicit ∨ r.builder = .unary) := by decide
    obtain ⟨hr, -⟩ := Tier.forall₂_fits_of_match? (fun r hr => (hbuilder t ht r hr).1) hm
    have hnode : n.isIdentifier = false := by
      obtain ⟨-, hb⟩ := hbuilder t ht _ hr
      have hbuilds := Rule.builds_of_build hn
      generalize m.window = window at hbuilds
      cases hbuilds <;> first | rfl | simp_all
    rw [← Tier.match?_eq_some hm] at hs
    simp only [List.forall_mem_append, List.forall_mem_cons] at hs ⊢
    exact ⟨hs.1.1, hnode, hs.2⟩
  · intro n hn
    obtain ⟨m, -, rfl⟩ := List.mem_map.1 hn
    cases m <;> rfl

theorem resolved_parseText {t : Text} {out : List Node} (h : (parseText l t).result = .ok out) :
    ∀ m ∈ (Node.equation .none out 0).walk, m.Resolved := by
  intro m hm
  cases m with
  | equation p ss o =>
    obtain ⟨o', sentences, out', -, hout, heq⟩ := isEntered_parseText (hl ▸ distinctBrackets_default) h hm
    cases heq
    exact not_isIdentifier_of_parseBuffer hl hout
  | _ => exact True.intro

end Parsing

/-! ## Explicit trees -/

namespace Node

/-- An equation holds one sentence, and this is a node; brackets are round; a literal is an integer that can be written; an
operator is written. -/
def isExplicit : Node → Bool
  | equation _ [s] _ => !s.isRaw
  | equation _ _ _ => false
  | group b _ => Text.trim b.opener == ['('] && Text.trim b.closer == [')']
  | number _ (.int n) _ => decide (n < Scalar.digitBound)
  | number _ _ _ => false
  | binary _ _ s _ _ => s.rawText? != some []
  | _ => true

theorem isRound_of_isExplicit {b : Brackets} {ps : List Node} (h : (group b ps).isExplicit = true) : b.IsRound := by
  rw [isExplicit, Bool.and_eq_true, beq_iff_eq, beq_iff_eq] at h
  exact ⟨h.1, h.2⟩

theorem int_of_isExplicit {p : Pad} {v : Scalar} {t : Text} (h : (number p v t).isExplicit = true) :
    ∃ n : Int, v = .int n ∧ n < Scalar.digitBound := by
  cases v with
  | int n => exact ⟨n, rfl, of_decide_eq_true h⟩
  | bool b => cases h
  | float x => cases h

theorem sentence_of_isExplicit {p : Pad} {ss : List Node} {o : Int} (h : (equation p ss o).isExplicit = true) :
    ∃ s, ss = [s] ∧ s.isRaw = false := by
  unfold isExplicit at h
  split at h
  · rename_i s heq
    cases heq
    exact ⟨_, rfl, by simpa using h⟩
  all_goals simp_all

/-! ## Plain trees -/

/-- The node is explicit, or an operation, with its operator written or not. -/
def isPlain : Node → Bool
  | binary _ _ _ _ _ => true
  | n => n.isExplicit

/-- The operator is written, or the factors do not run together. -/
def isApart : Node → Bool
  | binary _ x s _ y => s.rawText? != some [] || !x.runTogether y
  | _ => true

theorem isPlain_of_isExplicit {n : Node} (h : n.isExplicit = true) : n.isPlain = true := by
  cases n <;> first | rfl | exact h

theorem isApart_of_isExplicit {n : Node} (h : n.isExplicit = true) : n.isApart = true := by
  cases n with
  | binary p x s o y => exact Bool.or_eq_true_iff.2 (.inl h)
  | _ => rfl

/-- **Plain trees** that the default grammar makes are printable when no factors run together. -/
theorem Parsed.printable {n : Node} (h : n.Parsed l)
    (hwalk : ∀ m ∈ n.walk, m.isPlain = true ∧ m.isApart = true ∧ m.Resolved) (harguments : n.groupsAreArguments = true) :
    n.Printable l := by
  induction h with
  | number p v t hv =>
    obtain ⟨n, rfl, hn⟩ := int_of_isExplicit (hwalk _ (mem_walk_self rfl)).1
    obtain ⟨k, rfl⟩ := Int.eq_ofNat_of_zero_le (hv n rfl)
    exact .number p (Int.ofNat_lt.1 hn) t
  | var p hname => exact .var p hname _
  | @group b ps _ ih =>
    rw [groupsAreArguments, Bool.and_eq_true, decide_eq_true_eq, groupsAreArgumentsAll_iff] at harguments
    have hself : (Node.group b ps).isExplicit = true := (hwalk _ (mem_walk_self rfl)).1
    refine .group (isRound_of_isExplicit hself) harguments.1 fun q hq => ?_
    exact ih q hq (fun m hm => hwalk m (walk_subset_group hq b hm)) (harguments.2 q hq)
  | @call p q name hname b ps _ ih =>
    have hsub : (Node.group b ps).walk ⊆ (Node.call p (.identifier q name) (l.resolve name) (.group b ps)).walk :=
      walk_subset_call _ _ _ _
    rw [groupsAreArguments, groupsAreArgumentsBelow, groupsAreArgumentsAll_iff] at harguments
    have hself : (Node.group b ps).isExplicit = true := (hwalk _ (hsub (mem_walk_self rfl))).1
    refine .call p q hname (isRound_of_isExplicit hself) fun x hx => ?_
    exact ih x hx (fun m hm => hwalk m (hsub (walk_subset_group hx b hm))) (harguments x hx)
  | @unary p op hop s hs x _ ih =>
    rw [groupsAreArguments] at harguments
    exact .unary p hop hs (ih (fun m hm => hwalk m (walk_subset_unary _ _ _ _ hm)) harguments)
  | @binary p op hop s hs x y _ _ ihx ihy =>
    rw [groupsAreArguments, Bool.and_eq_true] at harguments
    have hx : x.Printable l := ihx (fun m hm => hwalk m (walk_subset_left _ _ _ _ _ hm)) harguments.1
    have hy : y.Printable l := ihy (fun m hm => hwalk m (walk_subset_right _ _ _ _ _ hm)) harguments.2
    exact .binary p hop hs hx hy
  | @implicit p x y _ _ hxv hyv ihx ihy =>
    rw [groupsAreArguments, Bool.and_eq_true] at harguments
    have hx : x.Printable l := ihx (fun m hm => hwalk m (walk_subset_left _ _ _ _ _ hm)) harguments.1
    have hy : y.Printable l := ihy (fun m hm => hwalk m (walk_subset_right _ _ _ _ _ hm)) harguments.2
    refine .implicit p hx hy hxv hyv ?_
    simpa [isApart, rawText?] using (hwalk _ (mem_walk_self rfl)).2.1
  | @equation p ss _ o ih =>
    obtain ⟨hself, -, hname⟩ := hwalk _ (mem_walk_self rfl)
    obtain ⟨n, rfl, hraw⟩ := sentence_of_isExplicit hself
    rw [groupsAreArguments, groupsAreArgumentsAll_iff] at harguments
    have hmem : n ∈ [n] := List.mem_cons_self
    refine .equation p (ih n hmem hraw (hname n hmem) (fun m hm => ?_) (harguments n hmem)) o
    exact hwalk m (walk_subset_equation hmem p o hm)

end Node

/-- **The tree of a text** is printable when it is plain without factors that run together, and its groups are arguments. -/
theorem printable_parseText_of_isApart (hl : l.grammar = .default) {t : Text} {out : List Node}
    (h : (parseText l t).result = .ok out) (hplain : ∀ m ∈ (Node.equation .none out 0).walk, m.isPlain = true)
    (hapart : ∀ m ∈ (Node.equation .none out 0).walk, m.isApart = true)
    (harguments : (Node.equation .none out 0).groupsAreArguments = true) : (Node.equation .none out 0).Printable l :=
  (parsed_parseText hl h).printable (fun m hm => ⟨hplain m hm, hapart m hm, resolved_parseText hl h m hm⟩) harguments

/-- An explicit tree is plain, and it has no factors side by side. -/
theorem printable_parseText (hl : l.grammar = .default) {t : Text} {out : List Node} (h : (parseText l t).result = .ok out)
    (hexplicit : ∀ m ∈ (Node.equation .none out 0).walk, m.isExplicit = true)
    (harguments : (Node.equation .none out 0).groupsAreArguments = true) : (Node.equation .none out 0).Printable l :=
  printable_parseText_of_isApart hl h (fun m hm => Node.isPlain_of_isExplicit (hexplicit m hm))
    (fun m hm => Node.isApart_of_isExplicit (hexplicit m hm)) harguments

end FormulaLang
