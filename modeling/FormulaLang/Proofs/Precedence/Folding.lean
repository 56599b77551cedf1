import FormulaLang.Proofs.Fold.Leftmost
import FormulaLang.Proofs.Fold.Replacement
import FormulaLang.Proofs.Precedence.Reference
import FormulaLang.Proofs.Text.Visible
import Mathlib.Data.List.Find

/-!
# Folding is precedence parsing

The default tiers replace, again and again, the leftmost match of any rule of a tier. On a chain of operands this is what
the reference parser does in one pass (`fold_chain`).

A fragment holds one operator only (`Fragment.visible_text`), so a rule matches at an operand exactly when it is the rule of
the link behind the operand (`Joins.find_link`). What lies to the left of the leftmost match is passed over for good
(`Passes`), and a tier of binary operators joins all the links of its level from the left to the right
(`Joins.fold_join`). A tier of signs does at most one replacement (`Signs.fold_apply`). Tier by tier the tree of the chain
stays the same, and when no operator is left, the chain is its tree.
-/

namespace FormulaLang

/-! ## Symbols in white space -/

theorem Element.visible_of_isSymbol {s t : Text} (h : Element.isSymbol s t = true) : Text.visible t = Text.visible s := by
  induction t with
  | nil =>
    rw [Element.isSymbol] at h
    simp at h
    rw [h.1]
  | cons c t ih =>
    rw [Element.isSymbol, Bool.or_eq_true, Bool.and_eq_true, Bool.and_eq_true] at h
    rcases h with ⟨hp, hb⟩ | ⟨hc, ht⟩
    · obtain ⟨u, hu⟩ := List.isPrefixOf_iff_prefix.1 hp
      rw [← hu, List.drop_left] at hb
      rw [← hu, Text.visible_append, Text.visible_eq_nil_iff.2 hb, List.append_nil]
    · rw [← ih ht]
      simp [Text.visible, hc]

theorem Element.isSymbol_of_blank {b s a : Text} (hb : Text.allBlank b = true) (ha : Text.allBlank a = true) :
    Element.isSymbol s (b ++ s ++ a) = true := by
  induction b with
  | nil =>
    have hp : s.isPrefixOf (s ++ a) = true := List.isPrefixOf_iff_prefix.2 (List.prefix_append s a)
    rw [List.nil_append, Element.isSymbol.eq_def, List.drop_left, hp, ha]
    rfl
  | cons c b ih =>
    obtain ⟨hc, hb⟩ : Text.isBlank c = true ∧ Text.allBlank b = true := by
      simpa [Text.allBlank] using hb
    rw [List.cons_append, List.cons_append, Element.isSymbol]
    simp only [hc, ih hb, Bool.and_true, Bool.or_true]

namespace Precedence

variable {resolve : Text → Option Function} {table : List Operator} {t : Tier} {k : Nat}

/-- No operator has white space in it. -/
theorem visible_symbol : ∀ o ∈ binaryOperators ++ prefixOperators, Text.visible o.symbol = o.symbol := by
  decide

/-- A fragment holds its operator and no other. -/
theorem Fragment.visible_text (f : Fragment table) (h : Text.visible f.operator.symbol = f.operator.symbol) :
    Text.visible f.text = f.operator.symbol := by
  rw [Fragment.text, Pad.wrap, Text.visible_append, Text.visible_append, Text.visible_eq_nil_iff.2 f.blank.1,
    Text.visible_eq_nil_iff.2 f.blank.2, h, List.nil_append, List.append_nil]

theorem Fragment.fits_symbol (f : Fragment table) (h : Text.visible f.operator.symbol = f.operator.symbol) {s : Text}
    (hs : Text.visible s = s) : (Element.symbol s).fits (.raw f.text) = decide (s = f.operator.symbol) := by
  by_cases he : s = f.operator.symbol
  · rw [decide_eq_true he, he]
    exact Element.isSymbol_of_blank f.blank.1 f.blank.2
  · rw [decide_eq_false he, Bool.eq_false_iff]
    intro hfit
    have hv := Element.visible_of_isSymbol hfit
    rw [f.visible_text h, hs] at hv
    exact he hv.symm

theorem Fragment.visible_binary (f : Fragment binaryOperators) : Text.visible f.operator.symbol = f.operator.symbol :=
  visible_symbol _ (List.mem_append_left _ f.known)

theorem Fragment.visible_prefix (f : Fragment prefixOperators) : Text.visible f.operator.symbol = f.operator.symbol :=
  visible_symbol _ (List.mem_append_right _ f.known)

/-! ## Sentences of a chain -/

@[simp] theorem value_fits (v : Operand) : Element.value.fits v.val = true := by
  obtain ⟨n, h⟩ := v
  cases n <;> first | rfl | cases h

@[simp] theorem symbol_fits_operand (s : Text) (v : Operand) : (Element.symbol s).fits v.val = false := by
  obtain ⟨n, h⟩ := v
  cases n <;> first | rfl | cases h

@[simp] theorem value_fits_raw (t : Text) : Element.value.fits (.raw t) = false := rfl

theorem Tail.sentences_cons (l : Link) (w : Operand) (rest : Tail) :
    Tail.sentences ((l, w) :: rest) = l.sentences ++ w.val :: Tail.sentences rest := by
  simp [Tail.sentences]

/-! ## Tiers of binary operators -/

/-- The pattern of a link with an operator; the adjacent link has an empty symbol. -/
def Operator.pattern (o : Operator) : List Element :=
  if o.symbol.isEmpty then [.value, .value] else [.value, .symbol o.symbol, .value]

/-- The rule of a link with an operator. -/
def Operator.rule (o : Operator) : Rule :=
  ⟨o.pattern, if o.symbol.isEmpty then .implicit else .binary, some o.operation⟩

/-- A pattern of two operands with an operator or nothing between them. -/
def isBinary : List Element → Bool
  | [.value, .value] => true
  | [.value, .symbol s, .value] => Text.visible s == s
  | _ => false

/-- The tier holds the rules of the links of one level. -/
structure Joins (k : Nat) (t : Tier) : Prop where
  binary : ∀ r ∈ t.rules, isBinary r.pattern = true
  find : ∀ o ∈ adjacency :: binaryOperators,
    (t.rules.find? fun r => decide (r.pattern = o.pattern)) = if o.level = k then some o.rule else none
  sign : ∀ o ∈ prefixOperators, o.level ≠ k

theorem isBinary_cases {es : List Element} (h : isBinary es = true) :
    es = [.value, .value] ∨ ∃ s, Text.visible s = s ∧ es = [.value, .symbol s, .value] := by
  unfold isBinary at h
  split at h
  · exact .inl rfl
  · exact .inr ⟨_, by simpa using h, rfl⟩
  · cases h

/-- The operators of links. -/
theorem Link.operator_mem (l : Link) : l.operator ∈ adjacency :: binaryOperators := by
  cases l with
  | adjacent => exact List.mem_cons_self
  | written f => exact List.mem_cons_of_mem _ f.known

theorem pattern_written (f : Fragment binaryOperators) :
    (Link.written f).operator.pattern = [.value, .symbol f.operator.symbol, .value] := by
  have h : ∀ o ∈ binaryOperators, o.pattern = [.value, .symbol o.symbol, .value] := by decide
  exact h _ f.known

/-- A binary pattern matches at an operand exactly when it is the pattern of the link behind it. -/
theorem matchesHere_link {es : List Element} (h : isBinary es = true) (v : Operand) (l : Link) (w : Operand)
    (ss : List Node) :
    Rule.matchesHere es (v.val :: (l.sentences ++ w.val :: ss)) = decide (es = l.operator.pattern) := by
  cases l with
  | adjacent =>
    obtain rfl | ⟨s, hs, rfl⟩ := isBinary_cases h
    · simp [Rule.matchesHere, Link.sentences, Link.operator, Operator.pattern, adjacency]
    · simp [Rule.matchesHere, Link.sentences, Link.operator, Operator.pattern, adjacency]
  | written f =>
    rw [pattern_written]
    obtain rfl | ⟨s, hs, rfl⟩ := isBinary_cases h
    · simp [Rule.matchesHere, Link.sentences]
    · simp [Rule.matchesHere, Link.sentences, f.fits_symbol f.visible_binary hs]

namespace Joins

theorem find_link (h : Joins k t) (v : Operand) (l : Link) (w : Operand) (ss : List Node) :
    (t.rules.find? fun r => Rule.matchesHere r.pattern (v.val :: (l.sentences ++ w.val :: ss))) =
      if l.level = k then some l.operator.rule else none := by
  rw [Link.level, ← h.find _ l.operator_mem]
  refine List.find?_congr ?_
  intro r hr
  exact matchesHere_link (h.binary r hr) v l w ss

theorem find_raw (h : Joins k t) (x : Text) (ss : List Node) :
    (t.rules.find? fun r => Rule.matchesHere r.pattern (.raw x :: ss)) = none := by
  rw [List.find?_eq_none]
  intro r hr
  obtain he | ⟨s, -, he⟩ := isBinary_cases (h.binary r hr) <;> simp [he, Rule.matchesHere]

theorem find_last (h : Joins k t) (v : Operand) :
    (t.rules.find? fun r => Rule.matchesHere r.pattern [v.val]) = none := by
  rw [List.find?_eq_none]
  intro r hr
  obtain he | ⟨s, -, he⟩ := isBinary_cases (h.binary r hr) <;> simp [he, Rule.matchesHere]

end Joins

theorem Joins.match?_nil (h : Joins k t) : t.match? [] = none := by
  refine Tier.match?_nil ?_
  intro r hr
  obtain he | ⟨s, -, he⟩ := isBinary_cases (h.binary r hr) <;> simp [he]

/-- Nothing matches before the end of the sentences `pre` when an operand stands behind them. -/
def Passes (t : Tier) (pre : List Node) : Prop :=
  ∀ (v : Operand) (ss : List Node),
    t.match? (pre ++ v.val :: ss) = (t.match? (v.val :: ss)).map fun m => { m with before := pre ++ m.before }

theorem passes_nil (t : Tier) : Passes t [] := by
  intro v ss
  simp

theorem Joins.passes_raw (h : Joins k t) (x : Text) : Passes t [.raw x] := by
  intro v ss
  exact Tier.match?_cons_of_none (h.find_raw x _)

/-- The links of other levels are passed over. -/
theorem Joins.passes_link (h : Joins k t) (v : Operand) {l : Link} (hl : l.level ≠ k) :
    Passes t (v.val :: l.sentences) := by
  intro w ss
  have hv := h.find_link v l w ss
  rw [if_neg hl] at hv
  rw [List.cons_append, Tier.match?_cons_of_none hv]
  cases l with
  | adjacent => rfl
  | written f =>
    rw [Link.sentences, List.singleton_append, Tier.match?_cons_of_none (h.find_raw f.text _), Option.map_map]
    rfl

theorem Passes.append {pre : List Node} (hp : Passes t pre) {v : Operand} {ls : List Node}
    (h : Passes t (v.val :: ls)) : Passes t (pre ++ v.val :: ls) := by
  intro w ss
  have hw := h w ss
  rw [List.cons_append] at hw
  rw [List.append_assoc, List.cons_append, hp, hw, Option.map_map]
  simp [Function.comp_def]

/-- The rule of a link joins its operands. -/
theorem build_link (l : Link) (v w : Operand) :
    l.operator.rule.build resolve (v.val :: l.sentences ++ [w.val]) = .ok (l.join v w).val := by
  cases l with
  | adjacent => rfl
  | written f =>
    have h : ∀ o ∈ binaryOperators, o.rule.builder = .binary := by decide
    simp only [Link.sentences, List.cons_append, List.nil_append, Rule.build, h _ f.known,
      Link.operator]
    rfl

theorem length_pattern (l : Link) : l.operator.pattern.length = (l.sentences).length + 2 := by
  cases l with
  | adjacent => rfl
  | written f => rw [pattern_written]; rfl

theorem Joins.match?_link (h : Joins k t) (v : Operand) {l : Link} (hl : l.level = k) (w : Operand) (ss : List Node) :
    t.match? (v.val :: (l.sentences ++ w.val :: ss)) =
      some ⟨[], v.val :: l.sentences ++ [w.val], ss, l.operator.rule⟩ := by
  have hsplit : v.val :: (l.sentences ++ w.val :: ss) = (v.val :: l.sentences ++ [w.val]) ++ ss := by simp
  have hlen : l.operator.rule.pattern.length = (v.val :: l.sentences ++ [w.val]).length := by
    rw [show l.operator.rule.pattern = l.operator.pattern from rfl, length_pattern]
    simp
  rw [Tier.match?_cons, h.find_link, if_pos hl]
  simp only [hsplit, hlen, List.take_left, List.drop_left]

/-- A tier of binary operators joins the links of its level. -/
theorem Joins.fold_tail (h : Joins k t) {pre : List Node} (hp : Passes t pre) (v : Operand) (rest : Tail) :
    (t.fold resolve (pre ++ v.val :: Tail.sentences rest)).result =
      .ok (pre ++ (joinTail k v rest).1.val :: Tail.sentences (joinTail k v rest).2) := by
  induction rest generalizing pre v with
  | nil =>
    refine Tier.result_fold_of_none ?_
    rw [hp, Tail.sentences, List.flatMap_nil, Tier.match?_cons_of_none (h.find_last v), h.match?_nil]
    rfl
  | cons q rest ih =>
    obtain ⟨l, w⟩ := q
    rw [Tail.sentences_cons, joinTail]
    by_cases hl : l.level = k
    · rw [if_pos hl, ← ih hp (l.join v w)]
      have hm := hp v (l.sentences ++ w.val :: Tail.sentences rest)
      rw [h.match?_link v hl w, Option.map_some] at hm
      rw [Tier.result_fold_of_build hm (build_link l v w)]
      simp
    · rw [if_neg hl, Tail.sentences_cons]
      have hi := ih (hp.append (h.passes_link v hl)) w
      simpa using hi

theorem Joins.fold_join (h : Joins k t) (c : Chain) :
    (t.fold resolve c.sentences).result = .ok (c.join k).sentences := by
  refine h.fold_tail ?_ c.first c.rest
  unfold Chain.signSentences
  cases c.sign with
  | none => exact passes_nil t
  | some f => exact h.passes_raw f.text

/-! ## Tiers of signs -/

/-- The rule of a sign. -/
def Operator.signRule (o : Operator) : Rule :=
  ⟨[.symbol o.symbol, .value], .unary, some o.operation⟩

/-- A pattern of a sign and an operand. -/
def isSign : List Element → Bool
  | [.symbol s, .value] => Text.visible s == s
  | _ => false

/-- The tier holds the rules of the signs of one level; the links that bind less tightly are no such signs. -/
structure Signs (k : Nat) (t : Tier) : Prop where
  shape : ∀ r ∈ t.rules, isSign r.pattern = true
  find : ∀ o ∈ prefixOperators,
    (t.rules.find? fun r => decide (r.pattern = [.symbol o.symbol, .value])) =
      if o.level = k then some o.signRule else none
  written : ∀ o ∈ binaryOperators, k < o.level →
    (t.rules.find? fun r => decide (r.pattern = [.symbol o.symbol, .value])) = none
  link : ∀ o ∈ adjacency :: binaryOperators, o.level ≠ k

theorem isSign_cases {es : List Element} (h : isSign es = true) :
    ∃ s, Text.visible s = s ∧ es = [.symbol s, .value] := by
  unfold isSign at h
  split at h
  · exact ⟨_, by simpa using h, rfl⟩
  · cases h

/-- A pattern of a sign matches exactly the fragments of this sign. -/
theorem matchesHere_sign {es : List Element} (h : isSign es = true) (f : Fragment table)
    (hf : Text.visible f.operator.symbol = f.operator.symbol) (v : Operand) (ss : List Node) :
    Rule.matchesHere es (.raw f.text :: v.val :: ss) = decide (es = [.symbol f.operator.symbol, .value]) := by
  obtain ⟨s, hs, rfl⟩ := isSign_cases h
  simp [Rule.matchesHere, f.fits_symbol hf hs]

namespace Signs

theorem find_fragment (h : Signs k t) (f : Fragment table)
    (hf : Text.visible f.operator.symbol = f.operator.symbol) (v : Operand) (ss : List Node) :
    (t.rules.find? fun r => Rule.matchesHere r.pattern (.raw f.text :: v.val :: ss)) =
      t.rules.find? fun r => decide (r.pattern = [.symbol f.operator.symbol, .value]) := by
  refine List.find?_congr ?_
  intro r hr
  exact matchesHere_sign (h.shape r hr) f hf v ss

theorem find_operand (h : Signs k t) (v : Operand) (ss : List Node) :
    (t.rules.find? fun r => Rule.matchesHere r.pattern (v.val :: ss)) = none := by
  rw [List.find?_eq_none]
  intro r hr
  obtain ⟨s, -, he⟩ := isSign_cases (h.shape r hr)
  simp [he, Rule.matchesHere]

/-- No sign stands among links that bind less tightly. -/
theorem match?_tail (h : Signs k t) (v : Operand) {rest : Tail} (hr : ∀ q ∈ rest, k < q.1.level) :
    t.match? (v.val :: Tail.sentences rest) = none := by
  induction rest generalizing v with
  | nil =>
    rw [Tier.match?_cons_of_none (h.find_operand v _)]
    exact Option.map_eq_none_iff.2 (Tier.match?_eq_none_of_unfit fun r hr => by
      obtain ⟨s, -, he⟩ := isSign_cases (h.shape r hr)
      exact ⟨.value, by simp [he], by simp [Tail.sentences]⟩)
  | cons q rest ih =>
    obtain ⟨l, w⟩ := q
    have hw := ih w fun q hq => hr q (List.mem_cons_of_mem _ hq)
    rw [Tier.match?_cons_of_none (h.find_operand v _), Tail.sentences_cons, Option.map_eq_none_iff]
    cases l with
    | adjacent => exact hw
    | written f =>
      have hf := h.find_fragment f f.visible_binary w (Tail.sentences rest)
      rw [h.written _ f.known (hr _ List.mem_cons_self)] at hf
      rw [Link.sentences, List.singleton_append, Tier.match?_cons_of_none hf, hw]
      rfl

/-- A tier of signs applies the sign of its level. -/
theorem fold_apply (h : Signs k t) {c : Chain} (hc : ∀ q ∈ c.rest, k < q.1.level) :
    (t.fold resolve c.sentences).result = .ok (c.apply k).sentences := by
  obtain ⟨sign, v, rest⟩ := c
  cases sign with
  | none => exact Tier.result_fold_of_none (h.match?_tail v hc)
  | some f =>
    have hf := h.find_fragment f f.visible_prefix v (Tail.sentences rest)
    rw [h.find _ f.known] at hf
    show (t.fold resolve (.raw f.text :: v.val :: Tail.sentences rest)).result = _
    by_cases hk : f.operator.level = k
    · rw [if_pos hk] at hf
      have hm : t.match? (.raw f.text :: v.val :: Tail.sentences rest) =
          some ⟨[], [.raw f.text, v.val], Tail.sentences rest, f.operator.signRule⟩ := by
        rw [Tier.match?_cons, hf]
        rfl
      have hn : f.operator.signRule.build resolve [.raw f.text, v.val] = .ok (f.apply v).val := rfl
      rw [Tier.result_fold_of_build hm hn, List.nil_append, Tier.result_fold_of_none (h.match?_tail (f.apply v) hc)]
      simp [Chain.apply, hk, Chain.sentences, Chain.signSentences]
    · rw [if_neg hk] at hf
      have hm : t.match? (.raw f.text :: v.val :: Tail.sentences rest) = none := by
        rw [Tier.match?_cons_of_none hf, h.match?_tail v hc]
        rfl
      rw [Tier.result_fold_of_none hm]
      simp [Chain.apply, hk, Chain.sentences, Chain.signSentences]

end Signs

/-! ## All tiers -/

instance (k : Nat) (t : Tier) : Decidable (Joins k t) :=
  decidable_of_iff (_ ∧ _ ∧ _) ⟨fun ⟨h₁, h₂, h₃⟩ => ⟨h₁, h₂, h₃⟩, fun ⟨h₁, h₂, h₃⟩ => ⟨h₁, h₂, h₃⟩⟩

instance (k : Nat) (t : Tier) : Decidable (Signs k t) :=
  decidable_of_iff (_ ∧ _ ∧ _ ∧ _)
    ⟨fun ⟨h₁, h₂, h₃, h₄⟩ => ⟨h₁, h₂, h₃, h₄⟩, fun ⟨h₁, h₂, h₃, h₄⟩ => ⟨h₁, h₂, h₃, h₄⟩⟩

/-- The tiers of the default grammar stand in the order of the levels. -/
theorem operatorTiers_levels : ∀ p ∈ Grammar.operatorTiers.zipIdx, Joins p.2 p.1 ∨ Signs p.2 p.1 := by
  decide +kernel

/-- One tier after another closes a level and keeps the tree. -/
theorem foldTiers_chain {ts : List Tier} (h : ∀ p ∈ ts.zipIdx k, Joins p.2 p.1 ∨ Signs p.2 p.1) {c : Chain}
    (hc : c.AtLeast k) :
    ∃ c' : Chain, (foldTiers ts resolve c.sentences).result = .ok c'.sentences ∧ c'.AtLeast (k + ts.length) ∧
      c'.tree = c.tree := by
  induction ts generalizing k c with
  | nil => exact ⟨c, foldTiers_nil_ok_iff.2 rfl, hc, rfl⟩
  | cons t ts ih =>
    rw [List.zipIdx_cons] at h
    -- one tier makes a chain without operators of its level
    obtain ⟨d, hfold, hd, htree⟩ : ∃ d : Chain, (t.fold resolve c.sentences).result = .ok d.sentences ∧
        d.AtLeast (k + 1) ∧ d.tree = c.tree := by
      rcases h _ List.mem_cons_self with ht | ht
      · have hs : ∀ f ∈ c.sign, f.operator.level ≠ k := fun f _ => ht.sign _ f.known
        exact ⟨c.join k, ht.fold_join c, Chain.atLeast_join hc hs, Chain.tree_join hc hs⟩
      · have hr : ∀ q ∈ c.rest, q.1.level ≠ k := fun q _ => ht.link _ q.1.operator_mem
        have hlt : ∀ q ∈ c.rest, k < q.1.level := fun q hq => Nat.lt_of_le_of_ne (hc.rest q hq) (hr q hq).symm
        exact ⟨c.apply k, ht.fold_apply hlt, Chain.atLeast_apply hc hr, Chain.tree_apply hc⟩
    obtain ⟨c', hrest, hc', htree'⟩ := ih (fun p hp => h p (List.mem_cons_of_mem _ hp)) hd
    refine ⟨c', foldTiers_cons_ok_iff.2 ⟨_, hfold, hrest⟩, ?_, htree'.trans htree⟩
    rwa [List.length_cons, Nat.add_comm ts.length, ← Nat.add_assoc]

theorem mem_sentences {c : Chain} {n : Node} (h : n ∈ c.sentences) :
    (∃ v : Operand, n = v.val) ∨ ∃ t : Text, n = .raw t ∧ Text.visible t ≠ [] := by
  have hne : ∀ o ∈ binaryOperators ++ prefixOperators, o.symbol ≠ [] := by decide
  rcases List.mem_append.1 h with h | h
  · obtain ⟨f, -, rfl⟩ := List.mem_map.1 h
    refine .inr ⟨f.text, rfl, ?_⟩
    rw [f.visible_text f.visible_prefix]
    exact hne _ (List.mem_append_right _ f.known)
  rcases List.mem_cons.1 h with rfl | h
  · exact .inl ⟨c.first, rfl⟩
  obtain ⟨⟨l, v⟩, -, h⟩ := List.mem_flatMap.1 h
  rcases List.mem_append.1 h with h | h
  · cases l with
    | adjacent => cases h
    | written f =>
      obtain rfl := List.mem_singleton.1 h
      refine .inr ⟨f.text, rfl, ?_⟩
      rw [f.visible_text f.visible_binary]
      exact hne _ (List.mem_append_left _ f.known)
  · exact .inl ⟨v, List.mem_singleton.1 h⟩

/-- No sentence of a chain is white space or a name that waits to be resolved. -/
theorem unfit_of_mem_sentences {c : Chain} {n : Node} (h : n ∈ c.sentences) :
    Element.space.fits n = false ∧ Element.identifier.fits n = false := by
  rcases mem_sentences h with ⟨⟨n, hn⟩, rfl⟩ | ⟨t, rfl, ht⟩
  · cases n <;> first | exact ⟨rfl, rfl⟩ | cases hn
  · refine ⟨?_, rfl⟩
    have hb : Text.allBlank t = false := by simpa [Text.visible_eq_nil_iff] using ht
    simp [Element.fits, hb]

/-- Tiers that match nothing leave a buffer to the tiers behind them. -/
theorem foldTiers_append_of_none {ts : List Tier} {ss : List Node} (h : ∀ t ∈ ts, t.match? ss = none) (rest : List Tier) :
    (foldTiers (ts ++ rest) resolve ss).result = (foldTiers rest resolve ss).result := by
  induction ts with
  | nil => rfl
  | cons t ts ih =>
    rw [List.cons_append, foldTiers, Traced.result_bind, Tier.result_fold_of_none (h t List.mem_cons_self)]
    exact ih fun t ht => h t (List.mem_cons_of_mem _ ht)

/-- The tiers of spaces and names leave a chain as it is. -/
theorem foldTiers_spaces_names (c : Chain) (ts : List Tier) :
    (foldTiers (Grammar.spaceTiers ++ Grammar.nameTiers ++ ts) resolve c.sentences).result =
      (foldTiers ts resolve c.sentences).result := by
  have hask : ∀ t ∈ Grammar.spaceTiers ++ Grammar.nameTiers, ∀ r ∈ t.rules,
      Element.space ∈ r.pattern ∨ Element.identifier ∈ r.pattern := by decide
  refine foldTiers_append_of_none ?_ ts
  intro t ht
  refine Tier.match?_eq_none_of_unfit ?_
  intro r hr
  rcases hask t ht r hr with he | he
  · exact ⟨_, he, fun n hn => (unfit_of_mem_sentences hn).1⟩
  · exact ⟨_, he, fun n hn => (unfit_of_mem_sentences hn).2⟩

/-- A chain without operators is its tree. -/
theorem sentences_of_atLeast {c : Chain} (hc : c.AtLeast 13) : c.sentences = [c.tree.val] := by
  have hlt : ∀ o ∈ adjacency :: (binaryOperators ++ prefixOperators), o.level < 13 := by decide
  have hsign : c.sign = none := by
    rw [Option.eq_none_iff_forall_not_mem]
    intro f hf
    have h₁ := hc.sign f hf
    have h₂ := hlt _ (List.mem_cons_of_mem _ (List.mem_append_right _ f.known))
    omega
  have hrest : c.rest = [] := by
    rw [List.eq_nil_iff_forall_not_mem]
    intro q hq
    have h₁ := hc.rest q hq
    have h₂ : q.1.level < 13 := hlt _ (List.mem_append_left prefixOperators q.1.operator_mem)
    omega
  simp [Chain.sentences, Chain.signSentences, Chain.tree, Tail.sentences, hsign, hrest, climb]

/-- **Folding is precedence parsing**: the default tiers leave exactly one sentence of a chain, the tree that the
reference parser reads. -/
theorem fold_chain (c : Chain) (resolve : Text → Option Function) :
    (fold Grammar.default.tiers resolve c.sentences).result = .ok [c.tree.val] := by
  rw [fold_ok_iff, Grammar.default, foldTiers_spaces_names]
  have hc : c.AtLeast 0 := ⟨fun _ _ => Nat.zero_le _, fun _ _ => Nat.zero_le _⟩
  have hchain : ∃ c' : Chain, (foldTiers Grammar.operatorTiers resolve c.sentences).result = .ok c'.sentences ∧
      c'.AtLeast (0 + Grammar.operatorTiers.length) ∧ c'.tree = c.tree := foldTiers_chain operatorTiers_levels hc
  obtain ⟨c', hfold, hc', htree⟩ := hchain
  rw [hfold, ← htree, sentences_of_atLeast hc']

end Precedence

end FormulaLang
