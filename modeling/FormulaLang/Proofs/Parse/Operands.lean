import FormulaLang.Proofs.Fold.Names
import FormulaLang.Proofs.Parse.CommaFields
import FormulaLang.Proofs.Precedence.Folding

/-!
# Fields with one operator

Sentences without raw text that the tiers of names turn into one value are an operand (`IsOperand`). An operand makes a field,
and so do an operator in front of an operand and an operator between two of them (`IsOperand.field`, `IsOperand.field_unary`,
`IsOperand.field_binary`): with the names resolved, such a field is a chain of at most one operator.
-/

namespace FormulaLang

open Precedence
open Reading (atoms)

variable {resolve : Text → Option Function} {l : Language}

/-! ## Chains behind the tiers of names -/

theorem foldTiers_append_ok_iff {ts ts' : List Tier} {ss out : List Node} :
    (foldTiers (ts ++ ts') resolve ss).result = .ok out ↔
      ∃ mid, (foldTiers ts resolve ss).result = .ok mid ∧ (foldTiers ts' resolve mid).result = .ok out := by
  induction ts generalizing ss with
  | nil => simp [foldTiers_nil_ok_iff]
  | cons t ts ih =>
    rw [List.cons_append, foldTiers_cons_ok_iff]
    constructor
    · rintro ⟨first, hfirst, hrest⟩
      obtain ⟨mid, hmid, hout⟩ := ih.1 hrest
      exact ⟨mid, foldTiers_cons_ok_iff.2 ⟨first, hfirst, hmid⟩, hout⟩
    · rintro ⟨mid, hmid, hout⟩
      obtain ⟨first, hfirst, hmid⟩ := foldTiers_cons_ok_iff.1 hmid
      exact ⟨first, hfirst, ih.2 ⟨mid, hmid, hout⟩⟩

/-- The tiers of spaces leave a buffer without raw white space as it is. -/
theorem foldTiers_spaces {ss : List Node} (h : ∀ n ∈ ss, Element.space.fits n = false) (ts : List Tier) :
    (foldTiers (Grammar.spaceTiers ++ ts) resolve ss).result = (foldTiers ts resolve ss).result := by
  have hask : ∀ t ∈ Grammar.spaceTiers, ∀ r ∈ t.rules, Element.space ∈ r.pattern := by decide
  exact foldTiers_append_of_none (fun t ht => Tier.match?_eq_none_of_unfit fun r hr => ⟨.space, hask t ht r hr, h⟩) ts

/-- The tiers of operators leave the tree of a chain. -/
theorem foldTiers_operators (c : Chain) :
    (foldTiers Grammar.operatorTiers resolve c.sentences).result = .ok [c.tree.val] := by
  have hc : c.AtLeast 0 := ⟨fun _ _ => Nat.zero_le _, fun _ _ => Nat.zero_le _⟩
  have hchain : ∃ c' : Chain, (foldTiers Grammar.operatorTiers resolve c.sentences).result = .ok c'.sentences ∧
      c'.AtLeast (0 + Grammar.operatorTiers.length) ∧ c'.tree = c.tree := foldTiers_chain operatorTiers_levels hc
  obtain ⟨c', hfold, hc', htree⟩ := hchain
  rw [hfold, ← htree, sentences_of_atLeast hc']

/-- **The default tiers** on sentences that are a chain once their names are resolved. -/
theorem foldTiers_default {ss : List Node} (hspace : ∀ n ∈ ss, Element.space.fits n = false) {c : Chain}
    (h : (callNames resolve ss).map Node.asVariable = c.sentences) :
    (foldTiers Grammar.default.tiers resolve ss).result = .ok [c.tree.val] := by
  rw [Grammar.default, List.append_assoc, foldTiers_spaces hspace]
  refine foldTiers_append_ok_iff.2 ⟨c.sentences, ?_, foldTiers_operators c⟩
  rw [foldTiers_names, h]

/-! ## Fields -/

/-- A symbol of an operator. -/
def IsSymbol (s : Text) : Prop :=
  ∃ o ∈ binaryOperators ++ prefixOperators, o.symbol = s

/-- What holds of all symbols. -/
theorem IsSymbol.all {P : Text → Prop} (h : ∀ o ∈ binaryOperators ++ prefixOperators, P o.symbol) {s : Text}
    (hs : IsSymbol s) : P s := by
  obtain ⟨o, ho, rfl⟩ := hs
  exact h o ho

/-- What holds of all characters of symbols. -/
theorem IsSymbol.all_char {p : Char → Bool} (h : ∀ o ∈ binaryOperators ++ prefixOperators, o.symbol.all p = true) {s : Text}
    (hs : IsSymbol s) : ∀ c ∈ s, p c = true :=
  List.all_eq_true.1 (hs.all (P := fun s => s.all p = true) h)

theorem IsSymbol.ne_nil {s : Text} : IsSymbol s → s ≠ [] :=
  IsSymbol.all (P := fun s => s ≠ []) (by decide)

theorem IsSymbol.not_allBlank {s : Text} : IsSymbol s → Text.allBlank s = false :=
  IsSymbol.all (P := fun s => Text.allBlank s = false) (by decide)

theorem IsSymbol.trim_eq {s : Text} : IsSymbol s → Text.trim s = s :=
  IsSymbol.all (P := fun s => Text.trim s = s) (by decide)

/-- No character of a symbol starts a leaf or is a bracket or comma. -/
theorem IsSymbol.plain {s : Text} : IsSymbol s → ∀ c ∈ s, Pattern.isLeafStart c = false ∧ Nesting.isMark c = false :=
  fun hs c hc => by simpa using hs.all_char (p := fun c => !Pattern.isLeafStart c && !Nesting.isMark c) (by decide) c hc

theorem IsSymbol.not_closer {s : Text} (h : IsSymbol s) : ')' ∉ s := by
  intro hmem
  cases (h.plain ')' hmem).2

/-- The only raw fragments are symbols of operators. -/
def Symbols (ss : List Node) : Prop :=
  ∀ t, .raw t ∈ ss → IsSymbol t

theorem raw_mem_atoms_iff {c : Char} {ss : List Node} :
    .raw [c] ∈ atoms.nodes ss ↔ ∃ t, .raw t ∈ ss ∧ c ∈ t := by
  rw [Reading.nodes, List.mem_flatMap]
  constructor
  · rintro ⟨n, hn, hc⟩
    rcases n.raw_or_not with ⟨t, rfl⟩ | hraw
    · rw [Reading.atoms_raw] at hc
      exact ⟨t, hn, by simpa using hc⟩
    · rw [Reading.atoms_of_not_isRaw hraw, List.mem_singleton] at hc
      rw [← hc] at hraw
      cases hraw
  · rintro ⟨t, ht, hc⟩
    exact ⟨_, ht, by rw [Reading.atoms_raw]; simpa using hc⟩

namespace Symbols

variable {ss : List Node} (h : Symbols ss)

include h

theorem plain : Plain ss := by
  intro c hc
  obtain ⟨t, ht, hct⟩ := raw_mem_atoms_iff.1 hc
  exact (h t ht).plain c hct

theorem not_mem_atoms {c : Char} (hc : Nesting.isMark c = true) : .raw [c] ∉ atoms.nodes ss := by
  intro hmem
  rw [(h.plain c hmem).2] at hc
  cases hc

theorem uncut : Uncut ss := by
  intro n hn
  rcases n.raw_or_not with ⟨t, rfl⟩ | hraw
  · refine cutSentence_raw (h t hn).ne_nil fun hcomma => ?_
    have hmark := ((h t hn).plain ',' hcomma).2
    cases hmark
  · exact cutSentence_of_not_isRaw hraw _

theorem not_space : ∀ n ∈ ss, Element.space.fits n = false := by
  intro n hn
  rcases n.raw_or_not with ⟨t, rfl⟩ | hraw
  · simp [Element.fits, (h t hn).not_allBlank]
  · cases n with
    | raw t => cases hraw
    | _ => rfl

theorem nonblank (hne : ss ≠ []) : ss.all Node.isBlankRaw = false := by
  obtain ⟨n, ss, rfl⟩ := List.exists_cons_of_ne_nil hne
  have hn : n.isBlankRaw = false := by
    rcases n.raw_or_not with ⟨t, rfl⟩ | hraw
    · exact (h t List.mem_cons_self).not_allBlank
    · cases n with
      | raw t => cases hraw
      | _ => rfl
  rw [List.all_cons, hn, Bool.false_and]

/-- **A field** of operands and symbols is a parameter by itself. -/
theorem field (hl : l.grammar = .default) (hfused : Fused ss) {c : Chain}
    (hc : (callNames l.resolve ss).map Node.asVariable = c.sentences) : Field l ss c.tree.val where
  uncut := h.uncut
  nonblank := by
    refine h.nonblank ?_
    rintro rfl
    simp [callNames, Chain.sentences] at hc
  parses := parseBuffer_of_foldTiers hl hfused h.plain (foldTiers_default h.not_space hc)

end Symbols

/-! ## Operands -/

theorem fused_of_nodes {ss : List Node} (h : ∀ s ∈ ss, s.isRaw = false) : Fused ss := by
  induction ss with
  | nil => exact .nil
  | cons s ss ih =>
    rw [List.forall_mem_cons] at h
    exact (ih h.2).cons_node h.1

/-- The sentences are the operand `n`, once their names are resolved. -/
structure IsOperand (l : Language) (ss : List Node) (n : Node) : Prop where
  nodes : ∀ s ∈ ss, s.isRaw = false
  named : (callNames l.resolve ss).map Node.asVariable = [n]
  value : n.isValue = true

namespace IsOperand

variable {ss ss' : List Node} {n n' : Node}

theorem symbols (h : IsOperand l ss n) : Symbols ss := by
  intro t ht
  have hraw := h.nodes _ ht
  cases hraw

theorem fused (h : IsOperand l ss n) : Fused ss :=
  fused_of_nodes h.nodes

theorem ne_nil (h : IsOperand l ss n) : ss ≠ [] := by
  rintro rfl
  have hnamed := h.named
  cases hnamed

theorem field (hl : l.grammar = .default) (h : IsOperand l ss n) : Field l ss n :=
  h.symbols.field hl h.fused (c := ⟨none, ⟨n, h.value⟩, []⟩) h.named

/-- An operator without white space around it. -/
def bare {table : List Operator} {o : Operator} (ho : o ∈ table) : Fragment table :=
  ⟨o, ho, .none, ⟨rfl, rfl⟩⟩

theorem text_bare {table : List Operator} {o : Operator} (ho : o ∈ table) : (bare ho).text = o.symbol := by
  simp [bare, Fragment.text, Pad.wrap, Pad.none]

/-- A symbol in front of an operand. -/
theorem cons_symbol (h : IsOperand l ss n) {s : Text} (hs : IsSymbol s) :
    Symbols (.raw s :: ss) ∧ Fused (.raw s :: ss) := by
  refine ⟨fun t ht => ?_, Fused.cons_iff.2 ⟨?_, h.fused, fun m hm => .inr (h.nodes m (List.mem_of_mem_head? hm))⟩⟩
  · rcases List.mem_cons.1 ht with heq | ht
    · cases heq
      exact hs
    · exact h.symbols t ht
  · rintro ⟨⟩
    exact hs.ne_nil rfl

/-- A symbol between operands. -/
theorem append_symbol (h : IsOperand l ss n) (h' : IsOperand l ss' n') {s : Text} (hs : IsSymbol s) :
    Symbols (ss ++ .raw s :: ss') ∧ Fused (ss ++ .raw s :: ss') := by
  obtain ⟨hsymbols, hfused⟩ := h'.cons_symbol hs
  refine ⟨fun t ht => (List.mem_append.1 ht).elim (h.symbols t) (hsymbols t), ?_⟩
  exact Fused.append_iff.2 ⟨h.fused, hfused, fun m hm _ _ => .inl (h.nodes m (List.mem_of_mem_getLast? hm))⟩

/-- **An operator before an operand** makes a field. -/
theorem field_unary (hl : l.grammar = .default) (h : IsOperand l ss n) {o : Operator} (ho : o ∈ prefixOperators) :
    Field l (.raw o.symbol :: ss) (.unary .none (.raw o.symbol) (some o.operation) n) := by
  obtain ⟨hsymbols, hfused⟩ := h.cons_symbol ⟨o, List.mem_append_right _ ho, rfl⟩
  let c : Chain := ⟨some (bare ho), ⟨n, h.value⟩, []⟩
  have hnamed : (callNames l.resolve (.raw o.symbol :: ss)).map Node.asVariable = c.sentences := by
    simp [c, callNames, h.named, Node.asVariable, Chain.sentences, Chain.signSentences, Tail.sentences, text_bare]
  have hfield : Field l (.raw o.symbol :: ss) (.unary .none (.raw (bare ho).text) (some o.operation) n) :=
    hsymbols.field hl hfused hnamed
  rwa [text_bare] at hfield

/-- **An operator between operands** makes a field. -/
theorem field_binary (hl : l.grammar = .default) (h : IsOperand l ss n) (h' : IsOperand l ss' n') {o : Operator}
    (ho : o ∈ binaryOperators) :
    Field l (ss ++ .raw o.symbol :: ss') (.binary .none n (.raw o.symbol) (some o.operation) n') := by
  obtain ⟨hsymbols, hfused⟩ := h.append_symbol h' ⟨o, List.mem_append_left _ ho, rfl⟩
  let c : Chain := ⟨none, ⟨n, h.value⟩, [(.written (bare ho), ⟨n', h'.value⟩)]⟩
  have hnamed : (callNames l.resolve (ss ++ .raw o.symbol :: ss')).map Node.asVariable = c.sentences := by
    rw [callNames_append _ (by simp [Node.isGroup])]
    simp [c, callNames, h.named, h'.named, Node.asVariable, Chain.sentences, Chain.signSentences, Tail.sentences,
      Link.sentences, text_bare]
  have hfield : Field l (ss ++ .raw o.symbol :: ss') (.binary .none n (.raw (bare ho).text) (some o.operation) n') :=
    hsymbols.field hl hfused hnamed
  rwa [text_bare] at hfield

/-- **Operands side by side** make a field when no name stands at the end of the first one. -/
theorem field_adjacent (hl : l.grammar = .default) (h : IsOperand l ss n) (h' : IsOperand l ss' n')
    (hlast : ∀ s ∈ ss.getLast?, s.isIdentifier = false) :
    Symbols (ss ++ ss') ∧ Fused (ss ++ ss') ∧ Field l (ss ++ ss') (.binary .none n (.raw []) (some .mul) n') := by
  have hnodes : ∀ s ∈ ss ++ ss', s.isRaw = false := List.forall_mem_append.2 ⟨h.nodes, h'.nodes⟩
  have hsymbols : Symbols (ss ++ ss') := by
    intro t ht
    cases hnodes _ ht
  let c : Chain := ⟨none, ⟨n, h.value⟩, [(.adjacent, ⟨n', h'.value⟩)]⟩
  have hnamed : (callNames l.resolve (ss ++ ss')).map Node.asVariable = c.sentences := by
    rw [callNames_append_of_getLast? _ hlast, List.map_append, h.named, h'.named]
    simp [c, Chain.sentences, Chain.signSentences, Tail.sentences, Link.sentences]
  exact ⟨hsymbols, fused_of_nodes hnodes, hsymbols.field hl (fused_of_nodes hnodes) hnamed⟩

end IsOperand

end FormulaLang
