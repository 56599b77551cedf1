import FormulaLang.Proofs.Evaluation.Alike
import FormulaLang.Proofs.Parse.Grouped
import FormulaLang.Proofs.Parse.Operands

/-!
# Phrases

A phrase is a stretch of atoms that is grouped, at every position, to an operand like a given node (`ReadsAs`). There is one
lemma for every way to write a node down: numbers and names are phrases, and phrases in brackets make up the phrases of groups,
calls and operations (`ReadsAs.group`, `ReadsAs.call`, `ReadsAs.unary`, `ReadsAs.binary`).
-/

namespace FormulaLang

open Precedence (Operator prefixOperators binaryOperators)
open Reading (atoms)

variable {l : Language}

/-- Atoms between round brackets. -/
def bracketed (ws : List Node) : List Node :=
  .raw ['('] :: ws ++ [.raw [')']]

/-- The characters of a symbol. -/
abbrev symbolAtoms (s : Text) : List Node :=
  atoms.node (.raw s)

/-- Round brackets, with white space around them perhaps. -/
structure Brackets.IsRound (b : Brackets) : Prop where
  opener : Text.trim b.opener = ['(']
  closer : Text.trim b.closer = [')']

/-- The atoms `ws` are an operand like the node `n`. -/
def ReadsAs (l : Language) (ws : List Node) (n : Node) : Prop :=
  ∀ o, ∃ ss n', Groups l o ws ss ∧ IsOperand l ss n' ∧ n.Alike n'

theorem isRaw_of_isValue {n : Node} (h : n.isValue = true) : n.isRaw = false := by
  cases n with
  | raw t => cases h
  | _ => rfl

/-! ## Groups of fields -/

/-- The parameters of a group, as equations of single sentences. -/
abbrev AreEquations (ns ps : List Node) : Prop :=
  List.Forall₂ (fun n q => ∃ o, q = .equation .none [n] o) ns ps

theorem alike_equations {ns ns' ps : List Node} (h : List.Forall₂ Node.Alike ns ns') (hraw : ∀ n ∈ ns', n.isRaw = false)
    (hps : AreEquations ns' ps) : List.Forall₂ Node.Alike ns ps := by
  induction h generalizing ps with
  | nil =>
    cases hps
    exact .nil
  | cons hn hns ih =>
    obtain _ | ⟨⟨o, rfl⟩, hps⟩ := hps
    rw [List.forall_mem_cons] at hraw
    exact .cons (hn.equation_single hraw.1 _ _) (ih hraw.2 hps)

/-! ## Operands with commas between them -/

section Operands

variable {fs : List (List Node)} (h : ∀ f ∈ fs, f ≠ [] ∧ ∀ s ∈ f, s.isRaw = false)

include h

theorem eq_comma_of_mem {t : Text} (ht : .raw t ∈ commaJoin fs) : t = [','] := by
  induction fs with
  | nil => cases ht
  | cons f fs ih =>
    rw [List.forall_mem_cons] at h
    have hf : .raw t ∉ f := by
      intro hmem
      cases h.1.2 _ hmem
    cases fs with
    | nil => exact absurd (by simpa [commaJoin] using ht) hf
    | cons g fs =>
      rw [commaJoin, List.intercalate_cons_cons, List.append_assoc, List.mem_append, List.mem_append] at ht
      rcases ht with ht | ht | ht
      · exact absurd ht hf
      · simpa using ht
      · exact ih h.2 ht

theorem head_commaJoin : ∀ m ∈ (commaJoin fs).head?, m.isRaw = false := by
  cases fs with
  | nil => simp [commaJoin]
  | cons f fs =>
    obtain ⟨hne, hf⟩ := h f List.mem_cons_self
    obtain ⟨s, f, rfl⟩ := List.exists_cons_of_ne_nil hne
    intro m hm
    have hs : m = s := by cases fs <;> simpa [commaJoin, List.intercalate_cons_cons, eq_comm] using hm
    exact hs ▸ hf s List.mem_cons_self

theorem fused_commaJoin : Fused (commaJoin fs) := by
  induction fs with
  | nil => exact .nil
  | cons f fs ih =>
    have hhead := @head_commaJoin fs
    rw [List.forall_mem_cons] at h
    have hf : Fused f := fused_of_nodes h.1.2
    cases fs with
    | nil => simpa [commaJoin] using hf
    | cons g fs =>
      rw [commaJoin, List.intercalate_cons_cons, List.append_assoc]
      have hcomma : Fused (.raw [','] :: commaJoin (g :: fs)) :=
        Fused.cons_iff.2 ⟨by simp, ih h.2, fun m hm => .inr (hhead h.2 m hm)⟩
      exact Fused.append_iff.2 ⟨hf, hcomma, fun m hm _ _ => .inl (h.1.2 m (List.mem_of_mem_getLast? hm))⟩

end Operands

section Default

variable (hl : l.grammar = .default) {o : Int}

include hl

/-- **Fields in brackets** make a group of their equations. -/
theorem Groups.fields {ws : List Node} {fs : List (List Node)} {ns : List Node} (h : Groups l (o + 1) ws (commaJoin fs))
    (hfused : Fused (commaJoin fs)) (hopen : .raw ['('] ∉ atoms.nodes (commaJoin fs))
    (hfields : List.Forall₂ (Field l) fs ns) :
    ∃ b ps, Groups l o (bracketed ws) [.group b ps] ∧ b.IsRound ∧ AreEquations ns ps := by
  obtain ⟨ps, hps, hequations⟩ := parseParams_commaJoin hl hfields (o + 1)
  have hblank : (Interior.ofSentences (.spaced ',') (o + 1) (commaJoin fs)).blank = [] :=
    (Field.params_commaJoin hfields (o + 1)).2
  have hround : Text.trim ['('] = ['('] ∧ Text.trim [')'] = [')'] := by decide
  refine ⟨_, ps, h.group hfused hopen hps, ⟨hround.1, ?_⟩, hequations⟩
  rw [hl, Grammar.default, hblank]
  exact hround.2

omit hl in
/-- Raw text without a closing bracket stays as it is. -/
theorem Groups.raw {s : Text} (h : ')' ∉ s) : Groups l o (symbolAtoms s) [.raw s] := by
  have hclosed : .raw [')'] ∉ atoms.nodes [.raw s] := by
    rw [raw_mem_atoms_iff]
    rintro ⟨t, ht, hc⟩
    cases List.mem_singleton.1 ht
    exact h hc
  have hrefl := Groups.refl (l := l) (o := o) hclosed
  rwa [Reading.nodes_cons, Reading.nodes_nil, List.append_nil] at hrefl

/-- **Operands with commas between them** are grouped side by side. -/
theorem Groups.operands {wss : List (List Node)} {ns : List Node} (h : List.Forall₂ (ReadsAs l) wss ns) (o : Int) :
    ∃ fs ns', Groups l o (commaJoin wss) (commaJoin fs) ∧ List.Forall₂ (IsOperand l) fs ns' ∧
      List.Forall₂ Node.Alike ns ns' := by
  induction h generalizing o with
  | nil =>
    have hnil : .raw [')'] ∉ atoms.nodes [] := by simp
    exact ⟨[], [], .refl hnil, .nil, .nil⟩
  | @cons ws n wss ns hws hwss ih =>
    obtain ⟨f, n', hgroups, hoperand, halike⟩ := hws o
    cases wss with
    | nil =>
      cases hwss
      exact ⟨[f], [n'], by simpa [commaJoin] using hgroups, .cons hoperand .nil, .cons halike .nil⟩
    | cons vs wss =>
      have hcomma : Groups l (o + (Node.sourceTexts ws).length) [.raw [',']] [.raw [',']] := .raw (s := [',']) (by simp)
      obtain ⟨fs, ns', hrest, hoperands, halikes⟩ := ih (o + (Node.sourceTexts (ws ++ [.raw [',']])).length)
      refine ⟨f :: fs, n' :: ns', ?_, .cons hoperand hoperands, .cons halike halikes⟩
      have hjoin := (hgroups.append hl hcomma).append hl hrest
      cases hoperands with
      | nil =>
        cases halikes
        cases hwss
      | cons =>
        rw [commaJoin, commaJoin, List.intercalate_cons_cons, List.intercalate_cons_cons]
        exact hjoin

/-! ## Phrases -/

namespace ReadsAs

variable {wss : List (List Node)} {ws vs : List Node} {ns : List Node} {n m : Node}

omit hl in
theorem number {v : Scalar} (h : v.isNumber = true) (p : Pad) (t t' : Text) :
    ReadsAs l [.number .none v t'] (.number p v t) := by
  intro o
  refine ⟨_, _, .node rfl, ⟨by simp [Node.isRaw], ?_, ?_⟩, .number h p .none t t'⟩
  · rfl
  · rfl

omit hl in
theorem var (p : Pad) (name t : Text) : ReadsAs l [.identifier .none name] (.var p (.table name) t) := by
  intro o
  refine ⟨_, _, .node rfl, ⟨by simp [Node.isRaw], ?_, ?_⟩, .var p .none (.table name) t name⟩
  · rfl
  · rfl

omit hl in
/-- What stands for a sentence stands for its equation. -/
theorem equation (h : ReadsAs l ws n) (hraw : n.isRaw = false) (p : Pad) (o : Int) : ReadsAs l ws (.equation p [n] o) := by
  intro o'
  obtain ⟨ss, n', hgroups, hoperand, halike⟩ := h o'
  exact ⟨ss, n', hgroups, hoperand, halike.of_equation_single hraw p o⟩

/-- Operands between brackets are the parameters of a group. -/
theorem params (h : List.Forall₂ (ReadsAs l) wss ns) (o : Int) :
    ∃ b ps, Groups l o (bracketed (commaJoin wss)) [.group b ps] ∧ b.IsRound ∧ List.Forall₂ Node.Alike ns ps := by
  obtain ⟨fs, ns', hgroups, hoperands, halikes⟩ := Groups.operands hl h (o + 1)
  have hnodes : ∀ f ∈ fs, f ≠ [] ∧ ∀ s ∈ f, s.isRaw = false := by
    intro f hf
    obtain ⟨n, -, hn⟩ := exists_of_forall₂ hoperands.flip f hf
    exact ⟨hn.ne_nil, hn.nodes⟩
  have hopen : .raw ['('] ∉ atoms.nodes (commaJoin fs) := by
    rw [raw_mem_atoms_iff]
    rintro ⟨t, ht, hc⟩
    cases eq_comma_of_mem hnodes ht
    simp at hc
  obtain ⟨b, ps, hgroup, hround, hequations⟩ :=
    hgroups.fields hl (fused_commaJoin hnodes) hopen (hoperands.imp fun f n hf => hf.field hl)
  have hraw : ∀ n ∈ ns', n.isRaw = false := by
    intro n hn
    obtain ⟨f, -, hf⟩ := exists_of_forall₂ hoperands n hn
    exact isRaw_of_isValue hf.value
  exact ⟨b, ps, hgroup, hround, alike_equations halikes hraw hequations⟩

/-- **A group** with one parameter at most. -/
theorem group (h : List.Forall₂ (ReadsAs l) wss ns) {b : Brackets} (hb : b.IsRound) (hlength : ns.length ≤ 1) :
    ReadsAs l (bracketed (commaJoin wss)) (.group b ns) := by
  intro o
  obtain ⟨b', ps, hgroup, hround, halikes⟩ := params hl h o
  refine ⟨_, _, hgroup, ⟨by simp [Node.isRaw], rfl, rfl⟩, ?_⟩
  exact .group (hround.opener.trans hb.opener.symm) (hround.closer.trans hb.closer.symm) hlength halikes

/-- **A call**. -/
theorem call (h : List.Forall₂ (ReadsAs l) wss ns) (p q : Pad) (name : Text) (b : Brackets) :
    ReadsAs l (.identifier .none name :: bracketed (commaJoin wss))
      (.call p (.identifier q name) (l.resolve name) (.group b ns)) := by
  intro o
  have hname : Groups l o [.identifier .none name] [.identifier .none name] := .node rfl
  obtain ⟨b', ps, hgroup, -, halikes⟩ := params hl h (o + (Node.sourceTexts [.identifier .none name]).length)
  refine ⟨_, _, hname.append hl hgroup, ⟨by simp [Node.isRaw], ?_, ?_⟩, .call halikes p .none q .none name _ b b'⟩
  · rfl
  · rfl

/-- A field in brackets stands for the node of the field. -/
theorem of_field {f : List Node} {n' : Node} (hgroups : Groups l (o + 1) ws f) (hfused : Fused f)
    (hopen : .raw ['('] ∉ atoms.nodes f) (hfield : Field l f n') (hraw : n'.isRaw = false) (halike : n.Alike n') :
    ∃ ss n', Groups l o (bracketed ws) ss ∧ IsOperand l ss n' ∧ n.Alike n' := by
  have hsingle : commaJoin [f] = f := by simp [commaJoin]
  rw [← hsingle] at hgroups hfused hopen
  obtain ⟨b, ps, hgroup, -, hequations⟩ := hgroups.fields hl hfused hopen (.cons hfield .nil)
  obtain _ | ⟨⟨o', rfl⟩, ⟨⟩⟩ := hequations
  refine ⟨_, _, hgroup, ⟨by simp [Node.isRaw], rfl, rfl⟩, ?_⟩
  exact (halike.equation_single hraw .none o').group_single b

/-- **An operator before an operand**. -/
theorem unary (h : ReadsAs l ws n) {op : Operator} (hop : op ∈ prefixOperators) {s : Text} (hs : Text.trim s = op.symbol)
    (p : Pad) : ReadsAs l (bracketed (symbolAtoms op.symbol ++ ws)) (.unary p (.raw s) (some op.operation) n) := by
  intro o
  have hsymbol : IsSymbol op.symbol := ⟨op, List.mem_append_right _ hop, rfl⟩
  obtain ⟨ss, n', hgroups, hoperand, halike⟩ := h (o + 1 + (Node.sourceTexts (symbolAtoms op.symbol)).length)
  obtain ⟨hsymbols, hfused⟩ := hoperand.cons_symbol hsymbol
  have hraw : Groups l (o + 1) (symbolAtoms op.symbol) [.raw op.symbol] := .raw hsymbol.not_closer
  refine of_field hl (hraw.append hl hgroups) hfused (hsymbols.not_mem_atoms rfl) (hoperand.field_unary hl hop) rfl ?_
  exact halike.unary (hsymbol.trim_eq.trans hs.symm) p .none _

/-- **An operator between operands**. -/
theorem binary (h : ReadsAs l ws n) (h' : ReadsAs l vs m) {op : Operator} (hop : op ∈ binaryOperators) {s : Text}
    (hs : Text.trim s = op.symbol) (p : Pad) :
    ReadsAs l (bracketed (ws ++ (symbolAtoms op.symbol ++ vs))) (.binary p n (.raw s) (some op.operation) m) := by
  intro o
  have hsymbol : IsSymbol op.symbol := ⟨op, List.mem_append_left _ hop, rfl⟩
  obtain ⟨ss, n', hgroups, hoperand, halike⟩ := h (o + 1)
  let mid := o + 1 + (Node.sourceTexts ws).length
  have hraw : Groups l mid (symbolAtoms op.symbol) [.raw op.symbol] := .raw hsymbol.not_closer
  obtain ⟨ss', m', hgroups', hoperand', halike'⟩ := h' (mid + (Node.sourceTexts (symbolAtoms op.symbol)).length)
  obtain ⟨hsymbols, hfused⟩ := hoperand.append_symbol hoperand' hsymbol
  have hfield := hoperand.field_binary hl hoperand' hop
  refine of_field hl (hgroups.append hl (hraw.append hl hgroups')) hfused (hsymbols.not_mem_atoms rfl) hfield rfl ?_
  exact halike.binary halike' (hsymbol.trim_eq.trans hs.symm) p .none _

/-- **Operands side by side**, when no name stands at the end of the first one. -/
theorem adjacent (h : ReadsAs l ws n) (h' : ReadsAs l vs m) (hlast : ∀ w ∈ ws.getLast?, w.isIdentifier = false) (p : Pad) :
    ReadsAs l (bracketed (ws ++ vs)) (.binary p n (.raw []) (some .mul) m) := by
  intro o
  obtain ⟨ss, n', hgroups, hoperand, halike⟩ := h (o + 1)
  obtain ⟨ss', m', hgroups', hoperand', halike'⟩ := h' (o + 1 + (Node.sourceTexts ws).length)
  have hname : ∀ s ∈ ss.getLast?, s.isIdentifier = false := by
    intro s hs
    rw [Bool.eq_false_iff]
    intro hidentifier
    have hfalse := hlast s (hgroups.mem_getLast?_of_isIdentifier hs hidentifier)
    rw [hidentifier] at hfalse
    cases hfalse
  obtain ⟨hsymbols, hfused, hfield⟩ := hoperand.field_adjacent hl hoperand' hname
  refine of_field hl (hgroups.append hl hgroups') hfused (hsymbols.not_mem_atoms rfl) hfield rfl ?_
  exact halike.binary halike' rfl p .none _

end ReadsAs

end Default

end FormulaLang
