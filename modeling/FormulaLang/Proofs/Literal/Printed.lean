import FormulaLang.Proofs.Literal.Adjacent
import FormulaLang.Proofs.Parse.Phrases

/-!
# Printed trees

The literal of a printable tree is lexed to a phrase of the tree (`Node.Printable.prints`). Lexing goes along the literal from
the left to the right: a word is told apart from what follows it by the bracket, comma or operator behind it (`Spells`). The
factors of a product without an operator must not run together.
-/

namespace FormulaLang

open Pattern (IsName EndsWord StopsWord stopsWord_nil stopsWord_cons)
open Precedence (Operator prefixOperators binaryOperators)
open Shortest (naturalDigits)

/-! ## Spelling -/

/-- The text is lexed to these atoms in front of everything that ends words. -/
def Spells (u : Text) (ws : List Node) : Prop :=
  ∀ t zs, StopsWord t → Lexes t zs → Lexes (u ++ t) (ws ++ zs)

theorem Pattern.StopsWord.append {u t : Text} (hu : StopsWord u) (ht : StopsWord t) : StopsWord (u ++ t) := by
  cases u with
  | nil => exact ht
  | cons c u => exact hu

namespace Spells

variable {u v : Text} {ws vs : List Node}

theorem lexes (h : Spells u ws) : Lexes u ws := by
  have hlexes := h [] [] stopsWord_nil .nil
  rwa [List.append_nil, List.append_nil] at hlexes

theorem nil : Spells [] [] :=
  fun _ _ _ h => h

/-- What ends words may follow. -/
theorem append (h : Spells u ws) (hv : StopsWord v) (h' : Spells v vs) : Spells (u ++ v) (ws ++ vs) := by
  intro t zs ht hzs
  rw [List.append_assoc, List.append_assoc]
  exact h _ _ (hv.append ht) (h' t zs ht hzs)

/-- A character that ends words is followed by anything. -/
theorem cons {c : Char} (hc : EndsWord c) (h : Spells u ws) : Spells (c :: u) (.raw [c] :: ws) :=
  fun t zs ht hzs => .cons hc (h t zs ht hzs)

theorem symbol_append {s : Text} (hs : ∀ c ∈ s, EndsWord c) (h : Spells u ws) : Spells (s ++ u) (symbolAtoms s ++ ws) := by
  induction s with
  | nil => exact h
  | cons c s ih =>
    rw [List.forall_mem_cons] at hs
    exact cons hs.1 (ih hs.2)

theorem number {k : Nat} (hk : k < Scalar.digitBound) :
    Spells (naturalDigits k) [.number .none (.int k) (naturalDigits k)] :=
  fun _ _ ht hzs => .numeral hk ht hzs

theorem name {x : Text} (hx : IsName x) : Spells x [.identifier .none x] :=
  fun _ _ ht hzs => .name hx ht hzs

/-- What is lexed by itself is lexed so between brackets, whatever follows them. -/
theorem of_lexes (h : Lexes u ws) : Spells ('(' :: u ++ [')']) (bracketed ws) := by
  intro t zs _ hzs
  have hbreak := (h.append_break Node.IsFactor.not_leafChar.2 hzs).cons_break Node.IsFactor.not_leafChar.1
  simpa [bracketed] using hbreak

theorem bracketed (h : Spells u ws) : Spells ('(' :: u ++ [')']) (bracketed ws) :=
  of_lexes h.lexes

/-- Texts with commas between them. -/
theorem joinWith {us : List Text} {wss : List (List Node)} (h : List.Forall₂ Spells us wss) :
    Spells (Text.joinWith [','] us) (commaJoin wss) := by
  have hcomma : EndsWord ',' := by decide
  induction h with
  | nil => exact nil
  | @cons u ws us wss hu hus ih =>
    cases hus with
    | nil => simpa [Text.joinWith, commaJoin] using hu
    | cons =>
      rw [Text.joinWith, commaJoin, List.intercalate_cons_cons, List.append_assoc, List.append_assoc]
      · exact hu.append (stopsWord_cons hcomma _) (cons hcomma ih)
      · simp

end Spells

/-! ## Printable trees -/

namespace Node

/-- A tree of naturals that can be written, names, operators of the default grammar, and round brackets. Groups have one
parameter at most, unless they are arguments of calls. Factors without an operator between them do not run together. -/
inductive Printable (l : Language) : Node → Prop
  | number (p : Pad) {k : Nat} (hk : k < Scalar.digitBound) (t : Text) : Printable l (.number p (.int k) t)
  | var (p : Pad) {name : Text} (hname : IsName name) (t : Text) : Printable l (.var p (.table name) t)
  | group {b : Brackets} (hb : b.IsRound) {ps : List Node} (hlength : ps.length ≤ 1) (hps : ∀ q ∈ ps, Printable l q) :
      Printable l (.group b ps)
  | call (p q : Pad) {name : Text} (hname : IsName name) {b : Brackets} (hb : b.IsRound) {ps : List Node}
      (hps : ∀ q ∈ ps, Printable l q) : Printable l (.call p (.identifier q name) (l.resolve name) (.group b ps))
  | unary (p : Pad) {op : Operator} (hop : op ∈ prefixOperators) {s : Text} (hs : Text.trim s = op.symbol) {x : Node}
      (hx : Printable l x) : Printable l (.unary p (.raw s) (some op.operation) x)
  | binary (p : Pad) {op : Operator} (hop : op ∈ binaryOperators) {s : Text} (hs : Text.trim s = op.symbol) {x y : Node}
      (hx : Printable l x) (hy : Printable l y) : Printable l (.binary p x (.raw s) (some op.operation) y)
  | implicit (p : Pad) {x y : Node} (hx : Printable l x) (hy : Printable l y) (hxv : x.isValue = true) (hyv : y.isValue = true)
      (hapart : x.runTogether y = false) : Printable l (.binary p x (.raw []) (some .mul) y)
  | equation (p : Pad) {n : Node} (hn : Printable l n) (o : Int) : Printable l (.equation p [n] o)

namespace Printable

variable {l : Language} {n : Node}

theorem isRaw_eq (h : Printable l n) : n.isRaw = false := by
  cases h <;> rfl

/-- The literal of the tree spells a phrase of the tree. -/
def Prints (l : Language) (n : Node) (u : Text) : Prop :=
  n.literal = .ok u ∧ ∃ ws, Spells u ws ∧ ReadsAs l ws n

/-- The literals of several trees, one phrase for each. -/
theorem prints_literals {P : Node → Text → Prop} {ps : List Node} (h : ∀ q ∈ ps, ∃ u, Prints l q u ∧ P q u) :
    ∃ us wss, literals ps = .ok us ∧ List.Forall₂ Spells us wss ∧ List.Forall₂ (ReadsAs l) wss ps := by
  induction ps with
  | nil => exact ⟨[], [], by rw [literals], .nil, .nil⟩
  | cons q ps ih =>
    rw [List.forall_mem_cons] at h
    obtain ⟨u, ⟨hu, ws, hspells, hreads⟩, -⟩ := h.1
    obtain ⟨us, wss, hus, hspells', hreads'⟩ := ih h.2
    refine ⟨u :: us, ws :: wss, ?_, .cons hspells hspells', .cons hreads hreads'⟩
    rw [literals, hu, hus]
    rfl

theorem groupLiteral_eq {b : Brackets} (hb : b.IsRound) {ps : List Node} {us : List Text} (hus : literals ps = .ok us) :
    groupLiteral b ps = .ok ('(' :: Text.joinWith [','] us ++ [')']) := by
  rw [groupLiteral, hb.opener, hb.closer, hus]
  rfl

/-- No character of an operator belongs to a word. -/
theorem endsWord_of_isSymbol {s : Text} : IsSymbol s → ∀ c ∈ s, EndsWord c :=
  fun hs c hc => of_decide_eq_true (hs.all_char (p := fun c => decide (EndsWord c)) (by decide) c hc)

/-- The literal of a printable tree spells a phrase of the tree, and is the text of a factor if the tree is an operand. -/
theorem prints_factor (hl : l.grammar = .default) (h : Printable l n) :
    ∃ u, Prints l n u ∧ (n.isValue = true → IsFactor n u) := by
  induction h with
  | @number p k hk t =>
    refine ⟨naturalDigits k, ⟨?_, _, .number hk, .number rfl p t _⟩, fun _ => .number p hk t⟩
    rw [literal, Scalar.text_natural hk]
  | @var p name hname t =>
    exact ⟨name, ⟨by rw [literal, Reference.name], _, .name hname, .var p name t⟩, fun _ => .var p hname t⟩
  | group hb hlength _ ih =>
    obtain ⟨us, wss, hus, hspells, hreads⟩ := prints_literals ih
    refine ⟨'(' :: Text.joinWith [','] us ++ [')'], ⟨?_, _, (Spells.joinWith hspells).bracketed, .group hl hreads hb hlength⟩,
      fun _ => .bracketed _ _⟩
    rw [literal, groupLiteral_eq hb hus]
  | @call p q name hname b hb ps _ ih =>
    obtain ⟨us, wss, hus, hspells, hreads⟩ := prints_literals ih
    have hends : EndsWord '(' := by decide
    refine ⟨name ++ ('(' :: Text.joinWith [','] us ++ [')']), ⟨?_, _, ?_, .call hl hreads p q name b⟩,
      fun _ => .call p q hname _ _ _⟩
    · rw [literal, argumentLiteral, groupLiteral_eq hb hus]
      rfl
    · exact (Spells.name hname).append (stopsWord_cons hends _) (Spells.joinWith hspells).bracketed
  | @unary p op hop s hs x _ ih =>
    obtain ⟨u, ⟨hu, ws, hspells, hreads⟩, -⟩ := ih
    have hends := endsWord_of_isSymbol ⟨op, List.mem_append_right _ hop, rfl⟩
    refine ⟨'(' :: (op.symbol ++ u) ++ [')'], ⟨?_, _, (hspells.symbol_append hends).bracketed, hreads.unary hl hop hs p⟩,
      fun _ => .bracketed _ _⟩
    rw [literal, hu, symbol, hs]
    rfl
  | @binary p op hop s hs x y _ _ ihx ihy =>
    obtain ⟨u, ⟨hu, ws, hspells, hreads⟩, -⟩ := ihx
    obtain ⟨v, ⟨hv, vs, hspells', hreads'⟩, -⟩ := ihy
    have hsymbol : IsSymbol op.symbol := ⟨op, List.mem_append_left _ hop, rfl⟩
    have hends := endsWord_of_isSymbol hsymbol
    refine ⟨'(' :: (u ++ (op.symbol ++ v)) ++ [')'], ⟨?_, _, ?_, hreads.binary hl hreads' hop hs p⟩, fun _ => .bracketed _ _⟩
    · rw [literal, hu, hv, symbol, hs]
      simp [bind, Except.bind, pure, Except.pure]
    · refine (hspells.append ?_ (hspells'.symbol_append hends)).bracketed
      obtain ⟨c, rest, hsym⟩ := List.exists_cons_of_ne_nil hsymbol.ne_nil
      rw [hsym] at hends ⊢
      exact stopsWord_cons (hends c List.mem_cons_self) _
  | @implicit p x y _ _ hxv hyv hapart ihx ihy =>
    obtain ⟨u, ⟨hu, ws, hspells, hreads⟩, hfactor⟩ := ihx
    obtain ⟨v, ⟨hv, vs, hspells', hreads'⟩, hfactor'⟩ := ihy
    obtain ⟨hlexes, hname⟩ := (hfactor hxv).lexes_append (hfactor' hyv) hapart hspells.lexes hspells'.lexes
    refine ⟨'(' :: (u ++ v) ++ [')'], ⟨?_, _, .of_lexes hlexes, hreads.adjacent hl hreads' hname p⟩, fun _ => .bracketed _ _⟩
    have hempty : (raw []).symbol = .ok [] := rfl
    rw [literal, hu, hv, hempty]
    simp [bind, Except.bind, pure, Except.pure]
  | equation p hn o ih =>
    obtain ⟨u, ⟨hu, ws, hspells, hreads⟩, -⟩ := ih
    refine ⟨u, ⟨?_, ws, hspells, hreads.equation hn.isRaw_eq p o⟩, ?_⟩
    · rw [literal, literals, hu]
      simp [literals, bind, Except.bind, pure, Except.pure]
    · rintro ⟨⟩

/-- **The literal of a printable tree** spells a phrase of the tree. -/
theorem prints (hl : l.grammar = .default) (h : Printable l n) : ∃ u, Prints l n u := by
  obtain ⟨u, hu, -⟩ := h.prints_factor hl
  exact ⟨u, hu⟩

end Printable

end Node

end FormulaLang
