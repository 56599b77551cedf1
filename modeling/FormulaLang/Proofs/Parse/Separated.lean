import FormulaLang.Proofs.Parse.Exhaustive
import FormulaLang.Proofs.Parse.Lexed

/-!
# Separated tokens

A text of tokens between which there is raw text that ends words (`Separated`) is lexed to these tokens and that raw text,
although the rules cut it from the inside and not from the left to the right (`lexText_separated`). Atom by atom the text is
lexed from the left to the right (`Separated.lexes`), and a fused buffer is determined by its atoms.
-/

namespace FormulaLang

open Pattern (EndsWord StopsWord)
open Reading (atoms)

/-- The node is the leaf of the kind with the text. -/
structure LeafKind.Makes (k : LeafKind) (t : Text) (n : Node) : Prop where
  leaf : k.leaf t = .ok n
  text : n.sourceText = t
  name : n.isIdentifier = (k == .identifier)
  number : n.isNumber = (k != .identifier)

/-- A token and the raw text behind it. -/
structure Token where
  kind : LeafKind
  text : Text
  gap : Text

namespace Token

/-- The text of a sequence of tokens. -/
def texts (ps : List Token) : Text :=
  ps.flatMap fun p => p.text ++ p.gap

@[simp] theorem texts_nil : texts [] = [] := rfl

@[simp] theorem texts_cons (p : Token) (ps : List Token) : texts (p :: ps) = p.text ++ (p.gap ++ texts ps) := by
  simp [texts]

/-- The sentences are a leaf for each token, and the raw texts behind them. -/
inductive Recovered : List Token → List Node → Prop
  | nil : Recovered [] []
  | cons {p : Token} {ps : List Token} {n : Node} {ss : List Node} (hn : p.kind.Makes p.text n) (h : Recovered ps ss) :
      Recovered (p :: ps) (n :: (Node.raws p.gap ++ ss))

end Token

open Token (texts Recovered)

/-- Every text is a token of its kind, the raw text behind it is made of characters that end words, and only behind the last
token it may be empty. -/
structure Separated (ps : List Token) : Prop where
  token : ∀ p ∈ ps, p.kind.IsToken p.text
  gap : ∀ p ∈ ps, ∀ c ∈ p.gap, EndsWord c
  apart : ∀ p ∈ ps.dropLast, p.gap ≠ []

namespace LeafKind

variable {k : LeafKind} {t : Text} {n : Node}

/-- A leaf is a name when its kind says so, and a literal otherwise. -/
theorem Makes.of_leaf (h : k.leaf t = .ok n) : k.Makes t n := by
  rcases leaf_cases h with ⟨v, rfl⟩ | rfl
  · have hk : k ≠ .identifier := by
      rintro rfl
      cases h
    exact ⟨h, sourceText_leaf h, (beq_eq_false_iff_ne.2 hk).symm, (bne_iff_ne.2 hk).symm⟩
  · obtain rfl := eq_identifier_of_leaf h
    exact ⟨h, sourceText_leaf h, rfl, rfl⟩

/-- **A token** is the text of a leaf. -/
theorem IsToken.makes (h : k.IsToken t) : ∃ n, k.Makes t n := by
  have hleaf : ∃ n, k.leaf t = .ok n := by
    cases h with
    | hex hm hp => exact leaf_hex_ok hm hp
    | binary hm hp => exact leaf_binary_ok hm hp
    | identifier h => exact ⟨_, rfl⟩
    | decimal h => exact leaf_decimal_ok h
  obtain ⟨n, hn⟩ := hleaf
  exact ⟨n, .of_leaf hn⟩

theorem Makes.isRaw (h : k.Makes t n) : n.isRaw = false :=
  isRaw_leaf h.leaf

end LeafKind

theorem Pattern.stopsWord_append {x t : Text} (hx : ∀ c ∈ x, EndsWord c) (hne : x ≠ []) : StopsWord (x ++ t) := by
  obtain ⟨c, x, rfl⟩ := List.exists_cons_of_ne_nil hne
  exact Pattern.stopsWord_cons (hx c List.mem_cons_self) _

/-- Characters that end words are atoms. -/
theorem Lexes.chars {x t : Text} {ws : List Node} (hx : ∀ c ∈ x, EndsWord c) (h : Lexes t ws) :
    Lexes (x ++ t) (atoms.nodes (Node.raws x) ++ ws) := by
  rw [Reading.nodes_raws, Reading.atoms_raw]
  induction x with
  | nil => exact h
  | cons c x ih =>
    rw [List.forall_mem_cons] at hx
    exact .cons hx.1 (ih hx.2)

theorem Fused.raws_append {t : Text} {ss : List Node} (h : Fused ss) (hhead : ∀ n ∈ ss.head?, n.isRaw = false) :
    Fused (Node.raws t ++ ss) :=
  append_iff.2 ⟨raws t, h, fun _ _ n hn => .inr (hhead n hn)⟩

theorem Token.Recovered.fused {ps : List Token} {ss : List Node} (h : Recovered ps ss) :
    Fused ss ∧ ∀ n ∈ ss.head?, n.isRaw = false := by
  induction h with
  | nil => exact ⟨.nil, by simp⟩
  | cons hn h ih =>
    refine ⟨.cons_node hn.isRaw (ih.1.raws_append ih.2), fun m hm => ?_⟩
    cases Option.mem_some_iff.1 hm
    exact hn.isRaw

namespace Separated

variable {p : Token} {ps : List Token}

theorem tail (h : Separated (p :: ps)) : Separated ps where
  token q hq := h.token q (List.mem_cons_of_mem p hq)
  gap q hq := h.gap q (List.mem_cons_of_mem p hq)
  apart q hq := by
    cases ps with
    | nil => cases hq
    | cons r ps => exact h.apart q (List.mem_cons_of_mem p hq)

/-- A token ends where the text behind it starts. -/
theorem stopsWord (h : Separated (p :: ps)) : StopsWord (p.gap ++ texts ps) := by
  cases ps with
  | nil =>
    by_cases hgap : p.gap = []
    · rw [hgap]
      exact Pattern.stopsWord_nil
    · exact Pattern.stopsWord_append (h.gap p List.mem_cons_self) hgap
  | cons q ps => exact Pattern.stopsWord_append (h.gap p List.mem_cons_self) (h.apart p List.mem_cons_self)

/-- **The atoms** of separated tokens are their leaves and the characters between them. -/
theorem lexes (h : Separated ps) : ∃ ss, Recovered ps ss ∧ Lexes (texts ps) (atoms.nodes ss) := by
  induction ps with
  | nil => exact ⟨[], .nil, .nil⟩
  | cons p ps ih =>
    obtain ⟨ss, hss, hlexes⟩ := ih h.tail
    have htoken : p.kind.IsToken p.text := h.token p List.mem_cons_self
    obtain ⟨n, hn⟩ := htoken.makes
    refine ⟨_, .cons hn hss, ?_⟩
    rw [Token.texts_cons, Reading.nodes_cons, Reading.atoms_of_not_isRaw hn.isRaw, Reading.nodes_append]
    exact .token htoken hn.leaf h.stopsWord (.chars (h.gap p List.mem_cons_self) hlexes)

end Separated

/-- **Separated tokens** are recovered from their text. -/
theorem lexText_separated {front : Text} (hfront : ∀ c ∈ front, EndsWord c) {ps : List Token} (hps : Separated ps) :
    ∃ ss, Recovered ps ss ∧ lexText Grammar.defaultLeaves (front ++ texts ps) = .ok (Node.raws front ++ ss) := by
  obtain ⟨ss, hss, hlexes⟩ := hps.lexes
  obtain ⟨out, hout, hatoms⟩ := Lexes.chars hfront hlexes
  have hfused : Fused (Node.raws front ++ ss) := hss.fused.1.raws_append hss.fused.2
  rw [← Reading.nodes_append] at hatoms
  exact ⟨ss, hss, by rw [hout, (fused_lexText hout).eq_of_atoms hfused hatoms]⟩

/-- **Lexing** a new formula with the default leaf rules recovers separated tokens: between the same raw texts there is one leaf
for each token, of its kind and with its text. -/
theorem Formula.lex_separated {l : Language} (hl : l.grammar.leaves = Grammar.defaultLeaves) {front : Text}
    (hfront : ∀ c ∈ front, EndsWord c) {ps : List Token} (hps : Separated ps) :
    ∃ o ss, (new (front ++ texts ps)).advance? l .lex = some o ∧ o.failure = none ∧
      o.formula = ⟨front ++ texts ps, .equation .none (Node.raws front ++ ss) 0, []⟩ ∧ Recovered ps ss := by
  obtain ⟨ss, hss, hlexed⟩ := lexText_separated hfront hps
  obtain ⟨o, ho, hfailure, hformula⟩ := advance?_lex_new hl hlexed
  exact ⟨o, ss, ho, hfailure, hformula, hss⟩

/-- A decimal with an exponent in front of a sign, literals in base 16 and 2 in upper case, and a name behind a blank. -/
theorem Formula.lex_separated_mixed :
    Language.default.grammar.leaves = Grammar.defaultLeaves ∧ (∀ c ∈ " ".toList, EndsWord c) ∧
      Separated [⟨.decimal, "1.5e+3".toList, "+".toList⟩, ⟨.hex, "0XfF".toList, "-(".toList⟩, ⟨.binary, "0B10".toList, " ".toList⟩,
        ⟨.identifier, "e1".toList, []⟩] ∧
      ∃ o ss, (new " 1.5e+3+0XfF-(0B10 e1".toList).advance? .default .lex = some o ∧ o.failure = none ∧
        o.formula = ⟨" 1.5e+3+0XfF-(0B10 e1".toList, .equation .none (Node.raws " ".toList ++ ss) 0, []⟩ ∧
        Recovered [⟨.decimal, "1.5e+3".toList, "+".toList⟩, ⟨.hex, "0XfF".toList, "-(".toList⟩,
          ⟨.binary, "0B10".toList, " ".toList⟩, ⟨.identifier, "e1".toList, []⟩] ss := by
  have hdecimal : Number.IsDecimal Text.isDecimal "1.5e+3".toList :=
    @Number.IsDecimal.mk _ ['1'] ['.', '5'] ['e', '+', '3'] (by decide) (.present (by decide))
      (@Number.Exponent.present _ 'e' ['+'] ['3'] (by decide) (by decide) (by decide))
  have hname : Pattern.IsName "e1".toList :=
    ⟨⟨'e', ['1'], rfl, by decide, List.forall_mem_singleton.2 (by decide)⟩, rfl, rfl⟩
  have hfront : ∀ c ∈ " ".toList, EndsWord c := List.forall_mem_singleton.2 (by decide)
  have hps : Separated [⟨.decimal, "1.5e+3".toList, "+".toList⟩, ⟨.hex, "0XfF".toList, "-(".toList⟩,
      ⟨.binary, "0B10".toList, " ".toList⟩, ⟨.identifier, "e1".toList, []⟩] := by
    have hends : EndsWord '+' ∧ EndsWord '-' ∧ EndsWord '(' ∧ EndsWord ' ' := by decide
    refine ⟨?_, by simp [hends], by simp⟩
    simp only [List.forall_mem_cons]
    exact ⟨.decimal hdecimal, @LeafKind.IsToken.hex ['0', 'X'] ['f', 'F'] (by decide) (by decide),
      @LeafKind.IsToken.binary ['0', 'B'] ['1', '0'] (by decide) (by decide), .identifier hname, by simp⟩
  exact ⟨rfl, hfront, hps, lex_separated rfl hfront hps⟩

end FormulaLang
