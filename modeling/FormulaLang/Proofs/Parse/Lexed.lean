import FormulaLang.Proofs.Leaf.Tokens
import FormulaLang.Proofs.Parse.Atoms

/-!
# The atoms of a text

What lexing makes of a text, seen as atoms (`Lexes`). A text of tokens with characters between them that end words is lexed
token by token, from the left to the right (`Lexes.cons`, `Lexes.token`).
-/

namespace FormulaLang

open Pattern (IsName EndsWord StopsWord)
open Reading (atoms)
open Shortest (naturalDigits)

/-- The default rules cut the text into sentences with these atoms. -/
def Lexes (t : Text) (ws : List Node) : Prop :=
  ∃ out, lexText Grammar.defaultLeaves t = .ok out ∧ atoms.nodes out = ws

namespace Lexes

variable {c : Char} {t : Text} {ws : List Node}

theorem nil : Lexes [] [] :=
  ⟨[], lexText_of_none (leafCut?_nil _), rfl⟩

/-- A text that a character divides from what follows it, and behind the first cut of which nothing is left, is lexed before
what follows it. -/
theorem word {x : Text} {left : List Node} (hleft : lexText Grammar.defaultLeaves x = .ok left)
    (hcuts : ∀ y, CutsApart Grammar.defaultLeaves c x y)
    (hafter : ∀ d, leafCut? Grammar.defaultLeaves x = some d → d.after = []) (hc : EndsWord c) (h : Lexes t ws) :
    Lexes (x ++ c :: t) (atoms.nodes left ++ .raw [c] :: ws) := by
  obtain ⟨right, hright, rfl⟩ := h
  obtain ⟨out, hout⟩ := lexText_ok readable_default (x ++ c :: t)
  have hapart : ∀ u y, u = x ∨ u = [] → CutsApart Grammar.defaultLeaves c u y := by
    rintro u y (rfl | rfl)
    · exact hcuts y
    · exact IsWord.empty.cutsApart hc y
  have hrest : ∀ u d, u = x ∨ u = [] → leafCut? Grammar.defaultLeaves u = some d → d.after = x ∨ d.after = [] := by
    rintro u d (rfl | rfl) hd
    · exact .inr (hafter d hd)
    · cases (leafCut?_nil _).symm.trans hd
  obtain ⟨left', right', hleft', hright', hatoms⟩ := atoms_lexText_of_cutsApart hapart hrest (.inl rfl) hout
  cases hleft.symm.trans hleft'
  cases hright.symm.trans hright'
  exact ⟨out, hout, hatoms⟩

/-- A character that ends words is an atom. -/
theorem cons (hc : EndsWord c) (h : Lexes t ws) : Lexes (c :: t) (.raw [c] :: ws) := by
  refine word (lexText_of_none (leafCut?_nil _)) (fun y => IsWord.empty.cutsApart hc y) (fun d hd => ?_) hc h
  cases (leafCut?_nil _).symm.trans hd

/-- **A token** is cut out as it is. -/
theorem token {k : LeafKind} {x : Text} (hx : k.IsToken x) {n : Node} (hn : k.leaf x = .ok n) (ht : StopsWord t)
    (h : Lexes t ws) : Lexes (x ++ t) (n :: ws) := by
  have hempty := lexText_of_none (leafCut?_nil Grammar.defaultLeaves)
  have hleaf : lexText Grammar.defaultLeaves x = .ok [n] := lexText_of_cut hx.leafCut?_eq hn hempty hempty
  have hatoms : atoms.nodes [n] = [n] := Reading.atoms_nodes_singleton (LeafKind.isRaw_leaf hn)
  cases t with
  | nil =>
    obtain ⟨out, hout, rfl⟩ := h
    cases hempty.symm.trans hout
    exact ⟨[n], by rwa [List.append_nil], hatoms⟩
  | cons c t =>
    have hc : EndsWord c := ht c rfl
    obtain ⟨right, hright⟩ := lexText_ok readable_default t
    obtain ⟨out, hout, hws⟩ := h
    obtain ⟨out', hout', hws'⟩ := cons hc ⟨right, hright, rfl⟩
    cases hout.symm.trans hout'
    have hafter : ∀ d, leafCut? Grammar.defaultLeaves x = some d → d.after = [] := by
      intro d hd
      cases hx.leafCut?_eq.symm.trans hd
      rfl
    have hword := word hleaf (hx.cutsApart hc) hafter hc ⟨right, hright, rfl⟩
    rw [hatoms, List.singleton_append] at hword
    rw [← hws, hws']
    exact hword

/-- **A name** is cut out as it is. -/
theorem name {x : Text} (hx : IsName x) (ht : StopsWord t) (h : Lexes t ws) :
    Lexes (x ++ t) (.identifier .none x :: ws) :=
  token (.identifier hx) rfl ht h

/-- **The digits of a natural** are cut out as a literal. -/
theorem numeral {k : Nat} (hk : k < Scalar.digitBound) (ht : StopsWord t) (h : Lexes t ws) :
    Lexes (naturalDigits k ++ t) (.number .none (.int k) (naturalDigits k) :: ws) :=
  token (LeafKind.isToken_of_writes_ten (Number.writes_naturalDigits k)) (LeafKind.leaf_naturalDigits hk) ht h

end Lexes

end FormulaLang
