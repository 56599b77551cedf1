import FormulaLang.Node.Source
import FormulaLang.Proofs.Nesting.Stack

/-!
# Matched pairs

The matched pairs of brackets of a text, nested as they stand in it (`Text.pairs`), and the groups of a tree in the same form
(`Node.pairs`). A tree whose groups are all between brackets of one kind has exactly the pairs of the text that its brackets
write (`Proper.pairs_texts`).
-/

namespace FormulaLang

namespace Nesting

/-- A matched pair of brackets with the pairs within it. -/
inductive Pair where
  | mk (opener closer : Text) (inside : List Pair)

mutual
/-- The brackets of a pair. -/
def Pair.text : Pair → Text
  | ⟨o, c, inside⟩ => o ++ texts inside ++ c

/-- The brackets of pairs side by side. -/
def Pair.texts : List Pair → Text
  | [] => []
  | p :: ps => text p ++ texts ps
end

theorem Pair.texts_append (ps qs : List Pair) : Pair.texts (ps ++ qs) = Pair.texts ps ++ Pair.texts qs := by
  induction ps with
  | nil => rfl
  | cons p ps ih => simp [Pair.texts, ih]

/-- The pairs of a text. The stack holds the open brackets, each with the pairs in front of it, the last one first;
`current` holds those behind the innermost open bracket. -/
def collect (stack : List (Char × List Pair)) (current : List Pair) : Text → List Pair
  | [] => current.reverse
  | c :: t =>
    if (opening? c).isSome then collect ((c, current) :: stack) [] t
    else if (closing? c).isSome then
      match stack with
      | (o, outer) :: stack => collect stack (⟨[o], [c], current.reverse⟩ :: outer) t
      | [] => collect [] current t
    else collect stack current t

section

variable {c : Char} {stack : List (Char × List Pair)} {current : List Pair}

theorem collect_cons (t : Text) :
    collect stack current (c :: t) =
      if (opening? c).isSome then collect ((c, current) :: stack) [] t
      else if (closing? c).isSome then
        match stack with
        | (o, outer) :: stack => collect stack (⟨[o], [c], current.reverse⟩ :: outer) t
        | [] => collect [] current t
      else collect stack current t :=
  rfl

theorem collect_of_opening (h : (opening? c).isSome = true) (t : Text) :
    collect stack current (c :: t) = collect ((c, current) :: stack) [] t := by
  rw [collect_cons, if_pos h]

theorem collect_of_closing (ho : (opening? c).isSome = false) (h : (closing? c).isSome = true) (o : Char)
    (outer : List Pair) (t : Text) :
    collect ((o, outer) :: stack) current (c :: t) = collect stack (⟨[o], [c], current.reverse⟩ :: outer) t := by
  rw [collect_cons, if_neg (by simp [ho]), if_pos h]

theorem collect_of_stray (ho : (opening? c).isSome = false) (h : (closing? c).isSome = true) (t : Text) :
    collect [] current (c :: t) = collect [] current t := by
  rw [collect_cons, if_neg (by simp [ho]), if_pos h]

theorem collect_of_other (ho : (opening? c).isSome = false) (h : (closing? c).isSome = false) (t : Text) :
    collect stack current (c :: t) = collect stack current t := by
  rw [collect_cons, if_neg (by simp [ho]), if_neg (by simp [h])]

end

/-- A pair of brackets of one kind, and so are all within it. -/
inductive Proper : Pair → Prop
  | mk (k : Kind) {inside : List Pair} (h : ∀ p ∈ inside, Proper p) : Proper ⟨[k.opener], [k.closer], inside⟩

theorem collect_texts {ps : List Pair}
    (h : ∀ p ∈ ps, ∀ stack current t, collect stack current (p.text ++ t) = collect stack (p :: current) t)
    (stack : List (Char × List Pair)) (current : List Pair) (t : Text) :
    collect stack current (Pair.texts ps ++ t) = collect stack (ps.reverse ++ current) t := by
  induction ps generalizing current with
  | nil => rfl
  | cons p ps ih =>
    rw [Pair.texts, List.append_assoc, h p List.mem_cons_self, ih fun q hq => h q (List.mem_cons_of_mem _ hq)]
    simp

/-- The brackets of a pair are read back as the pair. -/
theorem Proper.collect_text {p : Pair} (h : Proper p) (stack : List (Char × List Pair)) (current : List Pair)
    (t : Text) : collect stack current (p.text ++ t) = collect stack (p :: current) t := by
  induction h generalizing stack current t with
  | mk k _ ih =>
    rename_i inside
    have hinside := collect_texts (fun q hq => ih q hq) ((k.opener, current) :: stack) [] (k.closer :: t)
    rw [Pair.text, List.append_assoc, List.append_assoc, List.singleton_append,
      collect_of_opening (by rw [opening?_opener]; rfl), List.singleton_append, hinside,
      collect_of_closing (by rw [opening?_closer]; rfl) (by rw [closing?_closer]; rfl)]
    simp

/-- A bracket. -/
def isBracket (c : Char) : Bool :=
  (opening? c).isSome || (closing? c).isSome

/-- Only the brackets count. -/
theorem collect_filter (stack : List (Char × List Pair)) (current : List Pair) (t : Text) :
    collect stack current (t.filter isBracket) = collect stack current t := by
  induction t generalizing stack current with
  | nil => rfl
  | cons c t ih =>
    cases ho : (opening? c).isSome with
    | true =>
      rw [List.filter_cons_of_pos (by simp [isBracket, ho]), collect_of_opening ho, collect_of_opening ho, ih]
    | false =>
      cases hc : (closing? c).isSome with
      | true =>
        rw [List.filter_cons_of_pos (by simp [isBracket, hc])]
        cases stack with
        | nil => rw [collect_of_stray ho hc, collect_of_stray ho hc, ih]
        | cons frame stack => rw [collect_of_closing ho hc, collect_of_closing ho hc, ih]
      | false => rw [List.filter_cons_of_neg (by simp [isBracket, ho, hc]), collect_of_other ho hc, ih]

end Nesting

open Nesting

/-- The matched pairs of brackets of a text. -/
def Text.pairs (t : Text) : List Pair :=
  collect [] [] t

/-- Pairs are read back from their brackets, whatever stands between these. -/
theorem Nesting.Proper.pairs_texts {ps : List Pair} (h : ∀ p ∈ ps, Proper p) {t : Text}
    (ht : t.filter isBracket = Pair.texts ps) : t.pairs = ps := by
  have hcollect := collect_texts (fun p hp => (h p hp).collect_text) [] [] []
  rw [List.append_nil] at hcollect
  rw [Text.pairs, ← collect_filter, ht, hcollect]
  exact (congrArg List.reverse (List.append_nil _)).trans (List.reverse_reverse ps)

mutual
/-- The groups of a tree with their brackets, nested as in the tree. White space that a group closes with belongs to its
closing bracket and is left out. -/
def Node.pairs : Node → List Pair
  | .group b ps => [⟨b.opener, Text.trimLeft b.closer, pairsAll ps⟩]
  | .call _ c _ a => pairs c ++ pairs a
  | .unary _ s _ x => pairs s ++ pairs x
  | .binary _ l s _ r => pairs l ++ pairs s ++ pairs r
  | .equation _ ss _ => pairsAll ss
  | _ => []

/-- The groups of several trees. -/
def Node.pairsAll : List Node → List Pair
  | [] => []
  | n :: rest => pairs n ++ pairsAll rest
end

theorem Node.pairsAll_eq_flatMap (ns : List Node) : Node.pairsAll ns = ns.flatMap Node.pairs := by
  induction ns with
  | nil => rfl
  | cons n ns ih => rw [Node.pairsAll, ih, List.flatMap_cons]

@[simp] theorem Node.pairs_withPad (p : Pad) (n : Node) : (n.withPad p).pairs = n.pairs := by
  cases n <;> simp [Node.withPad, Node.pairs]

end FormulaLang
