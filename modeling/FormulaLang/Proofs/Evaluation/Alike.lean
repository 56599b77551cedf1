import FormulaLang.Proofs.Evaluation.Determined
import Mathlib.Data.List.Forall2

/-!
# Alike trees

Two trees are alike when the same names are variables in both and they come to the same result on every host and under all
bindings, faults included (`Node.Alike`). Brackets and equations around a single tree make no difference
(`Alike.group_single`, `Alike.equation_single`), and trees of alike parts are alike.
-/

namespace FormulaLang

namespace Node

mutual
/-- The names of the variables in a tree. -/
def varNames : Node → List Text
  | var _ r _ => [r.name]
  | group _ ps => varNamesAll ps
  | call _ c _ a => varNames c ++ varNames a
  | unary _ s _ x => varNames s ++ varNames x
  | binary _ l s _ r => varNames l ++ varNames s ++ varNames r
  | equation _ ss _ => varNamesAll ss
  | _ => []

/-- The names of the variables in trees. -/
def varNamesAll : List Node → List Text
  | [] => []
  | n :: rest => varNames n ++ varNamesAll rest
end

theorem varNamesAll_eq_flatMap (ns : List Node) : varNamesAll ns = ns.flatMap varNames := by
  induction ns with
  | nil => rfl
  | cons n ns ih => rw [varNamesAll, ih, List.flatMap_cons]

/-- The tree `n'` has the variables of the tree `n` and always its value. -/
structure Alike (n n' : Node) : Prop where
  varNames : ∀ name, name ∈ n'.varNames ↔ name ∈ n.varNames
  value : ∀ {σ : Type} (host : Host σ) (lookup : Reference → Option Scalar),
    evaluate host lookup n' = evaluate host lookup n

namespace Alike

variable {n n' m m' : Node} {ns ns' : List Node}

theorem symm (h : Alike n n') : Alike n' n where
  varNames name := (h.varNames name).symm
  value host lookup := (h.value host lookup).symm

theorem trans (h : Alike n n') (h' : Alike n' m) : Alike n m where
  varNames name := (h'.varNames name).trans (h.varNames name)
  value host lookup := (h'.value host lookup).trans (h.value host lookup)

theorem number {v : Scalar} (h : v.isNumber = true) (p p' : Pad) (t t' : Text) :
    Alike (.number p v t) (.number p' v t') where
  varNames _ := Iff.rfl
  value host lookup := by rw [evaluate_number, evaluate_number, if_pos h, if_pos h]

theorem var (p p' : Pad) (r : Reference) (t t' : Text) : Alike (.var p r t) (.var p' r t') :=
  ⟨fun _ => Iff.rfl, fun _ _ => rfl⟩

theorem group_single (h : Alike n n') (b : Brackets) : Alike n (.group b [n']) where
  varNames name := by rw [Node.varNames, varNamesAll, varNamesAll, List.append_nil, h.varNames]
  value host lookup := by rw [evaluate_group_single, h.value]

theorem equation_single (h : Alike n n') (hraw : n'.isRaw = false) (p : Pad) (o : Int) :
    Alike n (.equation p [n'] o) where
  varNames name := by rw [Node.varNames, varNamesAll, varNamesAll, List.append_nil, h.varNames]
  value host lookup := by rw [evaluate_equation_single p o hraw, h.value]

/-- The sentence of an equation stands for the equation. -/
theorem of_equation_single (h : Alike n n') (hraw : n.isRaw = false) (p : Pad) (o : Int) :
    Alike (.equation p [n] o) n' where
  varNames name := by rw [Node.varNames, varNamesAll, varNamesAll, List.append_nil, h.varNames]
  value host lookup := by rw [evaluate_equation_single p o hraw, h.value]

/-- **Operations with one operand** are alike when their symbols are the same but for white space. -/
theorem unary (h : Alike n n') {s s' : Text} (hs : Text.trim s' = Text.trim s) (p p' : Pad) (o : Option Operation) :
    Alike (.unary p (.raw s) o n) (.unary p' (.raw s') o n') where
  varNames name := by simp [Node.varNames, h.varNames]
  value host lookup := by rw [evaluate_unary, evaluate_unary, h.value, Node.symbol, Node.symbol, hs]

/-- **Operations with two operands** likewise. -/
theorem binary (h : Alike n n') (hm : Alike m m') {s s' : Text} (hs : Text.trim s' = Text.trim s) (p p' : Pad)
    (o : Option Operation) : Alike (.binary p n (.raw s) o m) (.binary p' n' (.raw s') o m') where
  varNames name := by simp [Node.varNames, h.varNames, hm.varNames]
  value host lookup := by rw [evaluate_binary, evaluate_binary, h.value, hm.value, Node.symbol, Node.symbol, hs]

theorem varNamesAll_iff (h : List.Forall₂ Alike ns ns') (name : Text) :
    name ∈ varNamesAll ns' ↔ name ∈ varNamesAll ns := by
  induction h with
  | nil => rfl
  | cons hn _ ih => rw [varNamesAll, varNamesAll, List.mem_append, List.mem_append, hn.varNames, ih]

theorem evaluateAll_eq (h : List.Forall₂ Alike ns ns') {σ : Type} (host : Host σ) (lookup : Reference → Option Scalar) :
    evaluateAll host lookup ns' = evaluateAll host lookup ns := by
  induction h with
  | nil => rfl
  | cons hn _ ih => rw [evaluateAll_cons, evaluateAll_cons, hn.value, ih]

/-- **Calls** are alike when their names, functions and arguments are. -/
theorem call (h : List.Forall₂ Alike ns ns') (p p' q q' : Pad) (name : Text) (f : Option Function) (b b' : Brackets) :
    Alike (.call p (.identifier q name) f (.group b ns)) (.call p' (.identifier q' name) f (.group b' ns')) where
  varNames x := by simp [Node.varNames, varNamesAll_iff h]
  value host lookup := by
    rw [evaluate_call, evaluate_call, evaluateArguments_group, evaluateArguments_group, evaluateAll_eq h]
    rfl

/-- **Groups** are alike when their parameters are, and their literals are the same unless they have one parameter. -/
theorem group_of_literal {b b' : Brackets} (h : List.Forall₂ Alike ns ns')
    (hliteral : ns.length ≠ 1 → groupLiteral b' ns' = groupLiteral b ns) : Alike (.group b ns) (.group b' ns') where
  varNames name := by rw [Node.varNames, Node.varNames, varNamesAll_iff h]
  value host lookup := by
    by_cases hlength : ns.length = 1
    · obtain ⟨n, rfl⟩ := List.length_eq_one_iff.1 hlength
      obtain _ | ⟨hn, ⟨⟩⟩ := h
      rw [evaluate_group_single, evaluate_group_single, hn.value]
    · rw [evaluate_group_literal b' (h.length_eq ▸ hlength), evaluate_group_literal b hlength, hliteral hlength]

/-- Groups with one parameter, or with none and the same brackets, are alike. -/
theorem group {b b' : Brackets} (hopener : Text.trim b'.opener = Text.trim b.opener)
    (hcloser : Text.trim b'.closer = Text.trim b.closer) (hlength : ns.length ≤ 1) (h : List.Forall₂ Alike ns ns') :
    Alike (.group b ns) (.group b' ns') := by
  refine group_of_literal h fun hne => ?_
  obtain rfl : ns = [] := List.eq_nil_of_length_eq_zero (by omega)
  cases h
  rw [Node.groupLiteral, Node.groupLiteral, hopener, hcloser]

end Alike

end Node

end FormulaLang
