import FormulaLang.Node.Basic
import FormulaLang.Proofs.Nesting.Stack

/-!
# The order of work

Groups are taken out of a text one kind of brackets after another, those of a kind in the order of their closing brackets, and
every parameter is worked out by itself in the same way before its group is made. What stands outside of all groups is folded
last. `Node.workOrder` tells from a tree in which order its variables come up in this work.
-/

namespace FormulaLang

open Nesting

namespace Nesting.Kind

/-- The kinds that come behind a kind in the list of brackets. -/
def later (k : Kind) : List Kind :=
  all.filter fun j => k.rank < j.rank

/-- The kinds that come before a kind. -/
def earlier (k : Kind) : List Kind :=
  all.filter fun j => j.rank < k.rank

@[simp] theorem later_round : later round = [square, curly] := by decide

@[simp] theorem later_square : later square = [curly] := by decide

@[simp] theorem later_curly : later curly = [] := by decide

theorem mem_all (k : Kind) : k ∈ all := by
  cases k <;> decide

theorem mem_later {j k : Kind} : j ∈ k.later ↔ k.rank < j.rank := by
  simp [later, mem_all]

theorem mem_earlier {j k : Kind} : j ∈ k.earlier ↔ j.rank < k.rank := by
  simp [earlier, mem_all]

theorem ne_of_rank_lt {j k : Kind} (h : j.rank < k.rank) : j ≠ k := by
  rintro rfl
  exact Nat.lt_irrefl _ h

theorem all_eq (k : Kind) : all = k.earlier ++ k :: k.later := by
  cases k <;> decide

end Nesting.Kind

/-- The kind of the brackets. -/
def Brackets.kind? (b : Brackets) : Option Kind :=
  match b.opener with
  | [c] => opening? c
  | _ => none

namespace Node

mutual
/-- The names of the variables outside of groups. -/
def looseNames : Node → List Text
  | var _ r _ => [r.name]
  | call _ c _ a => looseNames c ++ looseNames a
  | unary _ s _ x => looseNames s ++ looseNames x
  | binary _ l s _ r => looseNames l ++ looseNames s ++ looseNames r
  | equation _ ss _ => looseNamesAll ss
  | _ => []

/-- Those in several trees. -/
def looseNamesAll : List Node → List Text
  | [] => []
  | n :: rest => looseNames n ++ looseNamesAll rest
end

mutual
/-- The names that come up while the groups of a kind are made, if `own` are those of a parameter by itself: the groups within a
group come first, and those in groups of an earlier kind have come up with these. -/
def namesIn (k : Kind) (own : Node → List Text) : Node → List Text
  | group b ps =>
    match b.kind? with
    | some j => if j.rank < k.rank then [] else namesInAll k own ps ++ if j = k then ps.flatMap own else []
    | none => []
  | call _ c _ a => namesIn k own c ++ namesIn k own a
  | unary _ s _ x => namesIn k own s ++ namesIn k own x
  | binary _ l s _ r => namesIn k own l ++ namesIn k own s ++ namesIn k own r
  | equation _ ss _ => namesInAll k own ss
  | _ => []

/-- Those of several trees. -/
def namesInAll (k : Kind) (own : Node → List Text) : List Node → List Text
  | [] => []
  | n :: rest => namesIn k own n ++ namesInAll k own rest
end

/-- The names of variables in the order of work, if the groups of these kinds are still to be made. -/
def workOrder : List Kind → Node → List Text
  | [], n => n.looseNames
  | k :: ks, n => n.namesIn k (workOrder ks) ++ workOrder ks n

variable {k : Kind} {own : Node → List Text}

theorem looseNamesAll_eq_flatMap (ns : List Node) : looseNamesAll ns = ns.flatMap looseNames := by
  induction ns with
  | nil => rfl
  | cons n ns ih => rw [looseNamesAll, ih, List.flatMap_cons]

theorem namesInAll_eq_flatMap (ns : List Node) : namesInAll k own ns = ns.flatMap (namesIn k own) := by
  induction ns with
  | nil => rfl
  | cons n ns ih => rw [namesInAll, ih, List.flatMap_cons]

/-! ## Groups of one kind -/

/-- A group of the kind itself. -/
theorem namesIn_group {b : Brackets} (hb : b.kind? = some k) (ps : List Node) :
    (group b ps).namesIn k own = ps.flatMap (namesIn k own) ++ ps.flatMap own := by
  simp [namesIn, hb, namesInAll_eq_flatMap]

theorem namesIn_group_of_later {j : Kind} {b : Brackets} (hb : b.kind? = some j) (h : k.rank < j.rank) (ps : List Node) :
    (group b ps).namesIn k own = ps.flatMap (namesIn k own) := by
  simp [namesIn, hb, namesInAll_eq_flatMap, (Kind.ne_of_rank_lt h).symm, Nat.lt_asymm h]

theorem namesIn_group_of_earlier {j : Kind} {b : Brackets} (hb : b.kind? = some j) (h : j.rank < k.rank) (ps : List Node) :
    (group b ps).namesIn k own = [] := by
  simp [namesIn, hb, h]

/-- The kinds in turn, and then the variables outside of groups. -/
theorem workOrder_later (k : Kind) (n : Node) :
    n.workOrder k.later = (k.later.flatMap fun j => n.namesIn j (workOrder j.later)) ++ n.looseNames := by
  cases k <;> simp [workOrder]

theorem workOrder_all (n : Node) :
    n.workOrder Kind.all = (Kind.all.flatMap fun j => n.namesIn j (workOrder j.later)) ++ n.looseNames := by
  simp [Kind.all, workOrder]

end Node

end FormulaLang
