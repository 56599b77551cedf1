import FormulaLang.Proofs.Nesting.WorkOrder
import FormulaLang.Proofs.Simplification.Variables

/-!
# The order of the variable table

The table of a parsed formula has its names in the order in which the parse comes to them, each where it comes up first
(`Formula.names_slots_parse`). This is the order of the text if no variable stands in a group. Otherwise it need not be: the
variables of a group come before those around it, also before those in front of it.
-/

namespace FormulaLang

open Nesting

namespace Node

/-! ## Trees without variables in groups -/

/-- No variable of the tree stands in a group. -/
def BareGroups (n : Node) : Prop :=
  ∀ b ps, .group b ps ∈ n.walk → (group b ps).vars = []

theorem BareGroups.mono {m n : Node} (h : n.BareGroups) (hm : m.walk ⊆ n.walk) : m.BareGroups :=
  fun b ps hmem => h b ps (hm hmem)

namespace Interned

variable {n : Node}

theorem looseNames_eq (h : n.Interned) (hbare : n.BareGroups) : n.looseNames = n.vars.map name := by
  induction h with
  | raw | number | identifier | var => rfl
  | group b _ => exact (congrArg (List.map name) (hbare b _ (mem_walk_self rfl))).symm
  | call p q t f b _ =>
    rw [vars_call, vars_identifier, hbare b _ (walk_subset_call p _ f _ (mem_walk_self rfl))]
    rfl
  | unary p s o _ ih =>
    rw [vars_unary, looseNames, ih (hbare.mono (walk_subset_unary p _ o _))]
    rfl
  | binary p s o _ _ ihx ihy =>
    rw [vars_binary, looseNames, ihx (hbare.mono (walk_subset_left p _ _ o _)),
      ihy (hbare.mono (walk_subset_right p _ _ o _)), List.map_append]
    simp [looseNames]
  | equation p _ o ih =>
    rw [vars_equation, looseNames, looseNamesAll_eq_flatMap, List.map_flatMap]
    exact List.flatMap_congr fun s hs => ih s hs (hbare.mono (walk_subset_equation hs p o))

section

variable {k : Kind} {own : Node → List Text} (hown : ∀ m : Node, m.Interned → m.BareGroups → own m = m.vars.map name)

include hown

theorem namesIn_group_eq_nil {b : Brackets} {ps : List Node} (hps : ∀ q ∈ ps, q.Interned) (hbare : (Node.group b ps).BareGroups)
    (ih : ∀ q ∈ ps, q.BareGroups → q.namesIn k own = []) : (Node.group b ps).namesIn k own = [] := by
  have hparts {q : Node} (hq : q ∈ ps) : q.BareGroups := hbare.mono (walk_subset_group hq b)
  have hnames : ps.flatMap (namesIn k own) = [] := List.flatMap_eq_nil_iff.2 fun q hq => ih q hq (hparts hq)
  have howns : ps.flatMap own = [] := by
    have hvars := hbare b ps (mem_walk_self rfl)
    rw [vars_group, List.flatMap_eq_nil_iff] at hvars
    refine List.flatMap_eq_nil_iff.2 fun q hq => ?_
    rw [hown q (hps q hq) (hparts hq), hvars q hq, List.map_nil]
  simp only [namesIn, namesInAll_eq_flatMap, hnames, howns, ite_self, List.append_nil]
  split <;> rfl

theorem namesIn_eq_nil (h : n.Interned) (hbare : n.BareGroups) : n.namesIn k own = [] := by
  induction h with
  | raw | number | identifier | var => rfl
  | group b hps ih => exact namesIn_group_eq_nil hown hps hbare ih
  | call p q t f b hps ih =>
    rw [namesIn, namesIn_group_eq_nil hown hps (hbare.mono (walk_subset_call p _ f _)) ih]
    rfl
  | unary p s o _ ih =>
    rw [namesIn, ih (hbare.mono (walk_subset_unary p _ o _)), List.append_nil]
    rfl
  | binary p s o _ _ ihx ihy =>
    rw [namesIn, ihx (hbare.mono (walk_subset_left p _ _ o _)), ihy (hbare.mono (walk_subset_right p _ _ o _))]
    rfl
  | equation p _ o ih =>
    rw [namesIn, namesInAll_eq_flatMap, List.flatMap_eq_nil_iff]
    exact fun s hs => ih s hs (hbare.mono (walk_subset_equation hs p o))

end

/-- **Without variables in groups** the order of work is that of the source. -/
theorem workOrder_eq (h : n.Interned) (hbare : n.BareGroups) (ks : List Kind) : n.workOrder ks = n.vars.map name := by
  induction ks generalizing n with
  | nil => exact h.looseNames_eq hbare
  | cons k ks ih =>
    rw [workOrder, namesIn_eq_nil (fun m hm hmbare => ih hm hmbare) h hbare, ih h hbare, List.nil_append]

end Interned

end Node

/-! ## The table -/

namespace Formula

variable {f : Formula}

/-- New slots come behind the others, one for each new name, where it comes up first. -/
theorem names_foldl_intern (f : Formula) (names : List Text) :
    (names.foldl intern f).slots.map (·.name) =
      f.slots.map (·.name) ++ (names.removeAll (f.slots.map (·.name))).eraseDups := by
  induction names generalizing f with
  | nil => simp
  | cons name names ih =>
    rw [List.foldl_cons, ih, List.cons_removeAll, intern]
    cases hslot : (f.slot? name).isSome with
    | true =>
      have hmem : name ∈ f.slots.map (·.name) := (mem_slots_iff f name).2 hslot
      simp [hmem]
    | false =>
      have hnew : (f.slots.map (·.name)).contains name = false := by
        rw [List.contains_eq_mem, decide_eq_false_iff_not, mem_slots_iff, hslot]
        exact Bool.false_ne_true
      have hrest (known : List Text) :
          names.removeAll (known ++ [name]) = (names.removeAll known).filter fun x => !x == name := by
        rw [List.removeAll, List.removeAll, List.filter_filter]
        refine List.filter_congr fun x _ => ?_
        simp [Bool.beq_eq_decide_eq, Bool.and_comm]
      rw [if_neg Bool.false_ne_true, if_pos hnew, List.eraseDups_cons, List.map_append, List.append_assoc]
      exact congrArg (fun rest => _ ++ name :: rest) (congrArg List.eraseDups (hrest _))

/-- A slot that the parse has made has no value. -/
theorem value_of_foldl_intern {names : List Text} (h : ∀ s ∈ f.slots, s.value = .none) :
    ∀ s ∈ (names.foldl intern f).slots, s.value = .none := by
  induction names generalizing f with
  | nil => exact h
  | cons name names ih =>
    refine ih fun s hs => ?_
    unfold intern at hs
    split at hs
    · exact h s hs
    · rcases List.mem_append.1 hs with hs | hs
      · exact h s hs
      · rw [List.mem_singleton.1 hs]

/-- **The table of a parsed text** has the names of its variables in the order in which the parse comes to them: those in round
groups, in square and in curly ones, each parameter being worked out in this order by itself, and at last those outside of
groups. All of them are unset. If no variable stands in a group, this is the order of the text. -/
theorem names_slots_parse (resolve : Text → Option Function) {t : Text} {o : Outcome} (ho : parse ⟨.default, resolve⟩ t = o)
    (h : o.failure = none) :
    o.formula.slots.map (·.name) = (o.formula.root.workOrder Kind.all).eraseDups ∧
      o.formula.unset = o.formula.slots.map (·.name) ∧
      ((∀ b ps, .group b ps ∈ o.formula.root.walk → (Node.group b ps).vars = []) →
        o.formula.slots.map (·.name) = (o.formula.root.vars.map Node.name).eraseDups) := by
  obtain ⟨out, hout⟩ : ∃ out, (parseText ⟨.default, resolve⟩ t).result = .ok out :=
    parse_failure_eq_none_iff.1 (by rw [ho, h])
  have hroot : o.formula.root = .equation .none out 0 := ho ▸ root_parse_of_ok hout
  have hslots : o.formula.slots = ((o.formula.root.workOrder Kind.all).foldl intern (new t)).slots := by
    rw [hroot, ← metVariables_parseText resolve hout, ← ho, parse, settle, hout]
  have hnames : o.formula.slots.map (·.name) = (o.formula.root.workOrder Kind.all).eraseDups := by
    rw [hslots, names_foldl_intern]
    simp [new, List.removeAll]
  refine ⟨hnames, ?_, fun hbare => ?_⟩
  · have hvalues : ∀ s ∈ o.formula.slots, s.value = .none := by
      rw [hslots]
      exact value_of_foldl_intern (List.forall_mem_nil _)
    rw [unset, List.filter_eq_self.2 fun s hs => by rw [hvalues s hs]; rfl]
  · have hinterned : o.formula.root.Interned := ho ▸ (tabled_parse resolve (ho ▸ h)).interned
    rw [hnames, hinterned.workOrder_eq hbare]

/-- Brackets of two kinds, one within the other, with a variable in front of them that the parse comes to last; and a call whose
arguments have no variables. -/
theorem names_slots_parse_mixed :
    (parse .default "b*a + [c*(d) + a] + (2)".toList).failure = none ∧
      (parse .default "b*a + [c*(d) + a] + (2)".toList).formula.slots.map (·.name) = [['d'], ['c'], ['a'], ['b']] ∧
      (parse .default "b + max(2, 3)*a + b".toList).failure = none ∧
      (parse .default "b + max(2, 3)*a + b".toList).formula.slots.map (·.name) = [['b'], ['a']] := by
  generalize ht : "b*a + [c*(d) + a] + (2)".toList = t
  generalize hu : "b + max(2, 3)*a + b".toList = u
  have hparsed : (parse .default t).failure.isNone = true := by
    subst ht
    decide +kernel
  have hparsed' : (parse .default u).failure.isNone = true := by
    subst hu
    decide +kernel
  have hwork : ((parse .default t).formula.root.workOrder Kind.all).eraseDups = [['d'], ['c'], ['a'], ['b']] := by
    subst ht
    decide +kernel
  have hvars : ((parse .default u).formula.root.vars.map Node.name).eraseDups = [['b'], ['a']] := by
    subst hu
    decide +kernel
  have hgroups : ((parse .default u).formula.root.walk.all fun n => !n.isGroup || n.vars.isEmpty) = true := by
    subst hu
    decide +kernel
  have h := Option.isNone_iff_eq_none.1 hparsed
  have h' := Option.isNone_iff_eq_none.1 hparsed'
  refine ⟨h, (names_slots_parse _ rfl h).1.trans hwork, h', ((names_slots_parse _ rfl h').2.2 fun b ps hm => ?_).trans hvars⟩
  simpa [Node.isGroup] using List.all_eq_true.1 hgroups _ hm

/-- The variable of a group has its slot before the one that stands in front of the group. -/
theorem names_slots_parse_group :
    (parse .default "x+(y)".toList).failure = none ∧
      (parse .default "x+(y)".toList).formula.slots.map (·.name) = [['y'], ['x']] ∧
      (parse .default "x+(y)".toList).formula.unset = [['y'], ['x']] ∧
      ((parse .default "x+(y)".toList).formula.root.vars.map Node.name).eraseDups = [['x'], ['y']] := by
  generalize ht : "x+(y)".toList = t
  refine ⟨Option.isNone_iff_eq_none.1 ?_, ?_⟩
  · subst ht
    decide +kernel
  · subst ht
    decide +kernel

end Formula

end FormulaLang
