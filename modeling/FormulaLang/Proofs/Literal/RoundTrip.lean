import FormulaLang.Proofs.Evaluation.Slots
import FormulaLang.Proofs.Literal.Parsed
import FormulaLang.Proofs.Parse.Subformula

/-!
# Literals are read back

The literal of an explicit formula is a formula itself, with the same variables, and it comes to the same results under all
bindings (`Formula.parse_literal`). Its tree is another one, because every operation of the literal is a group of its own; but
the two trees are alike.
-/

namespace FormulaLang

variable {l : Language}

/-- **A text that is lexed and grouped to a field** is parsed to the node of the field. -/
theorem parseText_of_field (hl : l.grammar = .default) {t : Text} {lexed ss : List Node}
    (hlexed : lexText Grammar.defaultLeaves t = .ok lexed) (hgroups : Work.Reaches l 0 (.grouping lexed) (.grouping ss))
    (hfused : Fused ss) (hsymbols : Symbols ss) {n : Node} (hfield : Field l ss n) : (parseText l t).result = .ok [n] := by
  have hleaves : l.grammar.leaves = Grammar.defaultLeaves := congrArg Grammar.leaves hl
  have hstage : (lexStage l.grammar 0 (Node.raws t)).result = .ok lexed := lexStage_raws_ok_iff.2 (hleaves ▸ hlexed)
  obtain ⟨lexed', hlexed', hfolding⟩ := parseBuffer_ok_iff.1 (hfield.parses 0)
  have hself := lexStage_eq_self hleaves hfused (fun c hc => (hsymbols.plain c hc).1) 0
  cases hself.symm.trans hlexed'
  exact parseBuffer_ok_iff.2 ⟨lexed, hstage, hgroups.trans hfolding⟩

/-- **A text that spells a phrase** is parsed to an operand like the node of the phrase. -/
theorem parseText_of_reads (hl : l.grammar = .default) {u : Text} {ws : List Node} (hlexes : Lexes u ws) {n : Node}
    (hreads : ReadsAs l ws n) :
    ∃ n', (parseText l u).result = .ok [n'] ∧ n'.isValue = true ∧ n.Alike n' := by
  obtain ⟨lexed, htext, rfl⟩ := hlexes
  obtain ⟨ss, n', hgroups, hoperand, halike⟩ := hreads 0
  have hgrouping : Work.Reaches l 0 (.grouping lexed) (.grouping ss) :=
    hgroups.reaches hl (fused_lexText htext) hoperand.fused
  exact ⟨n', parseText_of_field hl htext hgrouping hoperand.fused hoperand.symbols (hoperand.field hl), hoperand.value, halike⟩

namespace Formula

/-- Formulas with alike trees have the same variables, and the same results under all bindings. -/
theorem parse_alike (hb : DistinctBrackets l.grammar.brackets) {t u : Text} {out out' : List Node}
    (ht : (parseText l t).result = .ok out) (hu : (parseText l u).result = .ok out')
    (halike : (Node.equation .none out 0).Alike (.equation .none out' 0)) :
    (∀ name, name ∈ (parse l u).formula.slots.map (·.name) ↔ name ∈ (parse l t).formula.slots.map (·.name)) ∧
      ∀ {σ : Type} (host : Host σ) (bindings : List (Text × Value)),
        ((parse l u).formula.bindEach bindings).value host = ((parse l t).formula.bindEach bindings).value host := by
  have hslots : ∀ x, (parse l u).formula.slot? x = (parse l t).formula.slot? x := by
    intro x
    rw [slot?_parse hb hu, slot?_parse hb ht]
    exact if_congr (halike.varNames x) rfl rfl
  refine ⟨fun name => by rw [mem_slots_iff, mem_slots_iff, hslots], fun host bindings => ?_⟩
  rw [value, value, root_bindEach, root_bindEach, root_parse_of_ok hu, root_parse_of_ok ht, lookup_bindEach hslots,
    halike.value]

/-- **The literal of an explicit formula** is a formula with the same variables and the same results. -/
theorem parse_literal (resolve : Text → Option Function) {t : Text} (hparse : (parse ⟨.default, resolve⟩ t).failure = none)
    (hexplicit : ∀ n ∈ (parse ⟨.default, resolve⟩ t).formula.root.walk, n.isExplicit = true)
    (harguments : (parse ⟨.default, resolve⟩ t).formula.root.groupsAreArguments = true) :
    ∃ u, (parse ⟨.default, resolve⟩ t).formula.literal = .ok u ∧ (parse ⟨.default, resolve⟩ u).failure = none ∧
      (∀ name, name ∈ (parse ⟨.default, resolve⟩ u).formula.slots.map (·.name) ↔
        name ∈ (parse ⟨.default, resolve⟩ t).formula.slots.map (·.name)) ∧
      ∀ {σ : Type} (host : Host σ) (bindings : List (Text × Value)),
        ((parse ⟨.default, resolve⟩ u).formula.bindEach bindings).value host =
          ((parse ⟨.default, resolve⟩ t).formula.bindEach bindings).value host := by
  obtain ⟨out, hout⟩ := parse_failure_eq_none_iff.1 hparse
  rw [root_parse_of_ok hout] at hexplicit harguments
  obtain ⟨u, hu, ws, hspells, hreads⟩ := (printable_parseText rfl hout hexplicit harguments).prints rfl
  obtain ⟨n', hout', hvalue, halike⟩ := parseText_of_reads rfl hspells.lexes hreads
  have hroots : (Node.equation .none out 0).Alike (.equation .none [n'] 0) :=
    halike.equation_single (isRaw_of_isValue hvalue) .none 0
  refine ⟨u, ?_, parse_failure_eq_none_iff.2 ⟨_, hout'⟩, parse_alike distinctBrackets_default hout hout' hroots⟩
  rw [literal, root_parse_of_ok hout, hu]

theorem parse_literal_call :
    ∃ u, (parse .default "-max(, #1f, (y ^ 2)) * x".toList).formula.literal = .ok u ∧ (parse .default u).failure = none ∧
      (∀ name, name ∈ (parse .default u).formula.slots.map (·.name) ↔
        name ∈ (parse .default "-max(, #1f, (y ^ 2)) * x".toList).formula.slots.map (·.name)) ∧
      ∀ {σ : Type} (host : Host σ) (bindings : List (Text × Value)),
        ((parse .default u).formula.bindEach bindings).value host =
          ((parse .default "-max(, #1f, (y ^ 2)) * x".toList).formula.bindEach bindings).value host := by
  generalize ht : "-max(, #1f, (y ^ 2)) * x".toList = t
  have hparse : (parse .default t).failure = none := by
    subst ht
    exact Option.isNone_iff_eq_none.1 (by decide +kernel)
  have hexplicit : (parse .default t).formula.root.walk.all (·.isExplicit) = true := by
    subst ht
    decide +kernel
  have harguments : (parse .default t).formula.root.groupsAreArguments = true := by
    subst ht
    decide +kernel
  exact parse_literal Registry.initial.resolve? hparse (List.all_eq_true.1 hexplicit) harguments

end Formula

end FormulaLang
