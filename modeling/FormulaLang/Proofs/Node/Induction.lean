import FormulaLang.Node.Basic

/-!
# Induction over trees

One case for each kind of node, with an induction hypothesis for every node right below it (`Node.induction`). The case of a
call also has one for each parameter of its argument, because a call reads its parameters past the group that holds them.
-/

namespace FormulaLang

/-- **Induction over trees**. -/
@[elab_as_elim]
theorem Node.induction {motive : Node → Prop}
    (raw : ∀ t, motive (.raw t))
    (number : ∀ p v t, motive (.number p v t))
    (identifier : ∀ p t, motive (.identifier p t))
    (var : ∀ p r t, motive (.var p r t))
    (token : ∀ p k t, motive (.token p k t))
    (group : ∀ b ps, (∀ n ∈ ps, motive n) → motive (.group b ps))
    (call : ∀ p c f a, motive c → motive a → (∀ n ∈ a.params?.getD [], motive n) → motive (.call p c f a))
    (unary : ∀ p s o x, motive s → motive x → motive (.unary p s o x))
    (binary : ∀ p l s o r, motive l → motive s → motive r → motive (.binary p l s o r))
    (equation : ∀ p ss o, (∀ n ∈ ss, motive n) → motive (.equation p ss o)) (n : Node) : motive n := by
  have key : motive n ∧ ∀ m ∈ n.params?.getD [], motive m := by
    refine @Node.rec (fun n => motive n ∧ ∀ m ∈ n.params?.getD [], motive m) (fun ns => ∀ m ∈ ns, motive m)
      ?_ ?_ ?_ ?_ ?_ ?_ ?_ ?_ ?_ ?_ ?_ ?_ n
    · exact fun t => ⟨raw t, fun m hm => by cases hm⟩
    · exact fun p v t => ⟨number p v t, fun m hm => by cases hm⟩
    · exact fun p t => ⟨identifier p t, fun m hm => by cases hm⟩
    · exact fun p r t => ⟨var p r t, fun m hm => by cases hm⟩
    · exact fun p k t => ⟨token p k t, fun m hm => by cases hm⟩
    · exact fun b ps h => ⟨group b ps h, h⟩
    · exact fun p c f a hc ha => ⟨call p c f a hc.1 ha.1 ha.2, fun m hm => by cases hm⟩
    · exact fun p s o x hs hx => ⟨unary p s o x hs.1 hx.1, fun m hm => by cases hm⟩
    · exact fun p l s o r hl hs hr => ⟨binary p l s o r hl.1 hs.1 hr.1, fun m hm => by cases hm⟩
    · exact fun p ss o h => ⟨equation p ss o h, fun m hm => by cases hm⟩
    · exact fun m hm => by cases hm
    · intro n ns hn hns m hm
      rcases List.mem_cons.1 hm with rfl | hm
      · exact hn.1
      · exact hns m hm
  exact key.1

end FormulaLang
