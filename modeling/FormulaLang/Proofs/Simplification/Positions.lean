import FormulaLang.Proofs.Nesting.Marks
import FormulaLang.Proofs.Parse.Positions
import FormulaLang.Proofs.Simplification.Edits

/-!
# Simplification keeps texts and positions

A literal that takes the place of a node has the text of the node, so a simplified tree has the text of the tree and the
equations that are left in it have the texts and positions they had (`keepsTexts_of_simplify`). With the positions of a
parsed tree this gives `Formula.standsAt_edit`: before and after any simplification every equation is the slice of the text
at its position.
-/

namespace FormulaLang

open Node (sourceTexts Placed)

variable {σ : Type} {host : Host σ} {isVolatile : Function → Bool}

/-- The node `n'` has the text of `n`, and its equations have the texts and positions of equations of `n` and the same
fragments of raw text among their sentences. -/
structure Node.KeepsTexts (n n' : Node) : Prop where
  text : n'.sourceText = n.sourceText
  raw : n'.rawText? = n.rawText?
  equations : ∀ p ss' o, .equation p ss' o ∈ n'.walk →
    ∃ ss, .equation p ss o ∈ n.walk ∧ sourceTexts ss' = sourceTexts ss ∧ ss'.map rawText? = ss.map rawText?

namespace Node.KeepsTexts

theorem refl (n : Node) : KeepsTexts n n :=
  ⟨rfl, rfl, fun _ ss _ h => ⟨ss, h, rfl, rfl⟩⟩

theorem trans {n₁ n₂ n₃ : Node} (h : KeepsTexts n₁ n₂) (h' : KeepsTexts n₂ n₃) : KeepsTexts n₁ n₃ := by
  refine ⟨h'.text.trans h.text, h'.raw.trans h.raw, fun p ss₃ o hmem => ?_⟩
  obtain ⟨ss₂, hmem₂, ht₂, hraws₂⟩ := h'.equations p ss₃ o hmem
  obtain ⟨ss₁, hmem₁, ht₁, hraws₁⟩ := h.equations p ss₂ o hmem₂
  exact ⟨ss₁, hmem₁, ht₂.trans ht₁, hraws₂.trans hraws₁⟩

/-- A literal with the text of a node may take its place. -/
theorem number {n : Node} {p : Pad} {v : Scalar} {t : Text} (h : p.wrap t = n.sourceText) (hraw : n.rawText? = none) :
    KeepsTexts n (.number p v t) :=
  ⟨by rw [sourceText, h], hraw.symm, by simp⟩

theorem foldIf {literals : Bool} {n m : Node} {st st' : σ} (hraw : n.rawText? = none)
    (h : foldIf host literals n st = (.ok m, st')) : KeepsTexts n m := by
  rcases foldIf_ok h with rfl | ⟨-, v, -, rfl⟩
  · exact refl m
  · exact number n.sourceText_eq_wrap.symm hraw

section Lists

variable {ns ns' : List Node} (h : List.Forall₂ KeepsTexts ns ns')

include h

theorem sourceTexts_eq : sourceTexts ns' = sourceTexts ns := by
  induction h with
  | nil => rfl
  | cons hn _ ih => rw [sourceTexts, sourceTexts, hn.text, ih]

theorem map_rawText_eq : ns'.map rawText? = ns.map rawText? := by
  induction h with
  | nil => rfl
  | cons hn _ ih => rw [List.map_cons, List.map_cons, hn.raw, ih]

theorem paramsText_eq (separators : List Text) : paramsText ns' separators = paramsText ns separators := by
  induction h generalizing separators with
  | nil => rfl
  | cons hn _ ih => cases separators <;> simp only [paramsText, hn.text, ih]

theorem exists_mem {p : Pad} {ss' : List Node} {o : Int} {n' : Node} (hn' : n' ∈ ns')
    (hmem : .equation p ss' o ∈ n'.walk) :
    ∃ n ∈ ns, ∃ ss, .equation p ss o ∈ n.walk ∧ sourceTexts ss' = sourceTexts ss ∧ ss'.map rawText? = ss.map rawText? := by
  obtain ⟨n, hn, hkeeps⟩ := exists_of_forall₂ h n' hn'
  exact ⟨n, hn, hkeeps.equations p ss' o hmem⟩

theorem group (b : Brackets) : KeepsTexts (.group b ns) (.group b ns') := by
  refine ⟨by rw [sourceText, sourceText, paramsText_eq h], rfl, fun p ss' o hmem => ?_⟩
  rcases (mem_walk_group rfl).1 hmem with hself | ⟨n', hn', hmem⟩
  · cases hself
  · obtain ⟨n, hn, ss, hmem, hss⟩ := exists_mem h hn' hmem
    exact ⟨ss, walk_subset_group hn b hmem, hss⟩

theorem equation (p : Pad) (o : Int) : KeepsTexts (.equation p ns o) (.equation p ns' o) := by
  have hns : sourceTexts ns' = sourceTexts ns := sourceTexts_eq h
  refine ⟨by rw [sourceText, sourceText, hns], rfl, fun p' ss' o' hmem => ?_⟩
  rw [walk_equation, List.mem_cons, mem_walkAll] at hmem
  rcases hmem with hself | ⟨n', hn', hmem⟩
  · cases hself
    exact ⟨ns, mem_walk_self rfl, hns, map_rawText_eq h⟩
  · obtain ⟨n, hn, ss, hmem, hss⟩ := exists_mem h hn' hmem
    exact ⟨ss, walk_subset_equation hn p o hmem, hss⟩

end Lists

theorem call {a a' : Node} (h : KeepsTexts a a') (p : Pad) (c : Node) (f : Option Function) :
    KeepsTexts (.call p c f a) (.call p c f a') := by
  refine ⟨by rw [sourceText, sourceText, h.text], rfl, fun p' ss' o hmem => ?_⟩
  rw [walk_call, List.mem_cons, List.mem_append] at hmem
  rcases hmem with hself | hmem | hmem
  · cases hself
  · exact ⟨ss', by simp [hmem], rfl, rfl⟩
  · obtain ⟨ss, hmem, hss⟩ := h.equations p' ss' o hmem
    exact ⟨ss, walk_subset_call p c f a hmem, hss⟩

theorem unary {x x' : Node} (h : KeepsTexts x x') (p : Pad) (s : Node) (op : Option Operation) :
    KeepsTexts (.unary p s op x) (.unary p s op x') := by
  refine ⟨by rw [sourceText, sourceText, h.text], rfl, fun p' ss' o hmem => ?_⟩
  rw [walk_unary, List.mem_cons, List.mem_cons] at hmem
  rcases hmem with hself | hmem | hmem
  · cases hself
  · exact ⟨ss', by simp [hmem], rfl, rfl⟩
  · obtain ⟨ss, hmem, hss⟩ := h.equations p' ss' o hmem
    exact ⟨ss, walk_subset_unary p s op x hmem, hss⟩

theorem binary {l l' r r' : Node} (hl : KeepsTexts l l') (hr : KeepsTexts r r') (p : Pad) (s : Node)
    (op : Option Operation) : KeepsTexts (.binary p l s op r) (.binary p l' s op r') := by
  refine ⟨by rw [sourceText, sourceText, hl.text, hr.text], rfl, fun p' ss' o hmem => ?_⟩
  rw [walk_binary, List.mem_cons, List.mem_append, List.mem_cons] at hmem
  rcases hmem with hself | hmem | hmem | hmem
  · cases hself
  · obtain ⟨ss, hmem, hss⟩ := hl.equations p' ss' o hmem
    exact ⟨ss, walk_subset_left p l s op r hmem, hss⟩
  · exact ⟨ss', by simp [hmem], rfl, rfl⟩
  · obtain ⟨ss, hmem, hss⟩ := hr.equations p' ss' o hmem
    exact ⟨ss, walk_subset_right p l s op r hmem, hss⟩

/-- The literal that an equation holds alone may take its place when no white space is attached to the equation. -/
theorem equation_literal {m : Node} {o : Int} (h : m.isNumber = true) : KeepsTexts (.equation .none [m] o) m := by
  cases m with
  | number p v t => exact number (by simp [sourceText, sourceTexts, Pad.wrap, Pad.none]) rfl
  | _ => cases h

end Node.KeepsTexts

open Node (KeepsTexts)

/-- **A simplified tree** keeps the text of the tree and the texts and positions of its equations. -/
theorem keepsTexts_of_simplify {n n' : Node} {st st' : σ} (hpad : ∀ p ss o, .equation p ss o ∈ n.walk → p = .none)
    (h : simplify host isVolatile n st = (.ok n', st')) : KeepsTexts n n' := by
  induction n using Node.induction generalizing n' st st' with
  | raw t | number p v t | identifier p t | var p r t | token p k t =>
    cases h
    exact .refl _
  | group b ps ih =>
    obtain ⟨ps', mid, hall, h⟩ := simplify_group_ok h
    have hps : List.Forall₂ KeepsTexts ps ps' := forall₂_simplifyAll hall fun n hn =>
      ih n hn fun p ss o hmem => hpad p ss o (Node.walk_subset_group hn b hmem)
    exact (KeepsTexts.group hps b).trans (.foldIf rfl h)
  | call p c f a ihc iha ih =>
    obtain ⟨b, ps, ps', mid, rfl, hall, h⟩ := simplify_call_ok h
    have hps : List.Forall₂ KeepsTexts ps ps' := forall₂_simplifyAll hall fun n hn =>
      ih n hn fun p' ss o hmem =>
        hpad p' ss o (Node.walk_subset_call p c f _ (Node.walk_subset_group hn b hmem))
    exact ((KeepsTexts.group hps b).call p c f).trans (.foldIf rfl h)
  | unary p s op x ihs ihx =>
    obtain ⟨x', mid, hx, h⟩ := simplify_unary_ok h
    have hkeeps : KeepsTexts x x' := ihx (fun p' ss o hmem => hpad p' ss o (Node.walk_subset_unary p s op x hmem)) hx
    exact (hkeeps.unary p s op).trans (.foldIf rfl h)
  | binary p l s op r ihl ihs ihr =>
    obtain ⟨l', mid, r', mid', hl, hr, h⟩ := simplify_binary_ok h
    have hkeepsl : KeepsTexts l l' := ihl (fun p' ss o hmem => hpad p' ss o (Node.walk_subset_left p l s op r hmem)) hl
    have hkeepsr : KeepsTexts r r' := ihr (fun p' ss o hmem => hpad p' ss o (Node.walk_subset_right p l s op r hmem)) hr
    exact (hkeepsl.binary hkeepsr p s op).trans (.foldIf rfl h)
  | equation p ss o ih =>
    obtain ⟨ss', mid, hall, h⟩ := simplify_equation_ok h
    have hss : List.Forall₂ KeepsTexts ss ss' := forall₂_simplifyAll hall fun n hn =>
      ih n hn fun p' ss' o' hmem => hpad p' ss' o' (Node.walk_subset_equation hn p o hmem)
    obtain rfl : p = .none := hpad p ss o (Node.mem_walk_self rfl)
    have hequation : KeepsTexts (.equation .none ss o) (.equation .none ss' o) := .equation hss .none o
    rcases h with ⟨rfl, -⟩ | ⟨rfl, hnumber⟩
    · exact hequation
    · exact hequation.trans (.equation_literal hnumber)

/-- A simplification leaves the equations where they are. -/
theorem Node.Placed.simplify {t : Text} {n n' : Node} {st st' : σ} (hn : Placed t n)
    (h : FormulaLang.simplify host isVolatile n st = (.ok n', st')) : Placed t n' := by
  intro p ss' o hmem
  have hkeeps : KeepsTexts n n' := keepsTexts_of_simplify (fun p ss o hmem => (hn p ss o hmem).1) h
  obtain ⟨ss, hmem, ht, -⟩ := hkeeps.equations p ss' o hmem
  rw [ht]
  exact hn p ss o hmem

namespace Formula

/-- So they stay through any run of edits. -/
theorem placed_edit {t : Text} {f f' : Formula} {edits : List Edit} {st st' : σ} (hf : Placed t f.root)
    (h : f.edit host isVolatile edits st = (.ok f', st')) : Placed t f'.root := by
  induction edits generalizing f st with
  | nil =>
    cases h
    exact hf
  | cons e edits ih =>
    obtain ⟨f₁, mid, h₁, hrest⟩ := Action.run_bind_ok h
    refine ih ?_ hrest
    cases e with
    | bind name v =>
      cases h₁
      exact hf
    | simplify =>
      obtain ⟨n, mid', hn, h₁⟩ := Action.run_bind_ok h₁
      cases h₁
      exact hf.simplify hn

/-- **Positions are exact**, whatever the leaf rules, the separator and the tiers, when every bracket is a single character
and the two of a pair differ: every equation in the tree of a text that parses, at any depth, is the slice of the text at its
position, and so is every equation that any run of edits leaves in the tree. -/
theorem standsAt_edit {l : Language} (hb : DistinctBrackets l.grammar.brackets) {t : Text}
    (h : (parse l t).failure = none) :
    (∀ p ss o, .equation p ss o ∈ (parse l t).formula.root.walk → t.StandsAt o (Node.equation p ss o).sourceText) ∧
      ∀ (host : Host σ) isVolatile edits f' st st',
        (parse l t).formula.edit host isVolatile edits st = (.ok f', st') →
          ∀ p ss o, .equation p ss o ∈ f'.root.walk → t.StandsAt o (Node.equation p ss o).sourceText := by
  have hexact : ∀ n : Node, Placed t n →
      ∀ p ss o, .equation p ss o ∈ n.walk → t.StandsAt o (Node.equation p ss o).sourceText := by
    intro n hn p ss o hmem
    obtain ⟨rfl, hstands⟩ := hn p ss o hmem
    simpa [Node.sourceText, Pad.wrap, Pad.none] using hstands
  obtain ⟨out, hout⟩ := parse_failure_eq_none_iff.1 h
  have hroot : Placed t (parse l t).formula.root := by
    rw [root_parse_of_ok hout]
    exact placed_parseText hb hout
  refine ⟨hexact _ hroot, fun host isVolatile edits f' st st' hedit => ?_⟩
  exact hexact _ (placed_edit hroot hedit)

/-- The product is folded, and the sum in the second parameter is left. -/
theorem standsAt_edit_max :
    ∃ f', (parse .default "max(2*3 , -(x+1))".toList).formula.edit quietHost Registry.initial.isVolatile [.simplify] () =
        (.ok f', ()) ∧
      ∀ p ss o, .equation p ss o ∈ f'.root.walk →
        Text.StandsAt "max(2*3 , -(x+1))".toList o (Node.equation p ss o).sourceText := by
  generalize ht : "max(2*3 , -(x+1))".toList = t
  have hok : ((parse .default t).formula.edit quietHost Registry.initial.isVolatile [.simplify] ()).1.toOption.isSome =
      true := by
    subst ht
    decide +kernel
  have h : (parse .default t).failure = none := by
    subst ht
    exact Option.isNone_iff_eq_none.1 (by decide +kernel)
  rcases he : (parse .default t).formula.edit quietHost Registry.initial.isVolatile [.simplify] () with ⟨e | f', st⟩
  · rw [he] at hok
    cases hok
  · exact ⟨f', rfl, (standsAt_edit distinctBrackets_default h).2 quietHost _ _ f' () st he⟩

end Formula

end FormulaLang
