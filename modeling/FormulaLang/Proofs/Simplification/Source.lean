import FormulaLang.Node.Items
import FormulaLang.Proofs.Simplification.Positions
import FormulaLang.Proofs.Simplification.Reduced

/-!
# Simplification keeps the source

A literal carries the core text of the tree it stands for and the white space that was attached to that tree, so a simplified
formula still has the text that was parsed, and so has every part of it (`Formula.sourceText_edited`). The flat list of
items goes another way through the tree: it takes composite nodes apart and shows their white space as raw fragments. An
equation shows none, and as no white space is attached to the equations of a parsed tree, the items make up the same text
(`Node.sourceTexts_items`).
-/

namespace FormulaLang

open Node (sourceTexts sourceTexts_append sourceTexts_raws)

variable {σ : Type} {host : Host σ} {isVolatile : Function → Bool}

namespace Node

/-! ## Items -/

/-- No white space is attached to an equation of the tree. -/
def BareEquations (n : Node) : Prop :=
  ∀ p ss o, .equation p ss o ∈ n.walk → p = .none

theorem BareEquations.mono {n m : Node} (h : n.BareEquations) (hsub : m.walk ⊆ n.walk) : m.BareEquations :=
  fun p ss o hmem => h p ss o (hsub hmem)

theorem sourceTexts_allItems {ns : List Node} (h : ∀ n ∈ ns, sourceTexts n.items = n.sourceText) :
    sourceTexts (allItems ns) = sourceTexts ns := by
  induction ns with
  | nil => rfl
  | cons n ns ih =>
    rw [allItems, sourceTexts_append, h n List.mem_cons_self, ih fun m hm => h m (List.mem_cons_of_mem _ hm), sourceTexts]

theorem sourceText_separatorToken (t : Text) : (separatorToken t).sourceText = t := by
  simp [separatorToken, sourceText, Pad.wrap, Pad.none]

theorem sourceText_delimiterToken (t : Text) : (delimiterToken t).sourceText = t := by
  simp [delimiterToken, sourceText, Pad.wrap, Pad.none]

theorem sourceTexts_paramItems {ps : List Node} (h : ∀ p ∈ ps, sourceTexts p.items = p.sourceText)
    (separators : List Text) : sourceTexts (paramItems ps separators) = paramsText ps separators := by
  induction ps generalizing separators with
  | nil =>
    rw [paramItems, paramsText, sourceTexts_eq_flatMap, List.flatMap_map]
    simp [sourceText_separatorToken]
  | cons p ps ih =>
    have hps := ih fun q hq => h q (List.mem_cons_of_mem _ hq)
    cases separators with
    | nil => rw [paramItems, sourceTexts_append, h p List.mem_cons_self, hps, paramsText]
    | cons s separators =>
      rw [paramItems, sourceTexts_append, h p List.mem_cons_self, sourceTexts, sourceText_separatorToken, hps, paramsText,
        List.append_assoc]

/-- **The items** of a tree make up its text. -/
theorem sourceTexts_items {n : Node} (h : n.BareEquations) : sourceTexts n.items = n.sourceText := by
  induction n using Node.induction with
  | raw t | number p v t | identifier p t | var p r t | token p k t => simp [items, sourceTexts]
  | group b ps ih =>
    have hps := sourceTexts_paramItems (fun q hq => ih q hq (h.mono (walk_subset_group hq b))) b.separators
    simp [items, sourceTexts_append, sourceTexts, sourceTexts_raws, sourceText_delimiterToken, hps, sourceText, Pad.wrap]
  | call p c f a ihc iha ih =>
    have hc := ihc (h.mono (List.subset_cons_of_subset _ (List.subset_append_left _ _)))
    have ha := iha (h.mono (walk_subset_call p c f a))
    simp [items, sourceTexts_append, sourceTexts_raws, hc, ha, sourceText, Pad.wrap]
  | unary p s o x ihs ihx =>
    have hx := ihx (h.mono (walk_subset_unary p s o x))
    simp [items, sourceTexts_append, sourceTexts, sourceTexts_raws, hx, sourceText, Pad.wrap]
  | binary p l s o r ihl ihs ihr =>
    have hl := ihl (h.mono (walk_subset_left p l s o r))
    have hr := ihr (h.mono (walk_subset_right p l s o r))
    simp [items, sourceTexts_append, sourceTexts, sourceTexts_raws, hl, hr, sourceText, Pad.wrap]
  | equation p ss o ih =>
    obtain rfl : p = .none := h p ss o (mem_walk_self rfl)
    have hss := sourceTexts_allItems fun s hs => ih s hs (h.mono (walk_subset_equation hs .none o))
    cases ss with
    | nil => simp [items, sourceTexts]
    | cons s ss => simp [items, hss, sourceText, Pad.wrap, Pad.none]

theorem walk_of_isToken {n : Node} (h : n.isToken = true) : n.walk = [n] := by
  cases n with
  | token => rfl
  | _ => cases h

/-- The walk over a node of an interned tree meets nothing that the walk over the tree does not. -/
theorem Interned.walk_subset {n : Node} (hn : n.Interned) {m : Node} (hm : m ∈ n.walk) : m.walk ⊆ n.walk := by
  cases htoken : m.isToken with
  | true => simpa [walk_of_isToken htoken] using hm
  | false =>
    induction hn with
    | raw t => cases hm
    | number | identifier | var =>
      obtain rfl := List.mem_singleton.1 hm
      exact List.Subset.refl _
    | @group b ps _ ih =>
      obtain rfl | ⟨q, hq, hm⟩ := (mem_walk_group htoken).1 hm
      · exact List.Subset.refl _
      · exact List.Subset.trans (ih q hq hm) (walk_subset_group hq b)
    | @call p q t f b ps _ ih =>
      rw [walk_call, List.mem_cons, List.mem_append, walk_identifier, List.mem_singleton] at hm
      obtain rfl | rfl | hm := hm
      · exact List.Subset.refl _
      · exact List.subset_cons_of_subset _ (List.subset_append_left _ _)
      · refine List.Subset.trans ?_ (walk_subset_call p _ f (.group b ps))
        obtain rfl | ⟨x, hx, hm⟩ := (mem_walk_group htoken).1 hm
        · exact List.Subset.refl _
        · exact List.Subset.trans (ih x hx hm) (walk_subset_group hx b)
    | @unary p s o x _ ih =>
      rw [walk_unary, List.mem_cons, List.mem_cons] at hm
      obtain rfl | rfl | hm := hm
      · exact List.Subset.refl _
      · cases htoken
      · exact List.Subset.trans (ih hm) (walk_subset_unary p _ o x)
    | @binary p x s o y _ _ ihx ihy =>
      rw [walk_binary, List.mem_cons, List.mem_append, List.mem_cons] at hm
      obtain rfl | hm | rfl | hm := hm
      · exact List.Subset.refl _
      · exact List.Subset.trans (ihx hm) (walk_subset_left p x _ o y)
      · cases htoken
      · exact List.Subset.trans (ihy hm) (walk_subset_right p x _ o y)
    | @equation p ss _ o ih =>
      rw [walk_equation, List.mem_cons, mem_walkAll] at hm
      obtain rfl | ⟨s, hs, hm⟩ := hm
      · exact List.Subset.refl _
      · exact List.Subset.trans (ih s hs hm) (walk_subset_equation hs p o)

end Node

namespace Formula

/-! ## Formulas -/

/-- The tree of the formula has the text `t`, and no white space is attached to an equation of it. -/
structure HasSource (f : Formula) (t : Text) : Prop where
  text : f.sourceText = t
  bare : f.root.BareEquations

namespace HasSource

variable {f g : Formula} {t : Text}

theorem items (h : HasSource f t) : sourceTexts f.root.items = t :=
  (Node.sourceTexts_items h.bare).trans h.text

theorem simplify (h : HasSource f t) {st st' : σ} (hs : f.simplify host isVolatile st = (.ok g, st')) :
    HasSource g t := by
  obtain ⟨n, mid, hn, hg⟩ := Action.run_bind_ok hs
  cases hg
  have hkeeps : Node.KeepsTexts f.root n := keepsTexts_of_simplify h.bare hn
  refine ⟨hkeeps.text.trans h.text, fun p ss o hmem => ?_⟩
  obtain ⟨ss₀, hmem₀, -⟩ := hkeeps.equations p ss o hmem
  exact h.bare p ss₀ o hmem₀

/-- Edits leave the source alone. -/
theorem edited (h : HasSource f t) (hg : Edited f g) : HasSource g t := by
  induction hg with
  | self => exact h
  | bind _ name v ih => exact ⟨ih.text, ih.bare⟩
  | simplify _ host isVolatile hs ih => exact ih.simplify hs

end HasSource

theorem hasSource_parse (resolve : Text → Option Function) {t : Text} (h : (parse ⟨.default, resolve⟩ t).failure = none) :
    HasSource (parse ⟨.default, resolve⟩ t).formula t := by
  obtain ⟨out, hout⟩ := parse_failure_eq_none_iff.1 h
  have hroot := root_parse_of_ok hout
  refine ⟨?_, fun p ss o hmem => ?_⟩
  · have htext : sourceTexts out = t := by
      rw [sourceTexts_parseBuffer distinctBrackets_default hout, sourceTexts_raws]
    rw [sourceText, hroot, Node.sourceText, htext]
    simp [Pad.wrap, Pad.none]
  · rw [hroot] at hmem
    exact (placed_parseText distinctBrackets_default hout p ss o hmem).1

/-- A formula that has been simplified once stays as it is under all further simplifications. -/
theorem edit_replicate_simplify {f g : Formula} (hsteady : f.root.Steady host isVolatile) {st st' : σ}
    (hs : f.simplify host isVolatile st = (.ok g, st')) (k : Nat) :
    f.edit host isVolatile (List.replicate (k + 1) .simplify) = pure g := by
  obtain ⟨n, mid, hn, hg⟩ := Action.run_bind_ok hs
  cases hg
  have hagain : ∀ k, Formula.edit host isVolatile { f with root := n } (List.replicate k .simplify) =
      pure { f with root := n } := by
    intro k
    induction k with
    | zero => rfl
    | succ k ih =>
      rw [List.replicate_succ, edit, Edit.apply, simplify, simplify_simplified hsteady hn]
      exact ih
  rw [List.replicate_succ, edit, Edit.apply, simplify, (settled_simplify hsteady).eq_pure hn]
  exact hagain k

/-- **Simplification keeps the source**: a formula that parses has the text `t` it was parsed from, and the items of its tree
make up `t`; so they do after any run of simplifications and bindings; and the simplification of every node of the parsed tree
has the text of the node. Where the functions that are not volatile are deterministic and the formula can be simplified at
all, it can be simplified any number of times, and so can every node of its tree. -/
theorem sourceText_edited (resolve : Text → Option Function) {t : Text}
    (h : (parse ⟨.default, resolve⟩ t).failure = none) :
    (parse ⟨.default, resolve⟩ t).formula.sourceText = t ∧
      sourceTexts (parse ⟨.default, resolve⟩ t).formula.root.items = t ∧
      (∀ f, Edited (parse ⟨.default, resolve⟩ t).formula f → f.sourceText = t ∧ sourceTexts f.root.items = t) ∧
      (∀ n ∈ (parse ⟨.default, resolve⟩ t).formula.root.walk, ∀ {σ : Type} (host : Host σ) isVolatile n' st st',
        FormulaLang.simplify host isVolatile n st = (.ok n', st') → n'.sourceText = n.sourceText) ∧
      ∀ {σ : Type} (host : Host σ) isVolatile, (parse ⟨.default, resolve⟩ t).formula.root.Steady host isVolatile →
        ∀ f st st', (parse ⟨.default, resolve⟩ t).formula.simplify host isVolatile st = (.ok f, st') →
          (∀ k, (parse ⟨.default, resolve⟩ t).formula.edit host isVolatile (List.replicate (k + 1) .simplify) = pure f) ∧
          ∀ n ∈ (parse ⟨.default, resolve⟩ t).formula.root.walk, ∃ n', FormulaLang.simplify host isVolatile n = pure n' := by
  have hsource : HasSource (parse ⟨.default, resolve⟩ t).formula t := hasSource_parse resolve h
  have hinterned := (tabled_parse resolve h).interned
  refine ⟨hsource.text, hsource.items, fun f hf => ?_, ?_, ?_⟩
  · exact ⟨(hsource.edited hf).text, (hsource.edited hf).items⟩
  · intro n hn σ host isVolatile n' st st' hs
    exact (keepsTexts_of_simplify (hsource.bare.mono (hinterned.walk_subset hn)) hs).text
  · intro σ host isVolatile hsteady f st st' hs
    refine ⟨edit_replicate_simplify hsteady hs, ?_⟩
    obtain ⟨m, mid, hm, -⟩ := Action.run_bind_ok hs
    exact simplify_part hinterned hsteady hm

/-- White space around a call, and inside and around the product in it that is folded. -/
theorem sourceText_edited_max :
    ∃ f, (parse .default " max( 2 * 3 ,(x ) ) ".toList).failure = none ∧
      Edited (parse .default " max( 2 * 3 ,(x ) ) ".toList).formula f ∧ f.sourceText = " max( 2 * 3 ,(x ) ) ".toList := by
  generalize ht : " max( 2 * 3 ,(x ) ) ".toList = t
  have h : (parse .default t).failure = none := by
    subst ht
    exact Option.isNone_iff_eq_none.1 (by decide +kernel)
  have hok : ((parse .default t).formula.simplify quietHost Registry.initial.isVolatile ()).1.toOption.isSome = true := by
    subst ht
    decide +kernel
  rcases hs : (parse .default t).formula.simplify quietHost Registry.initial.isVolatile () with ⟨e | f, st⟩
  · rw [hs] at hok
    cases hok
  · have hf : Edited (parse .default t).formula f := Edited.self.simplify quietHost _ hs
    exact ⟨f, h, hf, ((sourceText_edited _ h).2.2.1 f hf).1⟩

end Formula

end FormulaLang
