import FormulaLang.Formula.Basic
import FormulaLang.Proofs.Evaluation.Alike
import FormulaLang.Proofs.Nesting.Fields
import FormulaLang.Proofs.Parse.Met
import FormulaLang.Proofs.Parse.Run

/-!
# The variables of a parse

The names of variables that a parse has met are those of the variables in the tree that it makes (`mem_metVariables_iff`). Each
stage of a parse adds to the variables of its buffer the names that its trace shows (`Traced.Adds`), and loses none of them,
since collapses and replacements keep all nodes but names and white space.
-/

namespace FormulaLang

open Formula (metVariables)

/-- The variables in the nodes of a buffer are a reading. -/
def Reading.varNames : Reading Text where
  node := Node.varNames
  raw_append _ _ := rfl

open Reading (varNames)

theorem varNames_equation (p : Pad) (ss : List Node) (o : Int) : (Node.equation p ss o).varNames = varNames.nodes ss :=
  Node.varNamesAll_eq_flatMap ss

/-! ## Computations that add names -/

/-- If the computation has a result, the names in it are the names `vs` and those of the variables it has met. -/
def Traced.Adds {ε α : Type} (vs : List Text) (names : α → List Text) (x : Traced ε α) : Prop :=
  ∀ a, x.result = .ok a → ∀ name, name ∈ names a ↔ name ∈ vs ∨ name ∈ metVariables x.events

namespace Traced

variable {ε ε' α β : Type} {vs ws : List Text} {names : α → List Text} {more : β → List Text} {x : Traced ε α}
  {f : α → Traced ε β}

theorem adds_iff_meets :
    x.Adds vs names ↔ x.Meets fun a met => ∀ name, name ∈ names a ↔ name ∈ vs ∨ name ∈ met :=
  Iff.rfl

theorem adds_pure {a : α} (h : ∀ name, name ∈ names a ↔ name ∈ vs) : (pure a : Traced ε α).Adds vs names :=
  adds_iff_meets.2 (meets_pure fun name => (h name).trans (or_iff_left List.not_mem_nil).symm)

theorem adds_fail (e : ε) : (fail e : Traced ε α).Adds vs names :=
  adds_iff_meets.2 (meets_fail e)

/-- An event that is no variable. -/
theorem adds_emit {e : Event} (h : metVariables [e] = []) : (emit e : Traced ε Unit).Adds vs fun _ => vs := by
  intro _ _ name
  rw [show (emit e : Traced ε Unit).events = [e] from rfl, h]
  exact (or_iff_left List.not_mem_nil).symm

theorem Adds.mapError (h : x.Adds vs names) (g : ε → ε') : (x.mapError g).Adds vs names :=
  adds_iff_meets.2 ((adds_iff_meets.1 h).mapError g)

/-- One computation after another. -/
theorem Adds.bind (h : x.Adds vs names) (hf : ∀ a, (f a).Adds (names a) more) : (x >>= f).Adds vs more := by
  refine adds_iff_meets.2 ((adds_iff_meets.1 h).bind fun a met ha b hb name => ?_)
  rw [hf a b hb name, ha name, List.mem_append, or_assoc]

/-- What stands on either side of the names is kept. -/
theorem Adds.frame (h : x.Adds vs names) (us ws : List Text) :
    x.Adds (us ++ vs ++ ws) fun a => us ++ names a ++ ws := by
  intro a ha name
  rw [List.mem_append, List.mem_append, List.mem_append, List.mem_append, h a ha name]
  tauto

/-- The work on the members of a list adds what the work on each of them does. -/
theorem adds_onEach {xs : List α} {f : (x : α) → x ∈ xs → Traced ε β} {before : α → List Text} (more : β → List Text)
    (h : ∀ x hx, (f x hx).Adds (before x) more) : (onEach xs f).Adds (xs.flatMap before) fun ys => ys.flatMap more := by
  induction xs with
  | nil => exact adds_pure fun _ => Iff.rfl
  | cons x rest ih =>
    have hx : (f x List.mem_cons_self).Adds (before x ++ rest.flatMap before) fun y => more y ++ rest.flatMap before :=
      (h x List.mem_cons_self).frame [] (rest.flatMap before)
    have hrest := ih fun z hz => h z (List.mem_cons_of_mem x hz)
    rw [List.flatMap_cons]
    refine hx.bind fun y => ?_
    have hy := hrest.frame (more y) []
    simp only [List.append_nil] at hy
    exact hy.bind fun ys => adds_pure fun name => by rw [List.flatMap_cons]

end Traced

/-! ## Folding -/

section Folding

variable {resolve : Text → Option Function} {ss : List Node}

/-- What a rule makes has the variables of the sentences it matched and those that it looks up. -/
theorem Rule.Builds.mem_varNames {r : Rule} {matched : List Node} {n : Node} (h : r.Builds resolve matched n) (name : Text) :
    name ∈ n.varNames ↔ name ∈ varNames.nodes matched ∨ name ∈ metVariables (r.lookups resolve matched) := by
  cases h with
  | @spaceBefore t n hb hn => cases n <;> simp [Rule.lookups, hb, metVariables, varNames, Node.withPad, Node.varNames]
  | @spaceAfter t n hb hn => cases n <;> simp [Rule.lookups, hb, metVariables, varNames, Node.withPad, Node.varNames]
  | @functionCall c a called hb hname =>
    have hnone : metVariables (r.lookups resolve [c, a]) = [] := by
      simp only [Rule.lookups, hb, hname]
      split <;> rfl
    rw [hnone]
    simp [varNames, Node.varNames]
  | @variableUse p t hb => simp [Rule.lookups, hb, metVariables, varNames, Node.varNames, Node.name?, Reference.name]
  | binary hb => simp [Rule.lookups, hb, metVariables, varNames, Node.varNames]
  | implicit hb => simp [Rule.lookups, hb, metVariables, varNames, Node.varNames]
  | unary hb => simp [Rule.lookups, hb, metVariables, varNames, Node.varNames]

theorem Tier.adds_fold (t : Tier) (resolve : Text → Option Function) (ss : List Node) :
    (t.fold resolve ss).Adds (varNames.nodes ss) varNames.nodes := by
  refine Tier.meets_fold
    (R := fun ss out met => ∀ name, name ∈ varNames.nodes out ↔ name ∈ varNames.nodes ss ∨ name ∈ met) ?_ ?_ ss
  · exact fun ss _ name => (or_iff_left List.not_mem_nil).symm
  · intro ss m n out met hm hn hout name
    have hbuilds := (Rule.builds_of_build hn).mem_varNames name
    rw [hout, ← Tier.match?_eq_some hm]
    simp only [Reading.nodes_append, Reading.nodes_cons, List.mem_append] at hbuilds ⊢
    rw [show name ∈ varNames.node n ↔ _ from hbuilds]
    tauto

theorem adds_foldTiers (ts : List Tier) (resolve : Text → Option Function) (ss : List Node) :
    (foldTiers ts resolve ss).Adds (varNames.nodes ss) varNames.nodes := by
  induction ts generalizing ss with
  | nil => exact Traced.adds_pure fun _ => Iff.rfl
  | cons t ts ih => exact (t.adds_fold resolve ss).bind fun mid => ih mid

end Folding

/-! ## The stages of a parse -/

section Stages

variable {l : Language} {offset : Int} {ss : List Node}

theorem metVariables_lexStage (g : Grammar) (offset : Int) (ss : List Node) :
    metVariables (lexStage g offset ss).events = [] := by
  unfold lexStage
  split <;> rfl

theorem readsLeaves_varNames (rules : List LeafRule) : varNames.ReadsLeaves rules := by
  intro t c leaf _ hleaf
  rcases LeafKind.leaf_cases hleaf with ⟨v, rfl⟩ | rfl <;> rfl

theorem skipsBlanks_varNames : varNames.SkipsBlanks :=
  ⟨fun _ _ => rfl, rfl⟩

theorem adds_lexStage (g : Grammar) (offset : Int) (ss : List Node) :
    (lexStage g offset ss).Adds (varNames.nodes ss) varNames.nodes := by
  intro out hout name
  rw [metVariables_lexStage, Reading.nodes_lexStage (readsLeaves_varNames g.leaves) hout]
  exact (or_iff_left List.not_mem_nil).symm

theorem adds_foldStage (l : Language) (offset : Int) (ss : List Node) :
    (foldStage l offset ss).Adds (varNames.nodes ss) varNames.nodes := by
  refine Traced.Adds.mapError ?_ _
  refine (adds_foldTiers _ _ ss).bind fun out => ?_
  exact (Traced.adds_emit rfl).bind fun _ => Traced.adds_pure fun _ => Iff.rfl

/-- The variables of an interior are those of the parameters. -/
theorem varNames_params (separator : Separator) (offset : Int) (w : Window) :
    ((w.inside separator offset).params.flatMap fun p => varNames.nodes p.sentences) = varNames.nodes w.interior := by
  rw [← varNames.nodes_fields separator w.interior]
  exact skipsBlanks_varNames.nodes_params fun f _ => rfl

/-- A window divides the variables. -/
theorem varNames_window (hb : DistinctBrackets l.grammar.brackets) {w : Window}
    (hw : nextGroup l.grammar.brackets ss = .window w) :
    varNames.nodes ss = varNames.nodes w.before ++ varNames.nodes w.interior ++ varNames.nodes w.after := by
  rw [varNames.nodes_window hb hw]
  simp [varNames, Node.varNames]

/-- So does the group in its place, with those of the parameters. -/
theorem varNames_collapse (w : Window) (l : Language) (offset : Int) (params : List Node) :
    varNames.nodes (w.collapse l offset params) =
      varNames.nodes w.before ++ params.flatMap Node.varNames ++ varNames.nodes w.after := by
  have hgroup : varNames.node (w.group (w.inside l.grammar.separator offset) params) = params.flatMap Node.varNames :=
    Node.varNamesAll_eq_flatMap params
  rw [Window.collapse, Reading.nodes_append, Reading.nodes_cons, hgroup, List.append_assoc]

variable (hb : DistinctBrackets l.grammar.brackets)

include hb

/-- **The group stage** adds the variables of the parameters. -/
theorem adds_groupStage (offset : Int) (ss : List Node) :
    (groupStage l offset ss).Adds (varNames.nodes ss) varNames.nodes := by
  induction hn : rawLength ss using Nat.strong_induction_on generalizing offset ss with
  | _ n ih =>
    rw [groupStage_eq]
    split
    · split
      · exact Traced.adds_fail _
      · rintro out ⟨⟩ name
        exact (or_iff_left List.not_mem_nil).symm
    · exact Traced.adds_fail _
    · rename_i w hw
      rw [varNames_window hb hw, ← varNames_params l.grammar.separator offset w]
      refine (Traced.adds_emit rfl).bind fun _ => ?_
      refine Traced.Adds.bind (((Traced.adds_onEach Node.varNames fun p hp => ?_).mapError _).frame _ _) fun params => ?_
      · unfold paramStage
        split
        · exact fun _ h => by cases h
        · rename_i lexed hl
          have hlexed : (⟨.ok (), .entered p.field :: (lexStage l.grammar p.offset p.sentences).events⟩ :
              Traced Failure Unit).Adds (varNames.nodes p.sentences) fun _ => varNames.nodes lexed := by
            intro _ _ name
            exact adds_lexStage l.grammar p.offset p.sentences lexed hl name
          refine hlexed.bind fun _ => ?_
          have hlt : rawLength lexed < n := hn ▸ rawLength_param_lt hw hp hl
          refine (ih _ hlt p.offset lexed rfl).bind fun grouped => ?_
          refine (adds_foldStage l p.offset grouped).bind fun folded => ?_
          exact (Traced.adds_emit rfl).bind fun _ => Traced.adds_pure fun name => by rw [varNames_equation]
      · refine (Traced.adds_emit rfl).bind fun _ => ?_
        have hcollapse := ih _ (hn ▸ rawLength_collapse_lt hw) offset (w.collapse l offset params) rfl
        rwa [varNames_collapse] at hcollapse

theorem adds_parseText (t : Text) : (parseText l t).Adds [] varNames.nodes := by
  have hraws : varNames.nodes (Node.raws t) = [] := varNames.nodes_raws t
  have hlexed := adds_lexStage l.grammar 0 (Node.raws t)
  rw [hraws] at hlexed
  exact hlexed.bind fun lexed => (adds_groupStage hb 0 lexed).bind fun grouped => adds_foldStage l 0 grouped

/-- **The variables that a parse has met** are those of the tree. -/
theorem mem_metVariables_iff {t : Text} {out : List Node} (h : (parseText l t).result = .ok out) (name : Text) :
    name ∈ metVariables (parseText l t).events ↔ name ∈ (Node.equation .none out 0).varNames := by
  rw [varNames_equation, adds_parseText hb t out h name]
  exact (or_iff_right List.not_mem_nil).symm

end Stages

end FormulaLang
