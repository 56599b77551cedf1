import FormulaLang.Proofs.Fold.Names
import FormulaLang.Proofs.Node.WorkOrder
import FormulaLang.Proofs.Parse.Met
import FormulaLang.Proofs.Parse.Reading

/-!
# The order in which a fold meets variables

A fold meets names in one tier alone: the tier of variables goes through its buffer from the left to the right, when the names
of calls have gone (`meets_variableTier`). So the variables that a buffer gets by its folds come in the order in which they
stand in it (`meets_foldStage`).
-/

namespace FormulaLang

open Formula (metVariables)

/-! ## Tiers -/

section Tiers

variable {resolve : Text → Option Function}

/-- The rules of the tier make no variables. -/
def Tier.MeetsNone (t : Tier) : Prop :=
  ∀ r ∈ t.rules, r.suits = true ∧ r.builder ≠ .variableUse

instance (t : Tier) : Decidable t.MeetsNone :=
  inferInstanceAs (Decidable (∀ r ∈ t.rules, _))

theorem Rule.metVariables_lookups {r : Rule} (h : r.builder ≠ .variableUse) (matched : List Node) :
    metVariables (r.lookups resolve matched) = [] := by
  unfold Rule.lookups
  split
  · split
    · split <;> rfl
    · rfl
  · rename_i hb
    exact absurd hb h
  · rfl

/-- A reading that takes a node to those of its parts, whatever white space is around it. Raw text and leaves read as
nothing. -/
structure Reading.Composed {α : Type} (φ : Reading α) : Prop where
  raw : ∀ t, φ.node (.raw t) = []
  number : ∀ p v t, φ.node (.number p v t) = []
  identifier : ∀ p t, φ.node (.identifier p t) = []
  withPad : ∀ p n, φ.node (n.withPad p) = φ.node n
  call : ∀ p c f a, φ.node (.call p c f a) = φ.node c ++ φ.node a
  unary : ∀ p s o x, φ.node (.unary p s o x) = φ.node s ++ φ.node x
  binary : ∀ p x s o y, φ.node (.binary p x s o y) = φ.node x ++ φ.node s ++ φ.node y

variable {α : Type} {φ : Reading α}

/-- A node reads as what it was made of. -/
theorem Reading.Composed.builds (hφ : φ.Composed) {r : Rule} (hr : r.builder ≠ .variableUse) {matched : List Node} {n : Node}
    (h : r.Builds resolve matched n) : φ.node n = φ.nodes matched := by
  cases h with
  | spaceBefore | spaceAfter => simp [hφ.withPad, hφ.raw]
  | functionCall => simp [hφ.call]
  | variableUse hb => exact absurd hb hr
  | binary | implicit => simp [hφ.binary, hφ.raw]
  | unary => simp [hφ.unary]

/-- **A tier that makes no variables** meets no names and keeps all such readings. -/
theorem Tier.MeetsNone.meets_fold (α : Type) {t : Tier} (ht : t.MeetsNone) (ss : List Node) :
    (t.fold resolve ss).Meets fun out names =>
      names = [] ∧ ∀ φ : Reading α, φ.Composed → φ.nodes out = φ.nodes ss := by
  refine Tier.meets_fold
    (R := fun ss out names => names = [] ∧ ∀ φ : Reading α, φ.Composed → φ.nodes out = φ.nodes ss) ?_ ?_ ss
  · exact fun ss _ => ⟨rfl, fun _ _ => rfl⟩
  · rintro ss m n out _ hm hn ⟨rfl, hout⟩
    have hrule := (Tier.forall₂_fits_of_match? (fun r hr => Rule.pattern_ne_nil_of_suits (ht r hr).1) hm).1
    have hnone := (ht _ hrule).2
    refine ⟨by rw [Rule.metVariables_lookups hnone, List.append_nil], fun φ hφ => ?_⟩
    rw [hout φ hφ, ← Tier.match?_eq_some hm]
    simp [hφ.builds hnone (Rule.builds_of_build hn)]

theorem meets_foldTiers (α : Type) {ts : List Tier} (hts : ∀ t ∈ ts, t.MeetsNone) (ss : List Node) :
    (foldTiers ts resolve ss).Meets fun out names =>
      names = [] ∧ ∀ φ : Reading α, φ.Composed → φ.nodes out = φ.nodes ss := by
  induction ts generalizing ss with
  | nil => exact Traced.meets_pure ⟨rfl, fun _ _ => rfl⟩
  | cons t ts ih =>
    rw [List.forall_mem_cons] at hts
    refine (hts.1.meets_fold α ss).bind ?_
    rintro mid _ ⟨rfl, hmid⟩
    exact (ih hts.2 mid).imp fun out names h => ⟨h.1, fun φ hφ => (h.2 φ hφ).trans (hmid φ hφ)⟩

/-- Computations are joined in any grouping. -/
theorem Traced.bind_assoc {ε α β γ : Type} (x : Traced ε α) (f : α → Traced ε β) (g : β → Traced ε γ) :
    x >>= f >>= g = x >>= fun a => f a >>= g := by
  show (x.bind f).bind g = x.bind fun a => (f a).bind g
  unfold Traced.bind
  cases x.result with
  | error e => rfl
  | ok a =>
    simp only
    cases (f a).result with
    | error e => rfl
    | ok b => simp only [List.append_assoc]

/-- One list of tiers after another. -/
theorem foldTiers_append (ts ts' : List Tier) (ss : List Node) :
    foldTiers (ts ++ ts') resolve ss = foldTiers ts resolve ss >>= foldTiers ts' resolve := by
  induction ts generalizing ss with
  | nil => rfl
  | cons t ts ih =>
    rw [List.cons_append, foldTiers, foldTiers, Traced.bind_assoc]
    exact congrArg _ (funext ih)

/-! ## The tier of variables -/

/-- What the tier of variables replaces: the first name. -/
theorem variableTier_replaces {ss : List Node} {m : Match} (hm : variableTier.match? ss = some m) :
    ∃ p t, m.window = [.identifier p t] ∧ m.rule.builder = .variableUse ∧ ∀ n ∈ m.before, n.isIdentifier = false := by
  induction ss generalizing m with
  | nil => cases hm
  | cons n ss ih =>
    rw [Tier.match?_cons] at hm
    cases n with
    | identifier p t =>
      cases hm
      exact ⟨p, t, rfl, rfl, List.forall_mem_nil _⟩
    | _ =>
      obtain ⟨m', hm', rfl⟩ := Option.map_eq_some_iff.1 hm
      obtain ⟨p, t, hwindow, hb, hbefore⟩ := ih hm'
      exact ⟨p, t, hwindow, hb, List.forall_mem_cons.2 ⟨rfl, hbefore⟩⟩

/-- The names of a buffer that wait to be resolved. -/
def Node.waitingNames (ss : List Node) : List Text :=
  (ss.filter Node.isIdentifier).map Node.name

/-- **The tier of variables** meets the names of its buffer from the left to the right. -/
theorem meets_variableTier (ss : List Node) :
    (variableTier.fold resolve ss).Meets fun out names => names = Node.waitingNames ss ∧ out = ss.map Node.asVariable := by
  have hnames : (variableTier.fold resolve ss).Meets fun _ names => names = Node.waitingNames ss := by
    refine Tier.meets_fold (R := fun ss _ names => names = Node.waitingNames ss) (fun ss hm => ?_) ?_ ss
    · have hnone := map_asVariable_eq_self hm
      have hfilter : ss.filter Node.isIdentifier = [] := by
        rw [List.filter_eq_nil_iff, ← hnone, List.forall_mem_map]
        intro n _
        cases n <;> simp [Node.asVariable, Node.isIdentifier]
      rw [Node.waitingNames, hfilter, List.map_nil]
    · rintro ss m n out _ hm hn rfl
      obtain ⟨p, t, hwindow, hb, hbefore⟩ := variableTier_replaces hm
      have hfilter : m.before.filter Node.isIdentifier = [] :=
        List.filter_eq_nil_iff.2 fun n hn => Bool.eq_false_iff.1 (hbefore n hn)
      rw [← Tier.match?_eq_some hm, hwindow]
      rw [hwindow] at hn
      simp only [Rule.build, hb, Except.ok.injEq] at hn
      subst hn
      rw [Node.waitingNames, Node.waitingNames, List.append_assoc, List.filter_append, List.filter_append, hfilter]
      simp [Rule.lookups, hb, metVariables, Node.isIdentifier, Node.name?]
      rfl
  intro out hout
  exact ⟨hnames out hout, Except.ok.inj (hout.symm.trans (fold_variableTier ss))⟩

end Tiers

/-! ## The fold stage -/

namespace Reading

/-- The names of the variables outside of groups are a reading. -/
def loose : Reading Text where
  node := Node.looseNames
  raw_append _ _ := rfl

/-- So are those that come up while the groups of a kind are made. -/
def made (k : Nesting.Kind) : Reading Text where
  node n := n.namesIn k (Node.workOrder k.later)
  raw_append _ _ := rfl

theorem composed_loose : loose.Composed where
  raw _ := rfl
  number _ _ _ := rfl
  identifier _ _ := rfl
  withPad _ n := by cases n <;> rfl
  call _ _ _ _ := rfl
  unary _ _ _ _ := rfl
  binary _ _ _ _ _ := rfl

theorem composed_made (k : Nesting.Kind) : (made k).Composed where
  raw _ := rfl
  number _ _ _ := rfl
  identifier _ _ := rfl
  withPad _ n := by cases n <;> rfl
  call _ _ _ _ := rfl
  unary _ _ _ _ := rfl
  binary _ _ _ _ _ := rfl

theorem made_asVariable (k : Nesting.Kind) (ss : List Node) : (made k).nodes (ss.map Node.asVariable) = (made k).nodes ss := by
  rw [nodes, List.flatMap_map]
  refine List.flatMap_congr fun n _ => ?_
  cases n <;> rfl

/-- Where no variable stands outside of groups, the names that wait become such variables. -/
theorem loose_asVariable {ss : List Node} (h : loose.nodes ss = []) :
    loose.nodes (ss.map Node.asVariable) = Node.waitingNames ss := by
  induction ss with
  | nil => rfl
  | cons n ss ih =>
    rw [nodes_cons, List.append_eq_nil_iff] at h
    rw [List.map_cons, nodes_cons, ih h.2]
    cases n with
    | identifier p t => rfl
    | _ => exact (congrArg (· ++ _) h.1).trans (List.nil_append _)

end Reading

open Reading (loose made composed_loose composed_made)

/-- **The fold stage** meets the variables that stand outside of groups afterwards, from the left to the right, and leaves those
in groups where they are. -/
theorem meets_foldStage (resolve : Text → Option Function) (offset : Int) {ss : List Node} (h : loose.nodes ss = []) :
    (foldStage ⟨.default, resolve⟩ offset ss).Meets fun out names =>
      names = loose.nodes out ∧ ∀ k, (made k).nodes out = (made k).nodes ss := by
  have htiers : Grammar.default.tiers =
      (Grammar.spaceTiers ++ [callTier]) ++ variableTier :: Grammar.operatorTiers := rfl
  have hfold : (foldTiers Grammar.default.tiers resolve ss).Meets fun out names =>
      names = loose.nodes out ∧ ∀ k, (made k).nodes out = (made k).nodes ss := by
    rw [htiers, foldTiers_append]
    refine (meets_foldTiers Text (by decide) ss).bind ?_
    rintro called _ ⟨rfl, hcalled⟩
    have hnone : loose.nodes called = [] := (hcalled loose composed_loose).trans h
    rw [foldTiers]
    refine (meets_variableTier called).bind ?_
    rintro named _ ⟨rfl, rfl⟩
    refine (meets_foldTiers Text (by decide) _).imp ?_
    rintro out _ ⟨rfl, hout⟩
    refine ⟨?_, fun k => ?_⟩
    · rw [hout loose composed_loose, Reading.loose_asVariable hnone, List.append_nil, List.nil_append]
    · rw [hout (made k) (composed_made k), Reading.made_asVariable, hcalled (made k) (composed_made k)]
  refine Traced.Meets.mapError (hfold.bind fun out names h => ?_) _
  exact Traced.Meets.emit rfl (Traced.meets_pure (by rwa [List.append_nil]))

end FormulaLang
