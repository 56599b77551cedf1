import FormulaLang.Grammar.Rule
import FormulaLang.Parse.Traced

/-!
# Folding

The tiers of a grammar are applied to a buffer one after another, the tightest binding first. A tier replaces its leftmost
match by the node that the rule makes, until nothing matches. Every replacement makes the buffer lighter
(`Rule.weight_build_lt`), weight being the number of sentences and of identifiers among them, so the work ends.
-/

namespace FormulaLang

/-- The number of sentences plus the number of identifiers among them. -/
def weight (ss : List Node) : Nat :=
  ss.length + ss.countP Node.isIdentifier

/-- A match of a rule: the sentences before it, the sentences it covers and those after it. -/
structure Match where
  before : List Node
  window : List Node
  after : List Node
  rule : Rule

/-- The match that a tier replaces next. -/
def Tier.match? (t : Tier) (ss : List Node) : Option Match :=
  (t.leftmost? ss).map fun (start, r) =>
    let n := r.pattern.length
    ⟨ss.take start, (ss.drop start).take n, (ss.drop start).drop n, r⟩

theorem weight_append (xs ys : List Node) : weight (xs ++ ys) = weight xs + weight ys := by
  simp [weight]
  omega

/-- A match divides the buffer. -/
theorem Tier.match?_eq_some {t : Tier} {ss : List Node} {m : Match} (h : t.match? ss = some m) :
    m.before ++ m.window ++ m.after = ss := by
  obtain ⟨⟨start, r⟩, -, rfl⟩ := Option.map_eq_some_iff.1 h
  simp only [List.append_assoc, List.take_append_drop]

@[simp] theorem Node.isIdentifier_withPad (p : Pad) (n : Node) : (n.withPad p).isIdentifier = n.isIdentifier := by
  cases n <;> rfl

/-- The node of a rule is lighter than the sentences it stands for. -/
theorem Rule.weight_build_lt {r : Rule} {resolve : Text → Option Function} {matched : List Node} {n : Node}
    (h : r.build resolve matched = .ok n) : weight [n] < weight matched := by
  unfold Rule.build at h
  split at h
  · split at h
    · cases h
    · split at h
      · cases h
        simp [weight, List.countP_cons]
        omega
      · cases h
  · split at h
    · cases h
    · split at h
      · cases h
        simp [weight, List.countP_cons]
        omega
      · cases h
  · split at h
    · cases h
      simp [weight, List.countP_cons, Node.isIdentifier]
      omega
    · cases h
  all_goals first
    | cases h; simp [weight, List.countP_cons, Node.isIdentifier]; try omega
    | cases h

/-- The names that a rule looks up, as they show in the trace. -/
def Rule.lookups (r : Rule) (resolve : Text → Option Function) (matched : List Node) : List Event :=
  match r.builder, matched with
  | .functionCall, [callee, _] =>
    match callee.name? with
    | some name => if (resolve name).isNone then [.unknownFunction name] else []
    | none => []
  | .variableUse, [n] => (n.name?.map .variableMet).toList
  | _, _ => []

/-- A rule that could make no node of what it matched, and the buffer as it stood then. -/
structure Stuck where
  defect : Defect
  buffer : List Node

/-- A buffer with the matches of one tier replaced. -/
def Tier.fold (t : Tier) (resolve : Text → Option Function) (ss : List Node) : Traced Stuck (List Node) :=
  match _h : t.match? ss with
  | none => pure ss
  | some m =>
    match _hn : m.rule.build resolve m.window with
    | .error d => ⟨.error ⟨d, ss⟩, m.rule.lookups resolve m.window⟩
    | .ok n => do
      (⟨.ok (), m.rule.lookups resolve m.window ++ [.replaced m.before m.window n m.rule.keepsNode]⟩ :
        Traced Stuck Unit)
      t.fold resolve (m.before ++ n :: m.after)
termination_by weight ss
decreasing_by
  have h₁ := Tier.match?_eq_some _h
  have h₂ := Rule.weight_build_lt _hn
  rw [← h₁, show m.before ++ n :: m.after = m.before ++ [n] ++ m.after by simp]
  simp only [weight_append]
  omega

/-- A buffer with the matches of all tiers replaced. -/
def foldTiers (tiers : List Tier) (resolve : Text → Option Function) (ss : List Node) : Traced Stuck (List Node) :=
  match tiers with
  | [] => pure ss
  | t :: rest => do
    let ss ← t.fold resolve ss
    foldTiers rest resolve ss

/-- The fold stage: all tiers, and the trace of the folded buffer. -/
def fold (tiers : List Tier) (resolve : Text → Option Function) (ss : List Node) : Traced Stuck (List Node) := do
  let ss ← foldTiers tiers resolve ss
  .emit (.folded ss)
  return ss

end FormulaLang
