import FormulaLang.Proofs.Fold.Leftmost
import FormulaLang.Proofs.Fold.Replacement

/-!
# Folding changed sentences

A change of the sentences that the patterns of a tier do not see keeps its match (`Tier.match?_map`). When what the rules make
of changed sentences is changed likewise, the buffer of changed sentences folds to the changed result (`Tier.fold_map`,
`foldTiers_map`).
-/

namespace FormulaLang

variable {resolve : Text → Option Function} {f : Node → Node}

/-- The patterns of the rule do not see the change. -/
def Rule.Overlooks (r : Rule) (f : Node → Node) : Prop :=
  ∀ e ∈ r.pattern, ∀ n, e.fits (f n) = e.fits n

/-- Nor does it matter for what the rule makes. -/
def Rule.Commutes (r : Rule) (resolve : Text → Option Function) (f : Node → Node) : Prop :=
  ∀ matched n, r.Builds resolve matched n → r.Builds resolve (matched.map f) (f n)

theorem Rule.matchesHere_map {es : List Element} (h : ∀ e ∈ es, ∀ n, e.fits (f n) = e.fits n) (ss : List Node) :
    Rule.matchesHere es (ss.map f) = Rule.matchesHere es ss := by
  induction es generalizing ss with
  | nil => rfl
  | cons e es ih =>
    rw [List.forall_mem_cons] at h
    cases ss with
    | nil => rfl
    | cons n ss => rw [List.map_cons, Rule.matchesHere, Rule.matchesHere, h.1, ih h.2]

theorem Rule.find?_map {r : Rule} (h : r.Overlooks f) (ss : List Node) : r.find? (ss.map f) = r.find? ss := by
  induction ss with
  | nil => rfl
  | cons n ss ih => rw [List.map_cons, Rule.find?, Rule.find?, ih, ← List.map_cons, Rule.matchesHere_map h]

/-- A match in changed sentences. -/
def Match.map (f : Node → Node) (m : Match) : Match :=
  ⟨m.before.map f, m.window.map f, m.after.map f, m.rule⟩

namespace Tier

variable {t : Tier}

/-- **The match** is found in changed sentences where it was. -/
theorem match?_map (h : ∀ r ∈ t.rules, r.Overlooks f) (ss : List Node) :
    t.match? (ss.map f) = (t.match? ss).map (Match.map f) := by
  have hleftmost : t.leftmost? (ss.map f) = t.leftmost? ss := by
    rw [leftmost?_eq, leftmost?_eq]
    refine List.foldl_ext _ _ none fun best r hr => ?_
    simp only [better, Rule.find?_map (h r hr)]
  rw [match?, match?, hleftmost, Option.map_map]
  refine Option.map_congr fun m _ => ?_
  simp only [Function.comp_apply, Match.map, List.map_take, List.map_drop]

theorem mem_of_foldl_better {ss : List Node} {rs : List Rule} {best : Option (Nat × Rule)} {b : Nat × Rule}
    (h : rs.foldl (better ss) best = some b) : best = some b ∨ b.2 ∈ rs := by
  induction rs generalizing best with
  | nil => exact .inl h
  | cons r rs ih =>
    rcases ih h with hbest | hmem
    · unfold better at hbest
      split at hbest
      · exact .inl hbest
      · cases hbest
        exact .inr List.mem_cons_self
      · split at hbest
        · cases hbest
          exact .inr List.mem_cons_self
        · exact .inl hbest
    · exact .inr (List.mem_cons_of_mem _ hmem)

theorem rule_mem_of_match? {ss : List Node} {m : Match} (h : t.match? ss = some m) : m.rule ∈ t.rules := by
  obtain ⟨b, hb, rfl⟩ := Option.map_eq_some_iff.1 h
  exact (mem_of_foldl_better hb).resolve_left (by simp)

/-- **A tier** folds changed sentences to the changed result. -/
theorem fold_map (h : ∀ r ∈ t.rules, r.Overlooks f ∧ r.Commutes resolve f) {ss out : List Node}
    (hout : (t.fold resolve ss).result = .ok out) : (t.fold resolve (ss.map f)).result = .ok (out.map f) := by
  have hmatch := match?_map fun r hr => (h r hr).1
  refine fold_induction (motive := fun ss out => (t.fold resolve (ss.map f)).result = .ok (out.map f)) ?_ ?_ hout
  · intro ss hm
    exact result_fold_of_none (by rw [hmatch, hm]; rfl)
  · intro ss m n out hm hn ih
    have hm' : t.match? (ss.map f) = some (m.map f) := by rw [hmatch, hm]; rfl
    have hn' := ((h _ (rule_mem_of_match? hm)).2 _ _ (Rule.builds_of_build hn)).build_eq
    rw [result_fold_of_build hm' hn', ← ih]
    simp [Match.map]

end Tier

theorem foldTiers_map {ts : List Tier} (h : ∀ t ∈ ts, ∀ r ∈ t.rules, r.Overlooks f ∧ r.Commutes resolve f)
    {ss out : List Node} (hout : (foldTiers ts resolve ss).result = .ok out) :
    (foldTiers ts resolve (ss.map f)).result = .ok (out.map f) := by
  induction ts generalizing ss with
  | nil =>
    cases foldTiers_nil_ok_iff.1 hout
    exact foldTiers_nil_ok_iff.2 rfl
  | cons t ts ih =>
    rw [List.forall_mem_cons] at h
    obtain ⟨mid, ht, hrest⟩ := foldTiers_cons_ok_iff.1 hout
    exact foldTiers_cons_ok_iff.2 ⟨_, Tier.fold_map h.1 ht, ih h.2 hrest⟩

end FormulaLang
