import FormulaLang.Parse.Fold
import Mathlib.Data.List.Basic

/-!
# The leftmost match

The match that a tier replaces next, found sentence by sentence: at the first sentence at which a rule matches, the first
such rule wins, and otherwise the match is that of the remaining sentences (`Tier.match?_cons`).
-/

namespace FormulaLang

/-! ## Competing rules -/

/-- The better of the best match so far and the match of another rule. -/
def Tier.better (ss : List Node) (best : Option (Nat × Rule)) (r : Rule) : Option (Nat × Rule) :=
  match r.find? ss, best with
  | none, best => best
  | some start, none => some (start, r)
  | some start, some (s, r') => if start < s then some (start, r) else some (s, r')

theorem Tier.leftmost?_eq (t : Tier) (ss : List Node) : t.leftmost? ss = t.rules.foldl (Tier.better ss) none :=
  rfl

/-- A match at the first sentence is not given up. -/
theorem Tier.foldl_better_zero (ss : List Node) (r : Rule) (rs : List Rule) :
    rs.foldl (Tier.better ss) (some (0, r)) = some (0, r) := by
  induction rs with
  | nil => rfl
  | cons r' rs ih =>
    have h : Tier.better ss (some (0, r)) r' = some (0, r) := by
      unfold Tier.better
      cases r'.find? ss <;> simp
    rw [List.foldl_cons, h, ih]

theorem Tier.better_cons {n : Node} {ss : List Node} {r : Rule} (h : Rule.matchesHere r.pattern (n :: ss) = false)
    (best : Option (Nat × Rule)) :
    Tier.better (n :: ss) (best.map fun b => (b.1 + 1, b.2)) r =
      (Tier.better ss best r).map fun b => (b.1 + 1, b.2) := by
  unfold Tier.better
  rw [Rule.find?]
  simp only [h, Bool.false_eq_true, ↓reduceIte]
  cases hf : r.find? ss with
  | none => simp
  | some start =>
    cases best with
    | none => simp
    | some b =>
      obtain ⟨s, r'⟩ := b
      by_cases hlt : start < s <;> simp [hlt]

theorem Tier.foldl_better_cons (n : Node) (ss : List Node) (rs : List Rule) (best : Option (Nat × Rule)) :
    rs.foldl (Tier.better (n :: ss)) (best.map fun b => (b.1 + 1, b.2)) =
      match rs.find? fun r => Rule.matchesHere r.pattern (n :: ss) with
      | some r => some (0, r)
      | none => (rs.foldl (Tier.better ss) best).map fun b => (b.1 + 1, b.2) := by
  induction rs generalizing best with
  | nil => rfl
  | cons r rs ih =>
    rw [List.foldl_cons, List.find?_cons]
    cases h : Rule.matchesHere r.pattern (n :: ss) with
    | true =>
      have hb : Tier.better (n :: ss) (best.map fun b => (b.1 + 1, b.2)) r = some (0, r) := by
        unfold Tier.better
        cases best <;> simp [Rule.find?, h]
      rw [hb, Tier.foldl_better_zero]
    | false => rw [Tier.better_cons h, ih, List.foldl_cons]

/-- The leftmost match from the first sentence on. -/
theorem Tier.leftmost?_cons (t : Tier) (n : Node) (ss : List Node) :
    t.leftmost? (n :: ss) =
      match t.rules.find? fun r => Rule.matchesHere r.pattern (n :: ss) with
      | some r => some (0, r)
      | none => (t.leftmost? ss).map fun b => (b.1 + 1, b.2) :=
  Tier.foldl_better_cons n ss t.rules none

/-! ## The match -/

/-- The next match, from the first sentence on. -/
theorem Tier.match?_cons (t : Tier) (n : Node) (ss : List Node) :
    t.match? (n :: ss) =
      match t.rules.find? fun r => Rule.matchesHere r.pattern (n :: ss) with
      | some r => some ⟨[], (n :: ss).take r.pattern.length, (n :: ss).drop r.pattern.length, r⟩
      | none => (t.match? ss).map fun m => { m with before := n :: m.before } := by
  unfold Tier.match?
  rw [Tier.leftmost?_cons]
  cases t.rules.find? fun r => Rule.matchesHere r.pattern (n :: ss) with
  | some r => rfl
  | none =>
    cases t.leftmost? ss with
    | none => rfl
    | some b =>
      simp only [Option.map_some, List.take_succ_cons, List.drop_succ_cons]

/-- A sentence at which no rule matches is passed over. -/
theorem Tier.match?_cons_of_none {t : Tier} {n : Node} {ss : List Node}
    (h : t.rules.find? (fun r => Rule.matchesHere r.pattern (n :: ss)) = none) :
    t.match? (n :: ss) = (t.match? ss).map fun m => { m with before := n :: m.before } := by
  rw [Tier.match?_cons, h]

/-- What matches fits, element by element. -/
theorem Rule.exists_fits_of_matchesHere {es : List Element} {ns : List Node} (h : Rule.matchesHere es ns = true) :
    ∀ e ∈ es, ∃ n ∈ ns, e.fits n = true := by
  induction es generalizing ns with
  | nil => simp
  | cons e es ih =>
    cases ns with
    | nil => simp [Rule.matchesHere] at h
    | cons n ns =>
      simp only [Rule.matchesHere, Bool.and_eq_true] at h
      simp only [List.forall_mem_cons, List.exists_mem_cons_iff]
      exact ⟨.inl h.1, fun e he => .inr (ih h.2 e he)⟩

/-- Nothing matches an empty buffer. -/
theorem Tier.match?_nil {t : Tier} (h : ∀ r ∈ t.rules, r.pattern ≠ []) : t.match? [] = none := by
  have hfold : ∀ rs : List Rule, (∀ r ∈ rs, r.pattern ≠ []) → rs.foldl (Tier.better []) none = none := by
    intro rs hrs
    induction rs with
    | nil => rfl
    | cons r rs ih =>
      have hr : Tier.better [] none r = none := by simp [Tier.better, Rule.find?, hrs r (by simp)]
      rw [List.foldl_cons, hr]
      exact ih fun r hr => hrs r (by simp [hr])
  simp [Tier.match?, Tier.leftmost?_eq, hfold t.rules h]

/-- A tier matches nowhere when each of its rules asks for something that no sentence is. -/
theorem Tier.match?_eq_none_of_unfit {t : Tier} {ss : List Node}
    (h : ∀ r ∈ t.rules, ∃ e ∈ r.pattern, ∀ n ∈ ss, e.fits n = false) : t.match? ss = none := by
  induction ss with
  | nil =>
    refine Tier.match?_nil ?_
    intro r hr
    obtain ⟨e, he, -⟩ := h r hr
    exact List.ne_nil_of_mem he
  | cons n ss ih =>
    rw [Tier.match?_cons_of_none, ih fun r hr => ?_]
    · rfl
    · obtain ⟨e, he, hfit⟩ := h r hr
      exact ⟨e, he, fun m hm => hfit m (by simp [hm])⟩
    · rw [List.find?_eq_none]
      intro r hr hmatch
      obtain ⟨e, he, hfit⟩ := h r hr
      obtain ⟨m, hm, hm'⟩ := Rule.exists_fits_of_matchesHere hmatch e he
      rw [hfit m hm] at hm'
      cases hm'

end FormulaLang
