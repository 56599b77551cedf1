import FormulaLang.Grammar.Default
import FormulaLang.Proofs.Fold.Leftmost
import FormulaLang.Proofs.List.Marked
import Mathlib.Data.List.Induction
import Mathlib.Data.Nat.Init

/-!
# The match that a tier chooses

Which of all matches in a buffer is replaced next, said without the search. A rule matches at an index when the sentences
from there on have the shapes of its pattern (`Rule.MatchesAt`); the search for one rule finds the smallest such index
(`Rule.find?_eq_some_iff`). The rules of a tier are compared one after another, and what has been found of some of them is
the choice among these (`Tier.Chosen`, `Tier.chosen_foldl`). So a tier chooses the smallest index at which any of its
rules matches, and of the rules that match there the first in the order of declaration (`Tier.chooses_iff`). The rules,
their patterns and the buffer may be any; a pattern may be empty, or longer than the buffer.
-/

namespace FormulaLang

/-! ## One rule -/

/-- From the index `s` on, the buffer has one sentence for each shape of the rule, and every one has its shape. -/
structure Rule.MatchesAt (r : Rule) (ss : List Node) (s : Nat) : Prop where
  within : s + r.pattern.length ≤ ss.length
  fits : ∀ k (_ : k < r.pattern.length), r.pattern[k].fits ss[s + k] = true

namespace Rule

theorem matchesHere_iff {es : List Element} {ns : List Node} :
    matchesHere es ns = true ↔
      ∃ h : es.length ≤ ns.length, ∀ k (_ : k < es.length), es[k].fits ns[k] = true := by
  induction es generalizing ns with
  | nil => simp [matchesHere]
  | cons e es ih =>
    cases ns with
    | nil => simp [matchesHere]
    | cons n ns =>
      rw [matchesHere, Bool.and_eq_true, ih]
      constructor
      · rintro ⟨hfirst, hlength, hrest⟩
        refine ⟨Nat.succ_le_succ hlength, fun k hk => ?_⟩
        cases k with
        | zero => exact hfirst
        | succ k => exact hrest k (Nat.lt_of_succ_lt_succ hk)
      · rintro ⟨hlength, hfits⟩
        exact ⟨hfits 0 (Nat.succ_pos _), Nat.le_of_succ_le_succ hlength, fun k hk => hfits (k + 1) (Nat.succ_lt_succ hk)⟩

variable {r : Rule} {ss : List Node} {s : Nat}

theorem matchesAt_zero : r.MatchesAt ss 0 ↔ matchesHere r.pattern ss = true := by
  rw [matchesHere_iff]
  constructor
  · intro h
    exact ⟨by simpa using h.within, fun k hk => by simpa using h.fits k hk⟩
  · rintro ⟨hlength, hfits⟩
    exact ⟨by simpa using hlength, fun k hk => by simpa using hfits k hk⟩

theorem matchesAt_succ {n : Node} : r.MatchesAt (n :: ss) (s + 1) ↔ r.MatchesAt ss s := by
  constructor
  · intro h
    have hlength := h.within
    rw [List.length_cons] at hlength
    exact ⟨by omega, fun k hk => by simpa [Nat.add_right_comm] using h.fits k hk⟩
  · intro h
    have hlength := h.within
    exact ⟨by rw [List.length_cons]; omega, fun k hk => by simpa [Nat.add_right_comm] using h.fits k hk⟩

/-- In an empty buffer only an empty pattern matches, at its start. -/
theorem matchesAt_nil : r.MatchesAt [] s ↔ s = 0 ∧ r.pattern = [] := by
  constructor
  · intro h
    have hlength := h.within
    rw [List.length_nil] at hlength
    exact ⟨by omega, List.length_eq_zero_iff.1 (by omega)⟩
  · rintro ⟨rfl, hnil⟩
    exact ⟨by simp [hnil], fun k hk => by simp [hnil] at hk⟩

/-- **One rule** is found at the smallest index at which it matches. -/
theorem find?_eq_some_iff : r.find? ss = some s ↔ r.MatchesAt ss s ∧ ∀ i < s, ¬ r.MatchesAt ss i := by
  induction ss generalizing s with
  | nil =>
    simp only [find?, matchesAt_nil]
    cases s with
    | zero => cases r.pattern <;> simp
    | succ s => cases r.pattern <;> simp
  | cons n ss ih =>
    rw [find?]
    cases hmatch : matchesHere r.pattern (n :: ss) with
    | true =>
      have hhere : r.MatchesAt (n :: ss) 0 := matchesAt_zero.2 hmatch
      cases s with
      | zero => simp [hhere]
      | succ s => exact iff_of_false (by simp) fun h => h.2 0 (Nat.succ_pos s) hhere
    | false =>
      have hnot : ¬ r.MatchesAt (n :: ss) 0 := fun h => Bool.eq_false_iff.1 hmatch (matchesAt_zero.1 h)
      cases s with
      | zero => simp [hnot]
      | succ s =>
        have hmap : (r.find? ss).map (· + 1) = some (s + 1) ↔ r.find? ss = some s := by simp
        rw [if_neg Bool.false_ne_true, hmap, ih, Nat.forall_lt_succ_left]
        simp only [matchesAt_succ, hnot, not_false_eq_true, true_and]

/-- It is not found when it matches nowhere. -/
theorem find?_eq_none_iff : r.find? ss = none ↔ ∀ s, ¬ r.MatchesAt ss s := by
  constructor
  · intro hnone s
    induction s using Nat.strong_induction_on with
    | _ s ih =>
      intro hmatch
      rw [find?_eq_some_iff.2 ⟨hmatch, ih⟩] at hnone
      cases hnone
  · intro hnowhere
    refine Option.eq_none_iff_forall_ne_some.2 fun s hs => hnowhere s (find?_eq_some_iff.1 hs).1

end Rule

/-! ## Competing rules -/

/-- Of the rules `rs` the rule `r` is chosen at the index `s`: it matches there, none of them matches further left, and none
of those declared before it matches there. -/
structure Rule.ChosenAt (r : Rule) (rs : List Rule) (ss : List Node) (s : Nat) : Prop where
  here : r.MatchesAt ss s
  leftmost : ∀ r' ∈ rs, ∀ i < s, ¬ r'.MatchesAt ss i
  first : ∃ earlier later, rs = earlier ++ r :: later ∧ ∀ r' ∈ earlier, ¬ r'.MatchesAt ss s

namespace Rule.ChosenAt

variable {r r' : Rule} {rs : List Rule} {ss : List Node} {s s' : Nat}

theorem mem (h : r.ChosenAt rs ss s) : r ∈ rs := by
  obtain ⟨earlier, later, rfl, -⟩ := h.first
  simp

/-- A choice stands when one more rule does not match further left. -/
theorem concat (h : r.ChosenAt rs ss s) (hr : ∀ i < s, ¬ r'.MatchesAt ss i) : r.ChosenAt (rs ++ [r']) ss s := by
  obtain ⟨earlier, later, rfl, hearlier⟩ := h.first
  refine ⟨h.here, ?_, earlier, later ++ [r'], by simp, hearlier⟩
  rw [List.forall_mem_append, List.forall_mem_singleton]
  exact ⟨h.leftmost, hr⟩

/-- A new rule is chosen at its first match when no other rule matches there or further left. -/
theorem of_find? (h : r.find? ss = some s) (hrs : ∀ r' ∈ rs, ∀ i ≤ s, ¬ r'.MatchesAt ss i) :
    r.ChosenAt (rs ++ [r]) ss s := by
  obtain ⟨hmatch, hfirst⟩ := Rule.find?_eq_some_iff.1 h
  refine ⟨hmatch, ?_, rs, [], rfl, fun r' hr' => hrs r' hr' s Nat.le.refl⟩
  rw [List.forall_mem_append, List.forall_mem_singleton]
  exact ⟨fun r' hr' i hi => hrs r' hr' i (Nat.le_of_lt hi), hfirst⟩

/-- There is one choice at most. -/
theorem unique (h : r.ChosenAt rs ss s) (h' : r'.ChosenAt rs ss s') : s = s' ∧ r = r' := by
  have hs : s = s' := by
    rcases Nat.lt_trichotomy s s' with hlt | heq | hgt
    · exact absurd h.here (h'.leftmost r h.mem s hlt)
    · exact heq
    · exact absurd h'.here (h.leftmost r' h'.mem s' hgt)
  subst hs
  obtain ⟨earlier, later, rfl, hearlier⟩ := h.first
  obtain ⟨earlier', later', hrules, hearlier'⟩ := h'.first
  refine ⟨rfl, ?_⟩
  obtain ⟨-, heq, -⟩ | ⟨m, hm, -⟩ | ⟨m, hm, -⟩ := append_cons_eq_cases hrules
  · exact heq
  · exact absurd h.here (hearlier' r (by simp [hm]))
  · exact absurd h'.here (hearlier r' (by simp [hm]))

end Rule.ChosenAt

namespace Tier

variable {rs : List Rule} {ss : List Node}

/-- What has been found of some rules: nothing when none of them matches, and their choice otherwise. -/
def Chosen (rs : List Rule) (ss : List Node) : Option (Nat × Rule) → Prop
  | none => ∀ r ∈ rs, ∀ s, ¬ r.MatchesAt ss s
  | some (s, r) => r.ChosenAt rs ss s

/-- One more rule is compared. -/
theorem Chosen.better {best : Option (Nat × Rule)} (h : Chosen rs ss best) (r : Rule) :
    Chosen (rs ++ [r]) ss (Tier.better ss best r) := by
  unfold Tier.better
  cases hfind : r.find? ss with
  | none =>
    have hnowhere := Rule.find?_eq_none_iff.1 hfind
    cases best with
    | none =>
      rw [Chosen, List.forall_mem_append, List.forall_mem_singleton]
      exact ⟨h, hnowhere⟩
    | some b => exact Rule.ChosenAt.concat h fun i _ => hnowhere i
  | some start =>
    cases best with
    | none => exact .of_find? hfind fun r' hr' i _ => h r' hr' i
    | some b =>
      obtain ⟨s, r'⟩ := b
      dsimp only
      split
      · rename_i hlt
        exact .of_find? hfind fun r'' hr'' i hi => h.leftmost r'' hr'' i (Nat.lt_of_le_of_lt hi hlt)
      · rename_i hle
        refine Rule.ChosenAt.concat h fun i hi => (Rule.find?_eq_some_iff.1 hfind).2 i ?_
        omega

theorem chosen_foldl (rs : List Rule) (ss : List Node) : Chosen rs ss (rs.foldl (better ss) none) := by
  induction rs using List.reverseRecOn with
  | nil => exact fun r hr => by cases hr
  | append_singleton rs r ih =>
    rw [List.foldl_concat]
    exact ih.better r

/-- **A tier** finds nothing exactly when none of its rules matches anywhere in the buffer. Otherwise it chooses the smallest
index at which any of its rules matches, and of the rules that match there the one that is declared first. -/
theorem chooses_iff (t : Tier) (ss : List Node) :
    (t.leftmost? ss = none ↔ ∀ r ∈ t.rules, ∀ s, ¬ r.MatchesAt ss s) ∧
      ∀ s r, t.leftmost? ss = some (s, r) ↔ r.ChosenAt t.rules ss s := by
  have hchosen := chosen_foldl t.rules ss
  rw [← leftmost?_eq] at hchosen
  cases hfound : t.leftmost? ss with
  | none =>
    rw [hfound] at hchosen
    refine ⟨iff_of_true rfl hchosen, fun s r => iff_of_false (by simp) fun h => ?_⟩
    exact hchosen r h.mem s h.here
  | some b =>
    obtain ⟨s, r⟩ := b
    rw [hfound] at hchosen
    have hr : r.ChosenAt t.rules ss s := hchosen
    refine ⟨iff_of_false (by simp) fun h => h r hr.mem s hr.here, fun s' r' => ?_⟩
    constructor
    · intro h
      cases h
      exact hr
    · intro h
      obtain ⟨rfl, rfl⟩ := hr.unique h
      rfl

/-- Two factors side by side come before the written operator behind them. -/
example :
    (Tier.mk [] [Grammar.infixRule "*" .mul, ⟨[.value, .value], .implicit, some .mul⟩]).leftmost?
        [.var .none (.table ['x']) ['x'], .var .none (.table ['y']) ['y'], .raw ['*'], .var .none (.table ['z']) ['z']] =
      some (0, ⟨[.value, .value], .implicit, some .mul⟩) := by
  decide

end Tier

end FormulaLang
