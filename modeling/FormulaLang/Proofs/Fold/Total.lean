import FormulaLang.Grammar.Default
import FormulaLang.Proofs.Fold.Leftmost
import FormulaLang.Proofs.Fold.Replacement
import Mathlib.Data.List.Forall2

/-!
# Folding does not fail

A rule whose pattern suits its builder makes a node of whatever it matches (`Rule.build_ok_of_suits`), and so the tiers of
such rules fold every buffer (`foldTiers_ok`). All rules of the default grammar are of this kind (`suits_default`).
-/

namespace FormulaLang

/-- The shapes of sentences that are not raw text. -/
def Element.isNode : Element → Bool
  | space | symbol _ => false
  | _ => true

/-- The pattern has the sentences that the builder asks for. -/
def Rule.suits (r : Rule) : Bool :=
  match r.builder, r.pattern with
  | .spaceBefore, [.space, e] => e.isNode
  | .spaceAfter, [e, .space] => e.isNode
  | .functionCall, [.identifier, _] => true
  | .variableUse, [.identifier] => true
  | .binary, [_, _, _] => true
  | .implicit, [_, _] => true
  | .unary, [_, _] => true
  | _, _ => false

variable {resolve : Text → Option Function}

/-! ## What a pattern matches -/

theorem Element.isRaw_of_fits {e : Element} {n : Node} (he : e.isNode = true) (h : e.fits n = true) :
    n.isRaw = false := by
  cases n with
  | raw t => cases e <;> cases he <;> cases h
  | _ => rfl

theorem Element.raw_of_fits_space {n : Node} (h : Element.space.fits n = true) : ∃ t, n = .raw t := by
  cases n with
  | raw t => exact ⟨t, rfl⟩
  | _ => cases h

theorem Element.identifier_of_fits {n : Node} (h : Element.identifier.fits n = true) : ∃ p t, n = .identifier p t := by
  cases n with
  | identifier p t => exact ⟨p, t, rfl⟩
  | _ => cases h

theorem Rule.forall₂_fits_of_matchesHere {es : List Element} {ns : List Node} (h : Rule.matchesHere es ns = true) :
    List.Forall₂ (fun e n => e.fits n = true) es (ns.take es.length) := by
  induction es generalizing ns with
  | nil => exact .nil
  | cons e es ih =>
    cases ns with
    | nil => cases h
    | cons n ns =>
      simp only [Rule.matchesHere, Bool.and_eq_true] at h
      exact .cons h.1 (ih h.2)

/-- The match that a tier replaces fits the pattern of one of its rules. -/
theorem Tier.forall₂_fits_of_match? {t : Tier} (hne : ∀ r ∈ t.rules, r.pattern ≠ []) {ss : List Node} {m : Match}
    (h : t.match? ss = some m) :
    m.rule ∈ t.rules ∧ List.Forall₂ (fun e n => e.fits n = true) m.rule.pattern m.window := by
  induction ss generalizing m with
  | nil =>
    rw [Tier.match?_nil hne] at h
    cases h
  | cons n ss ih =>
    rw [Tier.match?_cons] at h
    split at h
    · rename_i r hr
      have hmatch := List.find?_some hr
      cases h
      exact ⟨List.mem_of_find?_eq_some hr, Rule.forall₂_fits_of_matchesHere hmatch⟩
    · obtain ⟨m', hm', rfl⟩ := Option.map_eq_some_iff.1 h
      have hrest := ih hm'
      exact hrest

/-! ## Rules that make a node of whatever they match -/

theorem Rule.pattern_ne_nil_of_suits {r : Rule} (h : r.suits = true) : r.pattern ≠ [] := by
  intro hnil
  unfold Rule.suits at h
  rw [hnil] at h
  cases hb : r.builder <;> simp [hb] at h

/-- A suitable rule makes a node of what it matches. -/
theorem Rule.build_ok_of_suits {r : Rule} (h : r.suits = true) {matched : List Node}
    (hm : List.Forall₂ (fun e n => e.fits n = true) r.pattern matched) : ∃ n, r.build resolve matched = .ok n := by
  unfold Rule.suits at h
  split at h
  · rename_i e hb hp
    rw [hp] at hm
    obtain _ | ⟨hspace, _ | ⟨hnode, ⟨⟩⟩⟩ := hm
    obtain ⟨t, rfl⟩ := Element.raw_of_fits_space hspace
    exact ⟨_, (Rule.Builds.spaceBefore hb (Element.isRaw_of_fits h hnode)).build_eq⟩
  · rename_i e hb hp
    rw [hp] at hm
    obtain _ | ⟨hnode, _ | ⟨hspace, ⟨⟩⟩⟩ := hm
    obtain ⟨t, rfl⟩ := Element.raw_of_fits_space hspace
    exact ⟨_, (Rule.Builds.spaceAfter hb (Element.isRaw_of_fits h hnode)).build_eq⟩
  · rename_i e hb hp
    rw [hp] at hm
    obtain _ | ⟨hname, _ | ⟨-, ⟨⟩⟩⟩ := hm
    obtain ⟨p, t, rfl⟩ := Element.identifier_of_fits hname
    exact ⟨_, (Rule.Builds.functionCall hb rfl).build_eq⟩
  · rename_i hb hp
    rw [hp] at hm
    obtain _ | ⟨hname, ⟨⟩⟩ := hm
    obtain ⟨p, t, rfl⟩ := Element.identifier_of_fits hname
    exact ⟨_, (Rule.Builds.variableUse hb).build_eq⟩
  · rename_i hb hp
    rw [hp] at hm
    obtain _ | ⟨-, _ | ⟨-, _ | ⟨-, ⟨⟩⟩⟩⟩ := hm
    exact ⟨_, (Rule.Builds.binary hb).build_eq⟩
  · rename_i hb hp
    rw [hp] at hm
    obtain _ | ⟨-, _ | ⟨-, ⟨⟩⟩⟩ := hm
    exact ⟨_, (Rule.Builds.implicit hb).build_eq⟩
  · rename_i hb hp
    rw [hp] at hm
    obtain _ | ⟨-, _ | ⟨-, ⟨⟩⟩⟩ := hm
    exact ⟨_, (Rule.Builds.unary hb).build_eq⟩
  · cases h

/-! ## Tiers -/

theorem Tier.fold_ok {t : Tier} (h : ∀ r ∈ t.rules, r.suits = true) (ss : List Node) :
    ∃ out, (t.fold resolve ss).result = .ok out := by
  induction hk : weight ss using Nat.strong_induction_on generalizing ss with
  | _ k ih =>
    cases hm : t.match? ss with
    | none => exact ⟨ss, Tier.result_fold_of_none hm⟩
    | some m =>
      obtain ⟨hr, hfits⟩ := Tier.forall₂_fits_of_match? (fun r hr => Rule.pattern_ne_nil_of_suits (h r hr)) hm
      have hbuild : ∃ n, m.rule.build resolve m.window = .ok n := Rule.build_ok_of_suits (h m.rule hr) hfits
      obtain ⟨n, hn⟩ := hbuild
      obtain ⟨out, hout⟩ := ih _ (hk ▸ Tier.weight_replace_lt hm hn) _ rfl
      exact ⟨out, (Tier.result_fold_of_build hm hn).trans hout⟩

/-- **Tiers** of suitable rules fold every buffer. -/
theorem foldTiers_ok {ts : List Tier} (h : ∀ t ∈ ts, ∀ r ∈ t.rules, r.suits = true) (ss : List Node) :
    ∃ out, (foldTiers ts resolve ss).result = .ok out := by
  induction ts generalizing ss with
  | nil => exact ⟨ss, foldTiers_nil_ok_iff.2 rfl⟩
  | cons t ts ih =>
    have hfold : ∃ mid, (t.fold resolve ss).result = .ok mid := Tier.fold_ok (h t List.mem_cons_self) ss
    obtain ⟨mid, hmid⟩ := hfold
    obtain ⟨out, hout⟩ := ih (fun u hu => h u (List.mem_cons_of_mem _ hu)) mid
    exact ⟨out, foldTiers_cons_ok_iff.2 ⟨mid, hmid, hout⟩⟩

/-- The rules of the default grammar are suitable. -/
theorem suits_default : ∀ t ∈ Grammar.default.tiers, ∀ r ∈ t.rules, r.suits = true := by
  decide

end FormulaLang
