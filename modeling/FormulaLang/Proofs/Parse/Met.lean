import FormulaLang.Formula.Basic
import FormulaLang.Proofs.Fold.Replacement
import Mathlib.Data.List.Forall2

/-!
# The variables that a computation meets

The names of the variables that a computation meets, in the order of its trace, next to its result (`Traced.Meets`): one
computation after another meets the names of the first and then those of the second (`Traced.Meets.bind`), and a tier meets
those that its replacements look up in turn (`Tier.meets_fold`).
-/

namespace FormulaLang

open Formula (metVariables)

theorem metVariables_append (xs ys : List Event) : metVariables (xs ++ ys) = metVariables xs ++ metVariables ys :=
  List.filterMap_append

/-- If the computation has a result, this and the names of the variables it has met are in the relation. -/
def Traced.Meets {ε α : Type} (R : α → List Text → Prop) (x : Traced ε α) : Prop :=
  ∀ a, x.result = .ok a → R a (metVariables x.events)

namespace Traced

variable {ε ε' α β : Type} {R : α → List Text → Prop} {S : β → List Text → Prop} {x : Traced ε α} {f : α → Traced ε β}

theorem meets_pure {a : α} (h : R a []) : (pure a : Traced ε α).Meets R := by
  rintro b ⟨⟩
  exact h

theorem meets_fail (e : ε) : (fail e : Traced ε α).Meets R :=
  fun _ h => by cases h

theorem Meets.imp {R' : α → List Text → Prop} (h : x.Meets R) (himp : ∀ a names, R a names → R' a names) : x.Meets R' :=
  fun a ha => himp _ _ (h a ha)

theorem Meets.mapError (h : x.Meets R) (g : ε → ε') : (x.mapError g).Meets R := by
  intro a ha
  rw [result_mapError, mapError_eq_ok_iff] at ha
  exact h a ha

/-- One computation after another: the names of the second one come behind those of the first. -/
theorem Meets.bind (h : x.Meets R) (hf : ∀ a names, R a names → (f a).Meets fun b more => S b (names ++ more)) :
    (x >>= f).Meets S := by
  intro b hb
  cases ha : x.result with
  | error e =>
    rw [bind_of_error ha] at hb
    cases hb
  | ok a =>
    rw [bind_of_ok ha] at hb ⊢
    rw [metVariables_append]
    exact hf a _ (h a ha) b hb

/-- An event that is no variable meets no names. -/
theorem Meets.emit {e : Event} (he : metVariables [e] = []) {y : Traced ε β} (h : y.Meets S) :
    (Traced.emit e >>= fun _ => y).Meets S := by
  refine Meets.bind (R := fun _ names => names = []) (fun _ _ => he) ?_
  rintro _ _ rfl
  exact h

/-- The work on the members of a list meets the names of each in turn. -/
theorem meets_onEach {xs : List α} {f : (x : α) → x ∈ xs → Traced ε β} (own : β → List Text) {P : α → β → Prop}
    (h : ∀ x hx, (f x hx).Meets fun y names => names = own y ∧ P x y) :
    (onEach xs f).Meets fun ys names => names = ys.flatMap own ∧ List.Forall₂ P xs ys := by
  induction xs with
  | nil => exact meets_pure ⟨rfl, .nil⟩
  | cons x rest ih =>
    refine (h x List.mem_cons_self).bind ?_
    rintro y _ ⟨rfl, hy⟩
    refine (ih fun z hz => h z (List.mem_cons_of_mem x hz)).bind ?_
    rintro ys _ ⟨rfl, hys⟩
    exact meets_pure ⟨by rw [List.append_nil, List.flatMap_cons], .cons hy hys⟩

end Traced

/-- What holds of a buffer without a match, and is kept by a replacement with the names it looks up, holds of a tier. -/
theorem Tier.meets_fold {t : Tier} {resolve : Text → Option Function} {R : List Node → List Node → List Text → Prop}
    (done : ∀ ss, t.match? ss = none → R ss ss [])
    (replace : ∀ ss m n out names, t.match? ss = some m → m.rule.build resolve m.window = .ok n →
      R (m.before ++ n :: m.after) out names → R ss out (metVariables (m.rule.lookups resolve m.window) ++ names))
    (ss : List Node) : (t.fold resolve ss).Meets (R ss) := by
  induction hk : weight ss using Nat.strong_induction_on generalizing ss with
  | _ k ih =>
    rw [Tier.fold]
    split
    · rename_i hm
      exact Traced.meets_pure (done ss hm)
    · rename_i m hm
      split
      · exact fun _ h => by cases h
      · rename_i n hn
        have hlookups : (⟨.ok (), m.rule.lookups resolve m.window ++ [.replaced m.before m.window n m.rule.keepsNode]⟩ :
            Traced Stuck Unit).Meets fun _ names => names = metVariables (m.rule.lookups resolve m.window) := by
          intro _ _
          rw [metVariables_append]
          exact List.append_nil _
        refine hlookups.bind ?_
        rintro _ _ rfl
        exact (ih _ (hk ▸ Tier.weight_replace_lt hm hn) _ rfl).imp fun out names => replace ss m n out names hm hn

end FormulaLang
