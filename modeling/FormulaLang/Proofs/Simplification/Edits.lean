import FormulaLang.Formula.Session
import FormulaLang.Proofs.Simplification.Agreement

/-!
# Simplification never changes a result

A formula may be bound and simplified in any order (`Formula.Edit`). What its value is afterwards depends on the bindings
alone (`Formula.value_edit`): leaving out the simplifications gives the same number, or no number either, and where every
group with several parameters is the argument of a call, the same result altogether.

The invariant of a run of edits is that both formulas have the same variable table and that their trees agree
(`Formula.Parallel`).
-/

namespace FormulaLang

variable {σ : Type} {host : Host σ} {isVolatile : Function → Bool}

/-- The number is this integer. -/
def Scalar.isInt (n : Int) : Scalar → Bool
  | .int m => m == n
  | _ => false

theorem Scalar.eq_of_isInt {n : Int} {v : Scalar} (h : v.isInt n = true) : v = .int n := by
  cases v with
  | int m => rw [beq_iff_eq.1 h]
  | _ => cases h

theorem numberOf_eq_some_iff {e : Except Fault Result} {v : Scalar} : numberOf e = some v ↔ e = .ok (.number v) := by
  rcases e with d | (w | t) <;> simp [numberOf, Result.toNumber?]

namespace Formula

/-- What can be done to a formula. -/
inductive Edit where
  | bind (name : Text) (v : Value)
  | simplify

/-- Carries out an edit. -/
def Edit.apply (host : Host σ) (isVolatile : Function → Bool) (f : Formula) : Edit → Action σ Formula
  | bind name v => return f.bind name v
  | simplify => f.simplify host isVolatile

/-- Carries out edits one after another; the first one that fails ends the work. -/
def edit (host : Host σ) (isVolatile : Function → Bool) (f : Formula) : List Edit → Action σ Formula
  | [] => return f
  | e :: edits => do
    let g ← e.apply host isVolatile f
    edit host isVolatile g edits

/-- The formula with the bindings among the edits and without the simplifications. -/
def bindOnly (f : Formula) : List Edit → Formula
  | [] => f
  | .bind name v :: edits => (f.bind name v).bindOnly edits
  | .simplify :: edits => f.bindOnly edits

/-- The formula `f` has the bindings of `g`, and its tree agrees with that of `g`. -/
structure Parallel (host : Host σ) (f g : Formula) : Prop where
  slots : f.slots = g.slots
  agree : Agree host g.root f.root

namespace Parallel

variable {f g : Formula}

theorem refl (host : Host σ) (f : Formula) : Parallel host f f :=
  ⟨rfl, Agree.refl host f.root⟩

theorem bind (h : Parallel host f g) (name : Text) (v : Value) : Parallel host (f.bind name v) (g.bind name v) :=
  ⟨by simp [Formula.bind, h.slots], h.agree⟩

theorem simplify (h : Parallel host f g) (hdet : ∀ fn ∈ g.root.functions, fn.Deterministic host) {f' : Formula}
    {st st' : σ} (hs : f.simplify host isVolatile st = (.ok f', st')) : Parallel host f' g := by
  obtain ⟨n, mid, hn, hs⟩ := Action.run_bind_ok hs
  cases hs
  exact ⟨h.slots, h.agree.trans (agree_of_simplify (h.agree.callsOnly hdet) hn)⟩

/-- The invariant holds after every run of edits. -/
theorem edit (h : Parallel host f g) (hdet : ∀ fn ∈ g.root.functions, fn.Deterministic host) {edits : List Edit}
    {f' : Formula} {st st' : σ} (he : f.edit host isVolatile edits st = (.ok f', st')) :
    Parallel host f' (g.bindOnly edits) := by
  induction edits generalizing f g st with
  | nil =>
    cases he
    exact h
  | cons e edits ih =>
    obtain ⟨f₁, mid, h₁, hrest⟩ := Action.run_bind_ok he
    cases e with
    | bind name v =>
      cases h₁
      exact ih (h.bind name v) hdet hrest
    | simplify => exact ih (h.simplify hdet h₁) hdet hrest

theorem lookup_eq (h : Parallel host f g) : f.lookup = g.lookup := by
  funext r
  cases r <;> simp [Formula.lookup, Formula.slot?, h.slots]

end Parallel

theorem root_bindOnly (f : Formula) (edits : List Edit) : (f.bindOnly edits).root = f.root := by
  induction edits generalizing f with
  | nil => rfl
  | cons e edits ih => cases e <;> exact ih _

/-- **Simplification never changes a result**: after any run of edits a formula comes to the number that the bindings alone
make of it, or to no number either; where every group with several parameters is the argument of a call, it comes to the
same result. -/
theorem value_edit (l : Language) (t : Text) (edits : List Edit) {f' : Formula} {st st' : σ}
    (hdet : ∀ fn ∈ (parse l t).formula.root.functions, fn.Deterministic host)
    (he : (parse l t).formula.edit host isVolatile edits st = (.ok f', st')) :
    (∀ st v, (f'.value host).result st = .ok (.number v) ↔
      (((parse l t).formula.bindOnly edits).value host).result st = .ok (.number v)) ∧
    ((parse l t).formula.root.groupsAreArguments = true →
      f'.value host = ((parse l t).formula.bindOnly edits).value host) := by
  have h := (Parallel.refl host (parse l t).formula).edit hdet he
  refine ⟨fun st v => ?_, fun hg => ?_⟩
  · rw [← numberOf_eq_some_iff, ← numberOf_eq_some_iff, Formula.value, Formula.value, h.lookup_eq, h.agree.number]
  · rw [Formula.value, Formula.value, h.lookup_eq]
    exact h.agree.value (by rwa [root_bindOnly]) _

/-- A host that has no random numbers and no functions of its own. -/
def quietHost : Host Unit :=
  ⟨throw .argument, fun _ _ => throw .argument⟩

theorem value_edit_max :
    ∃ f', (parse .default "max(1,2)*x".toList).formula.edit quietHost Registry.initial.isVolatile
        [.simplify, .bind ['x'] (.int 3), .simplify] () = (.ok f', ()) ∧
      (f'.value quietHost).result () = .ok (.number (.int 6)) := by
  generalize ht : "max(1,2)*x".toList = t
  generalize hes : [Edit.simplify, .bind ['x'] (.int 3), .simplify] = edits
  have hfunctions : (parse .default t).formula.root.functions = [.standard .max] := by
    subst ht
    decide +kernel
  have hok : ((parse .default t).formula.edit quietHost Registry.initial.isVolatile edits ()).1.toOption.isSome = true := by
    subst ht hes
    decide +kernel
  have hsix : (numberOf ((((parse .default t).formula.bindOnly edits).value quietHost).result ())).any (Scalar.isInt 6) =
      true := by
    subst ht hes
    decide +kernel
  have hdet : ∀ fn ∈ (parse .default t).formula.root.functions, fn.Deterministic quietHost := by
    rw [hfunctions]
    exact List.forall_mem_singleton.2 (Function.deterministic_of_isPure rfl quietHost)
  rcases he : (parse .default t).formula.edit quietHost Registry.initial.isVolatile edits () with ⟨e | f', st⟩
  · rw [he] at hok
    cases hok
  · refine ⟨f', rfl, ((value_edit .default t edits hdet he).1 () (.int 6)).2 ?_⟩
    obtain ⟨v, hv, hint⟩ := (Option.any_eq_true _ _).1 hsix
    rw [numberOf_eq_some_iff.1 hv, Scalar.eq_of_isInt hint]

end Formula

end FormulaLang
