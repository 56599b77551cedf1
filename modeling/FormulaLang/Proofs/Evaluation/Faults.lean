import FormulaLang.Function.Basic
import FormulaLang.Function.Registry

/-!
# The faults of a calculation

The operations and functions of the language fail in one way only: with a calculation fault, which an evaluation takes as
the lack of a result. `Calculates` says so of a single computation; it passes from the parts of a computation to the whole
(`Calculates.bind`), and every function that is not the caller's own calculates (`Standard.calculates_apply`,
`Builtin.calculates_apply`).
-/

namespace FormulaLang

variable {α β : Type}

/-- A computation in steps has a result only when each step has one. -/
theorem exists_ok_of_bind {x : Except Fault α} {f : α → Except Fault β} {b : β} (h : x >>= f = .ok b) :
    ∃ a, x = .ok a ∧ f a = .ok b := by
  cases x with
  | error e => cases h
  | ok a => exact ⟨a, rfl, h⟩

/-- A computation that fails with calculation faults alone. -/
def Calculates (x : Except Fault α) : Prop :=
  ∀ e, x = .error e → e.isCalculation = true

namespace Calculates

@[simp] theorem ok (a : α) : Calculates (.ok a) := by
  intro e h
  cases h

@[simp] theorem pure (a : α) : Calculates (pure a : Except Fault α) :=
  ok a

@[simp] theorem error_iff {e : Fault} : Calculates (.error e : Except Fault α) ↔ e.isCalculation = true := by
  simp [Calculates]

@[simp] theorem throw_iff {e : Fault} : Calculates (throw e : Except Fault α) ↔ e.isCalculation = true :=
  error_iff

/-- A computation in steps calculates when each step does. -/
@[simp] theorem bind {x : Except Fault α} {f : α → Except Fault β} (hx : Calculates x) (hf : ∀ a, Calculates (f a)) :
    Calculates (x >>= f) := by
  cases x with
  | error d =>
    intro e h
    cases h
    exact hx _ rfl
  | ok a => exact hf a

@[simp] theorem map {x : Except Fault α} (f : α → β) (hx : Calculates x) : Calculates (f <$> x) := by
  cases x with
  | error d =>
    intro e h
    cases h
    exact hx _ rfl
  | ok a => exact ok (f a)

@[simp] theorem mapM {f : α → Except Fault β} (hf : ∀ a, Calculates (f a)) (xs : List α) : Calculates (xs.mapM f) := by
  induction xs with
  | nil => exact ok []
  | cons x xs ih =>
    rw [List.mapM_cons]
    exact bind (hf x) fun y => bind ih fun ys => ok (y :: ys)

end Calculates

@[simp] theorem Fault.isCalculation_of_calculation :
    zeroDivision.isCalculation = true ∧ overflow.isCalculation = true ∧ domain.isCalculation = true ∧
      argument.isCalculation = true ∧ digitLimit.isCalculation = true ∧ ∀ t, (notNumeric t).isCalculation = true :=
  ⟨rfl, rfl, rfl, rfl, rfl, fun _ => rfl⟩

/-! ## Scalars -/

namespace Scalar

@[simp] theorem calculates_ofInt? (n : Int) : Calculates (Binary64.ofInt? n) := by
  unfold Binary64.ofInt?
  dsimp only
  split <;> simp

@[simp] theorem calculates_toFloat (a : Scalar) : Calculates a.toFloat := by
  unfold toFloat
  split <;> simp

@[simp] theorem calculates_arithmetic (f : Int → Int → Int) (g : Float → Float → Float) (a b : Scalar) :
    Calculates (arithmetic f g a b) := by
  unfold arithmetic
  split <;> simp

@[simp] theorem calculates_add (a b : Scalar) : Calculates (a.add b) :=
  calculates_arithmetic _ _ a b

@[simp] theorem calculates_sub (a b : Scalar) : Calculates (a.sub b) :=
  calculates_arithmetic _ _ a b

@[simp] theorem calculates_mul (a b : Scalar) : Calculates (a.mul b) :=
  calculates_arithmetic _ _ a b

@[simp] theorem calculates_divInt (m n : Int) : Calculates (divInt m n) := by
  unfold divInt
  split
  · simp
  · dsimp only
    split <;> simp

@[simp] theorem calculates_div (a b : Scalar) : Calculates (a.div b) := by
  unfold div
  split
  · simp
  · refine (calculates_toFloat _).bind fun x => (calculates_toFloat _).bind fun y => ?_
    split <;> simp

@[simp] theorem calculates_floor (a : Scalar) : Calculates a.floor := by
  unfold floor
  split
  · simp
  · split <;> simp
  · simp

@[simp] theorem calculates_truncate (a : Scalar) : Calculates a.truncate := by
  unfold truncate
  split
  · simp
  · split <;> simp
  · simp

@[simp] theorem calculates_round (a : Scalar) : Calculates a.round :=
  (calculates_add a _).bind calculates_floor

end Scalar

/-! ## Functions of doubles and of naturals -/

section Library

/-- An infinite result is an overflow. -/
theorem calculates_finite (r : Float) :
    Calculates (if Power.isInfinite r then .error .overflow else .ok r : Except Fault Float) := by
  split <;> simp

@[simp] theorem Elementary.calculates_checked (f : Float → Float) (grows : Bool) (x : Float) :
    Calculates (Elementary.checked f grows x) := by
  unfold Elementary.checked
  dsimp only
  split
  · simp
  · split
    · split <;> simp
    · simp

@[simp] theorem Elementary.calculates_ldexp (x : Float) (e : Int) : Calculates (Elementary.ldexp x e) := by
  unfold Elementary.ldexp
  split
  · split
    · simp
    · exact calculates_finite _
  · simp

@[simp] theorem Elementary.calculates_logFloat (f : Float → Float) (x : Float) : Calculates (Elementary.logFloat f x) := by
  unfold Elementary.logFloat
  split
  · simp
  · split <;> simp

@[simp] theorem Elementary.calculates_logScalar (f : Float → Float) (s : Scalar) :
    Calculates (Elementary.logScalar f s) := by
  unfold Elementary.logScalar
  split
  · split
    · simp
    · split <;> simp
  · simp

@[simp] theorem Power.calculates_pow (x y : Float) : Calculates (Power.pow x y) := by
  unfold Power.pow
  split
  · dsimp only
    split
    · simp
    · split
      · split <;> simp
      · simp
  · simp

@[simp] theorem Power.calculates_exactRemainder (f : Nat → Nat → Int) (x y : Float) :
    Calculates (Power.exactRemainder f x y) := by
  unfold Power.exactRemainder
  split
  · simp
  · simp
  · simp
  · simp
  · split <;> simp

@[simp] theorem Power.calculates_fmod (x y : Float) : Calculates (Power.fmod x y) :=
  Power.calculates_exactRemainder _ x y

@[simp] theorem Power.calculates_remainder (x y : Float) : Calculates (Power.remainder x y) :=
  Power.calculates_exactRemainder _ x y

@[simp] theorem Gamma.calculates_gamma (x : Float) : Calculates (Gamma.gamma x) := by
  unfold Gamma.gamma
  split
  · simp
  · split
    · split <;> simp
    · dsimp only
      split
      · split
        · simp
        · split
          · simp
          · split
            · simp
            · exact calculates_finite _
      · split
        · exact calculates_finite _
        · split
          · split <;> simp
          · exact calculates_finite _

@[simp] theorem Gamma.calculates_logGamma (x : Float) : Calculates (Gamma.logGamma x) := by
  unfold Gamma.logGamma
  split
  · simp
  · split
    · simp
    · dsimp only
      split
      · simp
      · split
        · simp
        · split
          · simp
          · exact calculates_finite _

@[simp] theorem Combinatorics.calculates_natural (n : Int) : Calculates (Combinatorics.natural n) := by
  unfold Combinatorics.natural
  split <;> simp

@[simp] theorem Combinatorics.calculates_factorial (n : Int) : Calculates (Combinatorics.factorial n) := by
  refine (Combinatorics.calculates_natural n).bind fun n => ?_
  dsimp only
  split <;> simp

end Library

/-! ## Functions of values -/

namespace Value

@[simp] theorem calculates_toScalar (v : Value) : Calculates v.toScalar := by
  cases v <;> simp [toScalar]

@[simp] theorem calculates_toFloat (v : Value) : Calculates v.toFloat :=
  v.calculates_toScalar.bind Scalar.calculates_toFloat

@[simp] theorem calculates_toInt (v : Value) : Calculates v.toInt := by
  unfold toInt
  split <;> simp

end Value

@[simp] theorem Operation.calculates_onFloats {f : Float → Float → Except Fault Float} (hf : ∀ x y, Calculates (f x y))
    (a b : Value) : Calculates (Operation.onFloats f a b) :=
  a.calculates_toFloat.bind fun x => b.calculates_toFloat.bind fun y => (hf x y).bind fun _ => .ok _

namespace Color

@[simp] theorem calculates_ofChannels (r g b : Scalar) : Calculates (ofChannels r g b) :=
  r.calculates_round.bind fun _ => g.calculates_round.bind fun _ => b.calculates_round.bind fun _ => .ok _

@[simp] theorem calculates_ofScalar (s : Scalar) : Calculates (ofScalar s) :=
  s.calculates_truncate.bind fun _ => .ok _

@[simp] theorem calculates_rotateHue (c : Color) (angle : Scalar) : Calculates (c.rotateHue angle) := by
  refine angle.calculates_toFloat.bind fun x => ?_
  refine (Elementary.calculates_checked Float.cos false x).bind fun cosine => ?_
  exact (Elementary.calculates_checked Float.sin false x).bind fun sine => calculates_ofChannels _ _ _

@[simp] theorem calculates_scale (c : Color) (factor : Scalar) : Calculates (c.scale factor) := by
  refine (Scalar.calculates_mul _ factor).bind fun r => (Scalar.calculates_mul _ factor).bind fun g => ?_
  exact (Scalar.calculates_mul _ factor).bind fun b => calculates_ofChannels r g b

end Color

namespace Builtin

theorem calculates_floorMod (a b : Scalar) : Calculates (floorMod a b) := by
  refine (a.calculates_div b).bind fun q => q.calculates_floor.bind fun n => ?_
  exact (Scalar.calculates_mul _ b).bind fun c => a.calculates_sub c

theorem calculates_angleOf (a b : Scalar) : Calculates (angleOf a b) := by
  unfold angleOf
  dsimp only
  split
  · split <;> simp [calculates_floorMod]
  · simp [calculates_floorMod]

theorem calculates_triangleAt (x x0 y0 slope : Scalar) : Calculates (triangleAt x x0 y0 slope) :=
  (x.calculates_sub x0).bind fun gap => (slope.calculates_mul gap.abs).bind fun d => y0.calculates_sub d

theorem calculates_distanceOf (a b : Scalar) : Calculates (distanceOf a b) := by
  refine (a.calculates_mul a).bind fun x => (b.calculates_mul b).bind fun y => (x.calculates_add y).bind fun s => ?_
  simp

/-- The functions of the language calculate. -/
theorem calculates_apply (f : Builtin) (args : List Value) : Calculates (f.apply args) := by
  have hscalars (xs : List Scalar) : Calculates (f.onScalars xs) := by
    unfold onScalars
    split <;> simp [calculates_floorMod, calculates_angleOf, calculates_triangleAt, calculates_distanceOf]
  exact (Calculates.mapM Value.calculates_toScalar args).bind fun xs => (hscalars xs).bind fun _ => .ok _

end Builtin

namespace Standard

@[simp] theorem calculates_real {f : Float → Except Fault Float} (hf : ∀ x, Calculates (f x)) (v : Value) :
    Calculates (real f v) :=
  v.calculates_toFloat.bind fun x => (hf x).bind fun _ => .ok _

@[simp] theorem calculates_analytic (f : Float → Float) (grows : Bool) (v : Value) : Calculates (analytic f grows v) :=
  calculates_real (Elementary.calculates_checked f grows) v

@[simp] theorem calculates_test (f : Float → Bool) (v : Value) : Calculates (test f v) :=
  v.calculates_toFloat.bind fun _ => .ok _

@[simp] theorem calculates_whole {f : Scalar → Except Fault Int} (hf : ∀ s, Calculates (f s)) (v : Value) :
    Calculates (whole f v) :=
  v.calculates_toScalar.bind fun s => (hf s).bind fun _ => .ok _

@[simp] theorem calculates_logBase (x base : Value) : Calculates (logBase x base) := by
  refine x.calculates_toScalar.bind fun s => (Elementary.calculates_logScalar _ s).bind fun num => ?_
  refine base.calculates_toScalar.bind fun s => (Elementary.calculates_logScalar _ s).bind fun den => ?_
  dsimp only
  split <;> simp

@[simp] theorem calculates_ceiling (s : Scalar) : Calculates (ceiling s) :=
  s.neg.calculates_floor.bind fun _ => .ok _

@[simp] theorem calculates_best (choose : Scalar → Scalar → Scalar) (vs : List Value) : Calculates (best choose vs) := by
  unfold best
  split
  · exact (Value.calculates_toScalar _).bind fun s =>
      (Calculates.mapM Value.calculates_toScalar _).bind fun _ => .ok _
  · simp

/-- The functions of the numeric library calculate. -/
theorem calculates_apply (f : Standard) (args : List Value) : Calculates (f.apply args) := by
  unfold apply
  split
  case h_10 | h_45 =>
    exact (Value.calculates_toInt _).bind fun n => (Value.calculates_toInt _).bind fun k => by simp
  case h_34 => exact (Value.calculates_toFloat _).bind fun x => by simp
  all_goals simp

end Standard

/-! ## Functions of a formula -/

/-- The function is one of the caller's own. -/
def Function.isCustom : Function → Bool
  | custom _ => true
  | _ => false

/-- A registry without registrations knows no functions of the caller's own. -/
theorem Registry.isCustom_of_resolve? {name : Text} {f : Function} (h : Registry.initial.resolve? name = some f) :
    f.isCustom = false := by
  have hcases := h
  simp only [Registry.resolve?, Registry.initial, List.lookup_nil, Option.none_or, Option.or_eq_some_iff,
    Option.map_eq_some_iff] at hcases
  obtain ⟨g, -, rfl⟩ | ⟨-, g, -, rfl⟩ := hcases <;> rfl

end FormulaLang
