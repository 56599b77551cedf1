import FormulaLang.Function.Color

/-!
# Built-in functions

The functions of the language itself: bounds and steps, the floored modulo, angles and distances, and colors.
-/

namespace FormulaLang

/-- A function of the language. -/
inductive Builtin where
  | minmax | range | pi | modulo | complexAngle | triangle | distance | heaviside | gate | ramp
  | rgb | red | green | blue | rotateHue | brighten
  deriving DecidableEq, Repr

namespace Builtin

/-- Every function with its name. -/
def names : List (Text × Builtin) :=
  [("minmax".toList, minmax), ("range".toList, range), ("pi".toList, pi), ("modulo".toList, modulo),
    ("angle_complexe".toList, complexAngle), ("triangle".toList, triangle), ("distance".toList, distance),
    ("heaviside".toList, heaviside), ("porte".toList, gate), ("pente_cosale".toList, ramp), ("rgb".toList, rgb),
    ("red".toList, red), ("green".toList, green), ("blue".toList, blue), ("huerotate".toList, rotateHue),
    ("lumiere".toList, brighten)]

/-- `x` moved into the bounds `lo` and `hi`. -/
def clamp (lo x hi : Scalar) : Scalar :=
  lo.max (x.min hi)

/-- The remainder of the floored quotient; it takes the sign of the divisor. -/
def floorMod (a b : Scalar) : Except Fault Scalar := do
  let q ← (← a.div b).floor
  a.sub (← Scalar.mul (.int q) b)

/-- One when `x` lies within the bounds, zero otherwise. -/
def between (lo x hi : Scalar) : Scalar :=
  .int (if lo.atMost x && x.atMost hi then 1 else 0)

/-- The angle of the complex number with parts `a` and `b`, from zero up to two pi. -/
def angleOf (a b : Scalar) : Except Fault Scalar := do
  let angle ←
    if a.same (.int 0) then
      if b.truthy then do
        let y ← b.toFloat
        pure (Power.copySign (Elementary.pi / 2) y)
      else pure Elementary.nan
    else do
      let x ← (← b.div a).toFloat
      pure x.atan
  let turned := angle + (if a.less (.int 0) then Elementary.pi else 0)
  floorMod (.float turned) (.float (2 * Elementary.pi))

/-- A triangle of height `y0` over `x0` with the given slope. -/
def triangleAt (x x0 y0 slope : Scalar) : Except Fault Scalar := do
  let gap ← x.sub x0
  y0.sub (← slope.mul gap.abs)

/-- The length of the vector with parts `a` and `b`. -/
def distanceOf (a b : Scalar) : Except Fault Scalar := do
  let x ← (← (← a.mul a).add (← b.mul b)).toFloat
  return .float (← Elementary.checked Float.sqrt false x)

/-- A function on scalars; any other number of arguments is a fault. -/
def onScalars : Builtin → List Scalar → Except Fault Scalar
  | minmax, [lo, x, hi] => .ok (clamp lo x hi)
  | range, [lo, x, hi] => .ok (between lo x hi)
  | pi, [] => .ok (.float Elementary.pi)
  | modulo, [a, b] => floorMod a b
  | complexAngle, [a, b] => angleOf a b
  | triangle, [x, x0, y0, slope] => triangleAt x x0 y0 slope
  | distance, [a, b] => distanceOf a b
  | heaviside, [t] => .ok (.int (if (Scalar.int 0).atMost t then 1 else 0))
  | gate, [t, t1, t2] => .ok (between t1 t t2)
  | ramp, [t] => .ok (if (Scalar.int 0).atMost t then t else .int 0)
  | rgb, [r, g, b] => do return .int (← Color.ofChannels r g b).value
  | red, [c] => do return .int (← Color.ofScalar c).red
  | green, [c] => do return .int (← Color.ofScalar c).green
  | blue, [c] => do return .int (← Color.ofScalar c).blue
  | rotateHue, [c, angle] => do return .int (← (← Color.ofScalar c).rotateHue angle).value
  | brighten, [c, factor] => do return .int (← (← Color.ofScalar c).scale factor).value
  | _, _ => .error .argument

/-- A function applied to its arguments. -/
def apply (f : Builtin) (args : List Value) : Except Fault Value := do
  return .scalar (← f.onScalars (← args.mapM Value.toScalar))

end Builtin

end FormulaLang
