import FormulaLang.Function.Value
import FormulaLang.Number.Elementary
import FormulaLang.Number.Word32
import FormulaLang.Text.Quoted

/-!
# Colors

A color is a 32-bit word whose low three bytes are its red, green and blue channels. Channels are packed after rounding and
clamping them to a byte.
-/

namespace FormulaLang

/-- Half-up rounding to an integer. -/
def Scalar.round (s : Scalar) : Except Fault Int := do
  (← s.add (.float 0.5)).floor

/-- A color packed into a word. -/
structure Color where
  word : BitVec 32
  deriving DecidableEq

namespace Color

/-- The color of the low bits of an integer. -/
def ofInt (n : Int) : Color :=
  ⟨Word32.ofInt n⟩

/-- The packed value, as a signed word. -/
def value (c : Color) : Int :=
  c.word.toInt

/-- The red channel. -/
def red (c : Color) : Nat :=
  ((c.word &&& 0xFF0000#32) >>> 16).toNat

/-- The green channel. -/
def green (c : Color) : Nat :=
  ((c.word &&& 0x00FF00#32) >>> 8).toNat

/-- The blue channel. -/
def blue (c : Color) : Nat :=
  (c.word &&& 0x0000FF#32).toNat

/-- An integer clamped to a byte. -/
def octet (n : Int) : Int :=
  max 0 (min n 255)

/-- The color of three channels that are bytes. -/
def pack (r g b : Int) : Color :=
  ofInt (Word32.bitOr (Word32.bitOr (Word32.shiftLeft r 16) (Word32.shiftLeft g 8)) b)

/-- The color of three channels, each rounded and clamped. -/
def ofChannels (r g b : Scalar) : Except Fault Color := do
  let r ← r.round
  let g ← g.round
  let b ← b.round
  return pack (octet r) (octet g) (octet b)

/-- The color of a scalar's integer part. -/
def ofScalar (s : Scalar) : Except Fault Color := do
  return ofInt (← s.truncate)

/-- The weighted sum of the three channels. -/
def mix (c : Color) (r g b : Float) : Float :=
  Float.ofNat c.red * r + Float.ofNat c.green * g + Float.ofNat c.blue * b

/-- The color turned around the gray axis by an angle. -/
def rotateHue (c : Color) (angle : Scalar) : Except Fault Color := do
  let angle ← angle.toFloat
  let cosine ← Elementary.checked Float.cos false angle
  let sine ← Elementary.checked Float.sin false angle
  let third : Float := 1 / 3
  let share := third * (1 - cosine)
  let root := third.sqrt
  let m0 := share + cosine
  let m1 := share - root * sine
  let m2 := share + root * sine
  ofChannels (.float (c.mix m0 m1 m2)) (.float (c.mix m2 m0 m1)) (.float (c.mix m1 m2 m0))

/-- The color with every channel multiplied by a factor. -/
def scale (c : Color) (factor : Scalar) : Except Fault Color := do
  ofChannels (← Scalar.mul (.int c.red) factor) (← Scalar.mul (.int c.green) factor) (← Scalar.mul (.int c.blue) factor)

/-- The color as six hexadecimal digits. -/
def text (c : Color) : Text :=
  "Color<#".toList ++ Text.hexDigits (c.word.toNat % 0x1000000) 6 ++ ['>']

end Color

end FormulaLang
