import FormulaLang.Proofs.Evaluation.Faults
import FormulaLang.Proofs.Number.Word32

/-!
# Packed colors

The channels of a color are the three lowest bytes of its word (`red_eq`, `green_eq`, `blue_eq`), so that those of an integer of
any size and sign make up the integer modulo `2 ^ 24`. Packing three bytes adds them up at their places (`value_pack`), since
no two of them have a bit in common, and they are read back from the sum. What a caller gives for a channel is rounded and
clamped to a byte first, and therefore the functions that make colors never leave the range of 24 bits (`unpack_pack`).
-/

namespace FormulaLang

namespace Word32

/-- A word is the word of its signed value. -/
@[simp] theorem ofInt_toInt (x : BitVec 32) : ofInt x.toInt = x :=
  BitVec.ofInt_toInt

theorem toNat_ofInt (n : Int) : ((ofInt n).toNat : Int) = n % 2 ^ 32 := by
  rw [ofInt, BitVec.toNat_ofInt]
  omega

end Word32

namespace Color

open Word32 (ofInt_toInt)

/-! ## Reading the channels -/

/-- A byte of a word. -/
theorem toNat_byte (x : BitVec 32) (k : Nat) : ((x >>> k) &&& 0xFF#32).toNat = x.toNat / 2 ^ k % 2 ^ 8 := by
  rw [BitVec.toNat_and, BitVec.toNat_ushiftRight, Nat.shiftRight_eq_div_pow]
  exact Nat.and_two_pow_sub_one_eq_mod _ 8

theorem red_eq (c : Color) : c.red = c.word.toNat / 2 ^ 16 % 2 ^ 8 := by
  rw [red, BitVec.ushiftRight_and_distrib]
  exact toNat_byte c.word 16

theorem green_eq (c : Color) : c.green = c.word.toNat / 2 ^ 8 % 2 ^ 8 := by
  rw [green, BitVec.ushiftRight_and_distrib]
  exact toNat_byte c.word 8

theorem blue_eq (c : Color) : c.blue = c.word.toNat % 2 ^ 8 := by
  rw [blue, ← BitVec.ushiftRight_zero c.word, toNat_byte, BitVec.ushiftRight_zero, Nat.pow_zero, Nat.div_one]

/-- **The channels** make up the three lowest bytes of the word. -/
theorem channels_eq (c : Color) : c.red * 2 ^ 16 + c.green * 2 ^ 8 + c.blue = c.word.toNat % 2 ^ 24 := by
  rw [red_eq, green_eq, blue_eq]
  omega

theorem channel_le (c : Color) : c.red ≤ 255 ∧ c.green ≤ 255 ∧ c.blue ≤ 255 := by
  rw [red_eq, green_eq, blue_eq]
  omega

/-! ## Packing bytes -/

/-- Three bytes at their places have no bit in common. -/
theorem or_bytes {r g b : Nat} (hg : g < 2 ^ 8) (hb : b < 2 ^ 8) :
    (r <<< 16 ||| g <<< 8) ||| b = r * 2 ^ 16 + g * 2 ^ 8 + b := by
  have hmiddle : g <<< 8 < 2 ^ 16 := by
    rw [Nat.shiftLeft_eq]
    omega
  have hhigh : r <<< 16 + g <<< 8 = (r * 2 ^ 8 + g) <<< 8 := by
    rw [Nat.shiftLeft_eq, Nat.shiftLeft_eq, Nat.shiftLeft_eq]
    omega
  rw [← Nat.shiftLeft_add_eq_or_of_lt hmiddle, hhigh, ← Nat.shiftLeft_add_eq_or_of_lt hb, Nat.shiftLeft_eq]
  omega

/-- A byte shifted to its place keeps all of its bits. -/
theorem toNat_shiftLeft {n k : Nat} (hn : n < 2 ^ 8) (hk : k ≤ 24) : (BitVec.ofNat 32 n <<< k).toNat = n <<< k := by
  have hpow : n * 2 ^ k < 2 ^ 8 * 2 ^ 24 :=
    Nat.mul_lt_mul_of_lt_of_le hn (Nat.pow_le_pow_right (by decide) hk) (by decide)
  rw [BitVec.toNat_shiftLeft, BitVec.toNat_ofNat, Nat.mod_eq_of_lt (by omega : n < 2 ^ 32), Nat.shiftLeft_eq]
  exact Nat.mod_eq_of_lt hpow

/-- **Packing** adds the bytes up at their places. -/
theorem toNat_pack {r g b : Nat} (hr : r < 2 ^ 8) (hg : g < 2 ^ 8) (hb : b < 2 ^ 8) :
    (pack r g b).word.toNat = r * 2 ^ 16 + g * 2 ^ 8 + b := by
  have hword (n : Nat) : Word32.ofInt n = BitVec.ofNat 32 n := BitVec.ofInt_natCast 32 n
  have hsixteen : Word32.shiftCount 16 = 16 := by decide
  have height : Word32.shiftCount 8 = 8 := by decide
  have hlow : (BitVec.ofNat 32 b).toNat = b := by
    rw [BitVec.toNat_ofNat]
    omega
  rw [← or_bytes hg hb]
  simp only [pack, ofInt, Word32.bitOr, Word32.shiftLeft, ofInt_toInt, hword, hsixteen, height, BitVec.toNat_or,
    toNat_shiftLeft hr (by decide : 16 ≤ 24), toNat_shiftLeft hg (by decide : 8 ≤ 24), hlow]

/-- **Packed bytes** are a value of 24 bits, from which they are read back. -/
theorem value_pack {r g b : Nat} (hr : r < 2 ^ 8) (hg : g < 2 ^ 8) (hb : b < 2 ^ 8) :
    (pack r g b).value = (r * 2 ^ 16 + g * 2 ^ 8 + b : Nat) ∧ (pack r g b).value < 2 ^ 24 ∧
      (pack r g b).red = r ∧ (pack r g b).green = g ∧ (pack r g b).blue = b := by
  have hword := toNat_pack hr hg hb
  have hvalue : (pack r g b).value = (pack r g b).word.toNat := by
    rw [value, BitVec.toInt_eq_toNat_of_lt]
    omega
  rw [red_eq, green_eq, blue_eq, hvalue, hword]
  omega

/-- An integer clamped to a byte is one. -/
theorem exists_octet (n : Int) : ∃ k : Nat, octet n = k ∧ k < 2 ^ 8 :=
  ⟨(octet n).toNat, by rw [octet]; omega, by rw [octet]; omega⟩

/-- **Channels** that round to integers make a color of them, clamped to bytes. -/
theorem ofChannels_eq {x y z : Scalar} {i j k : Int} (hx : x.round = .ok i) (hy : y.round = .ok j) (hz : z.round = .ok k) :
    ofChannels x y z = .ok (pack (octet i) (octet j) (octet k)) := by
  rw [ofChannels, hx, hy, hz]
  rfl

/-- A color is made only of channels that round to integers. -/
theorem exists_of_ofChannels {x y z : Scalar} {c : Color} (h : ofChannels x y z = .ok c) :
    ∃ i j k, x.round = .ok i ∧ y.round = .ok j ∧ z.round = .ok k := by
  obtain ⟨i, hi, h⟩ := exists_ok_of_bind h
  obtain ⟨j, hj, h⟩ := exists_ok_of_bind h
  obtain ⟨k, hk, -⟩ := exists_ok_of_bind h
  exact ⟨i, j, k, hi, hj, hk⟩

/-- The value of a color made of channels has 24 bits. -/
theorem value_ofChannels {x y z : Scalar} {c : Color} (h : ofChannels x y z = .ok c) : 0 ≤ c.value ∧ c.value < 2 ^ 24 := by
  obtain ⟨i, j, k, hi, hj, hk⟩ := exists_of_ofChannels h
  rw [ofChannels_eq hi hj hk] at h
  obtain ⟨r, hr, hr8⟩ := exists_octet i
  obtain ⟨g, hg, hg8⟩ := exists_octet j
  obtain ⟨b, hb, hb8⟩ := exists_octet k
  obtain rfl := Except.ok.inj h
  obtain ⟨hvalue, hbound, -⟩ := value_pack hr8 hg8 hb8
  rw [hr, hg, hb]
  exact ⟨by omega, hbound⟩

/-! ## Functions that make colors -/

/-- A turned color is made of channels. -/
theorem exists_of_rotateHue {c d : Color} {angle : Scalar} (h : c.rotateHue angle = .ok d) :
    ∃ x y z, ofChannels x y z = .ok d := by
  obtain ⟨turn, -, h⟩ := exists_ok_of_bind h
  obtain ⟨cosine, -, h⟩ := exists_ok_of_bind h
  obtain ⟨sine, -, h⟩ := exists_ok_of_bind h
  exact ⟨_, _, _, h⟩

/-- A brightened color is made of channels. -/
theorem exists_of_scale {c d : Color} {factor : Scalar} (h : c.scale factor = .ok d) :
    ∃ x y z, ofChannels x y z = .ok d := by
  obtain ⟨x, -, h⟩ := exists_ok_of_bind h
  obtain ⟨y, -, h⟩ := exists_ok_of_bind h
  obtain ⟨z, -, h⟩ := exists_ok_of_bind h
  exact ⟨x, y, z, h⟩

end Color

namespace Builtin

/-- The functions that make colors. -/
def makers : List Builtin :=
  [rgb, rotateHue, brighten]

/-- A function that makes colors gives the value of a color made of channels. -/
theorem exists_of_makers {f : Builtin} (hf : f ∈ makers) {ss : List Scalar} {s : Scalar} (h : f.onScalars ss = .ok s) :
    ∃ x y z c, Color.ofChannels x y z = .ok c ∧ s = .int c.value := by
  simp only [makers, List.mem_cons, List.not_mem_nil, or_false] at hf
  rcases hf with rfl | rfl | rfl
  · rcases ss with _ | ⟨r, _ | ⟨g, _ | ⟨b, _ | ⟨_, _⟩⟩⟩⟩ <;> try cases h
    obtain ⟨c, hc, h⟩ := exists_ok_of_bind h
    exact ⟨r, g, b, c, hc, (Except.ok.inj h).symm⟩
  · rcases ss with _ | ⟨n, _ | ⟨angle, _ | ⟨_, _⟩⟩⟩ <;> try cases h
    obtain ⟨start, -, h⟩ := exists_ok_of_bind h
    obtain ⟨c, hc, h⟩ := exists_ok_of_bind h
    obtain ⟨x, y, z, hchannels⟩ := Color.exists_of_rotateHue hc
    exact ⟨x, y, z, c, hchannels, (Except.ok.inj h).symm⟩
  · rcases ss with _ | ⟨n, _ | ⟨factor, _ | ⟨_, _⟩⟩⟩ <;> try cases h
    obtain ⟨start, -, h⟩ := exists_ok_of_bind h
    obtain ⟨c, hc, h⟩ := exists_ok_of_bind h
    obtain ⟨x, y, z, hchannels⟩ := Color.exists_of_scale hc
    exact ⟨x, y, z, c, hchannels, (Except.ok.inj h).symm⟩

/-- What such a function gives is an integer of 24 bits. -/
theorem apply_makers {f : Builtin} (hf : f ∈ makers) {args : List Value} {v : Value} (h : f.apply args = .ok v) :
    ∃ n : Int, v = .int n ∧ 0 ≤ n ∧ n < 2 ^ 24 := by
  obtain ⟨ss, -, h⟩ := exists_ok_of_bind h
  obtain ⟨s, hs, h⟩ := exists_ok_of_bind h
  obtain ⟨x, y, z, c, hc, rfl⟩ := exists_of_makers hf hs
  exact ⟨c.value, (Except.ok.inj h).symm, Color.value_ofChannels hc⟩

end Builtin

/-- **Colors** pack and unpack without interference. The channels of an integer of any size and sign are bytes that make up its
residue modulo `2 ^ 24`. Channels that round to integers make the color of these integers clamped to bytes, which are its
channels again and whose value has 24 bits; and so has all that a function gives which makes colors. -/
theorem Color.unpack_pack :
    (∀ n : Int, (ofInt n).red ≤ 255 ∧ (ofInt n).green ≤ 255 ∧ (ofInt n).blue ≤ 255 ∧
      ((ofInt n).red * 65536 + (ofInt n).green * 256 + (ofInt n).blue : Int) = n % 2 ^ 24) ∧
      (∀ (x y z : Scalar) (i j k : Int), x.round = .ok i → y.round = .ok j → z.round = .ok k →
        ∃ c, ofChannels x y z = .ok c ∧
          c.value = max 0 (min i 255) * 65536 + max 0 (min j 255) * 256 + max 0 (min k 255) ∧
          0 ≤ c.value ∧ c.value < 2 ^ 24 ∧
          (c.red : Int) = max 0 (min i 255) ∧ (c.green : Int) = max 0 (min j 255) ∧ (c.blue : Int) = max 0 (min k 255)) ∧
      ∀ f ∈ [Builtin.rgb, .rotateHue, .brighten], ∀ args v, f.apply args = .ok v →
        ∃ n : Int, v = .int n ∧ 0 ≤ n ∧ n < 2 ^ 24 := by
  refine ⟨fun n => ?_, fun x y z i j k hx hy hz => ?_, fun f hf args v h => Builtin.apply_makers hf h⟩
  · obtain ⟨hred, hgreen, hblue⟩ := channel_le (ofInt n)
    have hchannels := channels_eq (ofInt n)
    have hword : ((ofInt n).word.toNat : Int) = n % 2 ^ 32 := Word32.toNat_ofInt n
    exact ⟨hred, hgreen, hblue, by omega⟩
  · obtain ⟨r, hr, hr8⟩ := exists_octet i
    obtain ⟨g, hg, hg8⟩ := exists_octet j
    obtain ⟨b, hb, hb8⟩ := exists_octet k
    obtain ⟨hvalue, hbound, hred, hgreen, hblue⟩ := value_pack hr8 hg8 hb8
    have heq := ofChannels_eq hx hy hz
    unfold octet at heq hr hg hb
    rw [hr, hg, hb] at heq ⊢
    refine ⟨_, heq, ?_, ?_, hbound, congrArg _ hred, congrArg _ hgreen, congrArg _ hblue⟩
    · rw [hvalue]
      omega
    · rw [hvalue]
      omega

/-- A channel above a byte, one below it, and a half, which is rounded up. -/
theorem Color.unpack_pack_clamped :
    (Scalar.int 300).round = .ok 300 ∧ (Scalar.int (-5)).round = .ok (-5) ∧ (Scalar.float 127.5).round = .ok 128 ∧
      (∃ c, ofChannels (.int 300) (.int (-5)) (.float 127.5) = .ok c ∧ c.value = 0xFF0080 ∧
        c.red = 255 ∧ c.green = 0 ∧ c.blue = 128) ∧
      ∃ n : Int, Builtin.rgb.apply [.int 300, .int (-5), .float 127.5] = .ok (.int n) ∧ 0 ≤ n ∧ n < 2 ^ 24 := by
  have hhigh : (Scalar.int 300).round = .ok 300 := by decide +kernel
  have hlow : (Scalar.int (-5)).round = .ok (-5) := by decide +kernel
  have hhalf : (Scalar.float 127.5).round = .ok 128 := by decide +kernel
  obtain ⟨-, hpack, hmakers⟩ := Color.unpack_pack
  obtain ⟨c, hc, hvalue, -, -, hred, hgreen, hblue⟩ := hpack _ _ _ _ _ _ hhigh hlow hhalf
  have happly : Builtin.rgb.apply [.int 300, .int (-5), .float 127.5] = .ok (.int c.value) := by
    show (do return Value.scalar (.int (← ofChannels (.int 300) (.int (-5)) (.float 127.5)).value) : Except Fault Value) = _
    rw [hc]
    rfl
  obtain ⟨n, hn, hrange⟩ := hmakers .rgb (by decide) _ _ happly
  exact ⟨hhigh, hlow, hhalf, ⟨c, hc, hvalue, Int.ofNat.inj hred, Int.ofNat.inj hgreen, Int.ofNat.inj hblue⟩,
    n, happly.trans (congrArg _ hn), hrange⟩

end FormulaLang
