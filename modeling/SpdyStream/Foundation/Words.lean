/-
  Foundation/Words.lean --- big-endian machine words over lists of bytes.

  Fixed-width integers are `UInt8`, `UInt16` and `UInt32`; a byte string is a
  `List UInt8`.  Every word operation used by a wire format is given its value
  as a natural number once (`toNat_...`), and the round trips follow from those
  by arithmetic, so nothing above this file reasons about single bits.

  The pointer-sized word is a natural number with an explicit width: `usizeAdd`
  and `usizeMul` wrap, and the two `_of_lt` lemmas say when they do not.
-/
import Mathlib

set_option autoImplicit false

namespace SpdyStream.Foundation

/-- A byte string. -/
abbrev Bytes : Type := List UInt8

/-! ## Thirty-two bit words -/

/-- The four bytes of a word, most significant first. -/
def toBeBytes32 (x : UInt32) : Bytes :=
  [(x >>> 24).toUInt8, (x >>> 16).toUInt8, (x >>> 8).toUInt8, x.toUInt8]

/-- The word with these four bytes, most significant first. -/
def fromBeBytes32 (a b c d : UInt8) : UInt32 :=
  (a.toUInt32 <<< 24) ||| (b.toUInt32 <<< 16) ||| (c.toUInt32 <<< 8) ||| d.toUInt32

@[simp] theorem length_toBeBytes32 (x : UInt32) : (toBeBytes32 x).length = 4 := rfl

/-- A disjunction of a shifted number with one that fits below the shift is a
sum. -/
theorem shiftLeft_or_eq_add {n k r : Nat} (hr : r < 2 ^ k) :
    n <<< k ||| r = n * 2 ^ k + r := by
  rw [← Nat.shiftLeft_add_eq_or_of_lt hr, Nat.shiftLeft_eq]

/-- A byte shifted within a word loses no bit. -/
theorem shiftLeft_byte_mod (b : UInt8) {k : Nat} (hk : k ≤ 24) :
    b.toNat <<< k % 2 ^ 32 = b.toNat <<< k := by
  have hb := b.toNat_lt
  have hpow : 2 ^ k ≤ 2 ^ 24 := Nat.pow_le_pow_right (by decide) hk
  have hlt : b.toNat * 2 ^ k < 2 ^ 8 * 2 ^ 24 :=
    Nat.mul_lt_mul_of_lt_of_le hb hpow (by decide)
  rw [Nat.shiftLeft_eq, Nat.mod_eq_of_lt]
  omega

theorem toNat_fromBeBytes32 (a b c d : UInt8) :
    (fromBeBytes32 a b c d).toNat =
      a.toNat * 2 ^ 24 + (b.toNat * 2 ^ 16 + (c.toNat * 2 ^ 8 + d.toNat)) := by
  have hb := b.toNat_lt
  have hc := c.toNat_lt
  have hd := d.toNat_lt
  -- Reassociated to the right, each disjunct fits below the shift before it.
  have e8 : c.toNat <<< 8 ||| d.toNat = c.toNat * 2 ^ 8 + d.toNat :=
    shiftLeft_or_eq_add (by omega)
  have e16 : b.toNat <<< 16 ||| (c.toNat * 2 ^ 8 + d.toNat) =
      b.toNat * 2 ^ 16 + (c.toNat * 2 ^ 8 + d.toNat) := shiftLeft_or_eq_add (by omega)
  have e24 : a.toNat <<< 24 ||| (b.toNat * 2 ^ 16 + (c.toNat * 2 ^ 8 + d.toNat)) =
      a.toNat * 2 ^ 24 + (b.toNat * 2 ^ 16 + (c.toNat * 2 ^ 8 + d.toNat)) :=
    shiftLeft_or_eq_add (by omega)
  calc (fromBeBytes32 a b c d).toNat
      = a.toNat <<< 24 % 2 ^ 32 |||
          (b.toNat <<< 16 % 2 ^ 32 ||| (c.toNat <<< 8 % 2 ^ 32 ||| d.toNat)) := by
        simp only [fromBeBytes32, UInt32.toNat_or, UInt32.toNat_shiftLeft,
          UInt8.toNat_toUInt32, Nat.or_assoc]
        rfl
    _ = a.toNat <<< 24 ||| (b.toNat <<< 16 ||| (c.toNat <<< 8 ||| d.toNat)) := by
        rw [shiftLeft_byte_mod a (by decide), shiftLeft_byte_mod b (by decide),
          shiftLeft_byte_mod c (by decide)]
    _ = a.toNat * 2 ^ 24 + (b.toNat * 2 ^ 16 + (c.toNat * 2 ^ 8 + d.toNat)) := by
        rw [e8, e16, e24]

theorem toNat_shiftRight_toUInt8 (x : UInt32) (k : UInt32) (hk : k.toNat < 32) :
    (x >>> k).toUInt8.toNat = x.toNat / 2 ^ k.toNat % 2 ^ 8 := by
  rw [UInt32.toNat_toUInt8, UInt32.toNat_shiftRight, Nat.mod_eq_of_lt hk,
    Nat.shiftRight_eq_div_pow]

/-- Reading back the bytes of a word gives the word. -/
theorem fromBeBytes32_toBeBytes32 (x : UInt32) :
    fromBeBytes32 (x >>> 24).toUInt8 (x >>> 16).toUInt8 (x >>> 8).toUInt8 x.toUInt8 = x := by
  apply UInt32.toNat_inj.mp
  have hx := x.toNat_lt
  have h24 : (x >>> 24).toUInt8.toNat = x.toNat / 2 ^ 24 % 2 ^ 8 :=
    toNat_shiftRight_toUInt8 x 24 (by decide)
  have h16 : (x >>> 16).toUInt8.toNat = x.toNat / 2 ^ 16 % 2 ^ 8 :=
    toNat_shiftRight_toUInt8 x 16 (by decide)
  have h8 : (x >>> 8).toUInt8.toNat = x.toNat / 2 ^ 8 % 2 ^ 8 :=
    toNat_shiftRight_toUInt8 x 8 (by decide)
  have h0 : x.toUInt8.toNat = x.toNat % 2 ^ 8 := UInt32.toNat_toUInt8 x
  rw [toNat_fromBeBytes32, h24, h16, h8, h0]
  omega

/-- Writing out a word read from four bytes gives the bytes. -/
theorem toBeBytes32_fromBeBytes32 (a b c d : UInt8) :
    toBeBytes32 (fromBeBytes32 a b c d) = [a, b, c, d] := by
  have hx := toNat_fromBeBytes32 a b c d
  have ha := a.toNat_lt
  have hb := b.toNat_lt
  have hc := c.toNat_lt
  have hd := d.toNat_lt
  have h24 : ((fromBeBytes32 a b c d) >>> 24).toUInt8 = a := by
    apply UInt8.toNat_inj.mp
    have h := toNat_shiftRight_toUInt8 (fromBeBytes32 a b c d) 24 (by decide)
    simp only [UInt32.reduceToNat] at h
    omega
  have h16 : ((fromBeBytes32 a b c d) >>> 16).toUInt8 = b := by
    apply UInt8.toNat_inj.mp
    have h := toNat_shiftRight_toUInt8 (fromBeBytes32 a b c d) 16 (by decide)
    simp only [UInt32.reduceToNat] at h
    omega
  have h8 : ((fromBeBytes32 a b c d) >>> 8).toUInt8 = c := by
    apply UInt8.toNat_inj.mp
    have h := toNat_shiftRight_toUInt8 (fromBeBytes32 a b c d) 8 (by decide)
    simp only [UInt32.reduceToNat] at h
    omega
  have h0 : (fromBeBytes32 a b c d).toUInt8 = d := by
    apply UInt8.toNat_inj.mp
    rw [UInt32.toNat_toUInt8]
    omega
  rw [toBeBytes32, h24, h16, h8, h0]

theorem toBeBytes32_injective : Function.Injective toBeBytes32 := by
  intro x y h
  simp only [toBeBytes32, List.cons.injEq, and_true] at h
  obtain ⟨h24, h16, h8, h0⟩ := h
  rw [← fromBeBytes32_toBeBytes32 x, ← fromBeBytes32_toBeBytes32 y, h24, h16, h8, h0]

/-! ## Masks -/

theorem toNat_and_mask (x mask : UInt32) (k : Nat) (hm : mask.toNat = 2 ^ k - 1) :
    (x &&& mask).toNat = x.toNat % 2 ^ k := by
  rw [UInt32.toNat_and, hm, Nat.and_two_pow_sub_one_eq_mod]

/-- Masking a word that fits the mask leaves it alone. -/
theorem and_mask_eq_self {x mask : UInt32} (k : Nat) (hm : mask.toNat = 2 ^ k - 1)
    (hx : x.toNat < 2 ^ k) : x &&& mask = x := by
  apply UInt32.toNat_inj.mp
  rw [toNat_and_mask x mask k hm, Nat.mod_eq_of_lt hx]

theorem and_ff_toUInt8 (x : UInt32) : (x &&& 0xff).toUInt8 = x.toUInt8 := by
  apply UInt8.toNat_inj.mp
  have h : (x &&& 0xff).toNat = x.toNat % 2 ^ 8 := toNat_and_mask x 0xff 8 (by decide)
  rw [UInt32.toNat_toUInt8, UInt32.toNat_toUInt8, h, Nat.mod_mod]

/-! ## Twenty-four bit lengths -/

/-- A word put together from its three low bytes. -/
theorem or_eq_fromBeBytes32 (b c d : UInt8) :
    (b.toUInt32 <<< 16) ||| (c.toUInt32 <<< 8) ||| d.toUInt32 = fromBeBytes32 0 b c d := by
  simp [fromBeBytes32]

/-- The three low bytes of a word that fits them give the word back. -/
theorem fromBeBytes32_zero_of_lt {x : UInt32} (hx : x.toNat < 2 ^ 24) :
    fromBeBytes32 0 (x >>> 16).toUInt8 (x >>> 8).toUInt8 x.toUInt8 = x := by
  have htop : (x >>> 24).toUInt8 = 0 := by
    apply UInt8.toNat_inj.mp
    have hdiv : x.toNat / 2 ^ 24 = 0 := Nat.div_eq_of_lt hx
    calc (x >>> 24).toUInt8.toNat = x.toNat / 2 ^ 24 % 2 ^ 8 :=
          toNat_shiftRight_toUInt8 x 24 (by decide)
      _ = (0 : UInt8).toNat := by rw [hdiv]; rfl
  rw [← htop]
  exact fromBeBytes32_toBeBytes32 x

theorem toNat_fromBeBytes32_zero_lt (b c d : UInt8) :
    (fromBeBytes32 0 b c d).toNat < 2 ^ 24 := by
  have hb := b.toNat_lt
  have hc := c.toNat_lt
  have hd := d.toNat_lt
  rw [toNat_fromBeBytes32]
  simp only [UInt8.toNat_zero]
  omega

/-! ## Sixteen bit words -/

/-- The two bytes of a word, most significant first. -/
def toBeBytes16 (x : UInt16) : Bytes :=
  [(x >>> 8).toUInt8, x.toUInt8]

/-- The word with these two bytes, most significant first. -/
def fromBeBytes16 (a b : UInt8) : UInt16 :=
  (a.toUInt16 <<< 8) ||| b.toUInt16

/-! ## Pointer-sized words -/

/-- Addition of `usize` values of the given width in bits, wrapping. -/
def usizeAdd (width a b : Nat) : Nat := (a + b) % 2 ^ width

/-- Multiplication of `usize` values of the given width in bits, wrapping. -/
def usizeMul (width a b : Nat) : Nat := (a * b) % 2 ^ width

theorem usizeAdd_of_lt {width a b : Nat} (h : a + b < 2 ^ width) :
    usizeAdd width a b = a + b := Nat.mod_eq_of_lt h

theorem usizeMul_of_lt {width a b : Nat} (h : a * b < 2 ^ width) :
    usizeMul width a b = a * b := Nat.mod_eq_of_lt h

end SpdyStream.Foundation
