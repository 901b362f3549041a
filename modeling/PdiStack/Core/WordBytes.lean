import Mathlib

/-!
# Bytes of machine words

Words of 16 and 32 bits are put together from bytes with shifts and disjunctions.
The value of such a word is the sum of its shifted bytes, so that taking a word
apart and putting it together again gives the word back, in either byte order.
-/

namespace PdiStack.WordBytes

theorem or_mul_two_pow_of_lt {low width : ℕ} (high : ℕ) (hlow : low < 2 ^ width) :
    low ||| high * 2 ^ width = low + high * 2 ^ width := by
  rw [Nat.or_comm, ← Nat.shiftLeft_eq, ← Nat.shiftLeft_add_eq_or_of_lt hlow, add_comm]

private theorem and_byte_mask (value : ℕ) : value &&& 255 = value % 256 :=
  Nat.and_two_pow_sub_one_eq_mod value 8

theorem toNat_ofBytes16 (low high : UInt8) :
    (low.toUInt16 ||| high.toUInt16 <<< 8).toNat = low.toNat + high.toNat * 2 ^ 8 := by
  have hlow := low.toNat_lt
  have hhigh := high.toNat_lt
  have hshift : high.toNat * 2 ^ 8 % 2 ^ 16 = high.toNat * 2 ^ 8 := by omega
  simp only [UInt16.toNat_or, UInt16.toNat_shiftLeft, UInt8.toNat_toUInt16, UInt16.reduceToNat,
    Nat.shiftLeft_eq]
  rw [hshift, or_mul_two_pow_of_lt _ hlow]

theorem toNat_ofBytes32 (first second third fourth : UInt8) :
    (first.toUInt32 ||| second.toUInt32 <<< 8 ||| third.toUInt32 <<< 16 |||
        fourth.toUInt32 <<< 24).toNat =
      first.toNat + second.toNat * 2 ^ 8 + third.toNat * 2 ^ 16 + fourth.toNat * 2 ^ 24 := by
  have hfirst := first.toNat_lt
  have hsecond := second.toNat_lt
  have hthird := third.toNat_lt
  have hfourth := fourth.toNat_lt
  have hshift8 : second.toNat * 2 ^ 8 % 2 ^ 32 = second.toNat * 2 ^ 8 := Nat.mod_eq_of_lt (by omega)
  have hshift16 : third.toNat * 2 ^ 16 % 2 ^ 32 = third.toNat * 2 ^ 16 :=
    Nat.mod_eq_of_lt (by omega)
  have hshift24 : fourth.toNat * 2 ^ 24 % 2 ^ 32 = fourth.toNat * 2 ^ 24 :=
    Nat.mod_eq_of_lt (by omega)
  simp only [UInt32.toNat_or, UInt32.toNat_shiftLeft, UInt8.toNat_toUInt32, UInt32.reduceToNat,
    Nat.shiftLeft_eq]
  rw [hshift8, hshift16, hshift24, or_mul_two_pow_of_lt second.toNat hfirst,
    or_mul_two_pow_of_lt third.toNat (by omega), or_mul_two_pow_of_lt fourth.toNat (by omega)]

theorem ofBytes16_bytes (value : UInt16) :
    (value &&& 0xFF).toUInt8.toUInt16 |||
      ((value >>> 8 &&& 0xFF).toUInt8.toUInt16 <<< 8) = value := by
  apply UInt16.toNat.inj
  have hlt := value.toNat_lt
  rw [toNat_ofBytes16]
  simp only [UInt16.toNat_toUInt8, UInt16.toNat_and, UInt16.toNat_shiftRight, UInt16.reduceToNat,
    and_byte_mask, Nat.reduceMod]
  omega

theorem ofBytes32_bytes (value : UInt32) :
    (value &&& 0xFF).toUInt8.toUInt32 ||| ((value >>> 8 &&& 0xFF).toUInt8.toUInt32 <<< 8) |||
      ((value >>> 16 &&& 0xFF).toUInt8.toUInt32 <<< 16) |||
        ((value >>> 24 &&& 0xFF).toUInt8.toUInt32 <<< 24) = value := by
  apply UInt32.toNat.inj
  have hlt := value.toNat_lt
  rw [toNat_ofBytes32]
  simp only [UInt32.toNat_toUInt8, UInt32.toNat_and, UInt32.toNat_shiftRight, UInt32.reduceToNat,
    and_byte_mask, Nat.reduceMod]
  omega

theorem ofBytes32_bytes_bigEndian (value : UInt32) :
    (value >>> 24).toUInt8.toUInt32 <<< 24 ||| (value >>> 16).toUInt8.toUInt32 <<< 16 |||
      (value >>> 8).toUInt8.toUInt32 <<< 8 ||| value.toUInt8.toUInt32 = value := by
  have hreorder : ∀ first second third fourth : UInt32,
      fourth ||| third ||| second ||| first = first ||| second ||| third ||| fourth := by
    intro first second third fourth
    ac_rfl
  apply UInt32.toNat.inj
  have hlt := value.toNat_lt
  rw [hreorder, toNat_ofBytes32]
  simp only [UInt32.toNat_toUInt8, UInt32.toNat_shiftRight, UInt32.reduceToNat, Nat.reduceMod]
  omega

end PdiStack.WordBytes
