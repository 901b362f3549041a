import Mathlib
import PdiStack.Core.CounterMode

/-!
# AES in counter mode

The block cipher itself is a parameter: `cipher key block` is what `Cipher` leaves
in the block buffer for the round keys expanded from `key`.  Nothing is assumed
about it.  What is modelled is the byte loop around it: the counter in the
context, its big-endian increment and the block buffer.
-/

namespace PdiStack.Aes

open CounterMode List

def aesBlockLen : ℕ := 16

/-- The inner loop of the counter increment, over the counter read from its last
byte: a full byte wraps and the carry goes on, any other byte ends the loop. -/
def incrementFromLast : List UInt8 → List UInt8
  | [] => []
  | byte :: rest => if byte = 255 then 0 :: incrementFromLast rest else (byte + 1) :: rest

def incrementIv (iv : List UInt8) : List UInt8 := (incrementFromLast iv.reverse).reverse

/-- The number that the bytes of a counter stand for, read from the last one. -/
def valueFromLast : List UInt8 → ℕ
  | [] => 0
  | byte :: rest => byte.toNat + 256 * valueFromLast rest

theorem valueFromLast_lt (bytes : List UInt8) : valueFromLast bytes < 256 ^ bytes.length := by
  induction bytes with
  | nil => exact Nat.one_pos
  | cons byte rest ih =>
    have hbyte := byte.toNat_lt
    rw [valueFromLast, length_cons]
    omega

/-- The increment adds one, and drops the carry of the first byte. -/
theorem valueFromLast_incrementFromLast {bytes : List UInt8} :
    valueFromLast (incrementFromLast bytes) = (valueFromLast bytes + 1) % 256 ^ bytes.length ∧
      (incrementFromLast bytes).length = bytes.length := by
  induction bytes with
  | nil => exact ⟨rfl, rfl⟩
  | cons byte rest ih =>
    have hrest := valueFromLast_lt rest
    rw [incrementFromLast]
    split
    case isTrue hfull =>
      subst hfull
      refine ⟨?_, by rw [length_cons, length_cons, ih.2]⟩
      rw [valueFromLast, ih.1, length_cons, pow_succ, mul_comm _ 256, ← Nat.mul_mod_mul_left]
      have hcarry : 255 + 256 * valueFromLast rest + 1 = 256 * (valueFromLast rest + 1) := by omega
      change 0 + _ = (255 + 256 * valueFromLast rest + 1) % _
      rw [hcarry, zero_add]
    case isFalse hroom =>
      have hbyte : byte.toNat + 1 < 256 := by
        have hne : byte.toNat ≠ 255 := fun hfull => hroom (UInt8.toNat_inj.mp hfull)
        have := byte.toNat_lt
        omega
      have hnext : (byte + 1).toNat = byte.toNat + 1 := by
        exact Nat.mod_eq_of_lt hbyte
      refine ⟨?_, rfl⟩
      rw [valueFromLast, valueFromLast, length_cons, Nat.mod_eq_of_lt (by omega)]
      omega

/-- The counters of the first blocks from any counter on are different. -/
theorem iterate_incrementIv_injective (iv : List UInt8) {first second : ℕ}
    (hfirst : first < 256 ^ iv.length) (hsecond : second < 256 ^ iv.length)
    (hsame : incrementIv^[first] iv = incrementIv^[second] iv) : first = second := by
  have hvalue : ∀ count, valueFromLast (incrementIv^[count] iv).reverse =
        (valueFromLast iv.reverse + count) % 256 ^ iv.length ∧
      (incrementIv^[count] iv).length = iv.length := by
    intro count
    induction count with
    | zero =>
      refine ⟨?_, rfl⟩
      have hlt := valueFromLast_lt iv.reverse
      rw [length_reverse] at hlt
      exact (Nat.mod_eq_of_lt hlt).symm
    | succ count ih =>
      obtain ⟨hnext, hlength⟩ := valueFromLast_incrementFromLast
      rw [Function.iterate_succ_apply', incrementIv, reverse_reverse, length_reverse,
        hnext, hlength, length_reverse, ih.1, ih.2, Nat.mod_add_mod]
      exact ⟨rfl, rfl⟩
  have hmod : (valueFromLast iv.reverse + first) % 256 ^ iv.length =
      (valueFromLast iv.reverse + second) % 256 ^ iv.length := by
    rw [← (hvalue first).1, ← (hvalue second).1, hsame]
  have hcancel : first % 256 ^ iv.length = second % 256 ^ iv.length :=
    Nat.ModEq.add_left_cancel' _ hmod
  rwa [Nat.mod_eq_of_lt hfirst, Nat.mod_eq_of_lt hsecond] at hcancel

/-- `AES_ctx`: the expanded key, kept as the key it is expanded from, and the
counter. -/
structure AesCtx where
  key : List UInt8
  iv : List UInt8
deriving DecidableEq

variable (cipher : List UInt8 → List UInt8 → List UInt8)

def aesCtr (key : List UInt8) : Generator (List UInt8) UInt8 where
  size := aesBlockLen
  block := cipher key
  next := incrementIv
  mix := (· ^^^ ·)

/-- The three-argument `AES_CTR_xcrypt_buffer`: its block buffer lives for one
call, only the counter in the context survives. -/
def aesCtrXcryptBuffer (ctx : AesCtx)
    (buf : List UInt8) : List UInt8 × AesCtx :=
  let (output, cursor) := (aesCtr cipher ctx.key).apply buf ((aesCtr cipher ctx.key).restart ctx.iv)
  (output, { ctx with iv := cursor.counter })

/-- The static block buffer of the four-argument overload, with the position in
it.  Every caller in the process shares it. -/
structure AesStatic where
  buffer : List UInt8
  bi : ℕ
deriving DecidableEq

/-- The four-argument `AES_CTR_xcrypt_buffer`: it goes on inside the block the
last call stopped in, unless that call was asked to reset. -/
def aesCtrXcryptChunk (ctx : AesCtx)
    (kept : AesStatic) (buf : List UInt8) (resetCtx : Bool) : List UInt8 × AesCtx × AesStatic :=
  let (output, cursor) := (aesCtr cipher ctx.key).apply buf ⟨ctx.iv, kept.buffer, kept.bi⟩
  (output, { ctx with iv := cursor.counter },
    { buffer := cursor.buffer, bi := if resetCtx then aesBlockLen else cursor.position })

section

variable (cipher : List UInt8 → List UInt8 → List UInt8)

@[simp]
theorem length_aesCtrXcryptBuffer (ctx : AesCtx) (buf : List UInt8) :
    (aesCtrXcryptBuffer cipher ctx buf).1.length = buf.length := by
  simp [aesCtrXcryptBuffer]

@[simp]
theorem length_aesCtrXcryptChunk (ctx : AesCtx) (kept : AesStatic) (buf : List UInt8)
    (resetCtx : Bool) :
    (aesCtrXcryptChunk cipher ctx kept buf resetCtx).1.length = buf.length := by
  simp [aesCtrXcryptChunk]

@[simp]
theorem aesCtrXcryptBuffer_nil (ctx : AesCtx) : aesCtrXcryptBuffer cipher ctx [] = ([], ctx) := rfl

/-- Two calls on the parts of a buffer are one call on the whole of it, provided
the cut is at a block boundary.  Elsewhere the second call would start a new
block. -/
theorem aesCtrXcryptBuffer_append (ctx : AesCtx) {first : List UInt8}
    (hblocks : aesBlockLen ∣ first.length) (second : List UInt8) :
    aesCtrXcryptBuffer cipher ctx (first ++ second) =
      ((aesCtrXcryptBuffer cipher ctx first).1 ++
          (aesCtrXcryptBuffer cipher (aesCtrXcryptBuffer cipher ctx first).2 second).1,
        (aesCtrXcryptBuffer cipher (aesCtrXcryptBuffer cipher ctx first).2 second).2) := by
  have hsize : 0 < aesBlockLen := by decide
  obtain ⟨houtput, hcounter⟩ :=
    (aesCtr cipher ctx.key).apply_restart_append hsize hblocks second ctx.iv
  simp only [aesCtrXcryptBuffer]
  rw [houtput, hcounter]

/-- Decryption with the same key and counter inverts encryption, also when only
the beginning of the ciphertext is decrypted. -/
theorem aesCtrXcryptBuffer_take (ctx : AesCtx) (buf : List UInt8) (count : ℕ) :
    (aesCtrXcryptBuffer cipher ctx ((aesCtrXcryptBuffer cipher ctx buf).1.take count)).1 =
      buf.take count := by
  have hmix : ∀ value key : UInt8, value ^^^ key ^^^ key = value := by
    intro value key
    rw [UInt8.xor_assoc, UInt8.xor_self, UInt8.xor_zero]
  simp only [aesCtrXcryptBuffer]
  rw [Generator.take_apply]
  exact (aesCtr cipher ctx.key).apply_apply hmix _ _

end

end PdiStack.Aes
