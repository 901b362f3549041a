import Mathlib

/-!
# CRC-16 checksums

`crc16CcittUpdate` continues a checksum over a further byte range, so a range may
be checksummed through a window of any size without changing the result.

Bit by bit, the lowest bit of the shifted register is the bit that decides the
reduction.  So the last bits taken in can be read off the register, sixteen at the most,
and two ranges that differ in a burst of at most sixteen bits have different checksums.
-/

namespace PdiStack.Checksum

open List Bool
variable (crc : UInt16)

/-- One step of the inner loop: shift out the top bit and reduce by the
polynomial `0x1021` when it was set. -/
def crc16Shift : UInt16 :=
  if crc &&& 0x8000 ≠ 0 then (crc <<< 1) ^^^ 0x1021 else crc <<< 1

/-- One step of the outer loop: take in a byte at the top and shift it out. -/
def crc16Byte (byte : UInt8) : UInt16 := crc16Shift^[8] (crc ^^^ (byte.toUInt16 <<< 8))

def crc16CcittUpdate (bytes : List UInt8) : UInt16 := bytes.foldl crc16Byte crc

def crc16Ccitt (bytes : List UInt8) : UInt16 := crc16CcittUpdate 0xFFFF bytes

@[simp]
theorem crc16CcittUpdate_nil : crc16CcittUpdate crc [] = crc := rfl

theorem crc16CcittUpdate_append (first second : List UInt8) :
    crc16CcittUpdate crc (first ++ second) = crc16CcittUpdate (crc16CcittUpdate crc first) second :=
  foldl_append

/-- The check value of CRC-16/CCITT-FALSE over the digits one to nine. -/
example : crc16Ccitt [0x31, 0x32, 0x33, 0x34, 0x35, 0x36, 0x37, 0x38, 0x39] = 0x29B1 := by
  decide +kernel

def bits (bytes : List UInt8) : List Bool :=
  bytes.flatMap fun byte => (range 8).map byte.toBitVec.getMsbD

/-- Two byte ranges that differ, and only inside of sixteen consecutive bits. -/
def Burst (bytes changed : List UInt8) : Prop :=
  bytes ≠ changed ∧ ∃ front old new back, old.length ≤ 16 ∧ new.length = old.length ∧
    bits bytes = front ++ old ++ back ∧ bits changed = front ++ new ++ back

/-- The register after one more bit. -/
def absorb (bit : Bool) : UInt16 :=
  crc16Shift (if bit then crc ^^^ 0x8000 else crc)

/-- The register shifted, and reduced when the bit shifted out and the bit taken in
differ. -/
theorem absorb_toBitVec (bit : Bool) :
    (absorb crc bit).toBitVec =
      crc.toBitVec <<< 1 ^^^ if crc.toBitVec.msb ^^ bit then 0x1021#16 else 0#16 := by
  have hshift (crc : UInt16) : (crc16Shift crc).toBitVec =
      crc.toBitVec <<< 1 ^^^ if crc.toBitVec.msb then 0x1021#16 else 0#16 := by
    have htop : crc &&& 0x8000 ≠ 0 ↔ crc.toBitVec.msb = true := by
      rw [ne_eq, ← UInt16.toBitVec_inj, BitVec.msb_eq_getLsbD_last]
      change ¬ crc.toBitVec &&& BitVec.twoPow 16 15 = 0#16 ↔ _
      rw [BitVec.and_twoPow]
      cases crc.toBitVec.getLsbD 15 <;> decide
    unfold crc16Shift
    cases hmsb : crc.toBitVec.msb with
    | true =>
      rw [if_pos (htop.mpr hmsb)]
      rfl
    | false =>
      rw [if_neg (mt htop.mp (by rw [hmsb]; decide))]
      exact (BitVec.xor_zero).symm
  cases bit with
  | false => rw [Bool.xor_false, ← hshift, absorb, if_neg Bool.false_ne_true]
  | true =>
    rw [absorb, if_pos rfl, hshift, UInt16.toBitVec_xor, BitVec.msb_xor,
      BitVec.shiftLeft_xor_distrib]
    change crc.toBitVec <<< 1 ^^^ 0#16 ^^^ _ = _
    rw [BitVec.xor_zero]
    rfl

/-- A word at the top of the register goes in by its highest bit. -/
theorem crc16Shift_xor (word : UInt16) :
    crc16Shift (crc ^^^ word) = absorb crc word.toBitVec.msb ^^^ word <<< 1 := by
  have hshift := absorb_toBitVec (crc ^^^ word) false
  rw [absorb, if_neg Bool.false_ne_true, UInt16.toBitVec_xor, BitVec.msb_xor, Bool.xor_false,
    BitVec.shiftLeft_xor_distrib] at hshift
  rw [← UInt16.toBitVec_inj, hshift, UInt16.toBitVec_xor, absorb_toBitVec, BitVec.xor_assoc,
    BitVec.xor_comm (word.toBitVec <<< 1), ← BitVec.xor_assoc]
  rfl

theorem iterate_crc16Shift_xor (count : ℕ) (crc word : UInt16) :
    crc16Shift^[count] (crc ^^^ word) =
      ((range count).map word.toBitVec.getMsbD).foldl absorb crc ^^^
        UInt16.ofBitVec (word.toBitVec <<< count) := by
  induction count generalizing crc word with
  | zero => simp
  | succ count ih =>
    have hbits : (word <<< 1).toBitVec.getMsbD = fun index => word.toBitVec.getMsbD (index + 1) :=
      funext fun index => BitVec.getMsbD_shiftLeft word.toBitVec 1
    rw [Function.iterate_succ_apply, crc16Shift_xor, ih, hbits, range_succ_eq_map,
      map_cons, map_map, add_comm count, BitVec.shiftLeft_add]
    rfl

/-- Eight shifts take in a byte that lies at the top of the register. -/
theorem crc16Byte_eq (byte : UInt8) :
    crc16Byte crc byte = ((range 8).map byte.toBitVec.getMsbD).foldl absorb crc := by
  have hword : (byte.toUInt16 <<< 8).toBitVec = byte.toBitVec.setWidth 16 <<< 8 := rfl
  have hout : byte.toBitVec.setWidth 16 <<< 8 <<< 8 = 0#16 := by
    rw [← BitVec.shiftLeft_add]
    exact BitVec.shiftLeft_eq_zero (by decide)
  rw [crc16Byte, iterate_crc16Shift_xor, hword, hout]
  refine (UInt16.xor_zero).trans (congrArg _ (map_congr_left fun index _ => ?_))
  simp

theorem crc16CcittUpdate_eq (bytes : List UInt8) :
    crc16CcittUpdate crc bytes = (bits bytes).foldl absorb crc := by
  rw [bits, foldl_flatMap, crc16CcittUpdate, funext₂ crc16Byte_eq]

section

variable {crc other : UInt16}

/-- Two registers have their lowest bits in common. -/
def Agree (count : ℕ) (crc other : UInt16) : Prop :=
  ∀ index < count, crc.toBitVec.getLsbD index = other.toBitVec.getLsbD index

/-- The lowest bit of a register is the one that was shifted out and taken in, and the
others are those below them up to the reduction. -/
theorem agree_of_absorb {count : ℕ} {bit new : Bool} (hcount : count ≤ 15)
    (hagree : Agree (count + 1) (absorb crc bit) (absorb other new)) :
    (crc.toBitVec.msb ^^ bit) = (other.toBitVec.msb ^^ new) ∧ Agree count crc other := by
  have hlow (crc : UInt16) (bit : Bool) :
      (absorb crc bit).toBitVec.getLsbD 0 = (crc.toBitVec.msb ^^ bit) := by
    rw [absorb_toBitVec]
    cases crc.toBitVec.msb ^^ bit <;> simp
  have htop := hagree 0 (Nat.succ_pos count)
  rw [hlow, hlow] at htop
  refine ⟨htop, fun index hindex => ?_⟩
  have hnext := hagree (index + 1) (Nat.succ_lt_succ hindex)
  rw [absorb_toBitVec, absorb_toBitVec, htop, BitVec.getLsbD_xor, BitVec.getLsbD_xor,
    xor_left_inj] at hnext
  rwa [BitVec.getLsbD_shiftLeft, BitVec.getLsbD_shiftLeft,
    decide_eq_true (show index + 1 < 16 by omega)] at hnext

/-- Taking in the same bits keeps different registers apart. -/
theorem foldl_absorb_injective {word : List Bool} :
    Function.Injective fun crc => word.foldl absorb crc := by
  induction word with
  | nil => exact Function.injective_id
  | cons bit word ih =>
    intro crc other hsame
    obtain ⟨hmsb, hagree⟩ := agree_of_absorb (le_refl 15) fun index _ =>
      congrArg (fun crc : UInt16 => crc.toBitVec.getLsbD index) (ih hsame)
    rw [xor_left_inj] at hmsb
    rw [← UInt16.toBitVec_inj]
    refine BitVec.eq_of_getLsbD_eq fun index hindex => ?_
    rcases Nat.lt_succ_iff_lt_or_eq.mp hindex with hbelow | rfl
    · exact hagree index hbelow
    · exact hmsb

section

variable {old new : List Bool} (hlength : new.length = old.length) (hold : old.length ≤ 16)

include hlength hold

/-- Registers that become equal by taking in a few bits had the others in common. -/
theorem agree_of_foldl_absorb (hsame : old.foldl absorb crc = new.foldl absorb other) :
    Agree (16 - old.length) crc other := by
  induction old generalizing crc other new with
  | nil =>
    rw [length_eq_zero_iff.mp hlength] at hsame
    exact fun index _ => congrArg (fun crc : UInt16 => crc.toBitVec.getLsbD index) hsame
  | cons bit old ih =>
    obtain ⟨bit', new, rfl⟩ := exists_cons_of_length_eq_add_one hlength
    rw [length_cons] at hold
    have hrest := ih (Nat.succ.inj hlength) (by omega) hsame
    rw [show 16 - old.length = 16 - (old.length + 1) + 1 by omega] at hrest
    exact (agree_of_absorb (by omega) hrest).2

/-- At most sixteen bits can be read off the register they lead to. -/
theorem eq_of_foldl_absorb (hsame : old.foldl absorb crc = new.foldl absorb crc) : old = new := by
  induction old generalizing crc new with
  | nil => exact (length_eq_zero_iff.mp hlength).symm
  | cons bit old ih =>
    obtain ⟨bit', new, rfl⟩ := exists_cons_of_length_eq_add_one hlength
    rw [length_cons] at hold
    have hrest := agree_of_foldl_absorb (Nat.succ.inj hlength) (by omega) hsame
    rw [show 16 - old.length = 15 - old.length + 1 by omega] at hrest
    have hbit := (agree_of_absorb (by omega) hrest).1
    rw [xor_right_inj] at hbit
    subst hbit
    rw [ih (Nat.succ.inj hlength) (by omega) hsame]

end

end

theorem bits_injective : Function.Injective bits := by
  intro bytes changed hsame
  induction bytes generalizing changed with
  | nil =>
    cases changed with
    | nil => rfl
    | cons byte changed => cases hsame
  | cons byte bytes ih =>
    cases changed with
    | nil => cases hsame
    | cons byte' changed =>
      obtain ⟨hbyte, hrest⟩ := append_inj hsame rfl
      rw [ih hrest, ← UInt8.toBitVec_inj.mp (BitVec.eq_of_getMsbD_eq fun index hindex =>
        map_inj_left.mp hbyte index (mem_range.mpr hindex))]

theorem crc16Ccitt_ne_of_burst {bytes changed : List UInt8} (hburst : Burst bytes changed) :
    crc16Ccitt changed ≠ crc16Ccitt bytes := by
  obtain ⟨hne, front, old, new, back, hshort, hlength, hold, hnew⟩ := hburst
  intro hsame
  rw [crc16Ccitt, crc16Ccitt, crc16CcittUpdate_eq, crc16CcittUpdate_eq, hold, hnew,
    foldl_append, foldl_append, foldl_append, foldl_append] at hsame
  have hword := eq_of_foldl_absorb hlength hshort (foldl_absorb_injective hsame).symm
  refine hne (bits_injective ?_)
  rw [hold, hnew, hword]

end PdiStack.Checksum
