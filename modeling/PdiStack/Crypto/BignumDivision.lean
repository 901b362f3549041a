import PdiStack.Crypto.BignumArithmetic

/-!
# Products, long division and the greatest common divisor

A product is built row by row, and a row column by column, in a scratch array.  The
division goes through the bits of the dividend from the top.  After the bits from `i` on,
the remainder object holds the remainder of that part of the dividend, and the quotient
object its quotient, shifted back into place.  The remainder is never larger than the
part consumed, so the shift cannot lose a bit.
-/

namespace PdiStack.BignumDivision

open BignumArithmetic BignumWords Function
open Limbs (Words)
open Loop

variable {a b : Bignum}

/-- One column never needs more than 64 bits. -/
theorem column_lt {t x y c : ℕ} (ht : t < 2 ^ 32) (hx : x < 2 ^ 32) (hy : y < 2 ^ 32)
    (hc : c < 2 ^ 32) : t + x * y + c < 2 ^ 32 * 2 ^ 32 := by
  have hproduct : x * y ≤ (2 ^ 32 - 1) * (2 ^ 32 - 1) :=
    Nat.mul_le_mul (Nat.le_sub_one_of_lt hx) (Nat.le_sub_one_of_lt hy)
  omega

/-- A row that has got to column `j`. -/
private structure Row (tmp : Words bnMaxWords) (ai : UInt32) (b : Bignum) (i j : ℕ)
    (now : Words bnMaxWords × ℕ) : Prop where
  carry : now.2 < 2 ^ 32
  above : ∀ place, i + j ≤ place → now.1.get place = tmp.get place
  low : now.1.low bnMaxWords + (2 ^ 32) ^ (i + j) * now.2 =
    tmp.low bnMaxWords + ai.toNat * b.w.low j * (2 ^ 32) ^ i

private theorem row (tmp : Words bnMaxWords) (ai : UInt32) (b : Bignum) (i : ℕ) {n : ℕ}
    (hn : i + n ≤ bnMaxWords) : Row tmp ai b i n (countUp (mulWord ai b i) n (tmp, 0)) := by
  refine countUp_invariant (Row tmp ai b i) ⟨by norm_num, fun _ _ => rfl, by simp⟩ ?_
  rintro j ⟨now, carry⟩ hj ⟨hcarry, habove, hlow⟩
  have hroom : i + j < bnMaxWords := by omega
  have hcolumn := column_lt (now.get_lt (i + j)) ai.toNat_lt (b.w.get_lt j) hcarry
  rw [mulWord]
  rw [Nat.mod_eq_of_lt (show _ < 2 ^ 64 from hcolumn)]
  generalize hs : (now.get (i + j)).toNat + ai.toNat * (b.w.get j).toNat + carry = s at hcolumn
  have hset := now.low_set hroom (UInt32.ofNat s) hroom
  have hword : (UInt32.ofNat s).toNat + 2 ^ 32 * (s / 2 ^ 32) = s := by
    exact Nat.mod_add_div _ _
  refine ⟨Nat.div_lt_of_lt_mul hcolumn, fun place hplace => ?_, ?_⟩
  · rw [Words.get_set_of_ne _ hroom _ (by omega)]
    exact habove place (by omega)
  · have hweight : (2 ^ 32) ^ (i + j) * ((UInt32.ofNat s).toNat + 2 ^ 32 * (s / 2 ^ 32)) =
        (2 ^ 32) ^ (i + j) *
          ((now.get (i + j)).toNat + ai.toNat * (b.w.get j).toNat + carry) := by rw [hword, hs]
    rw [Words.low_succ, ← add_assoc, pow_succ (2 ^ 32) (i + j)]
    rw [pow_add (2 ^ 32) i j] at *
    linarith

private theorem mulRow_eq (tmp : Words bnMaxWords) (ai : UInt32) {i : ℕ} (hb : Normalised b)
    (hroom : i + b.used < bnMaxWords) (hzero : ∀ place, i + b.used ≤ place → tmp.get place = 0) :
    (mulRow ai b i tmp).low bnMaxWords = tmp.low bnMaxWords + ai.toNat * value b * (2 ^ 32) ^ i ∧
      ∀ place, i + 1 + b.used ≤ place → (mulRow ai b i tmp).get place = 0 := by
  obtain ⟨hcarry, habove, hlow⟩ := row tmp ai b i (le_of_lt hroom)
  rw [mulRow]
  generalize countUp (mulWord ai b i) b.used (tmp, 0) = looped at *
  have hfree : looped.1.get (i + b.used) = 0 := (habove _ le_rfl).trans (hzero _ le_rfl)
  rw [hfree, UInt32.zero_add]
  constructor
  · have hset := looped.1.low_set hroom (UInt32.ofNat looped.2) hroom
    have hword : (UInt32.ofNat looped.2).toNat = looped.2 := by
      rw [UInt32.toNat_ofNat', Nat.mod_eq_of_lt hcarry]
    rw [hfree, hword, UInt32.toNat_zero, zero_mul, add_zero] at hset
    rw [hset, hb.value_eq le_rfl, ← hlow, mul_comm looped.2]
  · intro place hplace
    rw [Words.get_set_of_ne _ hroom _ (by omega), habove place (by omega)]
    exact hzero place (by omega)

private theorem mulRows_low (ha : Normalised a) (hb : Normalised b)
    (hfits : a.used + b.used ≤ bnMaxWords) :
    (mulRows a b).low bnMaxWords = value a * value b := by
  have hrows : (mulRows a b).low bnMaxWords = a.w.low a.used * value b ∧
      ∀ place, a.used + b.used ≤ place → (mulRows a b).get place = 0 := by
    refine countUp_invariant (fun i tmp => Words.low tmp bnMaxWords = a.w.low i * value b ∧
      ∀ place, i + b.used ≤ place → Words.get tmp place = 0) ?_ ?_
    · have hzero : bnZero.w.low bnMaxWords = 0 := by rw [← value_bnZero, value]
      rw [Words.low_zero, zero_mul]
      exact ⟨hzero, fun place _ => normalised_bnZero.above place (Nat.zero_le place)⟩
    · rintro i tmp hi ⟨hlow, hzero⟩
      obtain ⟨hrow, habove⟩ := mulRow_eq tmp (a.w.get i) hb (by omega) hzero
      refine ⟨?_, habove⟩
      rw [hrow, hlow, Words.low_succ]
      ring
  rw [hrows.1, ← ha.value_eq le_rfl]

theorem bnMul_eq (r a b : ℕ) (objects : Objects) (ha : Normalised (objects a))
    (hb : Normalised (objects b)) (hfits : (objects a).used + (objects b).used ≤ bnMaxWords) :
    bnMul r a b objects =
      (true, update objects r (ofNat (value (objects a) * value (objects b)))) := by
  rw [bnMul, if_neg (Nat.not_lt.2 hfits), bnNorm_eq_ofNat, value, mulRows_low ha hb hfits]

theorem bnMul_full (r a b : ℕ) (objects : Objects)
    (hfull : bnMaxWords < (objects a).used + (objects b).used) :
    bnMul r a b objects = (false, objects) := by
  rw [bnMul, if_pos hfull]

theorem subInPlace_eq (ha : Normalised a) (hb : Normalised b) (hle : value b ≤ value a) :
    subInPlace a b = ofNat (value a - value b) := by
  have hsub := bnSub_eq 1 1 2 (locals a b) ha hb hle
  rw [subInPlace, hsub]
  exact update_self 1 _ (locals a b)

private theorem low_setBit (words : Words bnMaxWords) {i : ℕ} (hroom : i / 32 < bnMaxWords)
    (hclear : words.low bnMaxWords % 2 ^ (i + 1) = 0) :
    (words.set (i / 32) (words.get (i / 32) ||| 1 <<< UInt32.ofNat (i % 32))).low bnMaxWords =
      words.low bnMaxWords + 2 ^ i := by
  have hsplit : ∀ more, 2 ^ (i + more) = 2 ^ (32 * (i / 32)) * 2 ^ (i % 32 + more) := by
    intro more
    rw [← pow_add, ← add_assoc, Nat.div_add_mod]
  obtain ⟨high, hhigh⟩ : ∃ high, (words.get (i / 32)).toNat = high * 2 ^ (i % 32 + 1) := by
    obtain ⟨part, hpart⟩ := Nat.dvd_of_mod_eq_zero hclear
    have hbits : words.low bnMaxWords / 2 ^ (32 * (i / 32) + 0) % 2 ^ (i % 32 + 1) =
        (words.get (i / 32)).toNat / 2 ^ 0 % 2 ^ (i % 32 + 1) :=
      words.low_bits hroom (by omega)
    rw [add_zero, pow_zero, Nat.div_one, hpart, hsplit, mul_assoc,
      Nat.mul_div_cancel_left _ (Nat.two_pow_pos _), Nat.mul_mod_right] at hbits
    obtain ⟨high, hhigh⟩ := Nat.dvd_of_mod_eq_zero hbits.symm
    exact ⟨high, by rw [hhigh, mul_comm]⟩
  have hplace : i % 32 % 2 ^ 32 % 32 = i % 32 := by omega
  have hbit : (1 <<< UInt32.ofNat (i % 32) : UInt32).toNat = 2 ^ (i % 32) := by
    rw [UInt32.toNat_shiftLeft, UInt32.toNat_ofNat', hplace, UInt32.toNat_one, Nat.one_shiftLeft]
    exact Nat.mod_eq_of_lt (Nat.pow_lt_pow_right (by norm_num) (by omega))
  have hor : (words.get (i / 32) ||| 1 <<< UInt32.ofNat (i % 32)).toNat =
      (words.get (i / 32)).toNat + 2 ^ (i % 32) := by
    rw [UInt32.toNat_or, hbit, hhigh, Nat.or_comm, WordBytes.or_mul_two_pow_of_lt, add_comm]
    exact Nat.pow_lt_pow_right (by norm_num) (Nat.lt_succ_self _)
  have hset := words.low_set hroom (words.get (i / 32) ||| 1 <<< UInt32.ofNat (i % 32)) hroom
  have hweight : 2 ^ i = 2 ^ (i % 32) * (2 ^ 32) ^ (i / 32) := by
    rw [← pow_mul, mul_comm]
    exact hsplit 0
  rw [hor] at hset
  linarith

theorem setLowBit_eq (ha : Normalised a) (heven : value a % 2 = 0) :
    setLowBit a = ofNat (value a + 1) := by
  have hfits := ha.fits
  have hroom : 0 < bnMaxWords := by decide
  have hset := @low_setBit a.w 0 hroom (by rw [value] at heven; exact heven)
  have hword : a.w.get 0 ||| 1 ≠ 0 := by
    intro hzero
    have hbit := congrArg (fun word => word.toNat.testBit 0) hzero
    simp at hbit
  have hget : ∀ i, (setLowBit a).w.get i = if i = 0 then a.w.get 0 ||| 1 else a.w.get i :=
    fun i => a.w.get_set hroom _ i
  have hused : (setLowBit a).used = if a.used = 0 then 1 else a.used := rfl
  refine Normalised.eq_ofNat ⟨?_, fun i hi => ?_, fun _ => ?_⟩ (by rw [value, value]; exact hset)
  · rw [hused]
    split <;> omega
  · have hbelow : a.used ≤ i ∧ i ≠ 0 := by
      rw [hused] at hi
      split at hi <;> omega
    rw [hget, if_neg hbelow.2]
    exact ha.above i hbelow.1
  · rw [hget]
    split
    · exact hword
    rename_i hplace
    have hsame : (setLowBit a).used = a.used := by
      rw [hused] at hplace ⊢
      split at hplace
      · exact absurd rfl hplace
      · rename_i hsome
        rw [if_neg hsome]
    rw [hsame] at hplace ⊢
    exact ha.top (by omega)

theorem setQuotientBit_value {Q : Bignum} {i : ℕ} (hroom : i < 32 * bnMaxWords)
    (hclear : value Q % 2 ^ (i + 1) = 0) : value (setQuotientBit i Q) = value Q + 2 ^ i := by
  rw [value] at hclear ⊢
  rw [value]
  exact low_setBit Q.w (by omega) hclear

/-- The part of the dividend above bit `i` has been divided. -/
private structure Dividing (a b : Bignum) (i : ℕ) (now : Bignum × Bignum) : Prop where
  remainder : now.1 = ofNat (value a / 2 ^ i % value b)
  quotient : value now.2 = value a / 2 ^ i / value b * 2 ^ i

private theorem part_succ (number i : ℕ) :
    number / 2 ^ i = 2 * (number / 2 ^ (i + 1)) + number / 2 ^ i % 2 := by
  rw [pow_succ, ← Nat.div_div_eq_div_mul]
  exact (Nat.div_add_mod _ 2).symm

private theorem divideBit_shifted (ha : Normalised a) {i : ℕ} {R : Bignum}
    (hR : R = ofNat (value a / 2 ^ (i + 1) % value b)) :
    (if bnTestBit a i then setLowBit (bnShl1 R) else bnShl1 R) =
      ofNat (2 * (value a / 2 ^ (i + 1) % value b) + value a / 2 ^ i % 2) := by
  have hpart := part_succ (value a) i
  have hle : value a / 2 ^ (i + 1) % value b ≤ value a / 2 ^ (i + 1) := Nat.mod_le _ _
  have hdividend : value a / 2 ^ i ≤ value a := Nat.div_le_self _ _
  have hroom := value_lt a
  generalize value a / 2 ^ (i + 1) % value b = rest at hR hle
  have hrest : value R = rest := by rw [hR, value_ofNat (by omega)]
  have hshift : bnShl1 R = ofNat (2 * rest) := by
    rw [bnShl1_eq (hR ▸ normalised_ofNat rest) (by omega), hrest]
  have hvalue : value (ofNat (2 * rest)) = 2 * rest := value_ofNat (by omega)
  rw [hshift, bnTestBit_eq ha, Nat.testBit_eq_decide_div_mod_eq]
  by_cases hbit : value a / 2 ^ i % 2 = 1
  · rw [if_pos (decide_eq_true hbit), setLowBit_eq (normalised_ofNat _) (by omega), hvalue, hbit]
  · have hclear : value a / 2 ^ i % 2 = 0 := by omega
    rw [if_neg (by simpa using hbit), hclear, add_zero]

private theorem divideBit_step (ha : Normalised a) (hb : Normalised b) (hdivisor : 0 < value b)
    {i : ℕ} (hroom : i < 32 * bnMaxWords) {now : Bignum × Bignum}
    (hnow : Dividing a b (i + 1) now) : Dividing a b i (divideBit a b i now) := by
  obtain ⟨hremainder, hquotient⟩ := hnow
  have hshifted := divideBit_shifted ha hremainder
  have hpart := part_succ (value a) i
  have hdividend : value a / 2 ^ i ≤ value a := Nat.div_le_self _ _
  have hcapacity := value_lt a
  have hsplit := Nat.div_add_mod (value a / 2 ^ (i + 1)) (value b)
  have hrest := Nat.mod_lt (value a / 2 ^ (i + 1)) hdivisor
  have hpow : value a / 2 ^ (i + 1) / value b * 2 ^ (i + 1) =
      2 * (value a / 2 ^ (i + 1) / value b) * 2 ^ i := by
    ring
  generalize value a / 2 ^ (i + 1) / value b = quotient at *
  generalize value a / 2 ^ (i + 1) % value b = rest at *
  -- the part so far is the divisor times twice the quotient, and what the object holds
  have hnext : value a / 2 ^ i = 2 * rest + value a / 2 ^ i % 2 + value b * (2 * quotient) := by
    ring_nf
    omega
  have hbit : value a / 2 ^ i % 2 < 2 := Nat.mod_lt _ zero_lt_two
  generalize value a / 2 ^ i % 2 = bit at *
  have hvalue : value (ofNat (2 * rest + bit)) = 2 * rest + bit := value_ofNat (by omega)
  rw [divideBit, hshifted]
  by_cases hge : value b ≤ 2 * rest + bit
  · have hsub : 2 * rest + bit - value b < value b := by omega
    have hsum : value a / 2 ^ i = 2 * rest + bit - value b + value b * (2 * quotient + 1) := by
      rw [mul_add]
      omega
    rw [if_pos ((isGE_bnCmp_iff (normalised_ofNat (2 * rest + bit)) hb).2 (by rw [hvalue]; exact hge))]
    refine ⟨?_, ?_⟩
    · rw [subInPlace_eq (normalised_ofNat _) hb (by rw [hvalue]; exact hge), hvalue, hsum,
        Nat.add_mul_mod_self_left, Nat.mod_eq_of_lt hsub]
    · rw [setQuotientBit_value hroom (by rw [hquotient]; exact Nat.mul_mod_left _ _), hquotient,
        hsum, Nat.add_mul_div_left _ _ hdivisor, Nat.div_eq_of_lt hsub]
      ring
  · have hless : 2 * rest + bit < value b := Nat.not_le.1 hge
    rw [if_neg ((isGE_bnCmp_iff (normalised_ofNat (2 * rest + bit)) hb).not.2
      (by rw [hvalue]; exact hge))]
    refine ⟨?_, ?_⟩
    · rw [hnext, Nat.add_mul_mod_self_left, Nat.mod_eq_of_lt hless]
    · rw [hquotient, hpow, hnext, Nat.add_mul_div_left _ _ hdivisor, Nat.div_eq_of_lt hless,
        zero_add]

private theorem divide_eq (ha : Normalised a) (hb : Normalised b) (hdivisor : 0 < value b) :
    Dividing a b 0 (countDown (divideBit a b) (bnBitlen a) (bnZero, bnZero)) := by
  have hlength : bnBitlen a ≤ 32 * bnMaxWords := by
    rw [bnBitlen_eq ha, Nat.size_le, pow_mul]
    exact value_lt a
  refine countDown_invariant (Dividing a b) ?_ fun i now hi hnow =>
    divideBit_step ha hb hdivisor (by omega) hnow
  have hnone : value a / 2 ^ bnBitlen a = 0 := by
    rw [bnBitlen_eq ha]
    exact Nat.div_eq_of_lt (Nat.lt_size_self _)
  refine ⟨?_, ?_⟩
  · rw [hnone]
    exact bnZero_eq
  · rw [hnone, Nat.zero_div, zero_mul]
    exact value_bnZero

/-- The quotient is not written over a dividend that is still to be copied. -/
def KeepsDividend (a b : ℕ) (q rem : Option ℕ) (objects : Objects) : Prop :=
  q = some a → rem ≠ none → 0 < value (objects a) → value (objects b) ≤ value (objects a)

theorem bnDivmod_eq (a b : ℕ) (q rem : Option ℕ) (objects : Objects) (ha : Normalised (objects a))
    (hb : Normalised (objects b)) (hdivisor : 0 < value (objects b))
    (hkeeps : KeepsDividend a b q rem objects) :
    bnDivmod a b q rem objects =
      (true, putIfAsked rem (ofNat (value (objects a) % value (objects b)))
        (putIfAsked q (ofNat (value (objects a) / value (objects b))) objects)) := by
  rw [bnDivmod, bnIsZero_eq hb, if_neg (by simpa using Nat.ne_of_gt hdivisor)]
  by_cases hless : value (objects a) < value (objects b)
  · rw [if_pos ((isLT_bnCmp_iff ha hb).2 hless), Nat.div_eq_of_lt hless,
      Nat.mod_eq_of_lt hless, ← bnZero_eq]
    dsimp only
    by_cases hsame : q = some a
    · subst hsame
      cases rem with
      | none => simp only [putIfAsked]
      | some target =>
        have hzero : value (objects a) = 0 := by
          by_contra hpos
          exact absurd (hkeeps rfl (Option.some_ne_none target) (pos_of_ne_zero hpos))
            (Nat.not_le.2 hless)
        rw [hzero, ← bnZero_eq]
        simp [putIfAsked, update_self]
    · have hkept : putIfAsked q bnZero objects a = objects a := by
        cases q with
        | none => rfl
        | some target =>
          exact update_of_ne (fun heq => hsame (congrArg some heq.symm)) _ _
      rw [hkept, ← ha.eq_ofNat rfl]
  · obtain ⟨hremainder, hquotient⟩ := divide_eq ha hb hdivisor
    rw [if_neg ((isLT_bnCmp_iff ha hb).not.2 hless)]
    rw [pow_zero, Nat.div_one, mul_one] at hquotient
    rw [pow_zero, Nat.div_one] at hremainder
    have hrest : value (objects a) % value (objects b) < capacity :=
      lt_of_le_of_lt (Nat.mod_le _ _) (value_lt _)
    dsimp only
    rw [bnNorm_eq_ofNat, bnNorm_eq_ofNat, hquotient, hremainder, value_ofNat hrest]

/-- Otherwise the remainder comes out as zero. -/
theorem bnDivmod_overwritten (a b r : ℕ) (objects : Objects) (ha : Normalised (objects a))
    (hb : Normalised (objects b)) (hless : value (objects a) < value (objects b)) :
    bnDivmod a b (some a) (some r) objects = (true, update (update objects a bnZero) r bnZero) := by
  rw [bnDivmod, bnIsZero_eq hb, if_neg (by simpa using Nat.ne_of_gt (Nat.zero_lt_of_lt hless)),
    if_pos ((isLT_bnCmp_iff ha hb).2 hless)]
  simp [putIfAsked, update_self]

theorem bnMod_eq {r a m : ℕ} {objects : Objects} (ha : Normalised (objects a))
    (hm : Normalised (objects m)) (hdivisor : 0 < value (objects m)) :
    bnMod r a m objects =
      (true, update objects r (ofNat (value (objects a) % value (objects m)))) :=
  bnDivmod_eq a m none (some r) objects ha hm hdivisor fun hnone => nomatch hnone

/-- `bn_mod` into an object of the caller's own. -/
theorem returned_bnMod (ha : Normalised a) (hb : Normalised b) (hdivisor : 0 < value b) :
    returned (bnMod 0 1 2 (locals a b)) = some (ofNat (value a % value b)) := by
  rw [bnMod_eq ha hb hdivisor]
  exact congrArg some (update_self 0 _ (locals a b))

private theorem runFor_gcdPass {x y passes : ℕ} (hx : x < capacity) (hy : y < capacity)
    (hpasses : y < passes) :
    runFor gcdPass passes (ofNat x, ofNat y) = some (some (ofNat (Nat.gcd x y))) := by
  induction y using Nat.strongRecOn generalizing x passes with
  | ind y ih =>
    obtain ⟨fewer, rfl⟩ := Nat.exists_eq_succ_of_ne_zero (Nat.ne_of_gt (Nat.zero_lt_of_lt hpasses))
    have hzero : bnIsZero (ofNat y) = decide (y = 0) := by
      rw [bnIsZero_eq (normalised_ofNat y), value_ofNat hy]
    by_cases hdone : y = 0
    · subst hdone
      rw [Nat.gcd_zero_right]
      refine runFor_done fewer ?_
      rw [gcdPass, hzero]
      rfl
    · have hpos : 0 < y := pos_of_ne_zero hdone
      have hless : x % y < y := Nat.mod_lt x hpos
      have hpass : gcdPass (ofNat x, ofNat y) = .again (ofNat y, ofNat (x % y)) := by
        have hmod := returned_bnMod (normalised_ofNat x) (normalised_ofNat y)
          (by rw [value_ofNat hy]; exact hpos)
        rw [value_ofNat hx, value_ofNat hy] at hmod
        rw [gcdPass, hzero, if_neg (by simpa using hdone), hmod]
      rw [runFor_again fewer hpass, ih (x % y) hless hy (hless.trans hy) (by omega),
        Nat.gcd_comm y, ← Nat.gcd_rec, Nat.gcd_comm]

/-- The loop leaves, within as many passes as the second operand says, with the
greatest common divisor. -/
theorem bnGcd_eq (passes r a b : ℕ) (objects : Objects) (ha : Normalised (objects a))
    (hb : Normalised (objects b)) (hpasses : value (objects b) < passes) :
    bnGcd passes r a b objects = some (true, update objects r
      (ofNat (Nat.gcd (value (objects a)) (value (objects b))))) := by
  have hrun := runFor_gcdPass (value_lt (objects a)) (value_lt (objects b)) hpasses
  rw [← ha.eq_ofNat rfl, ← hb.eq_ofNat rfl] at hrun
  rw [bnGcd, hrun]
  rfl

end PdiStack.BignumDivision
