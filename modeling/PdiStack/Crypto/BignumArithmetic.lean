import Mathlib
import PdiStack.Core.WordBytes
import PdiStack.Crypto.BignumWords

/-!
# Sums, differences and bytes of big integers

The value of a `bignum` is the number its words stand for, and a normalised one is
determined by its value: it is `ofNat` of it.  Every function is described by the
`ofNat` it stores, so that callers compute with numbers.

A word loop reads the words at an index before it stores one there, and no later
index is read through an earlier store.  Whether the result is one of the operands
therefore makes no difference (`wordLoop_eq`).
-/

namespace PdiStack.BignumArithmetic

open BignumWords Limbs Loop List Function

def value (a : Bignum) : ℕ := a.w.low bnMaxWords

/-- No leading zero word, and the words above `used` are zero. -/
structure Normalised (a : Bignum) : Prop where
  fits : a.used ≤ bnMaxWords
  above : ∀ i, a.used ≤ i → a.w.get i = 0
  top : a.used ≠ 0 → a.w.get (a.used - 1) ≠ 0

def capacity : ℕ := (2 ^ 32) ^ bnMaxWords

/-- The normalised `bignum` of a number.  It is never unfolded past its value. -/
@[irreducible]
def ofNat (number : ℕ) : Bignum := bnNorm ⟨Words.ofNat bnMaxWords number, 0⟩

variable {a b : Bignum} {number : ℕ}

theorem value_lt (a : Bignum) : value a < capacity := a.w.low_lt bnMaxWords

@[simp] theorem value_bnNorm (a : Bignum) : value (bnNorm a) = value a := rfl

theorem normalised_bnNorm {a : Bignum} : Normalised (bnNorm a) where
  fits := significant_le
  above := by
    intro i hi
    rcases lt_or_ge i bnMaxWords with hlt | hge
    · have hzero : (a.w.get i).toNat = 0 :=
        @digit_eq_zero_of_significant_le (fun i => (a.w.get i).toNat) bnMaxWords i hlt hi
      exact UInt32.toNat.inj hzero
    · exact Words.get_of_le hge
  top := by
    intro hused hzero
    exact digit_significant_ne_zero hused (congrArg UInt32.toNat hzero)

theorem normalised_ofNat (number : ℕ) : Normalised (ofNat number) := by
  rw [ofNat]
  exact normalised_bnNorm

theorem value_ofNat (hfits : number < capacity) : value (ofNat number) = number := by
  rw [ofNat, value_bnNorm, value, Words.low_ofNat number le_rfl]
  exact Nat.mod_eq_of_lt hfits

theorem Normalised.eq_of_value_eq (ha : Normalised a) (hb : Normalised b)
    (hvalue : value a = value b) : a = b := by
  have hwords : a.w = b.w := Words.low_injective hvalue
  have hused : a.used = b.used := by
    rcases lt_trichotomy a.used b.used with hless | heq | hgreater
    · exact absurd (hwords ▸ ha.above (b.used - 1) (by omega)) (hb.top (by omega))
    · exact heq
    · exact absurd (hwords ▸ hb.above (a.used - 1) (by omega)) (ha.top (by omega))
  cases a
  cases b
  simp only at hwords hused
  rw [hwords, hused]

theorem Normalised.eq_ofNat (ha : Normalised a) (hvalue : value a = number) : a = ofNat number :=
  ha.eq_of_value_eq (normalised_ofNat number) (by rw [value_ofNat (hvalue ▸ value_lt a), hvalue])

theorem bnNorm_eq_ofNat (a : Bignum) : bnNorm a = ofNat (value a) :=
  (normalised_bnNorm).eq_ofNat rfl

theorem normalised_bnZero : Normalised bnZero where
  fits := Nat.zero_le _
  above := by
    intro i _
    rw [Words.get]
    split <;> rfl
  top := fun hused => absurd rfl hused

theorem wordAt_eq (ha : Normalised a) (i : ℕ) : wordAt a i = a.w.get i := by
  rw [wordAt]
  split
  · rfl
  · rename_i habove
    exact (ha.above i (Nat.not_lt.1 habove)).symm

variable {bit len n : ℕ} (r : ℕ) (bytes : List UInt8)

section

variable (ha : Normalised a)
include ha

/-- Any number of words that covers those in use gives the value. -/
theorem Normalised.value_eq (hused : a.used ≤ n) : value a = a.w.low n := by
  have hzero : ∀ i, a.used ≤ i → (a.w.get i).toNat = 0 := fun i hi => by
    rw [ha.above i hi]
    rfl
  have hall : value a = a.w.low a.used := value_extend ha.fits hzero
  have hsome : a.w.low n = a.w.low a.used := value_extend hused hzero
  rw [hall, hsome]

theorem Normalised.value_lt_pow (hused : a.used ≤ n) : value a < (2 ^ 32) ^ n := by
  rw [ha.value_eq hused]
  exact a.w.low_lt n

theorem Normalised.pow_le_value (hused : a.used ≠ 0) : (2 ^ 32) ^ (a.used - 1) ≤ value a := by
  have hword : 1 ≤ (a.w.get (a.used - 1)).toNat :=
    Nat.one_le_iff_ne_zero.2 fun hzero => ha.top hused (UInt32.toNat.inj hzero)
  calc (2 ^ 32) ^ (a.used - 1)
      ≤ (a.w.get (a.used - 1)).toNat * (2 ^ 32) ^ (a.used - 1) := Nat.le_mul_of_pos_left _ hword
    _ ≤ value a := by
        rw [ha.value_eq le_rfl]
        exact @digit_mul_le_value _ (fun i => (a.w.get i).toNat) _ _ (by omega)

theorem Normalised.used_eq_zero_iff : a.used = 0 ↔ value a = 0 := by
  constructor
  · intro hused
    rw [ha.value_eq (le_of_eq hused), Words.low_zero]
  · intro hvalue
    by_contra hused
    have hpos : 0 < (2 ^ 32) ^ (a.used - 1) := by positivity
    exact absurd (ha.pow_le_value hused) (by omega)

end

@[simp] theorem value_bnZero : value bnZero = 0 := normalised_bnZero.used_eq_zero_iff.1 rfl

theorem bnZero_eq : bnZero = ofNat 0 := normalised_bnZero.eq_ofNat value_bnZero

theorem bnSetU32_eq (v : UInt32) : bnSetU32 v = ofNat v.toNat := by
  rw [bnSetU32]
  split
  · have hroom : 0 < bnMaxWords := by decide
    have hnormal : Normalised ⟨bnZero.w.set 0 v, 1⟩ := by
      refine ⟨hroom, fun i hi => ?_, fun _ => ?_⟩
      · have hplace : 1 ≤ i := hi
        rw [Words.get_set_of_ne _ hroom _ (by omega)]
        exact normalised_bnZero.above i (Nat.zero_le i)
      · rwa [Nat.sub_self]
    refine hnormal.eq_ofNat ?_
    rw [hnormal.value_eq le_rfl, Words.low_succ, Words.low_zero, Words.get_set_self _ hroom,
      pow_zero, mul_one, zero_add]
  · rename_i hzero
    rw [bnZero_eq, not_not.1 hzero, UInt32.toNat_zero]

theorem value_bnSetU32 (v : UInt32) : value (bnSetU32 v) = v.toNat := by
  rw [bnSetU32_eq, value_ofNat]
  exact lt_of_lt_of_le v.toNat_lt (Nat.le_self_pow (by decide) _)

/-! ## The order -/

section

variable (ha : Normalised a)
include ha

theorem bnIsZero_eq : bnIsZero a = decide (value a = 0) := by
  exact decide_eq_decide.mpr ha.used_eq_zero_iff

theorem bnCmp_eq (hb : Normalised b) : bnCmp a b = compare (value a) (value b) := by
  rw [bnCmp]
  have hless : ∀ {x y : Bignum}, Normalised x → Normalised y → x.used < y.used →
      value x < value y := by
    intro x y hx hy hused
    have hbelow : x.used ≤ y.used - 1 := by omega
    exact lt_of_lt_of_le (hx.value_lt_pow hbelow) (hy.pow_le_value (by omega))
  rcases lt_trichotomy a.used b.used with hlower | hsame | hhigher
  · rw [if_pos (ne_of_lt hlower), if_neg (Nat.lt_asymm hlower)]
    exact (Nat.compare_eq_lt.2 (hless ha hb hlower)).symm
  · rw [if_neg (not_not.2 hsame), ha.value_eq le_rfl, hb.value_eq (le_of_eq hsame.symm)]
    exact compareDown_eq (fun i _ => a.w.get_lt i) (fun i _ => b.w.get_lt i)
  · rw [if_pos (Nat.ne_of_gt hhigher), if_pos hhigher]
    exact (Nat.compare_eq_gt.2 (hless hb ha hhigher)).symm

theorem isLT_bnCmp_iff (hb : Normalised b) : (bnCmp a b).isLT ↔ value a < value b := by
  rw [bnCmp_eq ha hb, Ordering.isLT_iff_eq_lt, Nat.compare_eq_lt]

theorem isGE_bnCmp_iff (hb : Normalised b) : (bnCmp a b).isGE ↔ value b ≤ value a := by
  rw [bnCmp_eq ha hb, Nat.isGE_compare]

end

/-! ## Word loops -/

/-- The carry a word loop has before index `i`, from the operands as they were. -/
def chain (step : UInt32 → UInt32 → ℕ → UInt32 × ℕ) (x y : ℕ → UInt32) : ℕ → ℕ
  | 0 => 0
  | i + 1 => (step (x i) (y i) (chain step x y i)).2

/-- The word it stores at index `i`. -/
def stored (step : UInt32 → UInt32 → ℕ → UInt32 × ℕ) (x y : ℕ → UInt32) (i : ℕ) : UInt32 :=
  (step (x i) (y i) (chain step x y i)).1

private def rewritten (a : Bignum) (word : ℕ → UInt32) (n : ℕ) : Bignum :=
  ⟨fun place => if place.val < n then word place.val else a.w place, a.used⟩

private theorem rewritten_get (a : Bignum) (word : ℕ → UInt32) {i : ℕ} (hi : i < bnMaxWords) :
    (rewritten a word n).w.get i = if i < n then word i else a.w.get i := by
  simp [rewritten, Words.get, dif_pos hi]

private theorem rewritten_succ (a : Bignum) (word : ℕ → UInt32) (hn : n < bnMaxWords) :
    (⟨(rewritten a word n).w.set n (word n), a.used⟩ : Bignum) = rewritten a word (n + 1) := by
  have hwords : (rewritten a word n).w.set n (word n) = (rewritten a word (n + 1)).w := by
    refine Words.ext_get fun i hi => ?_
    rw [Words.get_set _ hn, rewritten_get a word hi, rewritten_get a word hi]
    rcases lt_trichotomy i n with hless | rfl | hgreater
    · rw [if_neg (by omega), if_pos hless, if_pos (by omega)]
    · rw [if_pos rfl, if_pos (Nat.lt_succ_self i)]
    · rw [if_neg (by omega), if_neg (by omega), if_neg (by omega)]
  exact congrArg (fun w => (⟨w, a.used⟩ : Bignum)) hwords

/-- The words at an index no store has reached yet are those the loop began with,
also in the object it writes. -/
private theorem wordAt_rewritten (objects : Objects) (word : ℕ → UInt32) (r operand : ℕ)
    (hn : n < bnMaxWords) :
    wordAt (update objects r (rewritten (objects r) word n) operand) n =
      wordAt (objects operand) n := by
  by_cases hsame : operand = r
  · subst hsame
    rw [update_self, wordAt, rewritten_get _ _ hn, if_neg (lt_irrefl n)]
    rfl
  · rw [update_of_ne hsame]

section

variable (step : UInt32 → UInt32 → ℕ → UInt32 × ℕ) (r a b : ℕ) (objects : Objects)
  (hn : n ≤ bnMaxWords)

include hn

/-- A word loop stores the words its operands had at the start, whichever of them
it overwrites. -/
private theorem wordLoop_rewrites :
    wordLoop step r a b n objects =
      (update objects r (rewritten (objects r)
        (stored step (wordAt (objects a)) (wordAt (objects b))) n),
        chain step (wordAt (objects a)) (wordAt (objects b)) n) := by
  refine countUp_invariant (fun i now => now =
    (update objects r (rewritten (objects r)
      (stored step (wordAt (objects a)) (wordAt (objects b))) i),
      chain step (wordAt (objects a)) (wordAt (objects b)) i)) ?_ ?_
  · have hnone : rewritten (objects r) (stored step (wordAt (objects a)) (wordAt (objects b))) 0 =
        objects r := by
      simp [rewritten, not_lt_zero]
    rw [hnone, update_eq_self, chain]
  · rintro i now hi rfl
    have hroom : i < bnMaxWords := by omega
    dsimp only
    rw [wordAt_rewritten objects _ r a hroom, wordAt_rewritten objects _ r b hroom, storeWord,
      update_idem, update_self]
    exact Prod.ext (congrArg (update objects r) (rewritten_succ _ _ hroom)) rfl

def total (step : UInt32 → UInt32 → ℕ → UInt32 × ℕ) (a b : Bignum) (n : ℕ) : ℕ :=
  Limbs.value (2 ^ 32) (fun i => (stored step (wordAt a) (wordAt b) i).toNat) n

theorem wordLoop_eq :
    ∃ result, wordLoop step r a b n objects =
        (update objects r result,
          chain step (wordAt (objects a)) (wordAt (objects b)) n) ∧
      result.w.low n = total step (objects a) (objects b) n := by
  refine ⟨_, wordLoop_rewrites step r a b objects hn, value_congr fun i hi => ?_⟩
  rw [rewritten_get _ _ (by omega), if_pos hi]

end

theorem bnNorm_keepWords {word : ℕ → UInt32} (hn : n ≤ bnMaxWords) (used : ℕ) :
    bnNorm ⟨keepWords word n, used⟩ = ofNat (Limbs.value (2 ^ 32) (fun i => (word i).toNat) n) := by
  have hget : ∀ i, i < n → (keepWords word n).get i = word i := by
    intro i hi
    have hroom : i < bnMaxWords := lt_of_lt_of_le hi hn
    rw [Words.get, dif_pos hroom]
    exact if_pos hi
  have hclear : ∀ i, n ≤ i → ((keepWords word n).get i).toNat = 0 := by
    intro i hi
    by_cases hroom : i < bnMaxWords
    · rw [Words.get, dif_pos hroom, keepWords, if_neg (Nat.not_lt.2 hi)]
      rfl
    · rw [Words.get_of_le (Nat.not_lt.1 hroom)]
      rfl
  have hvalue : value ⟨keepWords word n, used⟩ =
      Limbs.value (2 ^ 32) (fun i => (word i).toNat) n := by
    rw [value, Words.low, value_extend hn hclear]
    exact value_congr fun i hi => by rw [hget i hi]
  rw [bnNorm_eq_ofNat, hvalue]

theorem finish_eq {objects : Objects} {r : ℕ} (hn : n ≤ bnMaxWords) :
    finish objects r n = update objects r (ofNat ((objects r).w.low n)) := by
  rw [finish, bnNorm_keepWords hn]
  rfl

/-! ## Addition -/

theorem addStep_eq {x y : UInt32} {carry : ℕ} :
    (addStep x y carry).1.toNat + 2 ^ 32 * (addStep x y carry).2 = x.toNat + y.toNat + carry := by
  exact Nat.mod_add_div _ _

theorem total_addStep (a b : Bignum) (n : ℕ) :
    total addStep a b n + (2 ^ 32) ^ n * chain addStep (wordAt a) (wordAt b) n =
      Limbs.value (2 ^ 32) (fun i => (wordAt a i).toNat) n +
        Limbs.value (2 ^ 32) (fun i => (wordAt b i).toNat) n := by
  rw [← value_add]
  exact value_carry fun i => addStep_eq

/-- The words of a normalised operand, as the word loops read them. -/
theorem value_wordAt (ha : Normalised a) (hused : a.used ≤ n) :
    Limbs.value (2 ^ 32) (fun i => (wordAt a i).toNat) n = value a := by
  rw [ha.value_eq hused]
  exact value_congr fun i _ => by rw [wordAt_eq ha]

section

variable (a b : ℕ) (objects : Objects) (ha : Normalised (objects a)) (hb : Normalised (objects b))

include ha hb

/-- What the word loop of an addition leaves: the sum, cut into the words stored
and a last carry. -/
private theorem bnAdd_cases :
    ∃ result carry n, n ≤ bnMaxWords ∧ carry < 2 ∧
      result.w.low n + (2 ^ 32) ^ n * carry = value (objects a) + value (objects b) ∧
      bnAdd r a b objects =
        if carry ≠ 0 then
          if bnMaxWords ≤ n then (false, update objects r result)
          else (true, update objects r (ofNat (result.w.low n + (2 ^ 32) ^ n * carry)))
        else (true, update objects r (ofNat (result.w.low n))) := by
  have hn : max (objects a).used (objects b).used ≤ bnMaxWords := max_le ha.fits hb.fits
  have hleft := ha.value_lt_pow (le_max_left _ (objects b).used)
  have hright := hb.value_lt_pow (le_max_right (objects a).used _)
  have hsum := total_addStep (objects a) (objects b) (max (objects a).used (objects b).used)
  rw [value_wordAt ha (le_max_left _ _), value_wordAt hb (le_max_right _ _)] at hsum
  rw [bnAdd]
  generalize max (objects a).used (objects b).used = n at *
  obtain ⟨result, hloop, hlow⟩ := wordLoop_eq addStep r a b objects hn
  rw [← hlow] at hsum
  generalize chain addStep (wordAt (objects a)) (wordAt (objects b)) n = carry at hloop hsum
  have hcarry : carry < 2 := by
    have hbelow : (2 ^ 32) ^ n * carry < (2 ^ 32) ^ n * 2 := by omega
    exact Nat.lt_of_mul_lt_mul_left hbelow
  refine ⟨result, carry, n, hn, hcarry, hsum, ?_⟩
  rw [min_eq_left hn, hloop, if_neg (Nat.not_lt.2 hn)]
  dsimp only
  by_cases hzero : carry = 0
  · rw [if_neg (not_not.2 hzero), if_neg (not_not.2 hzero), finish_eq hn, update_self, update_idem]
  rw [if_pos hzero, if_pos hzero]
  by_cases hfull : bnMaxWords ≤ n
  · rw [if_pos hfull, if_pos hfull]
  · have hroom : n < bnMaxWords := Nat.not_le.1 hfull
    have hword : carry % 2 ^ 32 = carry := Nat.mod_eq_of_lt (by omega)
    rw [if_neg hfull, if_neg hfull, finish_eq hroom, storeWord, update_self,
      update_idem, update_self, update_idem, Words.low_succ,
      Words.get_set_self _ hroom, Words.low_set_of_le _ hroom _ le_rfl, UInt32.toNat_ofNat',
      hword, mul_comm carry]

theorem bnAdd_eq (hfits : value (objects a) + value (objects b) < capacity) :
    bnAdd r a b objects =
      (true, update objects r (ofNat (value (objects a) + value (objects b)))) := by
  obtain ⟨result, carry, n, hn, -, hsum, hadd⟩ := bnAdd_cases r a b objects ha hb
  rw [hadd]
  by_cases hcarry : carry = 0
  · rw [if_neg (not_not.2 hcarry), ← hsum, hcarry, mul_zero, add_zero]
  · have hroom : ¬bnMaxWords ≤ n := by
      intro hfull
      have hle : capacity ≤ (2 ^ 32) ^ n * carry := by
        rw [le_antisymm hn hfull]
        exact Nat.le_mul_of_pos_right _ (pos_of_ne_zero hcarry)
      omega
    rw [if_pos hcarry, if_neg hroom, hsum]

theorem bnAdd_full (hfull : capacity ≤ value (objects a) + value (objects b)) :
    (bnAdd r a b objects).1 = false := by
  obtain ⟨result, carry, n, hn, hcarry, hsum, hadd⟩ := bnAdd_cases r a b objects ha hb
  have hlow := result.w.low_lt n
  have hpow : (2 ^ 32) ^ n ≤ capacity := Nat.pow_le_pow_right (by norm_num) hn
  have hone : carry = 1 := by
    rcases Nat.lt_succ_iff_lt_or_eq.1 hcarry with hless | hone
    · rw [Nat.lt_one_iff.1 hless] at hsum
      omega
    · exact hone
  have hlast : bnMaxWords ≤ n := by
    by_contra hroom
    have hnext : (2 ^ 32) ^ (n + 1) ≤ capacity := Nat.pow_le_pow_right (by norm_num) (by omega)
    rw [hone] at hsum
    omega
  rw [hadd, if_pos (by omega), if_pos hlast]

end

/-! ## Subtraction -/

theorem subStep_eq {x y : UInt32} {borrow : ℕ} (hborrow : borrow ≤ 1) :
    x.toNat + 2 ^ 32 * (subStep x y borrow).2 =
      y.toNat + (subStep x y borrow).1.toNat + borrow := by
  have hx := x.toNat_lt
  have hy := y.toNat_lt
  rw [subStep]
  split
  · rw [UInt32.toNat_ofNat']
    omega
  · rw [UInt32.toNat_ofNat']
    omega

theorem chain_subStep_le {x y : ℕ → UInt32} {n : ℕ} : chain subStep x y n ≤ 1 := by
  cases n with
  | zero => exact Nat.zero_le 1
  | succ n =>
    rw [chain, subStep]
    split
    · exact le_rfl
    · exact Nat.zero_le 1

section

variable (a b : ℕ) (objects : Objects) (ha : Normalised (objects a)) (hb : Normalised (objects b))

include ha hb

/-- A subtraction works modulo the words of its first operand, and reports whether
it had to borrow past them. -/
theorem bnSub_cases :
    ∃ difference borrow, borrow ≤ 1 ∧ difference < (2 ^ 32) ^ (objects a).used ∧
      value (objects a) + (2 ^ 32) ^ (objects a).used * borrow =
        value (objects b) % (2 ^ 32) ^ (objects a).used + difference ∧
      bnSub r a b objects = (borrow == 0, update objects r (ofNat difference)) := by
  have hn := ha.fits
  obtain ⟨result, hloop, hlow⟩ := wordLoop_eq subStep r a b objects hn
  have hvalue : Limbs.value (2 ^ 32) (fun i => (wordAt (objects a) i).toNat) (objects a).used +
      (2 ^ 32) ^ (objects a).used *
        chain subStep (wordAt (objects a)) (wordAt (objects b)) (objects a).used =
      Limbs.value (2 ^ 32) (fun i => (wordAt (objects b) i).toNat) (objects a).used +
        total subStep (objects a) (objects b) (objects a).used := by
    rw [total, ← value_add]
    exact value_carry fun i => subStep_eq (chain_subStep_le)
  have hsecond : Limbs.value (2 ^ 32) (fun i => (wordAt (objects b) i).toNat) (objects a).used =
      value (objects b) % (2 ^ 32) ^ (objects a).used := by
    rw [value, Words.low_mod _ hn]
    exact value_congr fun i _ => by rw [wordAt_eq hb]
  rw [value_wordAt ha le_rfl, hsecond, ← hlow] at hvalue
  refine ⟨result.w.low (objects a).used, _, chain_subStep_le, result.w.low_lt _, hvalue, ?_⟩
  rw [bnSub, hloop]
  dsimp only
  rw [finish_eq hn, update_self, update_idem]

theorem bnSub_eq (hle : value (objects b) ≤ value (objects a)) :
    bnSub r a b objects =
      (true, update objects r (ofNat (value (objects a) - value (objects b)))) := by
  obtain ⟨difference, borrow, hborrow, hless, hvalue, hsub⟩ := bnSub_cases r a b objects ha hb
  have hbelow := ha.value_lt_pow le_rfl
  rw [Nat.mod_eq_of_lt (by omega)] at hvalue
  have hzero : borrow = 0 := by
    rcases Nat.le_one_iff_eq_zero_or_eq_one.1 hborrow with hzero | hone
    · exact hzero
    · rw [hone] at hvalue
      omega
  rw [hzero, mul_zero, add_zero] at hvalue
  rw [hsub, hzero, hvalue, Nat.add_sub_cancel_left]
  rfl

end

/-! ## Doubling -/

private theorem toNat_shl1_or (word : UInt32) {carry : UInt32} (hcarry : carry.toNat < 2) :
    (word <<< 1 ||| carry).toNat + 2 ^ 32 * (word >>> 31).toNat = 2 * word.toNat + carry.toNat := by
  have hor : carry.toNat ||| word.toNat % 2 ^ 31 * 2 ^ 1 =
      carry.toNat + word.toNat % 2 ^ 31 * 2 ^ 1 :=
    WordBytes.or_mul_two_pow_of_lt _ hcarry
  have hshift : word.toNat <<< 1 % 2 ^ 32 = word.toNat % 2 ^ 31 * 2 ^ 1 := by
    omega
  simp only [UInt32.toNat_or, UInt32.toNat_shiftLeft, UInt32.toNat_shiftRight, UInt32.reduceToNat,
    Nat.reduceMod]
  rw [hshift, Nat.or_comm]
  omega

/-- A shift that has got to index `i`: the words below hold the double of what
they held, but for the bit carried out. -/
private structure Doubling (words : Words bnMaxWords) (i : ℕ) (now : Words bnMaxWords × UInt32) :
    Prop where
  bit : now.2.toNat < 2
  above : ∀ place, i ≤ place → now.1.get place = words.get place
  low : now.1.low i + (2 ^ 32) ^ i * now.2.toNat = 2 * words.low i

private theorem doubling (words : Words bnMaxWords) (hn : n ≤ bnMaxWords) :
    Doubling words n (countUp shl1Word n (words, 0)) := by
  refine countUp_invariant (Doubling words) ⟨zero_lt_two, fun _ _ => rfl, rfl⟩ ?_
  rintro i ⟨now, carry⟩ hi ⟨hbit, habove, hlow⟩
  have hroom : i < bnMaxWords := lt_of_lt_of_le hi hn
  have hword := toNat_shl1_or (now.get i) hbit
  rw [shl1Word]
  refine ⟨?_, fun place hplace => ?_, ?_⟩
  · have hlt := (now.get i).toNat_lt
    dsimp only
    omega
  · rw [Words.get_set_of_ne _ hroom _ (by omega)]
    exact habove place (by omega)
  · have hweight : (2 ^ 32) ^ i * ((now.get i <<< 1 ||| carry).toNat +
        2 ^ 32 * (now.get i >>> 31).toNat) =
        (2 ^ 32) ^ i * (2 * (now.get i).toNat + carry.toNat) := by rw [hword]
    rw [Words.low_succ, Words.get_set_self _ hroom, Words.low_set_of_le _ hroom _ le_rfl,
      Words.low_succ, ← habove i le_rfl, pow_succ (2 ^ 32) i]
    linarith

theorem bnShl1_eq (ha : Normalised a) (hfits : 2 * value a < capacity) :
    bnShl1 a = ofNat (2 * value a) := by
  obtain ⟨hbit, habove, hlow⟩ := doubling a.w ha.fits
  rw [bnShl1]
  generalize countUp shl1Word a.used (a.w, 0) = looped at *
  rw [← ha.value_eq le_rfl] at hlow
  have hzero : ∀ place, a.used ≤ place → looped.1.get place = 0 := fun place hplace =>
    (habove place hplace).trans (ha.above place hplace)
  split
  · rename_i hcarry
    obtain ⟨hcarry, hroom⟩ := hcarry
    have hnormal : Normalised ⟨looped.1.set a.used looped.2, a.used + 1⟩ := by
      refine ⟨hroom, fun i hi => ?_, fun _ => ?_⟩
      · have hplace : a.used < i := hi
        rw [Words.get_set_of_ne _ hroom _ (Nat.ne_of_gt hplace)]
        exact hzero i (le_of_lt hplace)
      · rw [Nat.add_sub_cancel, Words.get_set_self _ hroom]
        exact hcarry
    refine hnormal.eq_ofNat ?_
    rw [hnormal.value_eq le_rfl, Words.low_succ, Words.get_set_self _ hroom,
      Words.low_set_of_le _ hroom _ le_rfl, mul_comm]
    exact hlow
  · rename_i hlost
    have hnone : looped.2.toNat = 0 := by
      by_contra hsome
      have hfull : a.used = bnMaxWords := le_antisymm ha.fits (Nat.not_lt.1 fun hroom =>
        hlost ⟨fun hcarry => hsome (congrArg UInt32.toNat hcarry), hroom⟩)
      have hle : capacity ≤ (2 ^ 32) ^ a.used * looped.2.toNat := by
        rw [hfull]
        exact Nat.le_mul_of_pos_right _ (pos_of_ne_zero hsome)
      omega
    have hvalue : value ⟨looped.1, a.used⟩ = looped.1.low a.used :=
      value_extend ha.fits fun i hi => by
        rw [hzero i hi]
        rfl
    rw [bnNorm_eq_ofNat, hvalue, ← hlow, hnone, mul_zero, add_zero]

/-! ## Bits -/

theorem countBits_eq {fuel word : ℕ} (hfuel : word < 2 ^ fuel) : countBits fuel word = word.size := by
  induction fuel generalizing word with
  | zero => rw [countBits, Nat.lt_one_iff.1 hfuel, Nat.size_zero]
  | succ fuel ih =>
    rw [countBits]
    by_cases hword : word = 0
    · rw [if_pos hword, hword, Nat.size_zero]
    · have hbit : Nat.bit word.bodd word.div2 ≠ 0 := by rwa [Nat.bit_bodd_div2]
      rw [if_neg hword, Nat.shiftRight_one, ← Nat.div2_val, ih, ← Nat.succ_eq_add_one,
        ← Nat.size_bit hbit, Nat.bit_bodd_div2]
      rw [Nat.div2_val]
      omega

theorem bnBitlen_eq (ha : Normalised a) : bnBitlen a = (value a).size := by
  rw [bnBitlen]
  by_cases hused : a.used = 0
  · rw [if_pos hused, ha.used_eq_zero_iff.1 hused, Nat.size_zero]
  · obtain ⟨top, htop⟩ := Nat.exists_eq_succ_of_ne_zero hused
    have hword : (a.w.get top).toNat ≠ 0 := fun hzero =>
      ha.top hused (UInt32.toNat.inj (by rw [htop]; exact hzero))
    rw [if_neg hused, ha.value_eq (le_of_eq htop), Words.low,
      size_value (fun i _ => a.w.get_lt i) hword, htop, Nat.succ_sub_one,
      bnWordBits, countBits_eq (a.w.get_lt top), mul_comm]

theorem bnTestBit_eq (ha : Normalised a) (i : ℕ) : bnTestBit a i = (value a).testBit i := by
  rw [bnTestBit]
  split
  · rename_i habove
    refine (Nat.testBit_lt_two_pow (lt_of_lt_of_le (ha.value_lt_pow habove) ?_)).symm
    rw [← pow_mul]
    exact Nat.pow_le_pow_right zero_lt_two (Nat.mul_div_le i 32)
  · rename_i hbelow
    have hindex : i / bnWordBits < a.used := Nat.not_le.1 hbelow
    have hbits : a.w.low a.used / 2 ^ (32 * (i / 32) + i % 32) % 2 ^ 1 =
        (a.w.get (i / 32)).toNat / 2 ^ (i % 32) % 2 ^ 1 :=
      a.w.low_bits hindex (Nat.mod_lt i (by norm_num))
    rw [Nat.div_add_mod, pow_one] at hbits
    rw [ha.value_eq le_rfl, Nat.testBit_eq_decide_div_mod_eq, Nat.testBit_eq_decide_div_mod_eq,
      hbits, bnWordBits]

/-! ## Bytes -/

def littleEndian (bytes : List UInt8) : ℕ := Nat.ofDigits 256 (bytes.map UInt8.toNat)

def bigEndian (bytes : List UInt8) : ℕ := littleEndian bytes.reverse

theorem littleEndian_lt : littleEndian bytes < 256 ^ bytes.length := by
  have hdigits : ∀ digit ∈ bytes.map UInt8.toNat, digit < 256 := by
    intro digit hdigit
    obtain ⟨byte, -, rfl⟩ := mem_map.1 hdigit
    exact byte.toNat_lt
  have hlt := Nat.ofDigits_lt_base_pow_length (by norm_num) hdigits
  rwa [length_map] at hlt

theorem bigEndian_lt : bigEndian bytes < 256 ^ bytes.length := by
  rw [← length_reverse]
  exact littleEndian_lt bytes.reverse

/-- Byte strings of one length are told apart by their values. -/
theorem eq_of_bigEndian_eq {bytes other : List UInt8} (hlength : bytes.length = other.length)
    (hvalue : bigEndian bytes = bigEndian other) : bytes = other := by
  have hdigits : ∀ list : List UInt8, ∀ digit ∈ list.map UInt8.toNat, digit < 256 := by
    intro list digit hdigit
    obtain ⟨byte, -, rfl⟩ := mem_map.1 hdigit
    exact byte.toNat_lt
  have hmap : bytes.reverse.map UInt8.toNat = other.reverse.map UInt8.toNat :=
    Nat.ofDigits_inj_of_len_eq (by norm_num) (by simp [hlength]) (hdigits _) (hdigits _) hvalue
  have hinjective : Function.Injective UInt8.toNat := fun _ _ => UInt8.toNat.inj
  exact reverse_injective (hinjective.list_map hmap)

/-- One byte goes above what is stored already. -/
private theorem low_storeByte (words : Words bnMaxWords) (byte : UInt8)
    (hbelow : words.low bnMaxWords < 2 ^ bit) (haligned : bit % 8 = 0)
    (hroom : bit / 32 < bnMaxWords) :
    (words.set (bit / 32) (words.get (bit / 32) |||
        byte.toUInt32 <<< UInt32.ofNat (bit % 32))).low bnMaxWords =
      words.low bnMaxWords + byte.toNat * 2 ^ bit := by
  have hpow : 2 ^ bit = 2 ^ (bit % 32) * (2 ^ 32) ^ (bit / 32) := by
    rw [← pow_mul, ← pow_add, Nat.mod_add_div]
  have hword : (words.get (bit / 32)).toNat < 2 ^ (bit % 32) := by
    have hle : (words.get (bit / 32)).toNat * (2 ^ 32) ^ (bit / 32) ≤ words.low bnMaxWords :=
      @digit_mul_le_value _ (fun i => (words.get i).toNat) _ _ hroom
    exact Nat.lt_of_mul_lt_mul_right (lt_of_le_of_lt hle (hpow ▸ hbelow))
  have hshift : byte.toNat <<< (bit % 32) % 2 ^ 32 = byte.toNat * 2 ^ (bit % 32) := by
    have hle : 2 ^ (bit % 32) ≤ 2 ^ 24 := Nat.pow_le_pow_right zero_lt_two (by omega)
    have hbyte := byte.toNat_lt
    rw [Nat.shiftLeft_eq]
    exact Nat.mod_eq_of_lt (lt_of_lt_of_le (Nat.mul_lt_mul_of_lt_of_le hbyte hle (by norm_num))
      le_rfl)
  have hplace : bit % 32 % 2 ^ 32 % 32 = bit % 32 := by omega
  have hor : (words.get (bit / 32) ||| byte.toUInt32 <<< UInt32.ofNat (bit % 32)).toNat =
      (words.get (bit / 32)).toNat + byte.toNat * 2 ^ (bit % 32) := by
    rw [UInt32.toNat_or, UInt32.toNat_shiftLeft, UInt32.toNat_ofNat', UInt8.toNat_toUInt32, hplace,
      hshift]
    exact WordBytes.or_mul_two_pow_of_lt byte.toNat hword
  have hset := words.low_set hroom
    (words.get (bit / 32) ||| byte.toUInt32 <<< UInt32.ofNat (bit % 32)) hroom
  rw [hor] at hset
  rw [hpow]
  linarith

private theorem fromBytesLoop_eq {r : Bignum} (hbelow : value r < 2 ^ bit) (haligned : bit % 8 = 0)
    (hroom : bit + 8 * bytes.length ≤ 32 * bnMaxWords) :
    fromBytesLoop bytes bit r = (true, ofNat (value r + littleEndian bytes * 2 ^ bit)) := by
  induction bytes generalizing bit r with
  | nil =>
    rw [fromBytesLoop, bnNorm_eq_ofNat]
    simp [littleEndian]
  | cons byte rest ih =>
    rw [length_cons] at hroom
    have hplace : bit / 32 < bnMaxWords := by omega
    have hstore := low_storeByte r.w byte hbelow haligned hplace
    have hbyte := byte.toNat_lt
    have hvalue : littleEndian (byte :: rest) = byte.toNat + 256 * littleEndian rest := by
      rfl
    rw [fromBytesLoop, bnWordBits, if_neg (Nat.not_le.2 hplace)]
    rw [ih _ (by omega) (by omega), value, hstore, hvalue]
    · have hpow : 2 ^ (bit + 8) = 256 * 2 ^ bit := by
        ring
      have hsum : r.w.low bnMaxWords + byte.toNat * 2 ^ bit + littleEndian rest * (256 * 2 ^ bit) =
          r.w.low bnMaxWords + (byte.toNat + 256 * littleEndian rest) * 2 ^ bit := by ring
      rw [hpow, hsum, value]
    · rw [value, pow_add]
      have hscaled : byte.toNat * 2 ^ bit ≤ 255 * 2 ^ bit := Nat.mul_le_mul_right _ (by omega)
      rw [value] at hbelow
      linarith

private theorem fromBytesLoop_full {r : Bignum} (haligned : bit % 8 = 0)
    (hfits : bit ≤ 32 * bnMaxWords) (hfull : 32 * bnMaxWords < bit + 8 * bytes.length) :
    (fromBytesLoop bytes bit r).1 = false := by
  induction bytes generalizing bit r with
  | nil => exact absurd hfull (by simpa using hfits)
  | cons byte rest ih =>
    rw [length_cons] at hfull
    rw [fromBytesLoop, bnWordBits]
    split
    · rfl
    · exact ih (by omega) (by omega) (by omega)

/-- Bytes are taken as long as there is room for all of them. -/
theorem bnFromBytes_eq {buf : List UInt8} (hroom : buf.length ≤ 4 * bnMaxWords) :
    bnFromBytes buf = (true, ofNat (bigEndian buf)) := by
  rw [bnFromBytes, fromBytesLoop_eq _ (by rw [value_bnZero]; norm_num) rfl, value_bnZero, zero_add,
    pow_zero,
    mul_one, bigEndian]
  rw [length_reverse]
  omega

theorem bnFromBytes_full {buf : List UInt8} (hfull : 4 * bnMaxWords < buf.length) :
    (bnFromBytes buf).1 = false :=
  fromBytesLoop_full _ rfl (Nat.zero_le _) (by rw [length_reverse]; omega)

theorem bnNumBytes_le_iff (ha : Normalised a) : bnNumBytes a ≤ len ↔ value a < 256 ^ len := by
  have hpow : (256 : ℕ) ^ len = 2 ^ (8 * len) := by
    rw [pow_mul]
    norm_num
  rw [hpow, ← Nat.size_le, ← bnBitlen_eq ha, bnNumBytes]
  omega

/-- The byte of a number at the given place, lowest first. -/
private theorem byte_eq (ha : Normalised a) (place : ℕ) :
    (wordAt a (place * 8 / 32) >>> UInt32.ofNat (place * 8 % 32)).toUInt8.toNat =
      value a / 256 ^ place % 256 := by
  have hpow : (256 : ℕ) ^ place = 2 ^ (place * 8) := by
    rw [mul_comm, pow_mul]
    norm_num
  have hshift : place * 8 % 32 % 2 ^ 32 % 32 = place * 8 % 32 := by omega
  rw [wordAt_eq ha, UInt32.toNat_toUInt8, UInt32.toNat_shiftRight, UInt32.toNat_ofNat', hshift,
    Nat.shiftRight_eq_div_pow, hpow]
  by_cases hplace : place * 8 / 32 < bnMaxWords
  · have hbits : a.w.low bnMaxWords / 2 ^ (32 * (place * 8 / 32) + place * 8 % 32) % 2 ^ 8 =
        (a.w.get (place * 8 / 32)).toNat / 2 ^ (place * 8 % 32) % 2 ^ 8 :=
      a.w.low_bits hplace (by omega)
    rw [Nat.div_add_mod] at hbits
    exact hbits.symm
  · have hbelow : value a < 2 ^ (place * 8) := by
      refine lt_of_lt_of_le (value_lt a) ?_
      rw [capacity]
      -- a number of words that is not computed keeps the power from being computed
      generalize bnMaxWords = words at hplace
      rw [← pow_mul]
      exact Nat.pow_le_pow_right zero_lt_two (by omega)
    rw [Words.get_of_le (Nat.not_lt.1 hplace), Nat.div_eq_of_lt hbelow]
    simp

private theorem littleEndian_range (byte : ℕ → UInt8) (number len : ℕ)
    (hbyte : ∀ place, (byte place).toNat = number / 256 ^ place % 256) :
    littleEndian ((range len).map byte) = number % 256 ^ len := by
  induction len with
  | zero => simp [littleEndian, Nat.mod_one]
  | succ len ih =>
    rw [littleEndian, map_map] at ih
    rw [littleEndian, range_succ, map_append, map_append, Nat.ofDigits_append,
      map_map, ih, Nat.mod_pow_succ]
    simp [hbyte]

/-- A number is written with as many bytes as asked for, if it has no more. -/
theorem bnToBytes_eq (ha : Normalised a) (hfits : value a < 256 ^ len) :
    ∃ bytes, bnToBytes a len = some bytes ∧ bytes.length = len ∧ bigEndian bytes = value a := by
  have hnot : ¬len < bnNumBytes a := Nat.not_lt.2 ((bnNumBytes_le_iff ha).2 hfits)
  rw [bnToBytes, if_neg hnot]
  refine ⟨_, rfl, by simp, ?_⟩
  have hreverse : ((range len).map fun i =>
      (wordAt a ((len - 1 - i) * 8 / bnWordBits) >>>
        UInt32.ofNat ((len - 1 - i) * 8 % bnWordBits)).toUInt8).reverse =
      (range len).map fun place =>
        (wordAt a (place * 8 / 32) >>> UInt32.ofNat (place * 8 % 32)).toUInt8 := by
    refine ext_getElem (by simp) fun i hleft hright => ?_
    simp only [length_map, length_range, length_reverse] at hleft
    simp only [getElem_reverse, getElem_map, getElem_range, length_map, length_range, bnWordBits]
    rw [show len - 1 - (len - 1 - i) = i by omega]
  rw [bigEndian, hreverse, littleEndian_range _ _ len (byte_eq ha)]
  exact Nat.mod_eq_of_lt hfits

theorem bnToBytes_none (ha : Normalised a) (hmore : 256 ^ len ≤ value a) :
    bnToBytes a len = none := by
  rw [bnToBytes, if_pos (Nat.not_le.1 fun hfew =>
    absurd ((bnNumBytes_le_iff ha).1 hfew) (Nat.not_lt.2 hmore))]

-- the later modules reason about the value and never compute it
attribute [irreducible] value

end PdiStack.BignumArithmetic
