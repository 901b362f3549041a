import Mathlib

/-!
# Numbers as words

Long numbers are kept as digits in a large base, lowest first.  `value` is the
number a row of digits stands for.  A loop over the words of such a number is
judged by what it does to `value`: storing one word moves the value by that word
times its weight (`value_set`), and any run of bits of the value can be read off
the word that holds it (`value_bits`).

Arrays of 32-bit words have a fixed length.  Reading past the end gives zero and
storing there is lost.
-/

namespace PdiStack.Limbs

open Finset

/-- The number whose digits in the given base, lowest first, are the first
`count` values of `digit`. -/
def value (base : ℕ) (digit : ℕ → ℕ) (count : ℕ) : ℕ :=
  ∑ index ∈ range count, digit index * base ^ index

variable {base : ℕ} {digit other : ℕ → ℕ} {count : ℕ}

@[simp] theorem value_zero : value base digit 0 = 0 := sum_range_zero _

theorem value_succ :
    value base digit (count + 1) = value base digit count + digit count * base ^ count :=
  sum_range_succ _ _

theorem value_congr (hsame : ∀ index, index < count → digit index = other index) :
    value base digit count = value base other count := by
  refine sum_congr rfl fun index hindex => ?_
  rw [hsame index (mem_range.1 hindex)]

theorem value_split (low high : ℕ) :
    value base digit (low + high) =
      value base digit low + base ^ low * value base (fun index => digit (low + index)) high := by
  rw [value, sum_range_add, value, value, mul_sum]
  congr 1
  refine sum_congr rfl fun index _ => ?_
  ring

theorem value_lt (hdigit : ∀ index, index < count → digit index < base) :
    value base digit count < base ^ count := by
  induction count with
  | zero => simp
  | succ count ih =>
    have hlow := ih fun index hindex => hdigit index (Nat.lt_succ_of_lt hindex)
    have htop : (digit count + 1) * base ^ count ≤ base * base ^ count :=
      Nat.mul_le_mul_right _ (hdigit count (Nat.lt_succ_self count))
    rw [value_succ, pow_succ']
    linarith

theorem value_extend {longer : ℕ} (hle : count ≤ longer)
    (hzero : ∀ index, count ≤ index → digit index = 0) :
    value base digit longer = value base digit count := by
  obtain ⟨more, rfl⟩ := Nat.exists_eq_add_of_le hle
  have hrest : value base (fun index => digit (count + index)) more = 0 := by
    refine sum_eq_zero fun index _ => ?_
    dsimp only
    rw [hzero _ (Nat.le_add_right count index), zero_mul]
  rw [value_split, hrest, mul_zero, add_zero]

theorem digit_mul_le_value {index : ℕ} (hindex : index < count) :
    digit index * base ^ index ≤ value base digit count :=
  single_le_sum (f := fun index => digit index * base ^ index) (fun _ _ => Nat.zero_le _)
    (mem_range.2 hindex)

theorem value_add :
    value base (fun index => digit index + other index) count =
      value base digit count + value base other count := by
  simp [value, add_mul, sum_add_distrib]

/-- A loop that keeps one digit of each column and hands the rest on keeps the sum
of the columns. -/
theorem value_carry {column carry : ℕ → ℕ}
    (hstep : ∀ index, digit index + base * carry (index + 1) = column index + carry index) :
    value base digit count + base ^ count * carry count = value base column count + carry 0 := by
  induction count with
  | zero => simp
  | succ count ih =>
    have hweight : base ^ count * (digit count + base * carry (count + 1)) =
        base ^ count * (column count + carry count) := by rw [hstep]
    rw [value_succ, value_succ, pow_succ]
    linarith

theorem value_bits {width index shift bits : ℕ}
    (hdigit : ∀ index, index < count → digit index < 2 ^ width) (hindex : index < count)
    (hbits : shift + bits ≤ width) :
    value (2 ^ width) digit count / 2 ^ (width * index + shift) % 2 ^ bits =
      digit index / 2 ^ shift % 2 ^ bits := by
  obtain ⟨high, rfl⟩ := Nat.exists_eq_add_of_lt hindex
  obtain ⟨rest, rfl⟩ := Nat.exists_eq_add_of_le hbits
  have hlow : value (2 ^ (shift + bits + rest)) digit index < (2 ^ (shift + bits + rest)) ^ index :=
    value_lt fun lower hlower => hdigit lower (by omega)
  generalize hrow : value (2 ^ (shift + bits + rest))
    (fun upper => digit (index + 1 + upper)) high = row
  have hvalue : value (2 ^ (shift + bits + rest)) digit (index + high + 1) =
      value (2 ^ (shift + bits + rest)) digit index + (2 ^ (shift + bits + rest)) ^ index *
        (digit index + 2 ^ shift * (2 ^ bits * (2 ^ rest * row))) := by
    rw [show index + high + 1 = index + 1 + high by omega, value_split, value_succ, hrow]
    ring
  rw [hvalue, pow_add 2 _ shift, ← Nat.div_div_eq_div_mul, pow_mul,
    Nat.add_mul_div_left _ _ (by positivity), Nat.div_eq_of_lt hlow, zero_add,
    Nat.add_mul_div_left _ _ (by positivity), Nat.add_mul_mod_self_left]

/-- The order found by going down from the top digit to the first difference. -/
def compareDown (digit other : ℕ → ℕ) : ℕ → Ordering
  | 0 => .eq
  | count + 1 =>
    if digit count ≠ other count then
      if other count < digit count then .gt else .lt
    else compareDown digit other count

private theorem value_lt_of_top_lt (hdigit : ∀ index, index < count → digit index < base)
    (htop : digit count < other count) :
    value base digit (count + 1) < value base other (count + 1) := by
  have hlow := value_lt hdigit
  have hweight : (digit count + 1) * base ^ count ≤ other count * base ^ count :=
    Nat.mul_le_mul_right _ htop
  rw [value_succ, value_succ]
  linarith [Nat.zero_le (value base other count)]

theorem compareDown_eq (hdigit : ∀ index, index < count → digit index < base)
    (hother : ∀ index, index < count → other index < base) :
    compareDown digit other count = compare (value base digit count) (value base other count) := by
  induction count with
  | zero => rfl
  | succ count ih =>
    have hdigit' := fun index hindex => hdigit index (Nat.lt_succ_of_lt hindex)
    have hother' := fun index hindex => hother index (Nat.lt_succ_of_lt hindex)
    rw [compareDown]
    rcases lt_trichotomy (digit count) (other count) with hless | heq | hgreater
    · rw [if_pos (ne_of_lt hless), if_neg (Nat.lt_asymm hless)]
      exact (Nat.compare_eq_lt.2 (value_lt_of_top_lt hdigit' hless)).symm
    · rw [if_neg (not_not.2 heq), ih hdigit' hother', value_succ, value_succ, heq]
      simp [Nat.compare_eq_ite_lt]
    · rw [if_pos (Nat.ne_of_gt hgreater), if_pos hgreater]
      exact (Nat.compare_eq_gt.2 (value_lt_of_top_lt hother' hgreater)).symm

/-- The number of digits left when the zeros at the top are dropped. -/
def significant (digit : ℕ → ℕ) : ℕ → ℕ
  | 0 => 0
  | count + 1 => if digit count = 0 then significant digit count else count + 1

theorem significant_le : significant digit count ≤ count := by
  induction count with
  | zero => exact le_rfl
  | succ count ih =>
    rw [significant]
    split
    · exact Nat.le_succ_of_le ih
    · exact le_rfl

theorem digit_eq_zero_of_significant_le {index : ℕ} (hindex : index < count)
    (habove : significant digit count ≤ index) : digit index = 0 := by
  induction count with
  | zero => exact absurd hindex (Nat.not_lt_zero _)
  | succ count ih =>
    rw [significant] at habove
    split at habove
    · rename_i hzero
      rcases Nat.lt_succ_iff_lt_or_eq.1 hindex with hlower | rfl
      · exact ih hlower habove
      · exact hzero
    · omega

theorem digit_significant_ne_zero (hsome : significant digit count ≠ 0) :
    digit (significant digit count - 1) ≠ 0 := by
  induction count with
  | zero => exact absurd rfl hsome
  | succ count ih =>
    rw [significant] at hsome ⊢
    split at hsome
    · rename_i hzero
      rw [if_pos hzero]
      exact ih hsome
    · rename_i hdigit
      rw [if_neg hdigit]
      exact hdigit

/-- The top digit that counts places the value between two powers of two. -/
theorem size_value {width : ℕ} (hdigit : ∀ index, index < count + 1 → digit index < 2 ^ width)
    (htop : digit count ≠ 0) :
    (value (2 ^ width) digit (count + 1)).size = width * count + (digit count).size := by
  have hlow : value (2 ^ width) digit count < 2 ^ (width * count) := by
    rw [pow_mul]
    exact value_lt fun index hindex => hdigit index (Nat.lt_succ_of_lt hindex)
  obtain ⟨bits, hbits⟩ : ∃ bits, (digit count).size = bits + 1 :=
    Nat.exists_eq_succ_of_ne_zero (Nat.size_eq_zero.not.2 htop)
  rw [hbits]
  have habove : digit count < 2 ^ (bits + 1) := by
    rw [← Nat.size_le, hbits]
  have hbelow : 2 ^ bits ≤ digit count := by
    rw [← Nat.lt_size, hbits]
    exact Nat.lt_succ_self bits
  have hvalue : value (2 ^ width) digit (count + 1) =
      value (2 ^ width) digit count + digit count * 2 ^ (width * count) := by
    rw [value_succ, pow_mul]
  rw [← add_assoc]
  refine le_antisymm (Nat.size_le.2 ?_) (Nat.lt_size.2 ?_)
  · have hbound : (digit count + 1) * 2 ^ (width * count) ≤
        2 ^ (bits + 1) * 2 ^ (width * count) := Nat.mul_le_mul_right _ habove
    rw [add_assoc, pow_add 2 (width * count)]
    linarith
  · have hbound : 2 ^ bits * 2 ^ (width * count) ≤ digit count * 2 ^ (width * count) :=
      Nat.mul_le_mul_right _ hbelow
    rw [pow_add 2 (width * count) bits]
    linarith [Nat.zero_le (value (2 ^ width) digit count)]

abbrev Words (length : ℕ) : Type := Fin length → UInt32

variable {length : ℕ}

namespace Words

def get (words : Words length) (index : ℕ) : UInt32 :=
  if hindex : index < length then words ⟨index, hindex⟩ else 0

def set (words : Words length) (index : ℕ) (word : UInt32) : Words length :=
  fun place => if place.val = index then word else words place

def low (words : Words length) (count : ℕ) : ℕ :=
  value (2 ^ 32) (fun index => (words.get index).toNat) count

def ofNat (length number : ℕ) : Words length :=
  fun place => UInt32.ofNat (number / 2 ^ (32 * place.val))

variable {index : ℕ} (words : Words length)

theorem get_lt (index : ℕ) : (words.get index).toNat < 2 ^ 32 := (words.get index).toNat_lt

theorem get_of_le {words : Words length} (hle : length ≤ index) : words.get index = 0 :=
  dif_neg (Nat.not_lt.2 hle)

theorem get_set (hindex : index < length) (word : UInt32) (place : ℕ) :
    (words.set index word).get place = if place = index then word else words.get place := by
  by_cases hplace : place < length
  · simp [get, set, dif_pos hplace]
  · rw [get, get, dif_neg hplace, dif_neg hplace, if_neg (by omega)]

@[simp] theorem get_set_self (hindex : index < length) (word : UInt32) :
    (words.set index word).get index = word := by
  rw [get_set words hindex, if_pos rfl]

theorem get_set_of_ne {place : ℕ} (hindex : index < length) (word : UInt32) (hne : place ≠ index) :
    (words.set index word).get place = words.get place := by
  rw [get_set words hindex, if_neg hne]

theorem ext_get {words other : Words length}
    (hsame : ∀ index, index < length → words.get index = other.get index) : words = other := by
  funext place
  have hplace := hsame place.val place.isLt
  rw [get, get, dif_pos place.isLt, dif_pos place.isLt] at hplace
  exact hplace

theorem low_lt (count : ℕ) : words.low count < (2 ^ 32) ^ count :=
  value_lt fun index _ => words.get_lt index

theorem low_succ (count : ℕ) :
    words.low (count + 1) = words.low count + (words.get count).toNat * (2 ^ 32) ^ count :=
  value_succ

@[simp] theorem low_zero : words.low 0 = 0 := value_zero

theorem low_congr {words : Words length} {more : ℕ} {other : Words more}
    (hsame : ∀ index, index < count → words.get index = other.get index) :
    words.low count = other.low count :=
  value_congr fun index hindex => by rw [hsame index hindex]

theorem low_mod {more : ℕ} (hle : count ≤ more) :
    words.low more % (2 ^ 32) ^ count = words.low count := by
  obtain ⟨high, rfl⟩ := Nat.exists_eq_add_of_le hle
  rw [low, value_split, Nat.add_mul_mod_self_left]
  exact Nat.mod_eq_of_lt (words.low_lt count)

theorem low_set_of_le (hindex : index < length) (word : UInt32) (hle : count ≤ index) :
    (words.set index word).low count = words.low count :=
  low_congr fun place hplace => get_set_of_ne words hindex word (by omega)

/-- Storing a word moves the value by that word times its weight. -/
theorem low_set (hindex : index < length) (word : UInt32) (hcount : index < count) :
    (words.set index word).low count + (words.get index).toNat * (2 ^ 32) ^ index =
      words.low count + word.toNat * (2 ^ 32) ^ index := by
  induction count with
  | zero => exact absurd hcount (Nat.not_lt_zero _)
  | succ count ih =>
    rw [low_succ, low_succ]
    rcases Nat.lt_succ_iff_lt_or_eq.1 hcount with hbelow | rfl
    · have hrest := ih hbelow
      rw [get_set_of_ne words hindex word (Nat.ne_of_gt hbelow)]
      linarith
    · rw [low_set_of_le words hindex word le_rfl, get_set_self words hindex]
      ring

/-- Any run of bits that lies in one word can be read off that word. -/
theorem low_bits {shift bits : ℕ} (hindex : index < count) (hbits : shift + bits ≤ 32) :
    words.low count / 2 ^ (32 * index + shift) % 2 ^ bits =
      (words.get index).toNat / 2 ^ shift % 2 ^ bits :=
  value_bits (fun place _ => words.get_lt place) hindex hbits

theorem low_injective {words other : Words length}
    (hsame : words.low length = other.low length) : words = other := by
  refine ext_get fun index hindex => UInt32.toNat.inj ?_
  have hword : words.low length / 2 ^ (32 * index + 0) % 2 ^ 32 = _ := words.low_bits hindex le_rfl
  have hother : other.low length / 2 ^ (32 * index + 0) % 2 ^ 32 = _ := other.low_bits hindex le_rfl
  rw [hsame, hother] at hword
  simpa only [pow_zero, Nat.div_one, Nat.mod_eq_of_lt (get_lt _ _)] using hword.symm

theorem low_ofNat (number : ℕ) (hcount : count ≤ length) :
    (ofNat length number).low count = number % (2 ^ 32) ^ count := by
  induction count with
  | zero => rw [low_zero, pow_zero, Nat.mod_one]
  | succ count ih =>
    have hroom : count < length := hcount
    rw [low_succ, ih (le_of_lt hroom), Nat.mod_pow_succ, get, dif_pos hroom, ofNat,
      UInt32.toNat_ofNat', pow_mul, mul_comm]

end Words

end PdiStack.Limbs
