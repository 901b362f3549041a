import PdiStack.Crypto.BignumDivision

/-!
# Big integers refine the natural numbers

A call of the arithmetic names the objects it works on, and may name one of them twice.
`Refines` says what its result has to be in terms of the values of its operands, and
that it is normalised.

All calls refine the numbers, with one exception.  When the dividend is smaller than the
divisor, the division clears the quotient before it copies the dividend into the
remainder, which is lost if the quotient replaces the dividend.
-/

namespace PdiStack.BignumRefinement

open BignumArithmetic BignumDivision BignumWords Function

/-- A call, with the addresses of the objects it is given. -/
inductive Call where
  | fromBytes (buf : List UInt8)
  | toBytes (a len : ℕ)
  | cmp (a b : ℕ)
  | add (r a b : ℕ)
  | sub (r a b : ℕ)
  | mul (r a b : ℕ)
  | divmod (a b : ℕ) (q rem : Option ℕ)
  | gcd (r a b : ℕ)

def Call.operands : Call → List ℕ
  | .fromBytes _ => []
  | .toBytes a _ => [a]
  | .cmp a b | .add _ a b | .sub _ a b | .mul _ a b | .divmod a b _ _ | .gcd _ a b => [a, b]

/-- What a caller has to see to: a difference is not negative, and a division has a
divisor and two places for its two results. -/
def Call.Allowed (objects : Objects) : Call → Prop
  | .sub _ a b => value (objects b) ≤ value (objects a)
  | .divmod _ b q rem => 0 < value (objects b) ∧ ∀ target, q = some target → rem ≠ some target
  | _ => True

/-- The call succeeds, stores a normalised object of the given value and leaves
every other object alone. -/
def Gives (out : Bool × Objects) (objects : Objects) (r number : ℕ) : Prop :=
  ∃ result, Normalised result ∧ value result = number ∧ out = (true, update objects r result)

/-- What the call has to do, in terms of numbers. -/
def Call.Refines (objects : Objects) : Call → Prop
  | .fromBytes buf =>
    (buf.length ≤ 4 * bnMaxWords →
      ∃ result, bnFromBytes buf = (true, result) ∧ Normalised result ∧
        value result = bigEndian buf ∧ bnToBytes result buf.length = some buf) ∧
      (4 * bnMaxWords < buf.length → (bnFromBytes buf).1 = false)
  | .toBytes a len =>
    (value (objects a) < 256 ^ len →
      ∃ bytes, bnToBytes (objects a) len = some bytes ∧ bytes.length = len ∧
        bigEndian bytes = value (objects a) ∧
          (len ≤ 4 * bnMaxWords → bnFromBytes bytes = (true, objects a))) ∧
      (256 ^ len ≤ value (objects a) → bnToBytes (objects a) len = none)
  | .cmp a b => bnCmp (objects a) (objects b) = compare (value (objects a)) (value (objects b))
  | .add r a b =>
    (value (objects a) + value (objects b) < capacity →
      Gives (bnAdd r a b objects) objects r (value (objects a) + value (objects b))) ∧
      (capacity ≤ value (objects a) + value (objects b) → (bnAdd r a b objects).1 = false)
  | .sub r a b => Gives (bnSub r a b objects) objects r (value (objects a) - value (objects b))
  | .mul r a b =>
    ((objects a).used + (objects b).used ≤ bnMaxWords →
      Gives (bnMul r a b objects) objects r (value (objects a) * value (objects b))) ∧
      (bnMaxWords < (objects a).used + (objects b).used → (bnMul r a b objects).1 = false)
  | .divmod a b q rem =>
    ∃ quotient remainder, Normalised quotient ∧ Normalised remainder ∧
      value (objects a) = value quotient * value (objects b) + value remainder ∧
      value remainder < value (objects b) ∧
      bnDivmod a b q rem objects = (true, putIfAsked rem remainder (putIfAsked q quotient objects))
  | .gcd r a b =>
    ∃ bound, ∀ passes, bound ≤ passes → ∃ out, bnGcd passes r a b objects = some out ∧
      Gives out objects r (Nat.gcd (value (objects a)) (value (objects b)))

/-- A division does not write its quotient over a dividend that it has still to
copy. -/
def Call.SparesDividend (objects : Objects) : Call → Prop
  | .divmod a b q rem => KeepsDividend a b q rem objects
  | _ => True

variable {objects : Objects}

variable {a b r : ℕ}

private theorem gives_ofNat {out : Bool × Objects} {number : ℕ} (hfits : number < capacity)
    (hout : out = (true, update objects r (ofNat number))) : Gives out objects r number :=
  ⟨ofNat number, normalised_ofNat number, value_ofNat hfits, hout⟩

theorem fromBytes_refines {buf : List UInt8} : (Call.fromBytes buf).Refines objects := by
  refine ⟨fun hroom => ?_, bnFromBytes_full⟩
  have hfits : bigEndian buf < capacity := by
    refine lt_of_lt_of_le (bigEndian_lt buf) ?_
    calc 256 ^ buf.length ≤ 256 ^ (4 * bnMaxWords) := Nat.pow_le_pow_right (by norm_num) hroom
      _ = capacity := by rw [capacity, pow_mul]; norm_num
  have hvalue := value_ofNat hfits
  obtain ⟨bytes, hbytes, hlength, hsame⟩ :=
    bnToBytes_eq (normalised_ofNat (bigEndian buf)) (hvalue ▸ bigEndian_lt buf)
  refine ⟨_, bnFromBytes_eq hroom, normalised_ofNat _, hvalue, ?_⟩
  rw [hbytes, eq_of_bigEndian_eq hlength (hsame.trans hvalue)]

section

variable (ha : Normalised (objects a))
include ha

theorem toBytes_refines {len : ℕ} : (Call.toBytes a len).Refines objects := by
  refine ⟨fun hfits => ?_, bnToBytes_none ha⟩
  obtain ⟨bytes, hbytes, hlength, hsame⟩ := bnToBytes_eq ha hfits
  refine ⟨bytes, hbytes, hlength, hsame, fun hroom => ?_⟩
  rw [bnFromBytes_eq (hlength ▸ hroom), hsame, ← ha.eq_ofNat rfl]

section

variable (hb : Normalised (objects b))
include hb

theorem add_refines : (Call.add r a b).Refines objects :=
  ⟨fun hfits => gives_ofNat hfits (bnAdd_eq r a b objects ha hb hfits),
    bnAdd_full r a b objects ha hb⟩

theorem sub_refines (hle : value (objects b) ≤ value (objects a)) :
    (Call.sub r a b).Refines objects := by
  have hfits : value (objects a) - value (objects b) < capacity :=
    lt_of_le_of_lt (Nat.sub_le _ _) (value_lt _)
  exact gives_ofNat hfits (bnSub_eq r a b objects ha hb hle)

theorem mul_refines : (Call.mul r a b).Refines objects := by
  refine ⟨fun hfits => ?_, fun hfull => by rw [bnMul_full r a b objects hfull]⟩
  refine gives_ofNat ?_ (bnMul_eq r a b objects ha hb hfits)
  calc value (objects a) * value (objects b)
      < (2 ^ 32) ^ (objects a).used * (2 ^ 32) ^ (objects b).used :=
        Nat.mul_lt_mul'' (ha.value_lt_pow le_rfl) (hb.value_lt_pow le_rfl)
    _ = (2 ^ 32) ^ ((objects a).used + (objects b).used) := (pow_add _ _ _).symm
    _ ≤ capacity := Nat.pow_le_pow_right (by norm_num) hfits

theorem gcd_refines : (Call.gcd r a b).Refines objects := by
  refine ⟨value (objects b) + 1, fun passes hpasses => ?_⟩
  refine ⟨_, bnGcd_eq passes r a b objects ha hb hpasses, gives_ofNat ?_ rfl⟩
  rcases Nat.eq_zero_or_pos (value (objects a)) with hzero | hpos
  · rw [hzero, Nat.gcd_zero_left]
    exact value_lt _
  · exact lt_of_le_of_lt (Nat.gcd_le_left _ hpos) (value_lt _)

/-- A division gives quotient and remainder unless it overwrites the dividend. -/
theorem divmod_refines_iff {q rem : Option ℕ} (hdivisor : 0 < value (objects b))
    (hplaces : ∀ target, q = some target → rem ≠ some target) :
    (Call.divmod a b q rem).Refines objects ↔ KeepsDividend a b q rem objects := by
  constructor
  · rintro ⟨quotient, remainder, -, -, hvalue, -, hout⟩ rfl hrem hpos
    by_contra hmore
    obtain ⟨r, rfl⟩ := Option.ne_none_iff_exists'.1 hrem
    have hother : a ≠ r := fun heq => hplaces a rfl (congrArg some heq.symm)
    rw [bnDivmod_overwritten a b r objects ha hb (Nat.not_le.1 hmore), Prod.mk.injEq] at hout
    -- both objects hold zero, so the dividend would have to be zero
    have hquotient := congrFun hout.2 a
    have hremainder := congrFun hout.2 r
    simp only [putIfAsked, update_self, update_of_ne hother] at hquotient hremainder
    rw [← hquotient, ← hremainder, value_bnZero] at hvalue
    omega
  · intro hkeeps
    have hquotient : value (objects a) / value (objects b) < capacity :=
      lt_of_le_of_lt (Nat.div_le_self _ _) (value_lt _)
    have hremainder : value (objects a) % value (objects b) < capacity :=
      lt_of_le_of_lt (Nat.mod_le _ _) (value_lt _)
    refine ⟨_, _, normalised_ofNat _, normalised_ofNat _, ?_, ?_,
      bnDivmod_eq a b q rem objects ha hb hdivisor hkeeps⟩
    · rw [value_ofNat hquotient, value_ofNat hremainder, mul_comm, Nat.div_add_mod]
    · rw [value_ofNat hremainder]
      exact Nat.mod_lt _ hdivisor

end

end

/-- Every call on normalised objects, whichever of them coincide, does to the
values what it is named after and leaves a normalised result, unless it is a
division that overwrites its dividend too early. -/
theorem call_refines_iff (call : Call) (objects : Objects)
    (hnormal : ∀ operand ∈ call.operands, Normalised (objects operand))
    (hallowed : call.Allowed objects) :
    call.Refines objects ↔ call.SparesDividend objects := by
  cases call with
  | fromBytes buf => exact iff_of_true (fromBytes_refines) trivial
  | toBytes a len => exact iff_of_true (toBytes_refines (hnormal a (by simp [Call.operands]))) trivial
  | cmp a b =>
    refine iff_of_true (bnCmp_eq (hnormal a ?_) (hnormal b ?_)) trivial <;> simp [Call.operands]
  | add r a b =>
    refine iff_of_true (add_refines (hnormal a ?_) (hnormal b ?_)) trivial <;>
      simp [Call.operands]
  | sub r a b =>
    refine iff_of_true (sub_refines (hnormal a ?_) (hnormal b ?_) hallowed) trivial <;>
      simp [Call.operands]
  | mul r a b =>
    refine iff_of_true (mul_refines (hnormal a ?_) (hnormal b ?_)) trivial <;>
      simp [Call.operands]
  | divmod a b q rem =>
    refine divmod_refines_iff (hnormal a ?_) (hnormal b ?_) hallowed.1 hallowed.2 <;>
      simp [Call.operands]
  | gcd r a b =>
    refine iff_of_true (gcd_refines (hnormal a ?_) (hnormal b ?_)) trivial <;>
      simp [Call.operands]

def smallObjects : Objects :=
  fun address => if address = 0 then bnSetU32 5 else bnSetU32 7

private theorem normalised_smallObjects (address : ℕ) : Normalised (smallObjects address) := by
  rw [smallObjects]
  split
  · rw [bnSetU32_eq]
    exact normalised_ofNat _
  · rw [bnSetU32_eq]
    exact normalised_ofNat _

private theorem value_smallObjects : value (smallObjects 0) = 5 ∧ value (smallObjects 1) = 7 :=
  ⟨value_bnSetU32 5, value_bnSetU32 7⟩

theorem call_refines_divmod :
    (∀ operand ∈ (Call.divmod 0 1 (some 2) (some 0)).operands, Normalised (smallObjects operand)) ∧
      (Call.divmod 0 1 (some 2) (some 0)).Allowed smallObjects ∧
      (Call.divmod 0 1 (some 2) (some 0)).Refines smallObjects := by
  have hallowed : (Call.divmod 0 1 (some 2) (some 0)).Allowed smallObjects := by
    refine ⟨by rw [value_smallObjects.2]; norm_num, fun target htarget => ?_⟩
    rw [← htarget]
    decide
  refine ⟨fun operand _ => normalised_smallObjects operand, hallowed, ?_⟩
  refine (call_refines_iff _ _ (fun operand _ => normalised_smallObjects operand) hallowed).2 ?_
  exact fun hsame => absurd hsame (by decide)

/-- Dividing 5 by 7 with the quotient over the dividend: the remainder comes out as
zero. -/
theorem divmod_losesRemainder :
    value (smallObjects 0) = 5 ∧ value (smallObjects 1) = 7 ∧
      bnDivmod 0 1 (some 0) (some 2) smallObjects =
        (true, update (update smallObjects 0 bnZero) 2 bnZero) ∧
      ¬(Call.divmod 0 1 (some 0) (some 2)).Refines smallObjects := by
  have hless : value (smallObjects 0) < value (smallObjects 1) := by
    rw [value_smallObjects.1, value_smallObjects.2]
    norm_num
  refine ⟨value_smallObjects.1, value_smallObjects.2, bnDivmod_overwritten 0 1 2 smallObjects
    (normalised_smallObjects 0) (normalised_smallObjects 1) hless, fun hrefines => ?_⟩
  have hkeeps := (divmod_refines_iff (normalised_smallObjects 0) (normalised_smallObjects 1)
    (Nat.zero_lt_of_lt hless) (fun target htarget => by rw [← htarget]; decide)).1 hrefines
  have hle := hkeeps rfl (by decide) (by rw [value_smallObjects.1]; norm_num)
  omega

end PdiStack.BignumRefinement
