import PdiStack.Core.Limbs
import PdiStack.Core.Loop

/-!
# The big integers of the RSA code

A `bignum` is an array of 32-bit words, lowest first, with the number of words in use.
The functions write their result through one pointer while they read the operands
through others, and a caller may pass one object twice.  They are modelled over a map
from addresses to objects, word by word in the order of the source.  Objects a function
allocates for itself appear as values.

The sums of a word loop are natural numbers.  Where the source keeps them in 64 bits
next to their bound, the reduction modulo `2 ^ 64` is written out.
-/

namespace PdiStack.BignumWords

open Limbs Loop Function

def rsaMaxKeyBits : ℕ := 2048

def bnWordBits : ℕ := 32

def bnMaxWords : ℕ := rsaMaxKeyBits / bnWordBits * 2 + 4

structure Bignum where
  w : Words bnMaxWords
  used : ℕ

abbrev Objects : Type := ℕ → Bignum

variable (a b : Bignum)

def wordAt (i : ℕ) : UInt32 :=
  if i < a.used then a.w.get i else 0

def bnZero : Bignum :=
  ⟨fun _ => 0, 0⟩

def bnSetU32 (v : UInt32) : Bignum :=
  if v ≠ 0 then ⟨bnZero.w.set 0 v, 1⟩ else bnZero

def bnNorm : Bignum :=
  { a with used := significant (fun i => (a.w.get i).toNat) bnMaxWords }

def bnIsZero : Bool := a.used == 0

/-- The result 1, -1 or 0 of the source is `gt`, `lt` or `eq`. -/
def bnCmp : Ordering :=
  if a.used ≠ b.used then
    if b.used < a.used then .gt else .lt
  else compareDown (fun i => (a.w.get i).toNat) (fun i => (b.w.get i).toNat) a.used

/-- The loop `while (hi) { bits++; hi >>= 1; }`, for a word of at most `fuel` bits. -/
def countBits : ℕ → ℕ → ℕ
  | 0, _ => 0
  | fuel + 1, hi => if hi = 0 then 0 else countBits fuel (hi >>> 1) + 1

def bnBitlen : ℕ :=
  if a.used = 0 then 0
  else (a.used - 1) * bnWordBits + countBits bnWordBits (a.w.get (a.used - 1)).toNat

def bnTestBit (i : ℕ) : Bool :=
  if a.used ≤ i / bnWordBits then false
  else (a.w.get (i / bnWordBits)).toNat.testBit (i % bnWordBits)

def fromBytesLoop : List UInt8 → ℕ → Bignum → Bool × Bignum
  | [], _, r => (true, bnNorm r)
  | byte :: rest, bit, r =>
    if bnMaxWords ≤ bit / bnWordBits then (false, r)
    else
      let word := r.w.get (bit / bnWordBits) |||
        byte.toUInt32 <<< UInt32.ofNat (bit % bnWordBits)
      fromBytesLoop rest (bit + 8) { r with w := r.w.set (bit / bnWordBits) word }

def bnFromBytes (buf : List UInt8) : Bool × Bignum := fromBytesLoop buf.reverse 0 bnZero

def bnNumBytes : ℕ := (bnBitlen a + 7) / 8

def bnToBytes (len : ℕ) : Option (List UInt8) :=
  if len < bnNumBytes a then none
  else some <| (List.range len).map fun i =>
    let bit := (len - 1 - i) * 8
    (wordAt a (bit / bnWordBits) >>> UInt32.ofNat (bit % bnWordBits)).toUInt8

def storeWord (objects : Objects) (r i : ℕ) (word : UInt32) : Objects :=
  update objects r { objects r with w := (objects r).w.set i word }

/-- A loop over the words of two operands that stores one word of the result and
hands on a carry at each index. -/
def wordLoop (step : UInt32 → UInt32 → ℕ → UInt32 × ℕ) (r a b n : ℕ) (objects : Objects) :
    Objects × ℕ :=
  countUp (fun i now =>
    let out := step (wordAt (now.1 a) i) (wordAt (now.1 b) i) now.2
    (storeWord now.1 r i out.1, out.2)) n (objects, 0)

def keepWords (word : ℕ → UInt32) (n : ℕ) : Words bnMaxWords :=
  fun place => if place.val < n then word place.val else 0

/-- What follows the loop: the words from `n` on are cleared and the result is
normalised. -/
def finish (objects : Objects) (r n : ℕ) : Objects :=
  update objects r (bnNorm ⟨keepWords (objects r).w.get n, n⟩)

def addStep (x y : UInt32) (carry : ℕ) : UInt32 × ℕ :=
  let s := x.toNat + y.toNat + carry
  (UInt32.ofNat s, s / 2 ^ 32)

def bnAdd (r a b : ℕ) (objects : Objects) : Bool × Objects :=
  let n := max (objects a).used (objects b).used
  let looped := wordLoop addStep r a b (min n bnMaxWords) objects
  -- the loop leaves as soon as its index is past the array
  if bnMaxWords < n then (false, looped.1)
  else if looped.2 ≠ 0 then
    if bnMaxWords ≤ n then (false, looped.1)
    else (true, finish (storeWord looped.1 r n (UInt32.ofNat looped.2)) r (n + 1))
  else (true, finish looped.1 r n)

def subStep (x y : UInt32) (borrow : ℕ) : UInt32 × ℕ :=
  let d : ℤ := x.toNat - y.toNat - borrow
  if d < 0 then (UInt32.ofNat (d + 2 ^ 32).toNat, 1) else (UInt32.ofNat d.toNat, 0)

def bnSub (r a b : ℕ) (objects : Objects) : Bool × Objects :=
  let n := (objects a).used
  let looped := wordLoop subStep r a b n objects
  (looped.2 == 0, finish looped.1 r n)

/-- One word of a shift to the left, with the bit carried into it. -/
def shl1Word (i : ℕ) (now : Words bnMaxWords × UInt32) : Words bnMaxWords × UInt32 :=
  let word := now.1.get i
  (now.1.set i (word <<< 1 ||| now.2), word >>> 31)

def bnShl1 : Bignum :=
  let looped := countUp shl1Word a.used (a.w, 0)
  if looped.2 ≠ 0 ∧ a.used < bnMaxWords then ⟨looped.1.set a.used looped.2, a.used + 1⟩
  else bnNorm ⟨looped.1, a.used⟩

/-- One word of `a` times one word of `b`, added into `tmp` at place `i + j`. -/
def mulWord (ai : UInt32) (b : Bignum) (i j : ℕ) (now : Words bnMaxWords × ℕ) :
    Words bnMaxWords × ℕ :=
  let s := ((now.1.get (i + j)).toNat + ai.toNat * (b.w.get j).toNat + now.2) % 2 ^ 64
  (now.1.set (i + j) (UInt32.ofNat s), s / 2 ^ 32)

def mulRow (ai : UInt32) (b : Bignum) (i : ℕ) (tmp : Words bnMaxWords) : Words bnMaxWords :=
  let looped := countUp (mulWord ai b i) b.used (tmp, 0)
  looped.1.set (i + b.used) (looped.1.get (i + b.used) + UInt32.ofNat looped.2)

def mulRows : Words bnMaxWords :=
  countUp (fun i tmp => mulRow (a.w.get i) b i tmp) a.used fun _ => 0

def bnMul (r a b : ℕ) (objects : Objects) : Bool × Objects :=
  if bnMaxWords < (objects a).used + (objects b).used then (false, objects)
  else
    (true, update objects r
      (bnNorm ⟨mulRows (objects a) (objects b), (objects r).used⟩))

/-- Three distinct objects: a result at address 0 and two operands. -/
def locals : Objects :=
  fun address => if address = 1 then a else if address = 2 then b else bnZero

/-- What a call that writes address 0 of its locals returns there. -/
def returned (out : Bool × Objects) : Option Bignum :=
  if out.1 then some (out.2 0) else none

/-- `bn_sub(a, a, b)` on an object of the caller's own, its result ignored. -/
def subInPlace : Bignum := (bnSub 1 1 2 (locals a b)).2 1

def putIfAsked (target : Option ℕ) (value : Bignum) (objects : Objects) : Objects :=
  match target with
  | none => objects
  | some address => update objects address value

/-- `R->w[0] |= 1u; if (R->used == 0) R->used = 1;` -/
def setLowBit (R : Bignum) : Bignum :=
  ⟨R.w.set 0 (R.w.get 0 ||| 1), if R.used = 0 then 1 else R.used⟩

def setQuotientBit (i : ℕ) (Q : Bignum) : Bignum :=
  let wi := i / bnWordBits
  ⟨Q.w.set wi (Q.w.get wi ||| 1 <<< UInt32.ofNat (i % bnWordBits)),
    if Q.used < wi + 1 then wi + 1 else Q.used⟩

/-- One pass of the long division, from the remainder and the quotient so far. -/
def divideBit (i : ℕ) (now : Bignum × Bignum) : Bignum × Bignum :=
  let shifted := bnShl1 now.1
  let R := if bnTestBit a i then setLowBit shifted else shifted
  if (bnCmp R b).isGE then (subInPlace R b, setQuotientBit i now.2) else (R, now.2)

def bnDivmod (a b : ℕ) (q rem : Option ℕ) (objects : Objects) : Bool × Objects :=
  if bnIsZero (objects b) then (false, objects)
  else if (bnCmp (objects a) (objects b)).isLT then
    let cleared := putIfAsked q bnZero objects
    (true, putIfAsked rem (cleared a) cleared)
  else
    let out := countDown (divideBit (objects a) (objects b)) (bnBitlen (objects a))
      (bnZero, bnZero)
    (true, putIfAsked rem (bnNorm out.1) (putIfAsked q (bnNorm out.2) objects))

def bnMod (r a m : ℕ) (objects : Objects) : Bool × Objects := bnDivmod a m none (some r) objects

/-- One pass of Euclid's algorithm on the function's own `x` and `y`.  `none` is
the early return. -/
def gcdPass (now : Bignum × Bignum) : Pass (Bignum × Bignum) (Option Bignum) :=
  if bnIsZero now.2 then .done (some now.1)
  else
    match returned (bnMod 0 1 2 (locals now.1 now.2)) with
    | none => .done none
    | some t => .again (now.2, t)

/-- `none` as long as the loop has not left after `passes` passes. -/
def bnGcd (passes r a b : ℕ) (objects : Objects) : Option (Bool × Objects) :=
  (runFor gcdPass passes (objects a, objects b)).map fun
    | none => (false, objects)
    | some x => (true, update objects r x)

end PdiStack.BignumWords
