import Mathlib
import PdiStack.Utility.StringOperations

/-!
# Numbers and bytes as text

`Uint32ToString` writes a number in decimal and the sized `StringToUint32` reads
one back, and `BytesToHexString` and `HexStringToBytes` do the same for bytes in
hexadecimal.  A number that fits its buffer comes back as it was.
-/

namespace PdiStack.DataTypeConversions

open StringOperations List

/-- Whether `StringToUint32` takes a character as part of a number. -/
def isDigit (char : UInt8) : Bool := 0x30 ≤ char ∧ char ≤ 0x39

/-- One further digit behind a value. -/
def pushDigit (value : UInt32) (digit : UInt8) : UInt32 := value * 10 + (digit - 0x30).toUInt32

/-- `StringToUint32` with its length: blanks, quotes and zeros are skipped, then
digits are taken, `length` characters in all. -/
def stringToUint32Upto (string : Text) (length : UInt8) : UInt32 :=
  let read := (cString string).take length.toNat
  let skipped := read.takeWhile fun char => char = 0x30 ∨ char = 0x20 ∨ char = 0x22
  ((read.drop skipped.length).takeWhile isDigit).foldl pushDigit 0

/-- The digits of a value in front of those already written, least significant
first, at most `places` of them. -/
def writeDigits : ℕ → ℕ → Text → Text
  | 0, _, written => written
  | places + 1, value, written =>
    if value = 0 then written
    else writeDigits places (value / 10) (UInt8.ofNat (0x30 + value % 10) :: written)

/-- `Uint32ToString` into a buffer of `maxlen` bytes, without padding. -/
def uint32ToString (value : UInt32) (maxlen : ℕ) : Text :=
  (if value = 0 then [0x30] else writeDigits 11 value.toNat []).take (maxlen - 1)

theorem isDigit_ofNat {value : ℕ} : isDigit (UInt8.ofNat (0x30 + value % 10)) := by
  have hvalue : value % 10 < 10 := Nat.mod_lt _ (by decide)
  have hdigit : ∀ digit < 10, isDigit (UInt8.ofNat (0x30 + digit)) := by decide
  exact hdigit _ hvalue

theorem pushDigit_ofNat (front value : ℕ) :
    pushDigit (UInt32.ofNat front) (UInt8.ofNat (0x30 + value % 10)) =
      UInt32.ofNat (front * 10 + value % 10) := by
  have hvalue : value % 10 < 10 := Nat.mod_lt _ (by decide)
  have hdigit : ∀ digit < 10,
      (UInt8.ofNat (0x30 + digit) - 0x30).toUInt32 = UInt32.ofNat digit := by decide
  rw [pushDigit, hdigit _ hvalue, UInt32.ofNat_add, UInt32.ofNat_mul]
  rfl

theorem isDigit_writeDigits {places value : ℕ} {written : Text}
    (hwritten : ∀ char ∈ written, isDigit char) :
    ∀ char ∈ writeDigits places value written, isDigit char := by
  induction places generalizing value written with
  | zero => exact hwritten
  | succ places ih =>
    rw [writeDigits]
    split
    · exact hwritten
    · refine ih fun char hchar => ?_
      rcases mem_cons.mp hchar with rfl | hrest
      · exact isDigit_ofNat
      · exact hwritten char hrest

/-- The digits written for a value read back as that value, with the digits
behind it pushed on. -/
theorem foldl_writeDigits {places value : ℕ} (hvalue : value < 10 ^ places) (written : Text) :
    (writeDigits places value written).foldl pushDigit 0 =
      written.foldl pushDigit (UInt32.ofNat value) := by
  induction places generalizing value written with
  | zero =>
    rw [Nat.lt_one_iff.mp hvalue]
    rfl
  | succ places ih =>
    rw [writeDigits]
    split
    case isTrue hzero => rw [hzero]; rfl
    case isFalse hvalue' =>
      have hfront : value / 10 < 10 ^ places := by
        rw [Nat.div_lt_iff_lt_mul (by decide)]
        exact hvalue
      have hwhole : value / 10 * 10 + value % 10 = value := by omega
      rw [ih hfront, foldl_cons, pushDigit_ofNat, hwhole]

theorem length_writeDigits_le (places value : ℕ) (written : Text) {digits : ℕ}
    (hvalue : value < 10 ^ digits) :
    (writeDigits places value written).length ≤ digits + written.length := by
  induction places generalizing value written digits with
  | zero => exact Nat.le_add_left _ _
  | succ places ih =>
    rw [writeDigits]
    split
    case isTrue => exact Nat.le_add_left _ _
    case isFalse hne =>
      cases digits with
      | zero => exact absurd (Nat.lt_one_iff.mp hvalue) hne
      | succ digits =>
        have hfront : value / 10 < 10 ^ digits := by
          rw [Nat.div_lt_iff_lt_mul (by decide)]
          exact hvalue
        have hlength := ih (value / 10) (UInt8.ofNat (0x30 + value % 10) :: written) hfront
        rw [length_cons] at hlength
        omega

/-- What `StringToUint32` skips in front of a number. -/
def isSkipped (char : UInt8) : Bool := char = 0x30 ∨ char = 0x20 ∨ char = 0x22

def appendDigit (value : ℕ) (digit : UInt8) : ℕ := value * 10 + (digit - 0x30).toNat

def decimal (digits : Text) : ℕ := digits.foldl appendDigit 0

theorem foldl_pushDigit {digits : Text} {value : ℕ} :
    digits.foldl pushDigit (UInt32.ofNat value) =
      UInt32.ofNat (digits.foldl appendDigit value) := by
  induction digits generalizing value with
  | nil => rfl
  | cons digit digits ih =>
    have hpush : pushDigit (UInt32.ofNat value) digit = UInt32.ofNat (appendDigit value digit) := by
      rw [pushDigit, appendDigit]
      simp
    rw [foldl_cons, hpush, ih, foldl_cons]

def digitsRead (string : Text) (length : UInt8) : Text :=
  (((cString string).take length.toNat).dropWhile isSkipped).takeWhile isDigit

theorem stringToUint32Upto_eq (string : Text) (length : UInt8) :
    stringToUint32Upto string length = UInt32.ofNat (decimal (digitsRead string length)) := by
  have hdrop (read : Text) : read.dropWhile isSkipped =
      read.drop (read.takeWhile isSkipped).length := by
    nth_rewrite 3 [← takeWhile_append_dropWhile (p := isSkipped) (l := read)]
    rw [drop_left]
  rw [decimal, ← foldl_pushDigit, digitsRead, hdrop]
  rfl

/-- Digits are read whole up to a text that starts with none: the zeros skipped in front add
nothing.  When all of them are zeros, what is skipped reaches on into that text. -/
theorem decimal_read {digits rest : Text} (hdigits : ∀ char ∈ digits, isDigit char)
    (hrest : rest.takeWhile isDigit = []) (hsome : decimal digits ≠ 0 ∨ rest = []) :
    decimal (((digits ++ rest).dropWhile isSkipped).takeWhile isDigit) = decimal digits := by
  induction digits with
  | nil =>
    rcases hsome with hzero | rfl
    · exact absurd rfl hzero
    · rfl
  | cons digit digits ih =>
    have hmore := fun char hchar => hdigits char (mem_cons_of_mem _ hchar)
    rw [cons_append]
    by_cases hzero : digit = 0x30
    · subst hzero
      exact ih hmore hsome
    have hdigit := hdigits digit mem_cons_self
    have hskip : ¬ isSkipped digit = true := fun hskip => by
      rcases of_decide_eq_true hskip with rfl | rfl | rfl
      · exact hzero rfl
      · exact absurd hdigit (by decide)
      · exact absurd hdigit (by decide)
    rw [dropWhile_cons_of_neg hskip, ← cons_append, takeWhile_append_of_pos hdigits, hrest,
      append_nil]

/-- A text of digits is read whole. -/
theorem stringToUint32Upto_of_digits {digits : Text} (hdigits : ∀ char ∈ digits, isDigit char)
    (hlength : digits.length < 256) :
    stringToUint32Upto digits (UInt8.ofNat digits.length) = digits.foldl pushDigit 0 := by
  have hnul : (0 : UInt8) ∉ digits := fun hzero => absurd (hdigits 0 hzero) (by decide)
  have hread := @decimal_read digits [] hdigits rfl (.inr rfl)
  rw [append_nil] at hread
  rw [stringToUint32Upto_eq, digitsRead, cString_of_notMem hnul,
    UInt8.toNat_ofNat_of_lt' hlength, take_length, hread]
  exact (foldl_pushDigit).symm

/-- A sixteen bit number in a buffer of eight bytes: all its digits are kept. -/
theorem digits_uint32ToString (value : UInt16) :
    (∀ char ∈ uint32ToString value.toUInt32 8, isDigit char) ∧
      (uint32ToString value.toUInt32 8).length < 256 ∧
      (uint32ToString value.toUInt32 8).foldl pushDigit 0 = value.toUInt32 := by
  have hvalue : value.toUInt32.toNat < 65536 := by
    exact value.toNat_lt
  unfold uint32ToString
  split
  case isTrue hzero =>
    rw [hzero]
    exact ⟨all_eq_true.mp (by decide), by decide, by decide⟩
  case isFalse =>
    have hlength := length_writeDigits_le 11 value.toUInt32.toNat []
      (show value.toUInt32.toNat < 10 ^ 5 by omega)
    rw [length_nil] at hlength
    rw [take_of_length_le (by omega)]
    refine ⟨isDigit_writeDigits nofun, by omega, ?_⟩
    rw [foldl_writeDigits (by omega), foldl_nil, UInt32.ofNat_toNat]

/-- A sixteen bit number comes back from its decimal text. -/
theorem stringToUint32Upto_uint32ToString (value : UInt16) :
    (stringToUint32Upto (uint32ToString value.toUInt32 8)
      (UInt8.ofNat (uint32ToString value.toUInt32 8).length)).toUInt16 = value := by
  obtain ⟨hdigits, hlength, hvalue⟩ := digits_uint32ToString value
  rw [stringToUint32Upto_of_digits hdigits hlength, hvalue, UInt16.toUInt16_toUInt32]

def hexDigit (char : UInt8) : Option UInt8 :=
  if 0x30 ≤ char ∧ char ≤ 0x39 then some (char - 0x30)
  else if 0x61 ≤ char ∧ char ≤ 0x66 then some (10 + (char - 0x61))
  else if 0x41 ≤ char ∧ char ≤ 0x46 then some (10 + (char - 0x41))
  else none

/-- `kHex`. -/
def hexChar (value : UInt8) : UInt8 := if value < 10 then 0x30 + value else 0x61 + (value - 10)

def bytesToHexString (bytes : Text) : Text :=
  bytes.flatMap fun byte : UInt8 => [hexChar (byte >>> 4), hexChar (byte &&& 0x0F)]

/-- `HexStringToBytes`.  The terminator of a string that is too short is no digit. -/
def hexStringToBytes : Text → ℕ → Option Text
  | _, 0 => some []
  | high :: low :: rest, bytelen + 1 => do
      let high ← hexDigit high
      let low ← hexDigit low
      let bytes ← hexStringToBytes rest bytelen
      return ((high <<< 4) ||| low) :: bytes
  | _, _ + 1 => none

end PdiStack.DataTypeConversions
