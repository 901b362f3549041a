import PdiStack.Utility.StringOperations

/-!
# Base64

The encoder combines three bytes and cuts them into four characters of six bits.  The
decoder takes six bits from each character and emits a byte as soon as eight have come
together.  White space is skipped, and the first padding character ends the input.
-/

namespace PdiStack.Base64

open StringOperations List

def base64CharValue (char : UInt8) : Option UInt32 :=
  if 0x41 ≤ char ∧ char ≤ 0x5A then some (char - 0x41).toUInt32
  else if 0x61 ≤ char ∧ char ≤ 0x7A then some ((char - 0x61).toUInt32 + 26)
  else if 0x30 ≤ char ∧ char ≤ 0x39 then some ((char - 0x30).toUInt32 + 52)
  else if char = 0x2B then some 62
  else if char = 0x2F then some 63
  else none

/-- The line break, carriage return, blank and tab that the decoder passes over. -/
def isSkipped (char : UInt8) : Bool := char = 0x0A || char = 0x0D || char = 0x20 || char = 0x09

/-- The decoding loop: `val` keeps the bits that have not been emitted yet, and
`bits` counts them. -/
def decodeFrom : Text → UInt32 → UInt32 → Option Text
  | [], _, _ => some []
  | char :: rest, val, bits =>
    if char = 0x3D then
      some []
    else if isSkipped char then
      decodeFrom rest val bits
    else
      match base64CharValue char with
      | none => none
      | some decoded =>
        let val := (val <<< 6 ||| decoded) &&& 0x3FFF
        if 8 ≤ bits + 6 then
          (decodeFrom rest val (bits - 2)).map fun output =>
            ((val >>> (bits - 2)) &&& 0xFF).toUInt8 :: output
        else
          decodeFrom rest val (bits + 6)

def base64Decode (input : Text) : Option Text := decodeFrom input 0 0

def charSet : Text := text "ABCDEFGHIJKLMNOPQRSTUVWXYZabcdefghijklmnopqrstuvwxyz0123456789+/"

/-- `genUniqueKey`, with the numbers that `rand` gives: letters and digits only. -/
def genUniqueKey (random : ℕ → ℕ) (len : ℕ) : Text :=
  (range len).map fun index => charSet.getD (random index % 62) 0

@[simp]
theorem length_genUniqueKey (random : ℕ → ℕ) (len : ℕ) :
    (genUniqueKey random len).length = len := by
  rw [genUniqueKey, length_map, length_range]

/-- The characters of the low `bits` bits of a value, with zeros behind the last of them. -/
def emitBits (val : ℕ) : ℕ → Text
  | 0 => []
  | bits + 6 => charSet.getD (val >>> bits &&& 63) 0 :: emitBits val bits
  | bits => [charSet.getD (val <<< (6 - bits) &&& 63) 0]

/-- Up to three bytes, combined into one value. -/
def encodeGroup (group : Text) : Text :=
  emitBits (group.foldl (fun val byte => val <<< 8 ||| byte.toNat) 0) (8 * group.length)

/-- The encoding loop.  The padding is what the last group asks for, `no_of_bits % 3`. -/
def encodeFrom : Text → ℕ → Text
  | [], padding => replicate padding 0x3D
  | first :: second :: third :: rest, _ => encodeGroup [first, second, third] ++ encodeFrom rest 0
  | group, _ => encodeGroup group ++ replicate (8 * group.length % 3) 0x3D

def base64Encode (input : Text) : Text := encodeFrom input 0

/-- The four characters of a quantum of 24 bits. -/
def quantum (high middle low : UInt8) : Text :=
  [18, 12, 6, 0].map fun place =>
    charSet.getD ((high.toNat * 2 ^ 16 + middle.toNat * 2 ^ 8 + low.toNat) / 2 ^ place % 64) 0

/-- The encoding of RFC 4648.  Missing bytes of the last quantum are zeros, and the characters
that have no bit of the input are replaced by padding. -/
def rfc4648 : Text → Text
  | first :: second :: third :: rest => quantum first second third ++ rfc4648 rest
  | [first, second] => (quantum first second 0).take 3 ++ [0x3D]
  | [first] => (quantum first 0 0).take 2 ++ [0x3D, 0x3D]
  | [] => []

/-- The bits of a group are the first characters of its quantum. -/
theorem encodeGroup_eq (high middle low : UInt8) :
    encodeGroup [high, middle, low] = quantum high middle low ∧
      encodeGroup [high, middle] = (quantum high middle 0).take 3 ∧
      encodeGroup [high] = (quantum high 0 0).take 2 := by
  have hmask (val : ℕ) : val &&& 63 = val % 64 := Nat.and_two_pow_sub_one_eq_mod val 6
  have hbyte (val : ℕ) (byte : UInt8) : val <<< 8 ||| byte.toNat = val * 2 ^ 8 + byte.toNat := by
    rw [← Nat.shiftLeft_add_eq_or_of_lt byte.toNat_lt, Nat.shiftLeft_eq]
  simp [encodeGroup, emitBits, quantum, hmask, hbyte, Nat.shiftRight_eq_div_pow,
    -getD_eq_getElem?_getD]
  simp only [Nat.shiftLeft_eq]
  and_intros <;> exact congrArg (charSet.getD · 0) (by omega)

theorem base64Encode_eq_rfc4648 (input : Text) : base64Encode input = rfc4648 input := by
  unfold base64Encode
  induction input using rfc4648.induct with
  | case1 first second third rest ih =>
    rw [encodeFrom, ih, rfc4648, (encodeGroup_eq first second third).1]
  | case2 first second => simp [encodeFrom, rfc4648, encodeGroup_eq first second 0]
  | case3 first => simp [encodeFrom, rfc4648, encodeGroup_eq first 0 0]
  | case4 => rfl

/-- A character of the alphabet puts six bits behind those that are there. -/
theorem decodeFrom_char (val bits : UInt32) {index : ℕ} (hindex : index < 64) :
    ∃ next : UInt32, next.toNat = (val.toNat * 2 ^ 6 + index) % 2 ^ 14 ∧ ∀ rest,
      decodeFrom (charSet.getD index 0 :: rest) val bits =
        if 8 ≤ bits + 6 then
          (decodeFrom rest next (bits - 2)).map
            (UInt8.ofNat (next.toNat / 2 ^ ((bits - 2).toNat % 32)) :: ·)
        else decodeFrom rest next (bits + 6) := by
  have hchar : ∀ index < 64, let char := charSet.getD index 0
      char ≠ 0x3D ∧ ¬ isSkipped char ∧ base64CharValue char = some (UInt32.ofNat index) := by
    decide +kernel
  obtain ⟨hpadding, hskipped, hvalue⟩ := hchar index hindex
  refine ⟨(val <<< 6 ||| UInt32.ofNat index) &&& 0x3FFF, ?_, fun rest => ?_⟩
  · have hkept : val.toNat * 2 ^ 6 % 2 ^ 32 = (val.toNat % 2 ^ 26) <<< 6 := by
      rw [Nat.shiftLeft_eq]
      omega
    have hmask := Nat.and_two_pow_sub_one_eq_mod ((val.toNat % 2 ^ 26) <<< 6 + index) 14
    have hindex32 : (UInt32.ofNat index).toNat = index :=
      UInt32.toNat_ofNat_of_lt' (hindex.trans (by decide))
    rw [UInt32.toNat_and, UInt32.toNat_or, UInt32.toNat_shiftLeft, hindex32, Nat.shiftLeft_eq]
    refine (congrArg (· &&& _) (congrArg (· ||| _) hkept)).trans ?_
    rw [← Nat.shiftLeft_add_eq_or_of_lt hindex]
    refine hmask.trans ?_
    rw [Nat.shiftLeft_eq]
    omega
  · have hbyte (val count : UInt32) :
        ((val >>> count) &&& 0xFF).toUInt8 = UInt8.ofNat (val.toNat / 2 ^ (count.toNat % 32)) := by
      apply UInt8.toNat_inj.mp
      simpa [Nat.shiftRight_eq_div_pow] using
        Nat.and_two_pow_sub_one_eq_mod (val.toNat / 2 ^ (count.toNat % 32) % 256) 8
    rw [decodeFrom, if_neg hpadding, if_neg hskipped, hvalue]
    simp only [hbyte]

/-- The characters of a quantum give its bytes, as far as they go. -/
theorem decodeFrom_quantum (val : UInt32) {high middle low : UInt8} (rest : Text) :
    (∃ val', decodeFrom (quantum high middle low ++ rest) val 0 =
      (decodeFrom rest val' 0).map fun output => high :: middle :: low :: output) ∧
    decodeFrom ((quantum high middle low).take 3 ++ 0x3D :: rest) val 0 = some [high, middle] ∧
    decodeFrom ((quantum high middle low).take 2 ++ 0x3D :: rest) val 0 = some [high] := by
  have hindex (index : ℕ) : index % 64 < 64 := Nat.mod_lt _ (by decide)
  obtain ⟨value, hvalue⟩ : ∃ value, high.toNat * 65536 + middle.toNat * 256 + low.toNat = value :=
    ⟨_, rfl⟩
  obtain ⟨first, hfirst, hdecode₁⟩ := decodeFrom_char val 0 (hindex (value / 262144))
  obtain ⟨second, hsecond, hdecode₂⟩ := decodeFrom_char first 6 (hindex (value / 4096))
  obtain ⟨third, hthird, hdecode₃⟩ := decodeFrom_char second 4 (hindex (value / 64))
  obtain ⟨fourth, hfourth, hdecode₄⟩ := decodeFrom_char third 2 (hindex value)
  have hbyte {byte : UInt8} {value : ℕ} (h : value % 256 = byte.toNat) : UInt8.ofNat value = byte :=
    UInt8.toNat_inj.mp (by simpa using h)
  have := high.toNat_lt
  have := middle.toNat_lt
  have := low.toNat_lt
  have hhigh : UInt8.ofNat (second.toNat / 16) = high := hbyte (by omega)
  have hmiddle : UInt8.ofNat (third.toNat / 4) = middle := hbyte (by omega)
  have hlow : UInt8.ofNat fourth.toNat = low := hbyte (by omega)
  have hpadding (val bits : UInt32) : decodeFrom (0x3D :: rest) val bits = some [] := rfl
  refine ⟨⟨fourth, ?_⟩, ?_⟩
  all_goals simp [quantum, hvalue, hdecode₁, hdecode₂, hdecode₃, hdecode₄, hpadding, hhigh, hmiddle,
    hlow, Function.comp_def, -getD_eq_getElem?_getD]

theorem decodeFrom_rfc4648 {input : Text} {val : UInt32} :
    decodeFrom (rfc4648 input) val 0 = some input := by
  induction input using rfc4648.induct generalizing val with
  | case1 first second third rest ih =>
    obtain ⟨val', hdecode⟩ := (decodeFrom_quantum val (rfc4648 rest)).1
    rw [rfc4648, hdecode, ih, Option.map_some]
  | case2 first second => exact (decodeFrom_quantum val []).2.1
  | case3 first => exact (decodeFrom_quantum val [0x3D]).2.2
  | case4 => rfl

/-- The encoding is that of RFC 4648, and the decoder takes it back. -/
theorem base64Decode_base64Encode (input : Text) :
    base64Encode input = rfc4648 input ∧
      (base64Encode input).length = 4 * ((input.length + 2) / 3) ∧
      base64Decode (base64Encode input) = some input := by
  rw [base64Encode_eq_rfc4648]
  refine ⟨rfl, ?_, decodeFrom_rfc4648⟩
  induction input using rfc4648.induct with
  | case1 first second third rest ih =>
    rw [rfc4648, length_append, ih]
    simp [quantum]
    omega
  | case2 | case3 | case4 => simp [rfc4648, quantum]

theorem decodeFrom_filter {input : Text} {val bits : UInt32} :
    decodeFrom (input.filter (!isSkipped ·)) val bits = decodeFrom input val bits := by
  induction input generalizing val bits with
  | nil => rfl
  | cons char rest ih =>
    by_cases hskipped : isSkipped char
    · have hpadding : char ≠ 0x3D := by
        rintro rfl
        exact absurd hskipped (by decide)
      rw [filter_cons_of_neg (by simpa using hskipped), ih, decodeFrom, if_neg hpadding,
        if_pos hskipped]
    · rw [filter_cons_of_pos (by simpa using hskipped), decodeFrom, decodeFrom]
      simp only [ih]

/-- However an encoding is broken into lines and indented, the decoder takes it back. -/
theorem base64Decode_wrapped {input wrapped : Text}
    (hwrapped : wrapped.filter (!isSkipped ·) = base64Encode input) :
    base64Decode wrapped = some input := by
  rw [base64Decode, ← decodeFrom_filter, hwrapped, base64Encode_eq_rfc4648, decodeFrom_rfc4648]

theorem base64Decode_wrapped_key :
    base64Decode (text "QUJD\r\n RA==\n") = some (text "ABCD") :=
  base64Decode_wrapped (by decide +kernel)

end PdiStack.Base64
