import PdiStack.Utility.DataTypeConversions

/-!
# IPv4 literals

The constructor of `ipaddress_t` reads an address from a text, and `parseIpLiteral` takes
a host name for an address where that reading gives one.  The number in progress has 32
bits, so that a numeral counts by its residue.
-/

namespace PdiStack.IpAddress

open StringOperations DataTypeConversions List

/-- What a point or the end of the text does with the number in progress. -/
def closeOctet (octets : List UInt8) (cur : UInt32) (seenDigit : Bool) : Option (List UInt8) :=
  if ¬ seenDigit ∨ 255 < cur ∨ 4 ≤ octets.length then none else some (octets ++ [cur.toUInt8])

/-- The loop of the constructor, over a text that its index of 16 bits covers. -/
def readOctets : Text → List UInt8 → UInt32 → Bool → Option (List UInt8)
  | [], octets, cur, seenDigit => closeOctet octets cur seenDigit
  | char :: rest, octets, cur, seenDigit =>
    if char = 0x2E then
      (closeOctet octets cur seenDigit).bind fun octets => readOctets rest octets 0 false
    else if isDigit char then
      readOctets rest octets (pushDigit cur char) true
    else
      none

/-- The octets of `ipaddress_t(const char*)`. -/
def ofString (string : Text) : List UInt8 :=
  match readOctets (cString string) [] 0 false with
  | some octets => if octets.length = 4 then octets else replicate 4 0
  | none => replicate 4 0

def octetText (octet : UInt8) : Text :=
  if octet = 0 then [0x30] else writeDigits 3 octet.toNat []

/-- The conversion of an address to `pdiutil::string`. -/
def toText (ip4 : List UInt8) : Text := [0x2E].intercalate (ip4.map octetText)

def isSet (ip4 : List UInt8) : Bool := ip4 ≠ replicate 4 0xFF ∧ ip4 ≠ replicate 4 0

def parseIpLiteral (string : Text) : Option (List UInt8) :=
  if cString string = [] ∨ ∃ char ∈ cString string, ¬ isDigit char ∧ char ≠ 0x2E then none
  else if isSet (ofString string) ∨ cString string = text "0.0.0.0" then some (ofString string)
  else none

/-- A numeral whose value, read in some way, fits an octet. -/
def isNumeral (value : Text → ℕ) (part : Text) : Bool :=
  part ≠ [] ∧ part.all isDigit ∧ value part ≤ 255

/-- Four numerals with points between them. -/
def isLiteral (value : Text → ℕ) (string : Text) : Bool :=
  (string.splitOn 0x2E).length = 4 ∧ (string.splitOn 0x2E).all (isNumeral value)

/-- The address that a text spells, or zeros. -/
def address (value : Text → ℕ) (string : Text) : List UInt8 :=
  if isLiteral value string then (string.splitOn 0x2E).map fun part => UInt8.ofNat (value part)
  else replicate 4 0

/-- The value of a numeral as the constructor has it. -/
def residue (digits : Text) : ℕ := decimal digits % 2 ^ 32

theorem closeOctet_eq (octets : List UInt8) {front : Text} (hfront : front.all isDigit) :
    closeOctet octets (UInt32.ofNat (decimal front)) (front ≠ []) =
      if octets.length + 1 ≤ 4 ∧ isNumeral residue front then
        some (octets ++ [UInt8.ofNat (residue front)])
      else none := by
  have hfits : 255 < UInt32.ofNat (decimal front) ↔ 255 < residue front := Iff.rfl
  have hoctet : (UInt32.ofNat (decimal front)).toUInt8 = UInt8.ofNat (residue front) := by
    apply UInt8.toNat_inj.mp
    simp [residue]
  grind [closeOctet, isNumeral]

/-- The loop with some digits of a numeral taken, which are in front of the next part. -/
theorem readOctets_eq (string : Text) {octets : List UInt8} {front : Text}
    (hfront : front.all isDigit) :
    readOctets string octets (UInt32.ofNat (decimal front)) (front ≠ []) =
      let parts := (string.splitOn 0x2E).modifyHead (front ++ ·)
      if octets.length + parts.length ≤ 4 ∧ parts.all (isNumeral residue) then
        some (octets ++ parts.map fun part => UInt8.ofNat (residue part))
      else none := by
  induction string generalizing octets front with
  | nil => simpa [readOctets, splitOn] using closeOctet_eq octets hfront
  | cons char rest ih =>
    obtain ⟨part, parts, hparts⟩ := exists_cons_of_ne_nil (splitOnP_ne_nil (· == 0x2E) rest)
    rw [splitOn] at ih ⊢
    rw [readOctets, splitOnP_cons_eq_if_modifyHead]
    rw [hparts] at ih ⊢
    by_cases hpoint : char = 0x2E
    · have hrest (octets : List UInt8) := @ih octets [] rfl
      rw [if_pos hpoint, if_pos (beq_iff_eq.mpr hpoint), closeOctet_eq octets hfront]
      by_cases hclosed : octets.length + 1 ≤ 4 ∧ isNumeral residue front
      · rw [if_pos hclosed]
        refine (hrest _).trans ?_
        simp [hclosed.2, Nat.add_assoc, Nat.add_comm]
      · rw [if_neg hclosed]
        simp
        grind
    · rw [if_neg hpoint, if_neg (beq_iff_eq.not.mpr hpoint)]
      by_cases hdigit : isDigit char
      · have hpush : pushDigit (UInt32.ofNat (decimal front)) char =
            UInt32.ofNat (decimal (front ++ [char])) := by
          rw [decimal, decimal, foldl_append, ← @foldl_pushDigit [char]]
          rfl
        have hrest := @ih octets (front ++ [char]) (by simpa [hdigit] using hfront)
        rw [if_pos hdigit, hpush]
        simpa using hrest
      · rw [if_neg hdigit]
        simp [isNumeral, hdigit]

/-- The constructor reads numerals by their residues. -/
theorem ofString_eq (string : Text) : ofString string = address residue (cString string) := by
  have hread := @readOctets_eq (cString string) [] [] rfl
  have hhead : ((cString string).splitOn 0x2E).modifyHead ([] ++ ·) =
      (cString string).splitOn 0x2E := by
    cases (cString string).splitOn 0x2E <;> rfl
  rw [hhead] at hread
  rw [ofString, address, show readOctets (cString string) [] 0 false = _ from hread]
  dsimp only
  split
  case h_1 octets hoctets =>
    obtain ⟨⟨-, hall⟩, hoctets⟩ := Option.ite_none_right_eq_some.mp hoctets
    simp [isLiteral, hall, ← Option.some.inj hoctets]
  case h_2 hnone => grind [isLiteral]

theorem octetText_spec (octet : UInt8) :
    isNumeral residue (octetText octet) ∧ residue (octetText octet) = octet.toNat ∧
      0x2E ∉ octetText octet ∧ 0 ∉ octetText octet := by
  have hoctets : ∀ octet < 256, isNumeral residue (octetText (UInt8.ofNat octet)) ∧
      residue (octetText (UInt8.ofNat octet)) = octet ∧
      0x2E ∉ octetText (UInt8.ofNat octet) ∧ 0 ∉ octetText (UInt8.ofNat octet) := by
    decide +kernel
  simpa using hoctets octet.toNat octet.toNat_lt

theorem ofString_toText (first second third fourth : UInt8) :
    ofString (toText [first, second, third, fourth]) = [first, second, third, fourth] := by
  have hfree : 0 ∉ toText [first, second, third, fourth] := by
    simp [toText, intercalate, octetText_spec]
  have hsplit : (toText [first, second, third, fourth]).splitOn 0x2E =
      [first, second, third, fourth].map octetText :=
    splitOn_intercalate _ (by simp [octetText_spec]) (by simp)
  simp [ofString_eq, cString_of_notMem hfree, address, isLiteral, hsplit, octetText_spec]

/-- Values and residues give the same address, unless a numeral is too large and the
residues are not all zero. -/
theorem address_residue_iff (string : Text) :
    address residue string = address decimal string ↔
      (isLiteral residue string → (∀ part ∈ string.splitOn 0x2E, decimal part ≤ 255) ∨
        ∀ part ∈ string.splitOn 0x2E, residue part = 0) := by
  have hsame {part : Text} (hsmall : decimal part ≤ 255) : residue part = decimal part :=
    Nat.mod_eq_of_lt (by omega)
  have hexact : isLiteral decimal string ↔
      isLiteral residue string ∧ ∀ part ∈ string.splitOn 0x2E, decimal part ≤ 255 := by
    grind [isLiteral, isNumeral]
  by_cases hliteral : isLiteral residue string
  · by_cases hsmall : ∀ part ∈ string.splitOn 0x2E, decimal part ≤ 255
    · rw [address, address, if_pos hliteral, if_pos (hexact.mpr ⟨hliteral, hsmall⟩)]
      refine iff_of_true (map_congr_left fun part hpart => ?_) fun _ => .inl hsmall
      rw [hsame (hsmall part hpart)]
    · rw [address, address, if_pos hliteral, if_neg fun h => hsmall (hexact.mp h).2]
      have hparts := hliteral
      simp only [isLiteral, isNumeral, decide_eq_true_eq, all_eq_true] at hparts
      have hbyte {part : Text} (hpart : residue part ≤ 255) :
          UInt8.ofNat (residue part) = 0 ↔ residue part = 0 := by
        rw [← UInt8.toNat_inj]
        simp
        omega
      simp only [hliteral, hsmall, eq_replicate_iff, length_map, hparts.1, forall_mem_map, true_and,
        false_or, forall_const]
      exact forall₂_congr fun part hpart => hbyte (hparts.2 part hpart).2.2
  · have hno : ¬ isLiteral decimal string := fun h => hliteral (hexact.mp h).1
    rw [address, address, if_neg hliteral, if_neg hno]
    exact iff_of_true rfl fun h => absurd h hliteral

/-- The constructor reads a text exactly, and no other text is taken for an address, if and
only if no numeral of a text that it accepts is too large, or all of them count as zero. -/
theorem ofString_exact_iff (string : Text) :
    (ofString string = address decimal (cString string) ∧
      ((parseIpLiteral string).isSome → isLiteral decimal (cString string)) ∧
      ∀ first second third fourth,
        ofString (toText [first, second, third, fourth]) = [first, second, third, fourth]) ↔
    (isLiteral residue (cString string) →
      (∀ part ∈ (cString string).splitOn 0x2E, decimal part ≤ 255) ∨
        ∀ part ∈ (cString string).splitOn 0x2E, residue part = 0) := by
  rw [← address_residue_iff, ← ofString_eq]
  refine ⟨And.left, fun hexact => ⟨hexact, fun haccepted => ?_, ofString_toText⟩⟩
  by_contra hother
  have hzero : text "0.0.0.0" ≠ cString string := by
    intro hzero
    rw [← hzero] at hother
    exact hother (by decide +kernel)
  rw [address, if_neg hother] at hexact
  simp [parseIpLiteral, hexact, isSet, hzero.symm] at haccepted

/-- The first numeral is 2 ^ 32 + 1. -/
theorem large_numeral_read :
    parseIpLiteral (text "4294967297.0.0.1") = some [1, 0, 0, 1] ∧
      address decimal (text "4294967297.0.0.1") = [0, 0, 0, 0] := by
  decide +kernel

end PdiStack.IpAddress
