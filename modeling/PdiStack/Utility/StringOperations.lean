import Mathlib
import PdiStack.Core.Occurrence
import PdiStack.Core.Scan

/-!
# Byte strings

Paths, file contents, request bodies and command lines are all byte strings in
the source.  They are lists of bytes here, and `text` writes one from a literal.
The sized `__strstr` of the source is a search over start positions.  The searches of
the string class are first occurrences of a pattern, and an absent position (`npos`) is
`none`.
-/

namespace PdiStack.StringOperations

open Scan List

/-- A `pdiutil::string`, or a `char *` together with its length. -/
abbrev Text := List UInt8

def text (literal : String) : Text := literal.toList.map fun char => char.toNat.toUInt8

variable (string : Text)

/-- A string up to its first NUL, which is what `c_str` hands on. -/
def cString : Text := string.takeWhile (· ≠ 0)

theorem cString_of_notMem {string : Text} (hfree : 0 ∉ string) : cString string = string := by
  rw [cString, takeWhile_eq_self_iff]
  intro char hchar
  have hne : char ≠ 0 := fun hzero => hfree (hzero ▸ hchar)
  simpa using hne

/-- The sized `__strstr`: the first position from `start` on at which the whole
of `substr` lies inside `str`.  An empty pattern is never found. -/
def strstr (str substr : Text) (start : ℕ) : Option ℕ :=
  if substr.length = 0 ∨ str.length < substr.length then
    none
  else
    (List.range' start (str.length - substr.length + 1 - start)).find? fun position =>
      substr.isPrefixOf (str.drop position)

/-- What a found position means: the pattern lies there, and at no earlier
position from `start` on. -/
theorem strstr_eq_some_iff {str substr : Text} {start position : ℕ} :
    strstr str substr start = some position ↔
      substr ≠ [] ∧ start ≤ position ∧ substr <+: str.drop position ∧
        ∀ earlier, start ≤ earlier → earlier < position → ¬ substr <+: str.drop earlier := by
  unfold strstr
  split
  case isTrue hrefused =>
    refine ⟨nofun, ?_⟩
    rintro ⟨hnonempty, -, hfound, -⟩
    have hlength := hfound.length_le
    rw [length_drop] at hlength
    rcases hrefused with hempty | hshort
    · exact absurd (length_eq_zero_iff.mp hempty) hnonempty
    · omega
  case isFalse hsearched =>
    obtain ⟨hnonempty, hfits⟩ := not_or.mp hsearched
    rw [find?_range'_eq_some]
    simp only [List.isPrefixOf_iff_prefix, mem_range'_1, Bool.not_eq_true',
      Bool.eq_false_iff, ne_eq]
    constructor
    · rintro ⟨hfound, ⟨hstart, -⟩, hearlier⟩
      exact ⟨fun hempty => hnonempty (length_eq_zero_iff.mpr hempty), hstart, hfound,
        hearlier⟩
    · rintro ⟨-, hstart, hfound, hearlier⟩
      have hlength := hfound.length_le
      rw [length_drop] at hlength
      exact ⟨hfound, ⟨hstart, by omega⟩, hearlier⟩

/-- `find`: the first position from `start` on at which `pattern` lies. -/
def find (pattern : Text) (start : ℕ) : Option ℕ :=
  if start ≤ string.length then
    (Occurrence.first pattern (string.drop start)).map (· + start)
  else
    none

@[simp]
theorem find_zero (pattern : Text) : find string pattern 0 = Occurrence.first pattern string := by
  rw [find, if_pos (Nat.zero_le _), drop_zero]
  exact Option.map_id'

def contains (pattern : Text) : Bool := (find string pattern 0).isSome

def findLastOf (char : UInt8) : Option ℕ :=
  (Occurrence.first [char] string.reverse).map fun back => string.length - 1 - back

/-- `replace` with an empty replacement, for a pattern of one character. -/
def removeAll (char : UInt8) : Text := string.filter (· ≠ char)

/-- `StringToUint32`: blanks, quotes and zeros are skipped, then digits are taken,
thirty-two characters in all. -/
def stringToUint32 : UInt32 :=
  let skipped := (cString string).take 32 |>.takeWhile fun char =>
    char = 0x30 ∨ char = 0x20 ∨ char = 0x22
  let digits := ((cString string).take 32).drop skipped.length |>.takeWhile fun char =>
    0x30 ≤ char ∧ char ≤ 0x39
  digits.foldl (fun value digit => value * 10 + (digit - 0x30).toUInt32) 0

/-! ## Searches of C strings

`__strstr` and `__strstr_unquoted` on a `char *` stop at the NUL and look at a bounded
number of positions.  The second passes over what stands between quotes, and knows no
escapes. -/

/-- The default bound of a search. -/
def searchLimit : ℕ := 300

/-- The loop of `__strstr`. -/
def strstrFrom (substr : Text) : ℕ → Text → Option ℕ
  | 0, _ => none
  | _ + 1, [] => none
  | limit + 1, char :: rest =>
    if char = 0 then
      none
    else if substr.isPrefixOf (char :: rest) then
      some 0
    else
      (strstrFrom substr limit rest).map (· + 1)

/-- The unsized `__strstr`, with its default bound. -/
def cStrstr (str substr : Text) : Option ℕ :=
  if substr = [] then none else strstrFrom substr searchLimit str

/-- The two flags of a reader of quotes. -/
structure QuoteFlags where
  insingle : Bool
  indouble : Bool
deriving DecidableEq, Repr

namespace QuoteFlags

def outside : QuoteFlags := { insingle := false, indouble := false }

def toggled (flags : QuoteFlags) (char : UInt8) : Option QuoteFlags :=
  if char = 0x27 ∧ ¬ flags.indouble then
    some { flags with insingle := !flags.insingle }
  else if char = 0x22 ∧ ¬ flags.insingle then
    some { flags with indouble := !flags.indouble }
  else
    none

def next (flags : QuoteFlags) (char : UInt8) : QuoteFlags := (flags.toggled char).getD flags

end QuoteFlags

def strstrUnquotedFrom (substr : Text) : ℕ → QuoteFlags → Text → Option ℕ
  | 0, _, _ => none
  | _ + 1, _, [] => none
  | limit + 1, flags, char :: rest =>
    if char = 0 then
      none
    else
      match flags.toggled char with
      | some flags => (strstrUnquotedFrom substr limit flags rest).map (· + 1)
      | none =>
        if flags = .outside ∧ substr.isPrefixOf (char :: rest) then
          some 0
        else
          (strstrUnquotedFrom substr limit flags rest).map (· + 1)

/-- `__strstr_unquoted`, with its default bound; a missing pattern is never found. -/
def strstrUnquoted (str : Text) (substr : Option Text) : Option ℕ :=
  match substr with
  | none => none
  | some substr =>
    if substr = [] then none else strstrUnquotedFrom substr searchLimit .outside str

/-- A search for one character is a scan for it that a NUL stops. -/
theorem strstrFrom_singleton (char : UInt8) (limit : ℕ) (str : Text) :
    strstrFrom [char] limit str =
      scan (fun _ _ => ()) (· = 0) (fun _ head => head = char) limit () str := by
  induction limit generalizing str with
  | zero => rfl
  | succ limit ih =>
    cases str with
    | nil => rfl
    | cons head rest =>
      rw [strstrFrom, scan, ih]
      simp [eq_comm (a := char)]

/-- A search for one character outside the quotes is a scan with the flags for its state. -/
theorem strstrUnquotedFrom_singleton {char : UInt8} (hsingle : char ≠ 0x27)
    (hdouble : char ≠ 0x22) (limit : ℕ) (flags : QuoteFlags) (str : Text) :
    strstrUnquotedFrom [char] limit flags str =
      scan QuoteFlags.next (· = 0) (fun flags head => flags = .outside ∧ head = char) limit flags
        str := by
  induction limit generalizing flags str with
  | zero => rfl
  | succ limit ih =>
    cases str with
    | nil => rfl
    | cons head rest =>
      rw [strstrUnquotedFrom, scan, QuoteFlags.next]
      cases htoggled : flags.toggled head with
      | some toggled =>
        have hother : head ≠ char := by
          rintro rfl
          simp [QuoteFlags.toggled, hsingle, hdouble] at htoggled
        simp [ih, hother]
      | none => simp [ih, eq_comm (a := char)]

theorem missed_singleton_iff {char : UInt8} {str : Text} :
    Missed (fun _ _ => ()) (fun _ head => head = char) () str ↔ char ∉ str := by
  induction str with
  | nil => simp
  | cons head rest ih => simp [ih, eq_comm (a := char)]

/-- The first place of a character, when the bound and the NUL leave it in reach. -/
theorem cStrstr_singleton_eq_some_iff {char : UInt8} (hchar : char ≠ 0) {str : Text} {place : ℕ} :
    cStrstr str [char] = some place ↔
      ∃ before after, str = before ++ char :: after ∧ before.length = place ∧
        place < searchLimit ∧ 0 ∉ before ∧ char ∉ before := by
  rw [cStrstr, if_neg (cons_ne_nil _ _), strstrFrom_singleton, scan_eq_some_iff]
  constructor
  · rintro ⟨before, letter, after, rfl, rfl, hlimit, hread, -, hmissed, hhit⟩
    obtain rfl := of_decide_eq_true hhit
    refine ⟨before, after, rfl, rfl, hlimit, fun hmem => ?_, missed_singleton_iff.mp hmissed⟩
    exact absurd rfl (of_decide_eq_false (hread 0 hmem))
  · rintro ⟨before, after, rfl, rfl, hlimit, hfree, hnew⟩
    refine ⟨before, char, after, rfl, rfl, hlimit, fun read hread => ?_, decide_eq_false hchar,
      missed_singleton_iff.mpr hnew, decide_eq_true rfl⟩
    exact decide_eq_false fun hzero => hfree (hzero ▸ hread)

def areStrEquals (str1 str2 : Text) (limit : ℕ) : Bool :=
  (cString str1).length = (cString str2).length ∧
    (cString str1).take limit = (cString str2).take limit

/-- `__strtrim`; nothing is left of an empty string. -/
def strtrim (str : Text) : Option Text :=
  let lead := ((cString str).take searchLimit).takeWhile (· = 0x20)
  let body := (cString str).drop lead.length
  let trail := (body.reverse.take (searchLimit - lead.length)).takeWhile (· = 0x20)
  if cString str = [] then none else some (body.take (body.length - trail.length))

end PdiStack.StringOperations
