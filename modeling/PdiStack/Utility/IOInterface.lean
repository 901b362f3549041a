import PdiStack.Utility.StringOperations

/-!
# Reading from a peer

`iIOInterface` reads byte by byte: it asks `available()` before every byte and
stops when nothing is there, so what a read returns depends on how the bytes of
the peer are spread over time.  A client is modelled by what its reader is going
to find.  Every `available()` of the reader meets one arrival, which is the next
byte or nothing, and a loop that has got no further asks the client whether it is
still worth waiting for.
-/

namespace PdiStack.IOInterface

open StringOperations List

def carriageReturn : UInt8 := 0x0D
def lineFeed : UInt8 := 0x0A

def crlf : Text := [carriageReturn, lineFeed]

/-- What one `available()` finds, and whether a reader that has made no progress
by then gives up: the peer has gone, or the wait is over its limit. -/
structure Arrival where
  byte : Option UInt8
  stalled : Bool
deriving DecidableEq, Repr

/-- What is still to be found, and whether a reader without progress gives up
now.  A client with nothing left has closed. -/
structure Client where
  arrivals : List Arrival
  stalled : Bool
deriving DecidableEq, Repr

def Client.bytes (client : Client) : Text := client.arrivals.filterMap (·.byte)

/-- Nobody who waits for this client gives up before its last arrival. -/
def Client.Steady (client : Client) : Prop := ∀ arrival ∈ client.arrivals, arrival.stalled = false

instance (client : Client) : Decidable client.Steady :=
  inferInstanceAs (Decidable (∀ arrival ∈ client.arrivals, arrival.stalled = false))

def Client.ofText (bytes : Text) : Client :=
  { arrivals := bytes.map fun byte => ⟨some byte, false⟩, stalled := false }

/-- The loop of `readStringUntil` with `len` bytes already counted. -/
def readFrom (delimiter : UInt8) (keepDelimiter : Bool) (maxlen : ℕ) :
    ℕ → List Arrival → Text × Client
  | _, [] => ([], ⟨[], true⟩)
  | _, ⟨none, stalled⟩ :: rest => ([], ⟨rest, stalled⟩)
  | len, ⟨some c, stalled⟩ :: rest =>
    if c = delimiter then
      (if keepDelimiter then [c] else [], ⟨rest, stalled⟩)
    else if 0 < maxlen ∧ maxlen ≤ len + 1 then
      ([c], ⟨rest, stalled⟩)
    else
      let read := readFrom delimiter keepDelimiter maxlen (len + 1) rest
      (c :: read.1, read.2)

/-- `readStringUntil`, without the text it appends to.  A `maxlen` of zero sets no
limit. -/
def readStringUntil (delimiter : UInt8) (keepDelimiter : Bool) (maxlen : ℕ) (client : Client) :
    Text × Client :=
  readFrom delimiter keepDelimiter maxlen 0 client.arrivals

/-- `readLine`: up to a carriage return, then up to a line feed. -/
def readLine (maxlen : ℕ) (client : Client) : Text × Client :=
  let line := readStringUntil carriageReturn false maxlen client
  let rest := readStringUntil lineFeed false 0 line.2
  (line.1 ++ rest.1, rest.2)

/-- The loop of `readPacket`, with `room` bytes still wanted and `t` polls left
before it gives up. -/
def readPacketFrom (timeout : ℕ) : ℕ → ℕ → List Arrival → Text × List Arrival
  | _, _, [] => ([], [])
  | room, t, arrival :: rest =>
    if t = 0 then
      ([], arrival :: rest)
    else
      match arrival.byte with
      | none => readPacketFrom timeout room (t - 1) rest
      | some c =>
        if room ≤ 1 then
          ([c], rest)
        else
          let read := readPacketFrom timeout (room - 1) timeout rest
          (c :: read.1, read.2)

def readPacket (maxlen timeout : ℕ) (client : Client) : Text × Client :=
  if maxlen = 0 then
    ([], client)
  else
    let read := readPacketFrom timeout maxlen timeout client.arrivals
    (read.1, { client with arrivals := read.2 })

theorem length_readFrom_le {delimiter : UInt8} {keepDelimiter : Bool} {maxlen : ℕ} :
    ∀ (len : ℕ) (arrivals : List Arrival),
      (readFrom delimiter keepDelimiter maxlen len arrivals).2.arrivals.length ≤ arrivals.length - 1
  | _, [] => le_refl _
  | _, ⟨none, _⟩ :: _ => le_refl _
  | len, ⟨some c, stalled⟩ :: rest => by
    rw [readFrom]
    split
    · exact le_refl _
    split
    · exact le_refl _
    exact le_trans (length_readFrom_le (len + 1) rest)
      (Nat.sub_le _ _)

/-- A read takes at least one arrival. -/
theorem length_readStringUntil_le (delimiter : UInt8) (keepDelimiter : Bool) (maxlen : ℕ)
    (client : Client) :
    (readStringUntil delimiter keepDelimiter maxlen client).2.arrivals.length ≤
      client.arrivals.length - 1 :=
  length_readFrom_le 0 client.arrivals

theorem length_readLine_le (maxlen : ℕ) (client : Client) :
    (readLine maxlen client).2.arrivals.length ≤ client.arrivals.length - 1 := by
  have hline := length_readStringUntil_le carriageReturn false maxlen client
  exact le_trans (length_readStringUntil_le lineFeed false 0 _)
    (le_trans (Nat.sub_le _ _) hline)

/-- A client with nothing left has closed, and reading it finds that out. -/
theorem readFrom_nil_of_arrivals {delimiter : UInt8} {keepDelimiter : Bool} {maxlen : ℕ} :
    ∀ {len : ℕ} {arrivals : List Arrival}, arrivals = [] →
      readFrom delimiter keepDelimiter maxlen len arrivals = ([], ⟨[], true⟩)
  | _, _, rfl => by rw [readFrom]

theorem readLine_of_arrivals_nil {client : Client} {maxlen : ℕ} (hclosed : client.arrivals = []) :
    readLine maxlen client = ([], ⟨[], true⟩) := by
  have hread : readStringUntil carriageReturn false maxlen client = ([], ⟨[], true⟩) :=
    readFrom_nil_of_arrivals hclosed
  rw [readLine, hread]
  rfl

/-- A read that got something, or that may go on waiting, has taken an arrival. -/
theorem length_readLine_lt {maxlen : ℕ} {client : Client}
    (hopen : ¬ ((readLine maxlen client).1 = [] ∧ (readLine maxlen client).2.stalled = true)) :
    (readLine maxlen client).2.arrivals.length < client.arrivals.length := by
  have hnonempty : client.arrivals ≠ [] := by
    intro hclosed
    rw [readLine_of_arrivals_nil hclosed] at hopen
    exact hopen ⟨rfl, rfl⟩
  have hpos := length_pos_iff.mpr hnonempty
  have hless := length_readLine_le maxlen client
  omega

section Keep

variable (delimiter : UInt8) (maxlen : ℕ)

/-- It returns the bytes it takes, all of them and no others. -/
theorem bytes_readFrom (len : ℕ) (arrivals : List Arrival) :
    arrivals.filterMap (·.byte) =
      (readFrom delimiter true maxlen len arrivals).1 ++
        (readFrom delimiter true maxlen len arrivals).2.bytes := by
  induction arrivals generalizing len with
  | nil => rfl
  | cons arrival rest ih =>
    obtain ⟨byte, stalled⟩ := arrival
    cases byte with
    | none => rfl
    | some c =>
      rw [filterMap_cons_some (by rfl), readFrom]
      split
      · rfl
      split
      · rfl
      · exact congrArg (c :: ·) (ih (len + 1))

theorem delimiter_notMem_dropLast (len : ℕ) (arrivals : List Arrival) :
    delimiter ∉ (readFrom delimiter true maxlen len arrivals).1.dropLast := by
  induction arrivals generalizing len with
  | nil => exact not_mem_nil
  | cons arrival rest ih =>
    obtain ⟨byte, stalled⟩ := arrival
    cases byte with
    | none => exact not_mem_nil
    | some c =>
      rw [readFrom]
      split
      · exact not_mem_nil
      split
      · exact not_mem_nil
      case isFalse hother _ =>
        intro hmem
        have hrest := ih (len + 1)
        generalize (readFrom delimiter true maxlen (len + 1) rest) = read at hmem hrest
        obtain ⟨text, client⟩ := read
        cases text with
        | nil => exact not_mem_nil hmem
        | cons head tail =>
          rcases mem_cons.mp hmem with rfl | hmem
          · exact hother rfl
          · exact hrest hmem

end Keep

/-- A read that drops its delimiter does not return it. -/
theorem delimiter_notMem_readFrom (delimiter : UInt8) (maxlen len : ℕ) (arrivals : List Arrival) :
    delimiter ∉ (readFrom delimiter false maxlen len arrivals).1 := by
  induction arrivals generalizing len with
  | nil => exact not_mem_nil
  | cons arrival rest ih =>
    obtain ⟨byte, stalled⟩ := arrival
    cases byte with
    | none => exact not_mem_nil
    | some c =>
      rw [readFrom]
      split
      case isTrue => exact not_mem_nil
      case isFalse hother =>
        split
        · exact fun hmem => hother (mem_singleton.mp hmem).symm
        · intro hmem
          rcases mem_cons.mp hmem with rfl | hmem
          · exact hother rfl
          · exact ih (len + 1) hmem

/-- Reading a steady client leaves it steady, and waiting for it is given up only
at its end. -/
theorem steady_readFrom (delimiter : UInt8) (keepDelimiter : Bool) (maxlen len : ℕ)
    {arrivals : List Arrival} (hsteady : ∀ arrival ∈ arrivals, arrival.stalled = false) :
    (readFrom delimiter keepDelimiter maxlen len arrivals).2.Steady ∧
      ((readFrom delimiter keepDelimiter maxlen len arrivals).2.stalled = true →
        (readFrom delimiter keepDelimiter maxlen len arrivals).2.arrivals = []) := by
  induction arrivals generalizing len with
  | nil => exact ⟨forall_mem_nil _, fun _ => rfl⟩
  | cons arrival rest ih =>
    obtain ⟨byte, stalled⟩ := arrival
    obtain ⟨hhere, hrest⟩ := forall_mem_cons.mp hsteady
    have hstop : Client.Steady ⟨rest, stalled⟩ ∧ (stalled = true → rest = []) :=
      ⟨hrest, fun hstalled => absurd (hhere.symm.trans hstalled) Bool.false_ne_true⟩
    cases byte with
    | none => exact hstop
    | some c =>
      rw [readFrom]
      split
      · exact hstop
      split
      · exact hstop
      · exact ih (len + 1) hrest

end PdiStack.IOInterface
