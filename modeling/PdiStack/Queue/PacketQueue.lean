import Mathlib
import PdiStack.Core.Loop
import PdiStack.Core.Circular
import PdiStack.Utility.StringOperations

/-!
# The packet queue

The send queue keeps packets in a ring buffer.  A packet is written between a start and
an end byte, and a byte that is one of the three marks is written as an escape and its
complement.  A packet that does not fit is taken back by restoring the write position
and the fill count.

Reading runs a small parser over the buffer until it sees an end byte.  Its `isBegin` is
not set up before the first byte, so what it holds is a parameter.
-/

namespace PdiStack.PacketQueue

open StringOperations Circular Loop List

/-- `RINGBUF`.  Positions count from `p_o`, and the memory is that of the caller. -/
structure RingBuf where
  cells : ℕ → UInt8
  readAt : ℕ
  writeAt : ℕ
  fillCnt : ℕ
  size : ℕ

def ringbufInit (cells : ℕ → UInt8) (size : ℕ) : Option RingBuf :=
  if size < 2 then none
  else some { cells := cells, readAt := 0, writeAt := 0, fillCnt := 0, size := size }

def nextPosition (size position : ℕ) : ℕ := if size ≤ position + 1 then 0 else position + 1

variable (rb : RingBuf)

/-- `RINGBUF_Put`.  A full buffer is handed back as it is. -/
def ringbufPut (char : UInt8) : Except RingBuf RingBuf :=
  if rb.size ≤ rb.fillCnt then .error rb
  else .ok
    { rb with
      fillCnt := rb.fillCnt + 1
      cells := Function.update rb.cells rb.writeAt char
      writeAt := nextPosition rb.size rb.writeAt }

def ringbufGet : Option (UInt8 × RingBuf) :=
  if rb.fillCnt = 0 then none
  else some (rb.cells rb.readAt,
    { rb with
      fillCnt := rb.fillCnt - 1
      readAt := nextPosition rb.size rb.readAt })

def escapeMark : UInt8 := 0x7D
def startMark : UInt8 := 0x7E
def endMark : UInt8 := 0x7F

def isMark (char : UInt8) : Bool := char = escapeMark ∨ char = startMark ∨ char = endMark

/-- The loop of `PROTO_AddRb` over the bytes of a packet, counting what it writes. -/
def addBytes : Text → UInt16 → RingBuf → Except RingBuf (UInt16 × RingBuf)
  | [], count, rb => .ok (count, rb)
  | char :: packet, count, rb =>
    if isMark char then do
      let rb ← ringbufPut rb escapeMark
      let rb ← ringbufPut rb (char ^^^ 0x20)
      addBytes packet (count + 2) rb
    else do
      let rb ← ringbufPut rb char
      addBytes packet (count + 1) rb

/-- `PROTO_AddRb`: the count, or none with the write position and the fill count as
they were. -/
def protoAddRb (packet : Text) : Option UInt16 × RingBuf :=
  let added := do
    let rb ← ringbufPut rb startMark
    let (count, rb) ← addBytes packet 2 rb
    let rb ← ringbufPut rb endMark
    return (count, rb)
  match added with
  | .ok (count, rb) => (some count, rb)
  | .error torn => (none, { torn with writeAt := rb.writeAt, fillCnt := rb.fillCnt })

/-- `PROTO_PARSER`.  The bytes stored so far stand for the buffer and its length. -/
structure ProtoParser where
  data : Text
  bufSize : ℕ
  isEsc : Bool
  isBegin : Bool
deriving DecidableEq, Repr

def protoInit (bufSize : ℕ) (isBegin : Bool) : ProtoParser :=
  { data := [], bufSize := bufSize, isEsc := false, isBegin := isBegin }

def protoParseByte (parser : ProtoParser) (value : UInt8) : Bool × ProtoParser :=
  if value = escapeMark then
    (false, { parser with isEsc := true })
  else if value = startMark then
    (false, { parser with data := [], isEsc := false, isBegin := true })
  else if value = endMark then
    (true, { parser with isBegin := false })
  else if parser.isBegin = false then
    (false, parser)
  else
    let value := if parser.isEsc then value ^^^ 0x20 else value
    (false,
      { parser with
        isEsc := false
        data := if parser.data.length < parser.bufSize then parser.data ++ [value]
          else parser.data })

def parsePass (at_ : ProtoParser × RingBuf) : Pass (ProtoParser × RingBuf) (Option Text × RingBuf) :=
  match ringbufGet at_.2 with
  | none => .done (none, at_.2)
  | some (char, rb) =>
    match protoParseByte at_.1 char with
    | (true, parser) => .done (some parser.data, rb)
    | (false, parser) => .again (parser, rb)

theorem parsePass_variant : Variant parsePass fun at_ => at_.2.fillCnt := by
  rintro ⟨parser, rb⟩ next hpass
  unfold parsePass ringbufGet at hpass
  dsimp only at hpass
  split at hpass
  case h_1 => cases hpass
  case h_2 char taken hget =>
    split at hget
    case isTrue => cases hget
    case isFalse hfilled =>
      cases hget
      split at hpass
      · cases hpass
      · cases hpass
        dsimp only
        omega

def protoParseRb (maxBufLen : ℕ) (isBegin : Bool) : Option Text × RingBuf :=
  run parsePass _ parsePass_variant (protoInit maxBufLen isBegin, rb)

def queueInit (cells : ℕ → UInt8) (bufferSize : ℕ) : Option RingBuf := ringbufInit cells bufferSize

def queuePuts (packet : Text) : Option UInt16 × RingBuf := protoAddRb rb packet

def queueGets (maxLen : ℕ) (isBegin : Bool) : Option Text × RingBuf :=
  protoParseRb rb maxLen isBegin

def queueIsEmpty : Bool := rb.fillCnt = 0

/-- What every call keeps true of a ring buffer. -/
structure Sound (rb : RingBuf) : Prop where
  size_pos : 2 ≤ rb.size
  readAt_lt : rb.readAt < rb.size
  fillCnt_le : rb.fillCnt ≤ rb.size
  writeAt_eq : rb.writeAt = (rb.readAt + rb.fillCnt) % rb.size

def contents : Text := window rb.cells rb.size rb.readAt rb.fillCnt

variable {size : ℕ} (rb : RingBuf) (packet : Text)

@[simp] theorem length_contents : (contents rb).length = rb.fillCnt := length_window ..

theorem nextPosition_eq {position : ℕ} (hposition : position < size) :
    nextPosition size position = (position + 1) % size := by
  rw [nextPosition]
  split
  case isTrue hlast =>
    rw [show position + 1 = size by omega, Nat.mod_self]
  case isFalse hinside =>
    rw [Nat.mod_eq_of_lt (Nat.not_le.mp hinside)]

/-- A byte goes behind what the buffer holds. -/
theorem ringbufPut_of_lt {rb : RingBuf} (hsound : Sound rb) (hroom : rb.fillCnt < rb.size)
    {char : UInt8} :
    ∃ next, ringbufPut rb char = .ok next ∧ Sound next ∧ next.size = rb.size ∧
      next.readAt = rb.readAt ∧ next.fillCnt = rb.fillCnt + 1 ∧
      contents next = contents rb ++ [char] := by
  have hsize : 0 < rb.size := Nat.zero_lt_of_lt hroom
  refine ⟨_, if_neg (Nat.not_le.mpr hroom), ⟨hsound.size_pos, hsound.readAt_lt, hroom, ?_⟩,
    rfl, rfl, rfl, ?_⟩
  · rw [nextPosition_eq (hsound.writeAt_eq ▸ Nat.mod_lt _ hsize), hsound.writeAt_eq,
      Nat.mod_add_mod, add_assoc]
  · change window (Function.update rb.cells rb.writeAt char) rb.size rb.readAt (rb.fillCnt + 1) = _
    rw [hsound.writeAt_eq, window_update_succ hroom]
    rfl

/-- The first byte is taken from what the buffer holds. -/
theorem ringbufGet_of_contents {rb : RingBuf} (hsound : Sound rb) {char : UInt8} {rest : Text}
    (hcontents : contents rb = char :: rest) :
    ∃ next, ringbufGet rb = some (char, next) ∧ Sound next ∧ next.size = rb.size ∧
      contents next = rest := by
  have hsize : 0 < rb.size := lt_of_lt_of_le (by decide) hsound.size_pos
  have hfill : rb.fillCnt = rest.length + 1 := by
    rw [← length_contents, hcontents, length_cons]
  have hwindow := hcontents
  rw [contents, hfill, window_cons, Nat.mod_eq_of_lt hsound.readAt_lt, List.cons.injEq] at hwindow
  obtain ⟨hchar, hrest⟩ := hwindow
  have hfull := hsound.fillCnt_le
  refine ⟨{ rb with fillCnt := rb.fillCnt - 1, readAt := nextPosition rb.size rb.readAt },
    ?_, ⟨hsound.size_pos, ?_, by dsimp only; omega, ?_⟩, rfl, ?_⟩
  · rw [ringbufGet, if_neg (by omega), hchar]
  · rw [nextPosition_eq hsound.readAt_lt]
    exact Nat.mod_lt _ hsize
  · dsimp only
    rw [hsound.writeAt_eq, nextPosition_eq hsound.readAt_lt, Nat.mod_add_mod]
    congr 1
    omega
  · rw [nextPosition_eq hsound.readAt_lt, hfill]
    exact hrest

theorem ringbufGet_of_nil {rb : RingBuf} (hcontents : contents rb = []) : ringbufGet rb = none := by
  rw [ringbufGet, if_pos]
  rw [← length_contents, hcontents, length_nil]

def putAll (bytes : Text) : Except RingBuf RingBuf := bytes.foldlM ringbufPut rb

def escaped (packet : Text) : Text :=
  packet.flatMap fun char => if isMark char then [escapeMark, char ^^^ 0x20] else [char]

def frame (packet : Text) : Text := startMark :: (escaped packet ++ [endMark])

@[simp] theorem length_frame : (frame packet).length = (escaped packet).length + 2 := by
  rw [frame, length_cons, length_append]
  rfl

theorem putAll_cons (char : UInt8) (bytes : Text) :
    putAll rb (char :: bytes) = ringbufPut rb char >>= fun rb => putAll rb bytes :=
  foldlM_cons ..

theorem putAll_append (front back : Text) :
    putAll rb (front ++ back) = putAll rb front >>= fun rb => putAll rb back :=
  foldlM_append ..

/-- The loop over a packet puts its escaped bytes and counts them. -/
theorem addBytes_eq (count : UInt16) (rb : RingBuf) :
    addBytes packet count rb = putAll rb (escaped packet) >>= fun rb =>
      .ok (count + UInt16.ofNat (escaped packet).length, rb) := by
  induction packet generalizing count rb with
  | nil =>
    rw [addBytes]
    change _ = Except.ok (count + 0, rb)
    rw [UInt16.add_zero]
  | cons char packet ih =>
    have hescaped : escaped (char :: packet) =
        (if isMark char then [escapeMark, char ^^^ 0x20] else [char]) ++ escaped packet :=
      flatMap_cons
    have hcount : ∀ extra : ℕ, count + UInt16.ofNat extra + UInt16.ofNat (escaped packet).length =
        count + UInt16.ofNat (extra + (escaped packet).length) := fun extra => by
      rw [UInt16.ofNat_add, UInt16.add_assoc]
    rw [addBytes, hescaped]
    split
    · have htwo := hcount 2
      simp only [cons_append, nil_append, putAll_cons, bind_assoc, ih,
        length_cons, add_comm 2] at htwo ⊢
      rw [← htwo]
      rfl
    · have hone := hcount 1
      simp only [cons_append, nil_append, putAll_cons, bind_assoc, ih,
        length_cons, add_comm 1] at hone ⊢
      rw [← hone]
      rfl

/-- Adding a packet puts its frame, or puts back the write position and the count. -/
theorem protoAddRb_eq :
    protoAddRb rb packet = match putAll rb (frame packet) with
      | .ok next => (some (2 + UInt16.ofNat (escaped packet).length), next)
      | .error torn => (none, { torn with writeAt := rb.writeAt, fillCnt := rb.fillCnt }) := by
  have hadded : (do
      let rb ← ringbufPut rb startMark
      let (count, rb) ← addBytes packet 2 rb
      let rb ← ringbufPut rb endMark
      return (count, rb)) = putAll rb (frame packet) >>= fun next =>
        .ok (2 + UInt16.ofNat (escaped packet).length, next) := by
    rw [frame]
    simp only [addBytes_eq, putAll_append, putAll_cons, bind_assoc]
    rfl
  rw [protoAddRb, hadded]
  cases putAll rb (frame packet) <;> rfl

/-- Bytes that fit go behind what the buffer holds.  When they do not, the buffer that
is left still holds it in front of those that did. -/
theorem putAll_spec {rb : RingBuf} (hsound : Sound rb) {bytes : Text} :
    (rb.fillCnt + bytes.length ≤ rb.size ∧ ∃ next, putAll rb bytes = .ok next ∧ Sound next ∧
      next.size = rb.size ∧ contents next = contents rb ++ bytes) ∨
    (rb.size < rb.fillCnt + bytes.length ∧ ∃ torn, putAll rb bytes = .error torn ∧
      torn.size = rb.size ∧ torn.readAt = rb.readAt ∧
      contents rb = window torn.cells rb.size rb.readAt rb.fillCnt) := by
  induction bytes generalizing rb with
  | nil =>
    refine .inl ⟨hsound.fillCnt_le, rb, rfl, hsound, rfl, ?_⟩
    rw [append_nil]
  | cons char bytes ih =>
    rw [putAll_cons]
    by_cases hroom : rb.fillCnt < rb.size
    · obtain ⟨next, hput, hnext, hsize, hread, hfill, hcontents⟩ := ringbufPut_of_lt hsound hroom
      rw [hput, length_cons]
      rcases ih hnext with ⟨hfits, last, hall, hlast, hsize', hcontents'⟩ |
        ⟨hshort, torn, hall, hsize', hread', hwindow⟩
      · refine .inl ⟨by omega, last, hall, hlast, hsize'.trans hsize, ?_⟩
        rw [hcontents', hcontents, append_assoc, singleton_append]
      · refine .inr ⟨by omega, torn, hall, hsize'.trans hsize, hread'.trans hread, ?_⟩
        -- the window of the ring buffer it started from begins the one just written
        rw [hcontents, hsize, hread, hfill, window_succ] at hwindow
        exact (append_inj hwindow (by simp)).1
    · have hfull : rb.size ≤ rb.fillCnt := Nat.not_lt.mp hroom
      refine .inr ⟨by rw [length_cons]; omega, rb, ?_, rfl, rfl, rfl⟩
      rw [ringbufPut, if_pos hfull]
      rfl

/-! ## The queue as bytes

What a call answers depends on the bytes held and the size alone. -/

/-- The parser over the bytes held: the packet it completes, and the bytes behind it. -/
def takePacket : ProtoParser → Text → Option Text × Text
  | _, [] => (none, [])
  | parser, char :: rest =>
    match protoParseByte parser char with
    | (true, parser) => (some parser.data, rest)
    | (false, parser) => takePacket parser rest

inductive Call where
  | puts (packet : Text)
  | gets (maxLen : ℕ) (isBegin : Bool)
deriving DecidableEq, Repr

inductive Answer where
  | put (count : Option UInt16)
  | got (packet : Option Text)
deriving DecidableEq, Repr

def queueStep : Call → Answer × RingBuf
  | .puts packet => (.put (queuePuts rb packet).1, (queuePuts rb packet).2)
  | .gets maxLen isBegin =>
    (.got (queueGets rb maxLen isBegin).1, (queueGets rb maxLen isBegin).2)

def bytesStep (size : ℕ) (held : Text) : Call → Answer × Text
  | .puts packet =>
    if held.length + (frame packet).length ≤ size then
      (.put (some (2 + UInt16.ofNat (escaped packet).length)), held ++ frame packet)
    else
      (.put none, held)
  | .gets maxLen isBegin =>
    (.got (takePacket (protoInit maxLen isBegin) held).1,
      (takePacket (protoInit maxLen isBegin) held).2)

/-- A ring buffer of the given size that holds the given bytes. -/
structure Holds (size : ℕ) (rb : RingBuf) (held : Text) : Prop where
  sound : Sound rb
  size_eq : rb.size = size
  contents_eq : contents rb = held

theorem holds_ringbufInit {cells : ℕ → UInt8} {rb : RingBuf}
    (hinit : ringbufInit cells size = some rb) : Holds size rb [] := by
  rw [ringbufInit] at hinit
  split at hinit
  case isTrue => cases hinit
  case isFalse hsize =>
    cases hinit
    have hpos : 0 < size := by omega
    refine ⟨⟨Nat.not_lt.mp hsize, hpos, Nat.zero_le _, (Nat.zero_mod _).symm⟩, rfl, rfl⟩

theorem holds_queuePuts {rb : RingBuf} {held : Text} (hholds : Holds size rb held) (packet : Text) :
    (queueStep rb (.puts packet)).1 = (bytesStep size held (.puts packet)).1 ∧
      Holds size (queueStep rb (.puts packet)).2 (bytesStep size held (.puts packet)).2 := by
  obtain ⟨hsound, rfl, rfl⟩ := hholds
  dsimp only [queueStep, bytesStep, queuePuts]
  rw [protoAddRb_eq, length_contents]
  rcases putAll_spec hsound with ⟨hfits, next, hput, hnext, hsize, hcontents⟩ |
    ⟨hshort, torn, hput, hsize, hread, hwindow⟩
  · rw [hput, if_pos hfits]
    exact ⟨rfl, hnext, hsize, hcontents⟩
  rw [hput, if_neg (Nat.not_le.mpr hshort)]
  refine ⟨rfl, ⟨?_, ?_, hsound.fillCnt_le.trans hsize.ge, ?_⟩, hsize, ?_⟩
  · rw [hsize]
    exact hsound.size_pos
  · rw [hsize, hread]
    exact hsound.readAt_lt
  · rw [hsize, hread]
    exact hsound.writeAt_eq
  · rw [hwindow, contents]
    rw [hsize, hread]

theorem run_parsePass (held : Text) {rb : RingBuf} (hsound : Sound rb) (hheld : contents rb = held)
    (parser : ProtoParser) :
    (run parsePass _ parsePass_variant (parser, rb)).1 = (takePacket parser held).1 ∧
      Holds rb.size (run parsePass _ parsePass_variant (parser, rb)).2
        (takePacket parser held).2 := by
  induction held generalizing rb parser with
  | nil =>
    have hpass : parsePass (parser, rb) = .done (none, rb) := by
      rw [parsePass, ringbufGet_of_nil hheld]
    rw [run_done parsePass_variant hpass]
    exact ⟨rfl, hsound, rfl, hheld⟩
  | cons char rest ih =>
    obtain ⟨next, hget, hnext, hsize, hrest⟩ := ringbufGet_of_contents hsound hheld
    rw [takePacket]
    rcases hbyte : protoParseByte parser char with ⟨complete, parsed⟩
    cases complete with
    | true =>
      have hpass : parsePass (parser, rb) = .done (some parsed.data, next) := by
        simp [parsePass, hget, hbyte]
      rw [run_done parsePass_variant hpass]
      exact ⟨rfl, hnext, hsize, hrest⟩
    | false =>
      have hpass : parsePass (parser, rb) = .again (parsed, next) := by
        simp [parsePass, hget, hbyte]
      rw [run_again parsePass_variant hpass]
      obtain ⟨hpacket, hholds⟩ := ih hnext hrest parsed
      exact ⟨hpacket, hholds.sound, hholds.size_eq.trans hsize, hholds.contents_eq⟩

/-- Every call does to the ring buffer what it does to the bytes held. -/
theorem holds_queueStep (held : Text) (call : Call) (hholds : Holds size rb held) :
    (queueStep rb call).1 = (bytesStep size held call).1 ∧
      Holds size (queueStep rb call).2 (bytesStep size held call).2 := by
  cases call with
  | puts packet => exact holds_queuePuts hholds packet
  | gets maxLen isBegin =>
    obtain ⟨hsound, rfl, hheld⟩ := hholds
    obtain ⟨hpacket, hnext⟩ := run_parsePass held hsound hheld (protoInit maxLen isBegin)
    exact ⟨congrArg Answer.got hpacket, hnext⟩

end PdiStack.PacketQueue
