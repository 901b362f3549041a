import PdiStack.Utility.StringOperations

/-!
# Receiving MQTT packets

`readFullPacket` takes one packet off the connection: the type, the length field with seven
bits a byte, and the bytes that the field counts.  It keeps in step with a stream of packets
exactly as long as each of them is shorter than the buffer and has a length field of three
bytes at most.  The rest of a longer packet is read as the packets behind it.
-/

namespace PdiStack.ReceiveFraming

open StringOperations List

def mqttBufSize : ℕ := 640

/-- The loop over the length bytes.  Its result is the length, none where the loop gives up,
the bytes of the packet that have been read and the rest of the stream. -/
def readLength (value multiplier count : ℕ) : Text → Option ℕ × ℕ × Text
  | [] => (none, count, [])
  | encodedByte :: stream =>
    let value := value + (encodedByte &&& 0x7F).toNat * multiplier
    let multiplier := multiplier * 128
    if 128 * 128 * 128 < multiplier then
      (none, count + 1, stream)
    else if encodedByte &&& 0x80 ≠ 0 then
      readLength value multiplier (count + 1) stream
    else
      (some value, count + 1, stream)

/-- `readFullPacket` on a stream whose bytes are all there: the bytes of the buffer that its
result counts, and the rest of the stream. -/
def readFullPacket (maxsize : ℕ) : Text → Text × Text
  | [] => ([], [])
  | type :: stream =>
    match readLength 0 1 1 stream with
    | (none, _, rest) => ([], rest)
    | (some value, count, rest) =>
      let room := maxsize - count - 1
      let len := if room < value then room else value
      ((type :: stream).take count ++ rest.take len, rest.drop len)

def lengthOf : Text → ℕ := foldr (fun byte rest => (byte &&& 0x7F).toNat + 128 * rest) 0

/-- A packet of the standard: every length byte but the last one says that another follows. -/
structure MqttPacket where
  type : UInt8
  more : Text
  last : UInt8
  body : Text
  more_length : more.length ≤ 3
  more_flag : ∀ byte ∈ more, byte &&& 0x80 ≠ 0
  last_flag : last &&& 0x80 = 0
  length_eq : lengthOf (more ++ [last]) = body.length

def MqttPacket.bytes (packet : MqttPacket) : Text :=
  packet.type :: (packet.more ++ packet.last :: packet.body)

/-- A packet is off the stream with nothing behind it, and the buffer holds it, or a result
that `mqtt_client_recv` takes for no packet says that it is too long. -/
structure Taken (packet : MqttPacket) (behind : Text) (result : Text × Text) : Prop where
  rest_eq : result.2 = behind
  whole : packet.bytes.length ≤ mqttBufSize → result.1 = packet.bytes
  tooLong : mqttBufSize < packet.bytes.length → mqttBufSize ≤ result.1.length

/-- Each call takes the next packet. -/
def InStep : List MqttPacket → Text → Prop
  | [], _ => True
  | packet :: packets, stream =>
    Taken packet (packets.flatMap MqttPacket.bytes) (readFullPacket mqttBufSize stream) ∧
      InStep packets (readFullPacket mqttBufSize stream).2

theorem readLength_more {more : Text} {last : UInt8} (hmore : ∀ byte ∈ more, byte &&& 0x80 ≠ 0)
    (hlast : last &&& 0x80 = 0) (rest : Text) (value count before : ℕ)
    (hbefore : before + more.length ≤ 3) :
    readLength value (128 ^ before) count (more ++ last :: rest) =
      (if before + more.length = 3 then none else
        some (value + 128 ^ before * lengthOf (more ++ [last])),
        count + more.length + 1, rest) := by
  have hover : ∀ before ≤ 3, (128 * 128 * 128 < 128 ^ before * 128 ↔ before = 3) := by decide
  induction more generalizing value count before with
  | nil =>
    simp only [nil_append, readLength, hover before hbefore, hlast, ne_eq, not_true_eq_false,
      if_false]
    split_ifs <;> simp_all [lengthOf, mul_comm]
  | cons byte more ih =>
    rw [forall_mem_cons] at hmore
    rw [length_cons, ← add_assoc, add_right_comm] at hbefore ⊢
    have hmultiplier := hover before (by omega)
    rw [cons_append, readLength, if_neg (by omega), if_pos hmore.1, ← pow_succ,
      ih hmore.2 _ _ _ hbefore, cons_append, lengthOf, foldr_cons, add_right_comm count]
    congr 3
    ring

/-- A call takes the packet at the front of a stream exactly when it is short enough. -/
theorem taken_iff (packet : MqttPacket) (behind : Text) :
    Taken packet behind (readFullPacket mqttBufSize (packet.bytes ++ behind)) ↔
      packet.bytes.length < mqttBufSize ∧ packet.more.length ≤ 2 := by
  obtain ⟨type, more, last, body, hlength, hmore, hlast, hbody⟩ := packet
  have hread := readLength_more hmore hlast (body ++ behind) 0 1 0 (by omega)
  rw [hbody, pow_zero, zero_add, zero_add, one_mul] at hread
  have hsize : (type :: (more ++ last :: body)).length = more.length + 2 + body.length := by
    simp only [length_cons, length_append]
    omega
  rw [MqttPacket.bytes, cons_append, append_assoc, cons_append, readFullPacket, hread]
  split_ifs with hfour
  · -- the fourth length byte is refused whatever it says
    refine iff_of_false (fun htaken => ?_) fun hfits => absurd hfits.2 (by dsimp only; omega)
    rcases lt_or_ge mqttBufSize (type :: (more ++ last :: body)).length with hlong | hfits
    · exact absurd (htaken.tooLong hlong) (by simp [mqttBufSize])
    · exact absurd (htaken.whole hfits) (cons_ne_nil _ _).symm
  · dsimp only
    rw [hsize]
    split_ifs with hroom
    · -- what is left of the body stays on the stream
      refine iff_of_false (fun htaken => ?_) fun hfits => by omega
      have hrest := congrArg List.length htaken.rest_eq
      rw [length_drop, length_append] at hrest
      omega
    · have hshort : more.length + 2 + body.length < mqttBufSize := by
        unfold mqttBufSize at hroom ⊢
        omega
      refine iff_of_true ⟨by simp, fun _ => ?_, fun hlong => ?_⟩ ⟨hshort, by omega⟩
      · simp [MqttPacket.bytes, add_comm 1 more.length, take_append]
      · exact absurd (hsize ▸ hlong) (Nat.not_lt_of_lt hshort)

/-- A stream of packets is taken packet by packet exactly when each is shorter than the buffer
and has at most three length bytes. -/
theorem inStep_iff (packets : List MqttPacket) :
    InStep packets (packets.flatMap MqttPacket.bytes) ↔
      ∀ packet ∈ packets, packet.bytes.length < mqttBufSize ∧ packet.more.length ≤ 2 := by
  induction packets with
  | nil => simp [InStep]
  | cons packet packets ih =>
    rw [InStep, flatMap_cons, forall_mem_cons, ← ih, ← taken_iff packet]
    refine and_congr_right fun htaken => ?_
    rw [htaken.rest_eq]

/-- A packet of 645 bytes. -/
def longPacket : MqttPacket where
  type := 0x30
  more := [0x82]
  last := 5
  body := List.replicate 642 0
  more_length := by decide
  more_flag := forall_mem_singleton.mpr (by decide)
  last_flag := by decide
  length_eq := by decide +kernel

theorem longPacket_read_on : ¬ InStep [longPacket] ([longPacket].flatMap MqttPacket.bytes) :=
  fun hstep => absurd ((taken_iff longPacket _).mp hstep.1).1 (by decide +kernel)

end PdiStack.ReceiveFraming
