import PdiStack.Ssh.Authenticity

/-!
# Where packets end

A parse function should accept a packet only if its lengths agree and all of its bytes
have arrived, take exactly those bytes, and take no byte that has not arrived.

The payload is compared with its length, and the padding is not: `PaddingCut` and
`SealedCut` are the packets accepted before their padding has arrived.  `LengthWraps` are
the lengths whose sum with the MAC is too large for 32 bits, and `BulkOverrun` the
receptions in which the bulk loop takes something off too few bytes.
-/

namespace PdiStack.PacketFraming

open StringOperations Message Aes Packet Session Authenticity List

/-- A packet whose lengths agree, that lies in the received bytes as a whole and is
taken off them, with the MAC that follows it. -/
structure TakenWhole (length : UInt32) (padding : UInt8) (payload : Text) (macLen : ℕ)
    (before after : Text) : Prop where
  framed : length.toNat = 1 + padding.toNat + payload.length
  received : 4 + length.toNat + macLen ≤ before.length
  consumed : after = before.drop (4 + length.toNat + macLen)

def sealedPadding (crypto : SshCrypto) (session : SshSession) : UInt8 :=
  ((nextSealed crypto session).decrypted crypto).getD 4 0

/-- Both parse functions accept whole packets only and read received bytes only. -/
structure FramesRight (crypto : SshCrypto) (context : BulkContext) (session : SshSession) :
    Prop where
  plain : ∀ payload, (parseReceivedPacket session).1 = .payload payload →
    TakenWhole (wordAt session.rx 0) (session.rx.getD 4 0) payload 0 session.rx
      (parseReceivedPacket session).2.rx
  plain_reads : (parseReceivedPacket session).1 ≠ .fault
  sealed : ∀ payload, (parseEncryptedPacket crypto context session).result = .payload payload →
    TakenWhole (peekLength crypto session) (sealedPadding crypto session) payload session.macLen
      session.rx (parseEncryptedPacket crypto context session).session.rx
  sealed_reads : (parseEncryptedPacket crypto context session).result ≠ .fault

/-- A payload that was received is short enough for the lengths to agree without
wrapping. -/
theorem toNat_of_payload_received {length : UInt32} {padding : UInt8}
    (hshort : (length - padding.toUInt32 - 1).toNat < 2 ^ 31) :
    length.toNat = 1 + padding.toNat + (length - padding.toUInt32 - 1).toNat := by
  have hpadding : padding.toUInt32.toNat = padding.toNat := UInt8.toNat_toUInt32 padding
  have hbyte := padding.toNat_lt
  have hword := length.toNat_lt
  have hone : (1 : UInt32).toNat = 1 := rfl
  rw [UInt32.toNat_sub, UInt32.toNat_sub] at hshort ⊢
  omega

theorem acceptPayload_eq_payload_iff {payload found : Text} {length : UInt32} :
    acceptPayload payload length = .payload found ↔
      found = payload ∧ payload ≠ [] ∧ payload.length = length.toNat ∧ payload.getD 0 0 < 101 := by
  unfold acceptPayload
  split
  case isTrue haccepted =>
    rw [ParseResult.payload.injEq]
    exact ⟨fun hfound => ⟨hfound.symm, haccepted⟩, fun hfound => hfound.1.symm⟩
  case isFalse hrefused => exact ⟨nofun, fun hfound => absurd hfound.2 hrefused⟩

theorem acceptPayload_ne_fault {payload : Text} {length : UInt32} :
    acceptPayload payload length ≠ .fault := by
  unfold acceptPayload
  split <;> nofun

/-- What a part of a text must be for the parse functions to accept it. -/
theorem accepted_part_iff {bytes : Text} {length : UInt32} :
    ((bytes.drop 5).take length.toNat ≠ [] ∧
        ((bytes.drop 5).take length.toNat).length = length.toNat ∧
        ((bytes.drop 5).take length.toNat).getD 0 0 < 101) ↔
      0 < length.toNat ∧ 5 + length.toNat ≤ bytes.length ∧ bytes.getD 5 0 < 101 := by
  have hlength : ((bytes.drop 5).take length.toNat).length =
      min length.toNat (bytes.length - 5) := by
    rw [length_take, length_drop]
  have hfirst : 0 < length.toNat →
      ((bytes.drop 5).take length.toNat).getD 0 0 = bytes.getD 5 0 := by
    intro hpositive
    rw [getD_eq_getElem?_getD, getElem?_take_of_lt hpositive, getElem?_drop, getD_eq_getElem?_getD]
  rw [← length_pos_iff]
  constructor
  · rintro ⟨hnonempty, hwhole, hmessage⟩
    rw [hfirst (by omega)] at hmessage
    exact ⟨by omega, by omega, hmessage⟩
  · rintro ⟨hpositive, hwhole, hmessage⟩
    rw [hfirst hpositive]
    exact ⟨by omega, by omega, hmessage⟩

/-! ## Plain packets -/

def plainPayloadLength (session : SshSession) : UInt32 :=
  wordAt session.rx 0 - (session.rx.getD 4 0).toUInt32 - 1

/-- A plain packet whose payload has arrived and whose padding has not. -/
structure PaddingCut (session : SshSession) : Prop where
  nonempty : 0 < (plainPayloadLength session).toNat
  payload_received : 5 + (plainPayloadLength session).toNat ≤ session.rx.length
  message : session.rx.getD 5 0 < 101
  cut : session.rx.length < 4 + (wordAt session.rx 0).toNat

theorem parseReceivedPacket_ne_fault {session : SshSession} :
    (parseReceivedPacket session).1 ≠ .fault := by
  unfold parseReceivedPacket
  split
  · nofun
  · exact acceptPayload_ne_fault

/-- A plain packet is accepted when its payload has arrived. -/
theorem parseReceivedPacket_eq_payload_iff {session : SshSession} {payload : Text} :
    (parseReceivedPacket session).1 = .payload payload ↔
      payload = (session.rx.drop 5).take (plainPayloadLength session).toNat ∧
        0 < (plainPayloadLength session).toNat ∧
        5 + (plainPayloadLength session).toNat ≤ session.rx.length ∧
        session.rx.getD 5 0 < 101 := by
  unfold parseReceivedPacket
  by_cases hshort : session.rx.length < 5
  · rw [if_pos hshort]
    exact ⟨nofun, fun haccepted => by omega⟩
  · rw [if_neg hshort]
    exact acceptPayload_eq_payload_iff.trans (and_congr_right fun _ => accepted_part_iff)

/-- What an accepted plain packet takes off the received bytes. -/
theorem parseReceivedPacket_rx {session : SshSession}
    (hreceived : 5 + (plainPayloadLength session).toNat ≤ session.rx.length) :
    (parseReceivedPacket session).2.rx =
      session.rx.drop (5 + (plainPayloadLength session).toNat + (session.rx.getD 4 0).toNat) := by
  have hlength : ((session.rx.drop 5).take (plainPayloadLength session).toNat).length =
      (plainPayloadLength session).toNat := by
    rw [length_take, length_drop]
    omega
  unfold parseReceivedPacket
  rw [if_neg (by omega)]
  dsimp only
  rw [← plainPayloadLength, hlength, drop_drop]

theorem plain_takenWhole_iff {session : SshSession} (hrx : session.rx.length < 2 ^ 31) :
    (∀ payload, (parseReceivedPacket session).1 = .payload payload →
        TakenWhole (wordAt session.rx 0) (session.rx.getD 4 0) payload 0 session.rx
          (parseReceivedPacket session).2.rx) ↔
      ¬ PaddingCut session := by
  constructor
  · intro hwhole hcut
    have htaken := (hwhole _ (parseReceivedPacket_eq_payload_iff.mpr
      ⟨rfl, hcut.nonempty, hcut.payload_received, hcut.message⟩)).received
    have := hcut.cut
    omega
  · intro hwhole payload hparsed
    obtain ⟨rfl, hpositive, hreceived, hmessage⟩ := parseReceivedPacket_eq_payload_iff.mp hparsed
    have hframed : (wordAt session.rx 0).toNat =
        1 + (session.rx.getD 4 0).toNat + (plainPayloadLength session).toNat :=
      toNat_of_payload_received (by rw [← plainPayloadLength]; omega)
    refine ⟨?_, ?_, ?_⟩
    · rw [length_take, length_drop]
      omega
    · by_contra hcut
      exact hwhole ⟨hpositive, hreceived, hmessage, by omega⟩
    · rw [parseReceivedPacket_rx hreceived]
      congr 1
      omega

/-! ## Encrypted packets -/

/-- The header's length, added to that of the MAC, wraps around to a sum so small that
the MAC is longer than all the bytes read. -/
structure LengthWraps (crypto : SshCrypto) (session : SshSession) : Prop where
  arrived : 4 + session.macLen ≤ session.rx.length
  wraps : 2 ^ 32 ≤ (peekLength crypto session).toNat + session.macLen
  short : (peekLength crypto session).toNat + 4 < 2 ^ 32

/-- An encrypted packet whose payload has arrived and whose padding has not, with a MAC
that is right for what there is. -/
structure SealedCut (crypto : SshCrypto) (session : SshSession) : Prop where
  nonempty : 0 < ((nextSealed crypto session).payloadLength crypto).toNat
  payload_received : 5 + ((nextSealed crypto session).payloadLength crypto).toNat +
    session.macLen ≤ session.rx.length
  message : ((nextSealed crypto session).decrypted crypto).getD 5 0 < 101
  authentic : (nextSealed crypto session).authentic crypto
  cut : session.rx.length < 4 + (peekLength crypto session).toNat + session.macLen

section Sealed

variable {crypto : SshCrypto} {session : SshSession}

theorem toNat_bodyLength (hmac : session.macLen < 256) :
    (bodyLength crypto session).toNat =
      ((peekLength crypto session).toNat + session.macLen) % 2 ^ 32 := by
  rw [bodyLength, UInt32.toNat_add, UInt32.toNat_ofNat_of_lt' (show session.macLen < 2 ^ 32 by omega)]

theorem length_received_eq {crypto : SshCrypto}
    (harrived : 4 + session.macLen ≤ session.rx.length) :
    (nextSealed crypto session).received.length =
      4 + min (bodyLength crypto session).toNat (session.rx.length - 4) := by
  simp only [nextSealed, length_append, length_take, length_drop]
  omega

theorem length_decrypted (crypto : SshCrypto) (packet : SealedPacket) :
    (packet.decrypted crypto).length = packet.received.length - packet.macLen := by
  rw [SealedPacket.decrypted, length_aesCtrXcryptBuffer, SealedPacket.ciphertext, length_take]
  omega

/-- The MAC is longer than the bytes read exactly when the sum of the lengths wraps. -/
theorem received_lt_macLen_iff (hmac : session.macLen < 256)
    (harrived : 4 + session.macLen ≤ session.rx.length) :
    (nextSealed crypto session).received.length < session.macLen ↔ LengthWraps crypto session := by
  have hword := (peekLength crypto session).toNat_lt
  rw [length_received_eq harrived, toNat_bodyLength hmac]
  constructor
  · intro hshort
    exact ⟨harrived, by omega, by omega⟩
  · rintro ⟨-, hwraps, hshort⟩
    omega

theorem parseSealedPacket_eq_payload_iff {payload : Text} (hmac : session.macLen < 256) :
    (parseSealedPacket crypto session).1 = .payload payload ↔
      4 + session.macLen ≤ session.rx.length ∧ ¬ LengthWraps crypto session ∧
        (nextSealed crypto session).authentic crypto ∧
        payload = (nextSealed crypto session).payload crypto ∧
        0 < ((nextSealed crypto session).payloadLength crypto).toNat ∧
        5 + ((nextSealed crypto session).payloadLength crypto).toNat ≤
          ((nextSealed crypto session).decrypted crypto).length ∧
        ((nextSealed crypto session).decrypted crypto).getD 5 0 < 101 := by
  unfold parseSealedPacket
  by_cases hshort : session.rx.length < 4 + session.macLen
  · rw [if_pos hshort]
    exact ⟨nofun, fun haccepted => by omega⟩
  rw [if_neg hshort]
  have hwraps := @received_lt_macLen_iff crypto session hmac (Nat.le_of_not_lt hshort)
  by_cases hfault : (nextSealed crypto session).received.length < session.macLen
  · rw [if_pos hfault]
    exact ⟨nofun, fun haccepted => absurd (hwraps.mp hfault) haccepted.2.1⟩
  rw [if_neg hfault]
  by_cases hauthentic : (nextSealed crypto session).authentic crypto
  · rw [if_pos hauthentic]
    refine acceptPayload_eq_payload_iff.trans ?_
    have hpart := @accepted_part_iff ((nextSealed crypto session).decrypted crypto)
      ((nextSealed crypto session).payloadLength crypto)
    constructor
    · rintro ⟨rfl, haccepted⟩
      exact ⟨Nat.le_of_not_lt hshort, fun hwrap => hfault (hwraps.mpr hwrap), hauthentic, rfl,
        hpart.mp haccepted⟩
    · rintro ⟨-, -, -, rfl, haccepted⟩
      exact ⟨rfl, hpart.mpr haccepted⟩
  · rw [if_neg hauthentic]
    exact ⟨nofun, fun haccepted => absurd haccepted.2.2.1 hauthentic⟩

theorem parseSealedPacket_eq_fault_iff (hmac : session.macLen < 256) :
    (parseSealedPacket crypto session).1 = .fault ↔ LengthWraps crypto session := by
  unfold parseSealedPacket
  by_cases hshort : session.rx.length < 4 + session.macLen
  · rw [if_pos hshort]
    exact ⟨nofun, fun hwraps => absurd hwraps.arrived (Nat.not_le_of_lt hshort)⟩
  rw [if_neg hshort, ← received_lt_macLen_iff hmac (Nat.le_of_not_lt hshort)]
  by_cases hfault : (nextSealed crypto session).received.length < session.macLen
  · rw [if_pos hfault]
    exact iff_of_true rfl hfault
  rw [if_neg hfault]
  refine iff_of_false ?_ hfault
  split
  · exact acceptPayload_ne_fault
  · nofun

/-- What an encrypted packet that is accepted takes off the received bytes. -/
theorem parseSealedPacket_rx (harrived : 4 + session.macLen ≤ session.rx.length)
    (hlong : ¬ (nextSealed crypto session).received.length < session.macLen) :
    (parseSealedPacket crypto session).2.rx =
      session.rx.drop (4 + (bodyLength crypto session).toNat) := by
  unfold parseSealedPacket
  rw [if_neg (Nat.not_lt.mpr harrived)]
  rw [if_neg hlong]
  split <;> exact drop_drop

theorem sealed_takenWhole_iff (hmac : session.macLen < 256) (hrx : session.rx.length < 2 ^ 31) :
    (∀ payload, (parseSealedPacket crypto session).1 = .payload payload →
        TakenWhole (peekLength crypto session) (sealedPadding crypto session) payload
          session.macLen session.rx (parseSealedPacket crypto session).2.rx) ↔
      ¬ SealedCut crypto session := by
  have hlengths : 4 + session.macLen ≤ session.rx.length →
      ((nextSealed crypto session).decrypted crypto).length =
        4 + min (bodyLength crypto session).toNat (session.rx.length - 4) - session.macLen := by
    intro harrived
    rw [length_decrypted, length_received_eq harrived]
    rfl
  have hframed : ((nextSealed crypto session).payloadLength crypto).toNat < 2 ^ 31 →
      (peekLength crypto session).toNat = 1 + (sealedPadding crypto session).toNat +
        ((nextSealed crypto session).payloadLength crypto).toNat := toNat_of_payload_received
  have hpadding := (sealedPadding crypto session).toNat_lt
  constructor
  · intro hwhole hcut
    have hreceived := hcut.payload_received
    have hlength := hframed (by omega)
    have harrived : 4 + session.macLen ≤ session.rx.length := by omega
    have hbody := @toNat_bodyLength crypto session hmac
    have htaken := (hwhole _ ((parseSealedPacket_eq_payload_iff hmac).mpr
      ⟨harrived, fun hwraps => by have := hwraps.wraps; omega, hcut.authentic, rfl, hcut.nonempty,
        by rw [hlengths harrived]; have := hcut.cut; omega, hcut.message⟩)).received
    have := hcut.cut
    omega
  · intro hwhole payload hparsed
    obtain ⟨harrived, hnowrap, hauthentic, rfl, hpositive, hreceived, hmessage⟩ :=
      (parseSealedPacket_eq_payload_iff hmac).mp hparsed
    have hdecrypted := hlengths harrived
    have hbody := @toNat_bodyLength crypto session hmac
    refine ⟨?_, ?_, ?_⟩
    · rw [SealedPacket.payload, length_take, length_drop]
      omega
    · by_contra hcut
      exact hwhole ⟨hpositive, by omega, hmessage, hauthentic, by omega⟩
    · rw [parseSealedPacket_rx harrived fun hfault =>
        hnowrap ((received_lt_macLen_iff hmac harrived).mp hfault), hbody]
      congr 1
      omega

end Sealed

/-! ## The bulk loop

A pass takes what has arrived, up to a chunk and up to the end of the packet.  It then
waits while what is missing may be nothing but padding and MAC. -/

section Bulk

variable {crypto : SshCrypto} {packetLength : UInt32} {answers : List Text → Bool}
  {state : BulkState}

/-- The bytes of the packet, with its MAC, that have not been read. -/
def remaining (packetLength : UInt32) (state : BulkState) : ℕ :=
  (packetLength + state.session.macLen.toUInt32 - state.totalBytesRead).toNat

def taken (packetLength : UInt32) (arrived : Text) (state : BulkState) : Text :=
  (state.session.rx ++ arrived).take (min bulkChunkSize (remaining packetLength state))

def filled (packetLength : UInt32) (arrived : Text) (state : BulkState) : BulkState :=
  { state with
    packetvec := state.packetvec ++ taken packetLength arrived state
    totalBytesRead := state.totalBytesRead + (taken packetLength arrived state).length.toUInt32
    session := { state.session with
      rx := (state.session.rx ++ arrived).drop (taken packetLength arrived state).length } }

section

variable (packetLength : UInt32) (arrived : Text) (state : BulkState)

theorem length_taken :
    (taken packetLength arrived state).length =
      min (min bulkChunkSize (remaining packetLength state))
        (state.session.rx.length + arrived.length) := by
  rw [taken, length_take, length_append]

theorem length_taken_le :
    (taken packetLength arrived state).length ≤ remaining packetLength state := by
  rw [length_taken]
  omega

theorem remaining_filled :
    remaining packetLength (filled packetLength arrived state) =
      remaining packetLength state - (taken packetLength arrived state).length := by
  have hle := length_taken_le packetLength arrived state
  rw [remaining] at hle
  have hcount : (taken packetLength arrived state).length.toUInt32.toNat =
      (taken packetLength arrived state).length :=
    UInt32.toNat_ofNat_of_lt' (lt_of_le_of_lt hle (UInt32.toNat_lt _))
  change (packetLength + state.session.macLen.toUInt32 - (state.totalBytesRead +
    (taken packetLength arrived state).length.toUInt32)).toNat = _
  rw [remaining]
  have hread := state.totalBytesRead.toNat_lt
  rw [UInt32.toNat_sub] at hle
  rw [UInt32.toNat_sub, UInt32.toNat_sub, UInt32.toNat_add]
  omega

theorem length_packetvec_filled :
    (filled packetLength arrived state).packetvec.length +
        remaining packetLength (filled packetLength arrived state) =
      state.packetvec.length + remaining packetLength state := by
  have hle := length_taken_le packetLength arrived state
  rw [remaining_filled, filled, length_append]
  omega

/-- A pass has read the whole packet when nothing remains. -/
theorem islastchunk_iff :
    state.totalBytesRead = packetLength + state.session.macLen.toUInt32 ↔
      remaining packetLength state = 0 := by
  have hread := state.totalBytesRead.toNat_lt
  have htotal := (packetLength + state.session.macLen.toUInt32).toNat_lt
  rw [remaining, UInt32.toNat_sub, ← UInt32.toNat_inj]
  omega

end

/-- What is missing may be nothing but padding and MAC. -/
def Waits (packetLength : UInt32) (state : BulkState) : Prop :=
  0 < remaining packetLength state ∧
    remaining packetLength state ≤ state.paddingLength.toNat + state.session.macLen

instance (packetLength : UInt32) (state : BulkState) : Decidable (Waits packetLength state) :=
  inferInstanceAs (Decidable (_ ∧ _))

def Faults : BulkOutcome → Prop
  | .fault _ => True
  | _ => False

/-- A chunk is too short for what is taken off it. -/
def ChunkFaults (crypto : SshCrypto) (islastchunk : Bool) (state : BulkState) : Prop :=
  match decryptChunk crypto islastchunk state with
  | none => True
  | some (plain, next) => skipHeader plain next = none

def Hands (crypto : SshCrypto) (answers : List Text → Bool) (islastchunk : Bool)
    (state next : BulkState) : Prop :=
  ∃ plain decrypted block skipped,
    decryptChunk crypto islastchunk state = some (plain, decrypted) ∧
      skipHeader plain decrypted = some (block, skipped) ∧ next = handBlock answers block skipped

/-- The loop may make another pass: the packet is not at its end, it is channel data, the
callback wants more, and bytes are there or have not been missing for long. -/
structure MayGoOn (packetLength : UInt32) (clock : UInt32) (state : BulkState) : Prop where
  unfinished : remaining packetLength state ≠ 0
  header : state.parsedInitialSshHeader = true
  wanted : state.handlerContinue = true
  in_time : state.session.rx ≠ [] ∨ ¬ bulkStallTime < clock - state.now

/-- What a pass does: it waits, or it faults, or it hands a block on and goes on or
ends. -/
inductive PassEnds (crypto : SshCrypto) (packetLength : UInt32) (answers : List Text → Bool)
    (clock : UInt32) (state : BulkState) : BulkOutcome → Prop where
  | waits (hwaits : Waits packetLength state) :
      PassEnds crypto packetLength answers clock state (.looping state)
  | faults (found : BulkState) (hready : ¬ Waits packetLength state)
      (hfaults : ChunkFaults crypto (remaining packetLength state = 0) state) :
      PassEnds crypto packetLength answers clock state (.fault found)
  | goesOn (next : BulkState) (now : UInt32) (hready : ¬ Waits packetLength state)
      (hhands : Hands crypto answers (remaining packetLength state = 0) state next)
      (hopen : MayGoOn packetLength clock next) :
      PassEnds crypto packetLength answers clock state (.looping { next with now := now })
  | ends (next : BulkState) (now : UInt32) (wanted : Bool) (hready : ¬ Waits packetLength state)
      (hhands : Hands crypto answers (remaining packetLength state = 0) state next)
      (hover : ¬ MayGoOn packetLength clock next) :
      PassEnds crypto packetLength answers clock state
        (.done { next with now := now, handlerContinue := wanted })

variable {islastchunk : Bool} {next : BulkState} {plain : Text}

theorem Hands.remaining_eq (packetLength : UInt32)
    (hhands : Hands crypto answers islastchunk state next) :
    remaining packetLength next = remaining packetLength state := by
  obtain ⟨plain, decrypted, block, skipped, hdecrypted, hskipped, rfl⟩ := hhands
  obtain ⟨_, _, _, _, rfl, -⟩ := decryptChunk_eq hdecrypted
  obtain ⟨_, _, rfl⟩ := skipHeader_eq hskipped
  obtain ⟨_, _, hhanded⟩ := handBlock_eq answers block _
  rw [hhanded]
  rfl

theorem bulkPass_cases (crypto : SshCrypto) (packetLength : UInt32) (answers : List Text → Bool)
    (arrived : Text) (clock : UInt32) (state : BulkState) :
    PassEnds crypto packetLength answers clock (filled packetLength arrived state)
      (bulkPass crypto packetLength answers arrived clock state) := by
  set full := filled packetLength arrived state
  have hlast := islastchunk_iff packetLength full
  have hchunk : decryptChunk crypto (remaining packetLength full = 0) full =
      decryptChunk crypto
        (full.totalBytesRead = packetLength + full.session.macLen.toUInt32) full := by
    rw [decide_eq_decide.mpr hlast]
  unfold bulkPass
  dsimp only
  split
  case isTrue hwaits => exact .waits hwaits
  case isFalse hready =>
  split
  case h_1 hnone =>
    refine .faults _ hready ?_
    rw [ChunkFaults, hchunk.trans hnone]
    trivial
  case h_2 plain decrypted hdecrypted =>
  split
  case h_1 hnone =>
    refine .faults _ hready ?_
    rw [ChunkFaults, hchunk.trans hdecrypted]
    exact hnone
  case h_2 block skipped hskipped =>
  have hhands : Hands crypto answers (remaining packetLength full = 0) full
      (handBlock answers block skipped) :=
    ⟨plain, decrypted, block, skipped, hchunk.trans hdecrypted, hskipped, rfl⟩
  have hremaining := hhands.remaining_eq packetLength
  split
  case isTrue hreceived =>
    split
    case isTrue hmore =>
      exact .goesOn _ _ hready hhands
        ⟨fun hzero => hmore.1 (hlast.mpr (hremaining ▸ hzero)), hmore.2.1, hmore.2.2, .inl hreceived⟩
    case isFalse hmore =>
      exact .ends _ _ _ hready hhands fun hopen => hmore
        ⟨fun hall => hopen.unfinished (hremaining.trans (hlast.mp hall)), hopen.header, hopen.wanted⟩
  case isFalse hempty =>
    split
    case isTrue hstalled =>
      exact .ends _ _ _ hready hhands fun hopen => hopen.in_time.elim hempty fun htime =>
        htime hstalled
    case isFalse htime =>
      split
      case isTrue hmore =>
        exact .goesOn _ _ hready hhands
          ⟨fun hzero => hmore.1 (hlast.mpr (hremaining ▸ hzero)), hmore.2.1, hmore.2.2, .inr htime⟩
      case isFalse hmore =>
        exact .ends _ _ _ hready hhands fun hopen => hmore
          ⟨fun hall => hopen.unfinished (hremaining.trans (hlast.mp hall)), hopen.header,
            hopen.wanted⟩

def lastPlain (crypto : SshCrypto) (ctx : AesCtx) (kept : AesStatic) (macLen : ℕ)
    (bytes : Text) : Text :=
  (aesCtrXcryptChunk crypto.cipher ctx kept (bytes.take (bytes.length - macLen)) true).1

/-- A packet without its MAC has no payload, or is channel data and ends in its own
header. -/
def Cramped (plain : Text) : Prop :=
  plain.length < (plain.getD 4 0).toNat + 6 ∨
    plain.getD 5 0 = sshMsgChannelData ∧ plain.length < (plain.getD 4 0).toNat + channelDataHeader

theorem length_lastPlain (crypto : SshCrypto) (ctx : AesCtx) (kept : AesStatic) (macLen : ℕ)
    (bytes : Text) : (lastPlain crypto ctx kept macLen bytes).length = bytes.length - macLen := by
  rw [lastPlain, length_aesCtrXcryptChunk, length_take]
  omega

theorem skipHeader_eq_none_iff :
    skipHeader plain state = none ↔ state.parsedInitialSshHeader = false ∧
      (plain.length ≤ 5 ∨
        plain.getD 5 0 = sshMsgChannelData ∧ plain.length < channelDataHeader) := by
  unfold skipHeader
  split
  case isTrue hheader => simp [hheader]
  case isFalse hheader =>
  split
  case isTrue hempty => simp [hheader, hempty]
  case isFalse hempty =>
  split
  case isTrue hother =>
    exact iff_of_false nofun fun hfault => hfault.2.elim hempty fun hdata => hother hdata.1
  case isFalse hdata =>
  split
  case isTrue hshort =>
    exact iff_of_true rfl ⟨Bool.eq_false_iff.mpr hheader, .inr ⟨not_not.mp hdata, hshort⟩⟩
  case isFalse hlong => simp [hempty, hlong]

def lastPadding (state : BulkState) (plain : Text) : UInt8 :=
  if state.parsedInitialSshHeader then state.paddingLength else plain.getD 4 0

/-- The last piece is too short for its MAC and padding, or leaves what is before
them. -/
theorem decryptChunk_last (crypto : SshCrypto) (state : BulkState) :
    let plain := lastPlain crypto state.session.aesCtxCtos state.kept state.session.macLen
      state.packetvec
    let padding := lastPadding state plain
    if state.packetvec.length < state.session.macLen ∨ plain.length < padding.toNat ∨
        state.parsedInitialSshHeader = false ∧ plain.length ≤ 4 then
      decryptChunk crypto true state = none
    else
      ∃ next, decryptChunk crypto true state =
          some (plain.take (plain.length - padding.toNat), next) ∧
        next.parsedInitialSshHeader = state.parsedInitialSshHeader := by
  unfold decryptChunk
  rw [if_pos rfl]
  dsimp only
  rw [← lastPlain]
  by_cases hshort : state.packetvec.length < state.session.macLen
  · rw [if_pos (.inl hshort), if_pos hshort]
  split
  case isTrue hfault =>
    rw [if_pos]
    simpa [hshort, lastPadding] using hfault
  case isFalse hlong =>
    rw [if_neg]
    · exact ⟨_, rfl, rfl⟩
    · simpa [hshort, lastPadding] using hlong

/-- What the last piece must be long enough for, once the header is parsed. -/
theorem chunkFaults_last_of_header (hheader : state.parsedInitialSshHeader = true) :
    ChunkFaults crypto true state ↔
      state.packetvec.length < state.paddingLength.toNat + state.session.macLen := by
  have hchunk := decryptChunk_last crypto state
  dsimp only at hchunk
  rw [length_lastPlain, lastPadding, if_pos hheader, hheader] at hchunk
  unfold ChunkFaults
  split at hchunk
  case isTrue hfault =>
    rw [hchunk]
    refine iff_of_true trivial ?_
    rcases hfault with hmac | hpadding | ⟨hno, -⟩
    · omega
    · omega
    · cases hno
  case isFalse hlong =>
    obtain ⟨next, hnext, hparsed⟩ := hchunk
    rw [hnext]
    refine iff_of_false (fun hskip => ?_) (fun hshort => hlong (by omega))
    cases hparsed.symm.trans (skipHeader_eq_none_iff.mp hskip).1

/-- And what it must be long enough for when it is the whole packet. -/
theorem chunkFaults_last_of_no_header (hheader : state.parsedInitialSshHeader = false) :
    ChunkFaults crypto true state ↔
      Cramped (lastPlain crypto state.session.aesCtxCtos state.kept state.session.macLen
        state.packetvec) := by
  have hlength := length_lastPlain crypto state.session.aesCtxCtos state.kept
    state.session.macLen state.packetvec
  have hchunk := decryptChunk_last crypto state
  dsimp only at hchunk
  rw [lastPadding, hheader, if_neg Bool.false_ne_true] at hchunk
  generalize lastPlain crypto state.session.aesCtxCtos state.kept state.session.macLen
    state.packetvec = plain at hlength hchunk ⊢
  unfold ChunkFaults
  split at hchunk
  case isTrue hfault =>
    rw [hchunk]
    exact iff_of_true trivial (.inl (by omega))
  case isFalse hlong =>
    obtain ⟨next, hnext, hparsed⟩ := hchunk
    have hrest : (plain.take (plain.length - (plain.getD 4 0).toNat)).length =
        plain.length - (plain.getD 4 0).toNat := by
      rw [length_take]
      omega
    have hmessage : 5 < plain.length - (plain.getD 4 0).toNat →
        (plain.take (plain.length - (plain.getD 4 0).toNat)).getD 5 0 = plain.getD 5 0 := by
      intro hpayload
      rw [getD_eq_getElem?_getD, getElem?_take_of_lt hpayload, ← getD_eq_getElem?_getD]
    rw [hnext]
    refine skipHeader_eq_none_iff.trans ?_
    rw [hparsed, hrest]
    by_cases hempty : plain.length - (plain.getD 4 0).toNat ≤ 5
    · exact iff_of_true ⟨rfl, .inl hempty⟩ (.inl (by omega))
    rw [hmessage (Nat.lt_of_not_le hempty)]
    constructor
    · rintro ⟨-, hshort | ⟨hdata, hshort⟩⟩
      · exact absurd hshort hempty
      · exact .inr ⟨hdata, by omega⟩
    · rintro (hshort | ⟨hdata, hshort⟩)
      · omega
      · exact ⟨rfl, .inr ⟨hdata, by omega⟩⟩

def incoming (passes : List (Text × UInt32)) : Text := (passes.map Prod.fst).flatten

theorem incoming_cons (arrived : Text) (clock : UInt32) (passes : List (Text × UInt32)) :
    incoming ((arrived, clock) :: passes) = arrived ++ incoming passes := rfl

/-- A last piece can fault or end the loop, and does nothing else. -/
theorem faults_bulkLoop_of_last (arrived : Text) (clock : UInt32)
    (passes : List (Text × UInt32))
    (hlast : remaining packetLength (filled packetLength arrived state) = 0) :
    Faults (bulkLoop crypto packetLength answers ((arrived, clock) :: passes) state) ↔
      ChunkFaults crypto true (filled packetLength arrived state) := by
  have hends := bulkPass_cases crypto packetLength answers arrived clock state
  unfold bulkLoop
  generalize bulkPass crypto packetLength answers arrived clock state = outcome at hends
  cases hends with
  | waits hwaits => exact absurd hlast (Nat.ne_of_gt hwaits.1)
  | faults found hready hfaults =>
    rw [decide_eq_true hlast] at hfaults
    exact iff_of_true trivial hfaults
  | goesOn next now hready hhands hopen =>
    exact absurd ((hhands.remaining_eq _).trans hlast) hopen.unfinished
  | ends next now wanted hready hhands hover =>
    obtain ⟨plain, decrypted, block, skipped, hdecrypted, hskipped, -⟩ := hhands
    rw [decide_eq_true hlast] at hdecrypted
    refine iff_of_false id fun hfaults => ?_
    rw [ChunkFaults, hdecrypted] at hfaults
    cases hskipped.symm.trans hfaults

theorem bulkLoop_of_waits (arrived : Text) (clock : UInt32) (passes : List (Text × UInt32))
    (hwaits : Waits packetLength (filled packetLength arrived state)) :
    bulkLoop crypto packetLength answers ((arrived, clock) :: passes) state =
      bulkLoop crypto packetLength answers passes (filled packetLength arrived state) := by
  have hends := bulkPass_cases crypto packetLength answers arrived clock state
  rw [bulkLoop]
  generalize bulkPass crypto packetLength answers arrived clock state = outcome at hends
  cases hends with
  | waits => rfl
  | faults _ hready | goesOn _ _ hready | ends _ _ _ hready => exact absurd hwaits hready

/-- What decides whether a piece can be taken apart. -/
theorem chunkFaults_congr {other : BulkState} (hpacket : other.packetvec = state.packetvec)
    (hheader : other.parsedInitialSshHeader = state.parsedInitialSshHeader)
    (hpadding : other.paddingLength = state.paddingLength) (hkept : other.kept = state.kept)
    (hmac : other.session.macLen = state.session.macLen)
    (hctx : other.session.aesCtxCtos = state.session.aesCtxCtos) :
    ChunkFaults crypto true other ↔ ChunkFaults crypto true state := by
  cases hparsed : state.parsedInitialSshHeader with
  | true =>
    rw [chunkFaults_last_of_header hparsed, chunkFaults_last_of_header (hheader.trans hparsed),
      hpacket, hpadding, hmac]
  | false =>
    rw [chunkFaults_last_of_no_header hparsed,
      chunkFaults_last_of_no_header (hheader.trans hparsed), hpacket, hkept, hmac, hctx]

/-- The state with the rest of the packet, out of what is there and what is to come. -/
def completed (packetLength : UInt32) (more : Text) (state : BulkState) : BulkState :=
  { state with
    packetvec := state.packetvec ++ (state.session.rx ++ more).take (remaining packetLength state) }

/-- A loop that waits for the end of the packet takes it apart once it has come. -/
theorem faults_bulkLoop_of_waits (passes : List (Text × UInt32)) (state : BulkState)
    (hwaits : Waits packetLength state) (hchunk : remaining packetLength state ≤ bulkChunkSize) :
    Faults (bulkLoop crypto packetLength answers passes state) ↔
      passes ≠ [] ∧ remaining packetLength state ≤ (state.session.rx ++ incoming passes).length ∧
        ChunkFaults crypto true (completed packetLength (incoming passes) state) := by
  induction passes generalizing state with
  | nil => exact ⟨False.elim, fun hfaults => absurd rfl hfaults.1⟩
  | cons pass passes ih =>
    obtain ⟨arrived, clock⟩ := pass
    have hcap : min bulkChunkSize (remaining packetLength state) = remaining packetLength state :=
      min_eq_right hchunk
    have hleft := remaining_filled packetLength arrived state
    have htaken := length_taken packetLength arrived state
    have hsum : (state.session.rx ++ (arrived ++ incoming passes)).length =
        state.session.rx.length + arrived.length + (incoming passes).length := by
      rw [length_append, length_append, add_assoc]
    rw [incoming_cons]
    by_cases hcome : remaining packetLength state ≤ (state.session.rx ++ arrived).length
    · -- The packet is at its end in this pass.
      have hcomeSum := length_append ▸ hcome
      have hbytes : (filled packetLength arrived state).packetvec =
          (completed packetLength (arrived ++ incoming passes) state).packetvec := by
        rw [filled, taken, hcap, completed, ← append_assoc, take_append_of_le_length hcome]
      rw [faults_bulkLoop_of_last arrived clock passes (by omega),
        chunkFaults_congr hbytes rfl rfl rfl rfl rfl]
      exact ⟨fun hfaults => ⟨nofun, by omega, hfaults⟩, fun hfaults => hfaults.2.2⟩
    · -- All that has come is taken, and the loop waits on.
      rw [length_append] at hcome
      have hall : taken packetLength arrived state = state.session.rx ++ arrived := by
        exact take_of_length_le (by rw [length_append]; omega)
      have hrx : (filled packetLength arrived state).session.rx = [] := by
        rw [filled, hall, drop_length]
      have hwaits' : Waits packetLength (filled packetLength arrived state) := by
        refine ⟨by omega, ?_⟩
        have := hwaits.2
        change _ ≤ state.paddingLength.toNat + state.session.macLen
        omega
      have hbytes : (completed packetLength (incoming passes)
          (filled packetLength arrived state)).packetvec =
            (completed packetLength (arrived ++ incoming passes) state).packetvec := by
        simp only [completed]
        rw [hleft, hrx, nil_append, filled, hall, ← append_assoc state.session.rx,
          take_append, append_assoc]
        congr 2
        exact (take_of_length_le (by rw [length_append]; omega)).symm
      rw [bulkLoop_of_waits arrived clock passes hwaits', ih _ hwaits' (by omega), hrx,
        nil_append, chunkFaults_congr hbytes rfl rfl rfl rfl rfl]
      constructor
      · rintro ⟨-, henough, hfaults⟩
        exact ⟨nofun, by omega, hfaults⟩
      · rintro ⟨-, henough, hfaults⟩
        refine ⟨?_, by omega, hfaults⟩
        rintro rfl
        rw [hsum] at henough
        change _ ≤ _ + _ + 0 at henough
        omega

def firstPlain (crypto : SshCrypto) (ctx : AesCtx) (kept : AesStatic) (bytes : Text) : Text :=
  (aesCtrXcryptChunk crypto.cipher ctx kept bytes false).1

theorem length_firstPlain (crypto : SshCrypto) (ctx : AesCtx) (kept : AesStatic) (bytes : Text) :
    (firstPlain crypto ctx kept bytes).length = bytes.length :=
  length_aesCtrXcryptChunk _ _ _ _ _

/-- With the header parsed, a piece is handed on as it is. -/
theorem Hands.of_header (hheader : state.parsedInitialSshHeader = true)
    (hhands : Hands crypto answers islastchunk state next) :
    next.parsedInitialSshHeader = true ∧ next.paddingLength = state.paddingLength ∧
      next.session.macLen = state.session.macLen := by
  obtain ⟨plain, decrypted, block, skipped, hdecrypted, hskipped, rfl⟩ := hhands
  obtain ⟨_, _, _, _, rfl, hpadding⟩ := decryptChunk_eq hdecrypted
  rw [skipHeader, if_pos hheader] at hskipped
  cases hskipped
  obtain ⟨_, _, hhanded⟩ := handBlock_eq answers plain _
  rw [hhanded]
  exact ⟨hheader, hpadding hheader, rfl⟩

theorem Hands.packetvec_eq (hhands : Hands crypto answers islastchunk state next) :
    next.packetvec = [] := by
  obtain ⟨plain, decrypted, block, skipped, -, -, rfl⟩ := hhands
  obtain ⟨_, _, hhanded⟩ := handBlock_eq answers block skipped
  rw [hhanded]

/-- A loop past the header with room for padding and MAC never faults. -/
theorem not_faults_bulkLoop (passes : List (Text × UInt32)) (state : BulkState)
    (hheader : state.parsedInitialSshHeader = true)
    (hroom : state.paddingLength.toNat + state.session.macLen ≤
      state.packetvec.length + remaining packetLength state) :
    ¬ Faults (bulkLoop crypto packetLength answers passes state) := by
  induction passes generalizing state with
  | nil => exact id
  | cons pass passes ih =>
    obtain ⟨arrived, clock⟩ := pass
    rw [← length_packetvec_filled packetLength arrived state] at hroom
    change (filled packetLength arrived state).parsedInitialSshHeader = true at hheader
    change (filled packetLength arrived state).paddingLength.toNat +
      (filled packetLength arrived state).session.macLen ≤ _ at hroom
    have hends := bulkPass_cases crypto packetLength answers arrived clock state
    unfold bulkLoop
    generalize filled packetLength arrived state = full at *
    generalize bulkPass crypto packetLength answers arrived clock state = outcome at hends
    cases hends with
    | waits hwaits => exact ih _ hheader hroom
    | faults found hready hfaults =>
      by_cases hlast : remaining packetLength full = 0
      · rw [decide_eq_true hlast, chunkFaults_last_of_header hheader] at hfaults
        omega
      · rw [decide_eq_false hlast] at hfaults
        cases hheader.symm.trans (skipHeader_eq_none_iff.mp hfaults).1
    | goesOn next now hready hhands hopen =>
      obtain ⟨hparsed, hpadding, hmac⟩ := hhands.of_header hheader
      have hleft := hhands.remaining_eq packetLength
      refine ih _ hparsed ?_
      change next.paddingLength.toNat + next.session.macLen ≤
        next.packetvec.length + remaining packetLength next
      rw [hpadding]
      by_contra hnoroom
      exact hready ⟨pos_of_ne_zero (hleft ▸ hopen.unfinished), by omega⟩
    | ends => exact id

/-- What the first piece of a longer packet leaves: past the header of channel data, and
done with anything else. -/
theorem Hands.of_first (hheader : state.parsedInitialSshHeader = false)
    (hlong : channelDataHeader < state.packetvec.length)
    (hhands : Hands crypto answers false state next) :
    let plain := firstPlain crypto state.session.aesCtxCtos state.kept state.packetvec
    next.session.rx = state.session.rx ∧ next.session.macLen = state.session.macLen ∧
      next.now = state.now ∧
      (plain.getD 5 0 = sshMsgChannelData → next.parsedInitialSshHeader = true ∧
        next.paddingLength = plain.getD 4 0 ∧
        next.handlerContinue = answers (state.handed ++ [plain.drop channelDataHeader])) ∧
      (plain.getD 5 0 ≠ sshMsgChannelData → next.parsedInitialSshHeader = false) := by
  obtain ⟨plain, decrypted, block, skipped, hdecrypted, hskipped, rfl⟩ := hhands
  have hlength := length_firstPlain crypto state.session.aesCtxCtos state.kept state.packetvec
  cases hdecrypted
  have hwords : channelDataHeader = 14 := rfl
  change skipHeader (firstPlain crypto state.session.aesCtxCtos state.kept state.packetvec) _ = _
    at hskipped
  generalize firstPlain crypto state.session.aesCtxCtos state.kept state.packetvec = plain
    at hlength hskipped ⊢
  rw [skipHeader, hheader, if_neg (by decide), if_neg (by omega)] at hskipped
  split at hskipped
  case isTrue hother =>
    cases hskipped
    unfold handBlock
    split
    · exact ⟨rfl, rfl, rfl, fun hdata => absurd hdata hother, fun _ => rfl⟩
    · exact ⟨rfl, rfl, rfl, fun hdata => absurd hdata hother, fun _ => rfl⟩
  case isFalse hdata =>
    rw [if_neg (by omega)] at hskipped
    cases hskipped
    have hblock : plain.drop channelDataHeader ≠ [] := by
      rw [← length_pos_iff, length_drop]
      omega
    rw [handBlock, if_neg hblock]
    exact ⟨rfl, rfl, rfl, fun _ => ⟨rfl, rfl, rfl⟩, fun hother => absurd hother hdata⟩

end Bulk

/-! ## The first pass -/

section FirstPass

variable (crypto : SshCrypto) (session : SshSession) (arrived : Text)

def behindHeader : Text := session.rx.drop 4 ++ arrived

def firstChunk : Text :=
  (behindHeader session arrived).take (min bulkChunkSize (bodyLength crypto session).toNat)

def leftAfter : ℕ := (bodyLength crypto session).toNat - (firstChunk crypto session arrived).length

def waitingAfter : Text :=
  (behindHeader session arrived).drop (firstChunk crypto session arrived).length

def firstPiece (context : BulkContext) : Text :=
  firstPlain crypto session.aesCtxCtos context.kept
    (session.rx.take 4 ++ firstChunk crypto session arrived)

def onlyPiece (context : BulkContext) (later : List (Text × UInt32)) : Text :=
  lastPlain crypto session.aesCtxCtos context.kept session.macLen
    (session.rx.take 4 ++
      (behindHeader session arrived ++ incoming later).take (bodyLength crypto session).toNat)

/-- The receptions in which the bulk loop takes more off a piece than there is.  The
packet comes in one piece and has no room for a payload, or for the header of channel
data.  Or it comes in two, and of the padding and MAC that the first one announces, more
than the MAC but not all is in the second. -/
inductive BulkOverrun (context : BulkContext) : Prop where
  | whole (arrived : Text) (clock : UInt32) (later : List (Text × UInt32))
      (hpasses : context.passes = (arrived, clock) :: later)
      (hleft : leftAfter crypto session arrived ≤ session.macLen)
      (hcome : leftAfter crypto session arrived = 0 ∨ later ≠ [] ∧
        leftAfter crypto session arrived ≤
          (waitingAfter crypto session arrived ++ incoming later).length)
      (hcramped : Cramped (onlyPiece crypto session arrived context later))
  | split (arrived : Text) (clock : UInt32) (later : List (Text × UInt32))
      (hpasses : context.passes = (arrived, clock) :: later)
      (hleft : session.macLen < leftAfter crypto session arrived)
      (hdata : (firstPiece crypto session arrived context).getD 5 0 = sshMsgChannelData)
      (hshort : leftAfter crypto session arrived <
        ((firstPiece crypto session arrived context).getD 4 0).toNat + session.macLen)
      (hwanted : context.answers
        [(firstPiece crypto session arrived context).drop channelDataHeader] = true)
      (htime : waitingAfter crypto session arrived ≠ [] ∨ ¬ bulkStallTime < clock - context.start)
      (hcome : later ≠ [] ∧ leftAfter crypto session arrived ≤
        (waitingAfter crypto session arrived ++ incoming later).length)

end FirstPass

section

variable {crypto : SshCrypto} {session : SshSession} {context : BulkContext}

theorem remaining_bulkStart :
    remaining (peekLength crypto session) (bulkStart context session) =
      (bodyLength crypto session).toNat := by
  change (peekLength crypto session + session.macLen.toUInt32 - 0).toNat = _
  rw [UInt32.sub_zero, bodyLength]

theorem taken_bulkStart (arrived : Text) :
    taken (peekLength crypto session) arrived (bulkStart context session) =
      firstChunk crypto session arrived := by
  rw [taken, remaining_bulkStart]
  rfl

structure FirstFilled (crypto : SshCrypto) (session : SshSession) (context : BulkContext)
    (arrived : Text) (full : BulkState) : Prop where
  left : remaining (peekLength crypto session) full = leftAfter crypto session arrived
  packet : full.packetvec = session.rx.take 4 ++ firstChunk crypto session arrived
  waiting : full.session.rx = waitingAfter crypto session arrived
  header : full.parsedInitialSshHeader = false
  padding : full.paddingLength = 0
  handed : full.handed = []
  start : full.now = context.start
  kept : full.kept = context.kept
  ctx : full.session.aesCtxCtos = session.aesCtxCtos
  macLen : full.session.macLen = session.macLen

theorem firstFilled (arrived : Text) :
    FirstFilled crypto session context arrived
      (filled (peekLength crypto session) arrived (bulkStart context session)) := by
  refine ⟨?_, ?_, ?_, rfl, rfl, rfl, rfl, rfl, rfl, rfl⟩
  · rw [remaining_filled, remaining_bulkStart, taken_bulkStart]
    rfl
  · rw [filled, taken_bulkStart]
    rfl
  · rw [filled, taken_bulkStart]
    rfl

theorem length_firstChunk (crypto : SshCrypto) (session : SshSession) (arrived : Text) :
    (firstChunk crypto session arrived).length =
      min (min bulkChunkSize (bodyLength crypto session).toNat)
        (session.rx.length - 4 + arrived.length) := by
  rw [firstChunk, length_take, behindHeader, length_append, length_drop]

/-- The pieces of a packet follow each other. -/
theorem firstChunk_append (crypto : SshCrypto) (session : SshSession) (arrived more : Text) :
    firstChunk crypto session arrived ++
        (waitingAfter crypto session arrived ++ more).take (leftAfter crypto session arrived) =
      (behindHeader session arrived ++ more).take (bodyLength crypto session).toNat := by
  have hsplit : behindHeader session arrived =
      firstChunk crypto session arrived ++ waitingAfter crypto session arrived :=
    prefix_append_drop (List.take_prefix _ _)
  have hle : (firstChunk crypto session arrived).length ≤ (bodyLength crypto session).toNat := by
    rw [length_firstChunk]
    omega
  rw [hsplit, append_assoc]
  conv_rhs => rw [take_append, take_of_length_le hle]
  rfl

theorem faults_bulkLoop_whole (hmac : session.macLen < 256) {arrived : Text} {clock : UInt32}
    {later : List (Text × UInt32)}
    (hleft : leftAfter crypto session arrived ≤ session.macLen) :
    Faults (bulkLoop crypto (peekLength crypto session) context.answers ((arrived, clock) :: later)
        (bulkStart context session)) ↔
      (leftAfter crypto session arrived = 0 ∨ later ≠ [] ∧ leftAfter crypto session arrived ≤
        (waitingAfter crypto session arrived ++ incoming later).length) ∧
      Cramped (onlyPiece crypto session arrived context later) := by
  have hfull := @firstFilled crypto session context arrived
  have hpieces := firstChunk_append crypto session arrived (incoming later)
  by_cases hzero : leftAfter crypto session arrived = 0
  · rw [hzero, take_zero, append_nil] at hpieces
    rw [faults_bulkLoop_of_last arrived clock later (hfull.left.trans hzero),
      chunkFaults_last_of_no_header hfull.header, hfull.packet, hpieces]
    exact ⟨fun hcramped => ⟨.inl hzero, hcramped⟩, And.right⟩
  · have hwaits : Waits (peekLength crypto session)
        (filled (peekLength crypto session) arrived (bulkStart context session)) := by
      refine ⟨hfull.left ▸ pos_of_ne_zero hzero, ?_⟩
      rw [hfull.left]
      exact hleft.trans (Nat.le_add_left _ _)
    have hchunk : leftAfter crypto session arrived ≤ bulkChunkSize := by
      have : bulkChunkSize = 512 := rfl
      omega
    rw [bulkLoop_of_waits arrived clock later hwaits,
      faults_bulkLoop_of_waits later _ hwaits (hfull.left ▸ hchunk)]
    refine Iff.trans (and_congr_right fun _ => and_congr_right fun _ =>
      chunkFaults_last_of_no_header hfull.header) ?_
    rw [completed, hfull.left, hfull.waiting, hfull.packet, append_assoc, hpieces]
    constructor
    · rintro ⟨hlater, hcome, hcramped⟩
      exact ⟨.inr ⟨hlater, hcome⟩, hcramped⟩
    · rintro ⟨hcome, hcramped⟩
      obtain ⟨hlater, hcome⟩ := hcome.resolve_left hzero
      exact ⟨hlater, hcome, hcramped⟩

section

variable (hlow : 10 < session.macLen) (hmac : session.macLen < 256)
  (harrived : 4 + session.macLen ≤ session.rx.length)

include hlow hmac harrived

theorem faults_bulkLoop_split {arrived : Text} {clock : UInt32} {later : List (Text × UInt32)}
    (hleft : session.macLen < leftAfter crypto session arrived) :
    Faults (bulkLoop crypto (peekLength crypto session) context.answers ((arrived, clock) :: later)
        (bulkStart context session)) ↔
      (firstPiece crypto session arrived context).getD 5 0 = sshMsgChannelData ∧
      leftAfter crypto session arrived <
        ((firstPiece crypto session arrived context).getD 4 0).toNat + session.macLen ∧
      context.answers [(firstPiece crypto session arrived context).drop channelDataHeader] = true ∧
      (waitingAfter crypto session arrived ≠ [] ∨ ¬ bulkStallTime < clock - context.start) ∧
      later ≠ [] ∧ leftAfter crypto session arrived ≤
        (waitingAfter crypto session arrived ++ incoming later).length := by
  have hfull := @firstFilled crypto session context arrived
  have hremaining := hfull.left
  generalize peekLength crypto session = peeked at *
  have hends := bulkPass_cases crypto peeked context.answers arrived clock
    (bulkStart context session)
  rw [bulkLoop]
  generalize filled peeked arrived (bulkStart context session) = full at *
  generalize bulkPass crypto peeked context.answers arrived clock (bulkStart context session) =
    outcome at hends
  have hpiece : firstPlain crypto full.session.aesCtxCtos full.kept full.packetvec =
      firstPiece crypto session arrived context := by
    rw [hfull.ctx, hfull.kept, hfull.packet]
    rfl
  have hlong : channelDataHeader < full.packetvec.length := by
    have hchunk := length_firstChunk crypto session arrived
    have hcap : bulkChunkSize = 512 := rfl
    have hwords : channelDataHeader = 14 := rfl
    rw [hfull.packet, length_append, length_take]
    rw [leftAfter] at hleft
    omega
  have hmore : decide (remaining peeked full = 0) = false := decide_eq_false (by omega)
  cases hends with
  | waits hwaits =>
    have hpadded := hwaits.2
    rw [hfull.macLen, hfull.padding, hremaining] at hpadded
    exact absurd (hpadded.trans_eq (Nat.zero_add _)) (Nat.not_le_of_lt hleft)
  | faults found hready hfaults =>
    rw [hmore, ChunkFaults, decryptChunk] at hfaults
    have hwords : channelDataHeader = 14 := rfl
    have hshort : full.packetvec.length ≤ 5 ∨ full.packetvec.length < channelDataHeader := by
      rw [← length_firstPlain crypto full.session.aesCtxCtos full.kept full.packetvec]
      exact (skipHeader_eq_none_iff.mp hfaults).2.imp_right And.right
    omega
  | goesOn next now hready hhands hopen =>
    have hnextLeft := hhands.remaining_eq peeked
    have hnextPacket := hhands.packetvec_eq
    rw [hmore] at hhands
    obtain ⟨hnextRx, hnextMac, hnextNow, hdata, hother⟩ := hhands.of_first hfull.header hlong
    rw [hpiece] at hdata hother
    have hchannel : (firstPiece crypto session arrived context).getD 5 0 = sshMsgChannelData := by
      by_contra hno
      cases hopen.header.symm.trans (hother hno)
    obtain ⟨hnextHeader, hnextPadding, hnextWanted⟩ := hdata hchannel
    have hwanted := hopen.wanted
    have htime := hopen.in_time
    rw [hnextWanted, hfull.handed] at hwanted
    rw [hnextNow, hnextRx, hfull.start, hfull.waiting] at htime
    rw [hremaining] at hnextLeft
    rw [hfull.macLen] at hnextMac
    by_cases hshort : leftAfter crypto session arrived <
        ((firstPiece crypto session arrived context).getD 4 0).toNat + session.macLen
    · have hwaits : Waits peeked { next with now := now } := by
        refine ⟨?_, ?_⟩
        · exact pos_of_ne_zero hopen.unfinished
        · change remaining peeked next ≤ next.paddingLength.toNat + next.session.macLen
          rw [hnextLeft, hnextPadding, hnextMac]
          exact le_of_lt hshort
      have hbyte := ((firstPiece crypto session arrived context).getD 4 0).toNat_lt
      have hcap : bulkChunkSize = 512 := rfl
      have hchunk : remaining peeked { next with now := now } ≤ bulkChunkSize := by
        change remaining peeked next ≤ bulkChunkSize
        omega
      refine (faults_bulkLoop_of_waits later _ hwaits hchunk).trans ?_
      refine Iff.trans (and_congr_right fun _ => and_congr_right fun _ =>
        chunkFaults_last_of_header hnextHeader) ?_
      change (later ≠ [] ∧ remaining peeked next ≤ (next.session.rx ++ incoming later).length ∧
        (next.packetvec ++ (next.session.rx ++ incoming later).take
          (remaining peeked next)).length < next.paddingLength.toNat + next.session.macLen) ↔ _
      rw [hnextLeft, hnextRx, hfull.waiting, hnextPacket, hnextPadding, nil_append, length_take]
      constructor
      · rintro ⟨hlater, hcome, -⟩
        exact ⟨hchannel, hshort, hwanted, htime, hlater, hcome⟩
      · rintro ⟨-, -, -, -, hlater, hcome⟩
        exact ⟨hlater, hcome, by omega⟩
    · refine iff_of_false (not_faults_bulkLoop later _ hnextHeader ?_) fun hall => hshort hall.2.1
      change next.paddingLength.toNat + next.session.macLen ≤
        next.packetvec.length + remaining peeked next
      rw [hnextPadding]
      omega
  | ends next now wanted hready hhands hover =>
    have hnextLeft := hhands.remaining_eq peeked
    rw [hmore] at hhands
    obtain ⟨hnextRx, hnextMac, hnextNow, hdata, hother⟩ := hhands.of_first hfull.header hlong
    rw [hpiece] at hdata
    refine iff_of_false id ?_
    rintro ⟨hchannel, -, hwanted, htime, -, -⟩
    obtain ⟨hnextHeader, -, hnextWanted⟩ := hdata hchannel
    refine hover ⟨?_, hnextHeader, ?_, ?_⟩
    · omega
    · rw [hnextWanted, hfull.handed]
      exact hwanted
    · rw [hnextNow, hnextRx, hfull.start, hfull.waiting]
      exact htime

theorem faults_bulkLoop_iff :
    Faults (bulkLoop crypto (peekLength crypto session) context.answers context.passes
        (bulkStart context session)) ↔
      BulkOverrun crypto session context := by
  cases hpasses : context.passes with
  | nil =>
    refine iff_of_false id ?_
    rintro (⟨_, _, _, hsome⟩ | ⟨_, _, _, hsome⟩) <;> cases hpasses.symm.trans hsome
  | cons pass later =>
    obtain ⟨arrived, clock⟩ := pass
    by_cases hleft : leftAfter crypto session arrived ≤ session.macLen
    · rw [faults_bulkLoop_whole hmac hleft]
      constructor
      · rintro ⟨hcome, hcramped⟩
        exact .whole arrived clock later hpasses hleft hcome hcramped
      · rintro (⟨_, _, _, hsame, -, hcome, hcramped⟩ | ⟨_, _, _, hsame, hsplit⟩)
        · cases hpasses.symm.trans hsame
          exact ⟨hcome, hcramped⟩
        · cases hpasses.symm.trans hsame
          exact absurd hleft (Nat.not_le_of_lt hsplit)
    · rw [faults_bulkLoop_split hlow hmac harrived (Nat.lt_of_not_le hleft)]
      constructor
      · rintro ⟨hdata, hshort, hwanted, htime, hcome⟩
        exact .split arrived clock later hpasses (Nat.lt_of_not_le hleft) hdata hshort hwanted
          htime hcome
      · rintro (⟨_, _, _, hsame, hwhole, -, -⟩ |
          ⟨_, _, _, hsame, -, hdata, hshort, hwanted, htime, hcome⟩)
        · cases hpasses.symm.trans hsame
          exact absurd hwhole hleft
        · cases hpasses.symm.trans hsame
          exact ⟨hdata, hshort, hwanted, htime, hcome⟩

end

end

/-! ## Both parse functions -/

/-- The receptions that the parse functions handle as they should. -/
structure WellReceived (crypto : SshCrypto) (context : BulkContext) (session : SshSession) :
    Prop where
  plain : ¬ PaddingCut session
  sealed : session.bolusCallback = false → ¬ SealedCut crypto session ∧ ¬ LengthWraps crypto session
  bulk : session.bolusCallback = true → 4 + session.macLen ≤ session.rx.length →
    ¬ BulkOverrun crypto session context

/-- With a callback no payload is returned, and a fault is one of the loop. -/
theorem parseEncryptedPacket_of_callback {crypto : SshCrypto} {context : BulkContext}
    {session : SshSession} (hcallback : session.bolusCallback = true) :
    (∀ payload, (parseEncryptedPacket crypto context session).result ≠ .payload payload) ∧
      ((parseEncryptedPacket crypto context session).result = .fault ↔
        4 + session.macLen ≤ session.rx.length ∧
          Faults (bulkLoop crypto (peekLength crypto session) context.answers context.passes
            (bulkStart context session))) := by
  unfold parseEncryptedPacket
  by_cases hshort : session.rx.length < 4 + session.macLen
  · rw [if_pos hshort]
    exact ⟨nofun, nofun, fun hfaults => by omega⟩
  rw [if_neg hshort, if_pos hcallback]
  cases bulkLoop crypto (peekLength crypto session) context.answers context.passes
      (bulkStart context session) with
  | fault state => exact ⟨nofun, fun _ => ⟨Nat.le_of_not_lt hshort, trivial⟩, fun _ => rfl⟩
  | looping state | done state => exact ⟨nofun, nofun, fun hfaults => hfaults.2.elim⟩

/-- Packets are accepted only when they lie in the received bytes as a whole, and no
byte is taken that was not received, exactly for the receptions above.  The MAC has one
of the two negotiated lengths, and `available` counts with 31 bits. -/
theorem framesRight_iff (crypto : SshCrypto) (context : BulkContext) (session : SshSession)
    (hmac : session.macLen = 20 ∨ session.macLen = 32) (hrx : session.rx.length < 2 ^ 31) :
    FramesRight crypto context session ↔ WellReceived crypto context session := by
  have hsmall : session.macLen < 256 := by omega
  have hplain := plain_takenWhole_iff hrx
  cases hcallback : session.bolusCallback with
  | false =>
    have hreception := @parseEncryptedPacket_of_no_callback crypto session context hcallback
    have hresult : (parseEncryptedPacket crypto context session).result =
        (parseSealedPacket crypto session).1 := by rw [hreception]
    have hsession : (parseEncryptedPacket crypto context session).session =
        (parseSealedPacket crypto session).2 := by rw [hreception]
    have hsealed := @sealed_takenWhole_iff crypto session hsmall hrx
    have hfault := @parseSealedPacket_eq_fault_iff crypto session hsmall
    rw [← hresult, ← hsession] at hsealed
    rw [← hresult] at hfault
    constructor
    · intro hright
      exact ⟨hplain.mp hright.plain, fun _ => ⟨hsealed.mp hright.sealed,
        fun hwraps => hright.sealed_reads (hfault.mpr hwraps)⟩,
        fun hset => nomatch hcallback.symm.trans hset⟩
    · intro hreceived
      obtain ⟨hcut, hwraps⟩ := hreceived.sealed hcallback
      exact ⟨hplain.mpr hreceived.plain, parseReceivedPacket_ne_fault, hsealed.mpr hcut,
        fun hfaults => hwraps (hfault.mp hfaults)⟩
  | true =>
    obtain ⟨hnone, hfault⟩ := @parseEncryptedPacket_of_callback crypto context session hcallback
    have hloop : 4 + session.macLen ≤ session.rx.length → _ :=
      @faults_bulkLoop_iff crypto session context (by omega) hsmall
    constructor
    · intro hright
      exact ⟨hplain.mp hright.plain, fun hunset => (nomatch hcallback.symm.trans hunset),
        fun _ harrived hoverrun => hright.sealed_reads
          (hfault.mpr ⟨harrived, (hloop harrived).mpr hoverrun⟩)⟩
    · intro hreceived
      refine ⟨hplain.mpr hreceived.plain, parseReceivedPacket_ne_fault,
        fun payload hpayload => absurd hpayload (hnone payload), fun hfaults => ?_⟩
      obtain ⟨harrived, hloops⟩ := hfault.mp hfaults
      exact hreceived.bulk hcallback harrived ((hloop harrived).mp hloops)

theorem upload_frames_right :
    FramesRight sampleCrypto sampleBulkTurn.bulk (sampleUpload false (zeros 20)) := by
  refine (framesRight_iff sampleCrypto sampleBulkTurn.bulk (sampleUpload false (zeros 20)) (.inl rfl)
    (by decide)).mpr ⟨fun hcut => absurd hcut.cut ?_,
      fun _ => ⟨fun hcut => absurd hcut.cut ?_, fun hwraps => absurd hwraps.wraps ?_⟩, nofun⟩
  all_goals decide +kernel

/-- A `NEWKEYS` whose four bytes of padding have not arrived. -/
def cutSession : SshSession := { freshSession with rx := [0, 0, 0, 6, 4, 21] }

/-- An encrypted packet with a length that the MAC brings to zero. -/
def wrappedSession : SshSession :=
  { freshSession with rx := bytesOfWord (0 - 20) ++ zeros 20 }

def emptySession : SshSession :=
  { freshSession with bolusCallback := true, rx := bytesOfWord 1 ++ [0] ++ zeros 20 }

/-- The first is accepted, and the other two make the server take bytes that are not
there. -/
theorem short_packets_misread :
    (parseReceivedPacket cutSession).1 = .payload [21] ∧
      ¬ FramesRight sampleCrypto sampleBulkTurn.bulk cutSession ∧
      (parseEncryptedPacket sampleCrypto sampleBulkTurn.bulk wrappedSession).result = .fault ∧
      (parseEncryptedPacket sampleCrypto sampleBulkTurn.bulk emptySession).result = .fault := by
  refine ⟨by decide, ?_, by decide +kernel, by decide +kernel⟩
  intro hright
  have hreceived := (hright.plain [21] (by decide)).received
  exact absurd hreceived (by decide)

end PdiStack.PacketFraming
