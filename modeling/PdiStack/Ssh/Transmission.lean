import PdiStack.Ssh.PacketFraming

/-!
# Sending packets

How the server wraps a payload, encrypts the packet, appends the MAC and writes it, and
that a session in the mirrored role takes the payloads out again in order.

Padding brings a packet to a whole number of cipher blocks.
-/

namespace PdiStack.Transmission

open StringOperations Message Aes Packet Session Authenticity PacketFraming List

/-- The part of `LWSSHSession` that sending a packet reads and changes. -/
structure SendingHalf where
  state : SessionState
  macLen : ℕ
  macKeyStoc : Text
  aesCtxStoc : AesCtx
  packetsSeqNumStoc : UInt32
deriving DecidableEq

/-- The states after `SESSION_STATE_NEWKEYS_RECEIVED`. -/
def pastNewkeys : SessionState → Bool
  | .authenticationRequest | .channelRequest | .sessionEstablished | .sessionTimeout
  | .sessionClose => true
  | _ => false

/-- The padding of a packet: at least four bytes, up to a whole number of blocks. -/
def paddingFor (blockSize payloadLength : ℕ) : ℕ :=
  let padding := blockSize - (payloadLength + 1 + 4) % blockSize
  if padding < 4 then padding + blockSize else padding

def prepareSshPacket (payload : Text) (blockSize : ℕ) (random : ℕ → UInt8) : Text :=
  let padding := paddingFor blockSize payload.length
  bytesOfWord (payload.length + padding + 1).toUInt32 ++ [padding.toUInt8] ++ payload ++
    (List.range padding).map random

variable (crypto : SshCrypto)

def encryptSshPayload (half : SendingHalf) (packet : Text) : Text × SendingHalf :=
  let computedMac := computeSshMac crypto half.macLen half.macKeyStoc
    (bytesOfWord half.packetsSeqNumStoc ++ packet)
  let (encrypted, ctx) := aesCtrXcryptBuffer crypto.cipher half.aesCtxStoc packet
  (encrypted ++ computedMac.take half.macLen, { half with aesCtxStoc := ctx })

/-- What `sendPacket` writes when it succeeds.  It takes the length in 16 bits. -/
def sendPacket (buffer : Text) : Text := buffer.take (buffer.length % 2 ^ 16)

/-- What happens to the bytes of a call: all are written, or only some and the call
fails. -/
inductive Writing where
  | complete
  | cut (written : ℕ)
deriving DecidableEq, Repr

/-- `send_server_ssh_packet`: whether it succeeds, the bytes written and the half of the
session it leaves.  A packet that is encrypted moves the cipher on even when it cannot be
written. -/
def sendServerSshPacket (half : SendingHalf) (payload : Text)
    (encrypt : Bool) (random : ℕ → UInt8) (writing : Writing) : Bool × Text × SendingHalf :=
  let (bytes, half) :=
    if encrypt ∧ pastNewkeys half.state then
      let (bytes, half) := encryptSshPayload crypto half (prepareSshPacket payload 16 random)
      (sendPacket bytes, half)
    else
      (prepareSshPacket payload 8 random, half)
  match writing with
  | .complete => (true, bytes, { half with packetsSeqNumStoc := half.packetsSeqNumStoc + 1 })
  | .cut written => (false, bytes.take written, half)

theorem paddingFor_spec {blockSize : ℕ} (hblock : 8 ≤ blockSize) (payloadLength : ℕ) :
    4 ≤ paddingFor blockSize payloadLength ∧ paddingFor blockSize payloadLength < blockSize + 4 ∧
      blockSize ∣ payloadLength + 5 + paddingFor blockSize payloadLength := by
  have hmod := Nat.mod_lt (payloadLength + 1 + 4) (show 0 < blockSize by omega)
  have hdiv := Nat.div_add_mod (payloadLength + 1 + 4) blockSize
  have hwhole : payloadLength + 5 + (blockSize - (payloadLength + 1 + 4) % blockSize) =
      blockSize * ((payloadLength + 1 + 4) / blockSize + 1) := by
    rw [mul_add]
    omega
  rw [paddingFor]
  split
  · refine ⟨by omega, by omega, ?_⟩
    rw [← add_assoc, hwhole]
    exact Nat.dvd_add (Nat.dvd_mul_right _ _) (Nat.dvd_refl _)
  · refine ⟨by omega, by omega, ?_⟩
    rw [hwhole]
    exact Nat.dvd_mul_right _ _

theorem length_prepareSshPacket (payload : Text) (blockSize : ℕ) (random : ℕ → UInt8) :
    (prepareSshPacket payload blockSize random).length =
      payload.length + 5 + paddingFor blockSize payload.length := by
  simp only [prepareSshPacket, length_append, length_map, length_range]
  change 4 + 1 + _ + _ = _
  omega

/-- The cipher state after a buffer depends on its length only. -/
theorem aesCtrXcryptBuffer_ctx_congr {cipher : List UInt8 → List UInt8 → List UInt8}
    {ctx : AesCtx} {left right : Text} (hlength : left.length = right.length) :
    (aesCtrXcryptBuffer cipher ctx left).2 = (aesCtrXcryptBuffer cipher ctx right).2 := by
  simp only [aesCtrXcryptBuffer]
  rw [CounterMode.Generator.apply_cursor_congr _ hlength]

theorem aesCtrXcryptBuffer_twice {cipher : List UInt8 → List UInt8 → List UInt8} {ctx : AesCtx}
    {buffer : Text} :
    (aesCtrXcryptBuffer cipher ctx (aesCtrXcryptBuffer cipher ctx buffer).1).1 = buffer := by
  have htake := aesCtrXcryptBuffer_take cipher ctx buffer buffer.length
  rwa [take_of_length_le (le_of_eq (length_aesCtrXcryptBuffer cipher ctx buffer)),
    take_length] at htake

/-- The hash functions fill the MAC they are asked for. -/
structure DigestLengths (crypto : SshCrypto) : Prop where
  hmacSha1 : ∀ key data, (crypto.hmacSha1 key data).length = 20
  hmacSha256 : ∀ key data, (crypto.hmacSha256 key data).length = 32

/-- A receiving session agrees with a sending half: same sequence number and same cipher
state. -/
structure InAgreement (half : SendingHalf) (session : SshSession) : Prop where
  seq_eq : session.packetsSeqNumCtos = half.packetsSeqNumStoc
  ctx_eq : session.aesCtxCtos = half.aesCtxStoc

/-- The two sides of one direction, past the key exchange and without a bulk callback. -/
structure Mirrored (half : SendingHalf) (session : SshSession) : Prop where
  agree : InAgreement half session
  macLen_eq : session.macLen = half.macLen
  macKey_eq : session.keys.macKeyCtos = half.macKeyStoc
  macLen_cases : half.macLen = 20 ∨ half.macLen = 32
  past : pastNewkeys half.state = true
  callback : session.bolusCallback = false

/-- A payload that the packet layer carries in both directions. -/
structure Sendable (payload : Text) : Prop where
  nonempty : payload ≠ []
  length_le : payload.length ≤ 65000
  message : payload.getD 0 0 < 101

instance (payload : Text) : Decidable (Sendable payload) :=
  decidable_of_iff (payload ≠ [] ∧ payload.length ≤ 65000 ∧ payload.getD 0 0 < 101)
    ⟨fun h => ⟨h.1, h.2.1, h.2.2⟩, fun h => ⟨h.1, h.2, h.3⟩⟩

theorem length_computeSshMac {crypto : SshCrypto} (hdigest : DigestLengths crypto) {macLen : ℕ}
    (hmac : macLen = 20 ∨ macLen = 32) (key data : Text) :
    (computeSshMac crypto macLen key data).length = macLen := by
  rcases hmac with rfl | rfl
  · exact hdigest.hmacSha1 _ _
  · exact hdigest.hmacSha256 _ _

def wirePacket (half : SendingHalf) (payload : Text)
    (random : ℕ → UInt8) : Text :=
  (encryptSshPayload crypto half (prepareSshPacket payload 16 random)).1

def afterPacket (half : SendingHalf) (payload : Text)
    (random : ℕ → UInt8) : SendingHalf :=
  { half with
    aesCtxStoc :=
      (aesCtrXcryptBuffer crypto.cipher half.aesCtxStoc (prepareSshPacket payload 16 random)).2
    packetsSeqNumStoc := half.packetsSeqNumStoc + 1 }

theorem wirePacket_eq (half : SendingHalf) (payload : Text)
    (random : ℕ → UInt8) :
    wirePacket crypto half payload random =
      (aesCtrXcryptBuffer crypto.cipher half.aesCtxStoc (prepareSshPacket payload 16 random)).1 ++
        (computeSshMac crypto half.macLen half.macKeyStoc
          (bytesOfWord half.packetsSeqNumStoc ++ prepareSshPacket payload 16 random)).take
            half.macLen := rfl

section Exchange

variable {crypto : SshCrypto} {half : SendingHalf} {session : SshSession} {payload : Text}

theorem length_wirePacket (hdigest : DigestLengths crypto)
    (hmac : half.macLen = 20 ∨ half.macLen = 32) (random : ℕ → UInt8) :
    (wirePacket crypto half payload random).length =
      payload.length + 5 + paddingFor 16 payload.length + half.macLen := by
  simp [wirePacket, encryptSshPayload, length_append, length_take, length_aesCtrXcryptBuffer,
    length_prepareSshPacket, length_computeSshMac hdigest hmac, min_self]

theorem sendServerSshPacket_sendable (hdigest : DigestLengths crypto)
    (hmirrored : Mirrored half session) (hsendable : Sendable payload) (random : ℕ → UInt8) :
    sendServerSshPacket crypto half payload true random .complete =
      (true, wirePacket crypto half payload random, afterPacket crypto half payload random) := by
  have hlength := @length_wirePacket crypto half payload hdigest hmirrored.macLen_cases random
  have hpadding := (paddingFor_spec (show 8 ≤ 16 by decide) payload.length).2.1
  have hlimit := hsendable.length_le
  have hmac := hmirrored.macLen_cases
  have hwritten : sendPacket (wirePacket crypto half payload random) =
      wirePacket crypto half payload random := by
    rw [sendPacket, Nat.mod_eq_of_lt (by omega), take_length]
  rw [sendServerSshPacket, if_pos ⟨rfl, hmirrored.past⟩]
  exact congrArg (fun bytes => (true, bytes, afterPacket crypto half payload random)) hwritten

/-- The parts of a packet: the length of what follows it, the padding length and the
payload. -/
theorem prepareSshPacket_parts (hlength : payload.length ≤ 65000) (random : ℕ → UInt8) :
    (wordAt (prepareSshPacket payload 16 random) 0).toNat + 4 =
        (prepareSshPacket payload 16 random).length ∧
      ((prepareSshPacket payload 16 random).getD 4 0).toNat = paddingFor 16 payload.length ∧
      ((prepareSshPacket payload 16 random).drop 5).take payload.length = payload := by
  have hpadding := (paddingFor_spec (show 8 ≤ 16 by decide) payload.length).2.1
  have hword : wordAt (prepareSshPacket payload 16 random) 0 =
      (payload.length + paddingFor 16 payload.length + 1).toUInt32 := by
    exact wordAt_bytesOfWord [] _ _
  refine ⟨?_, ?_, ?_⟩
  · rw [hword, length_prepareSshPacket, UInt32.toNat_ofNat_of_lt' (by
      change _ < 2 ^ 32
      omega)]
    omega
  · exact UInt8.toNat_ofNat_of_lt' (by
      change _ < 2 ^ 8
      omega)
  · exact take_left

theorem wordAt_take (bytes : Text) : wordAt (bytes.take 4) 0 = wordAt bytes 0 := by
  simp [wordAt]

section

variable {rest : Text} (hdigest : DigestLengths crypto) (hmirrored : Mirrored half session)
  (hsendable : Sendable payload) (random : ℕ → UInt8)

include hdigest hmirrored hsendable

/-- What the receiver takes for the next packet is the packet that was sent. -/
theorem nextSealed_wirePacket (hrx : session.rx = wirePacket crypto half payload random ++ rest) :
    (peekLength crypto session).toNat = payload.length + 1 + paddingFor 16 payload.length ∧
      nextSealed crypto session =
        { length := peekLength crypto session
          received := wirePacket crypto half payload random
          ctx := half.aesCtxStoc
          seq := half.packetsSeqNumStoc
          macLen := half.macLen
          macKey := half.macKeyStoc } := by
  have hpadding := (paddingFor_spec (show 8 ≤ 16 by decide) payload.length).2.1
  have hlimit := hsendable.length_le
  have hmac := hmirrored.macLen_cases
  have hwire := @length_wirePacket crypto half payload hdigest hmac random
  have hpacket := length_prepareSshPacket payload 16 random
  obtain ⟨hword, -, -⟩ := prepareSshPacket_parts hlimit random
  have hhead : session.rx.take 4 = ((aesCtrXcryptBuffer crypto.cipher half.aesCtxStoc
      (prepareSshPacket payload 16 random)).1).take 4 := by
    rw [hrx, take_append_of_le_length (by omega), wirePacket_eq,
      take_append_of_le_length (by rw [length_aesCtrXcryptBuffer]; omega)]
  have hpeek : peekLength crypto session = wordAt (prepareSshPacket payload 16 random) 0 := by
    rw [peekLength, hmirrored.agree.ctx_eq, hhead, aesCtrXcryptBuffer_take, wordAt_take]
  have hlength : (peekLength crypto session).toNat =
      payload.length + 1 + paddingFor 16 payload.length := by
    rw [hpeek]
    omega
  have hbody : 4 + (bodyLength crypto session).toNat =
      (wirePacket crypto half payload random).length := by
    rw [toNat_bodyLength (by rw [hmirrored.macLen_eq]; omega), hmirrored.macLen_eq]
    omega
  refine ⟨hlength, ?_⟩
  rw [nextSealed, ← take_add, hbody, hrx, take_left, hmirrored.agree.ctx_eq,
    hmirrored.agree.seq_eq, hmirrored.macLen_eq, hmirrored.macKey_eq]

/-- A packet that lies at the head of the received bytes is taken off them, gives its
payload, and leaves the two sides in agreement. -/
theorem parseEncryptedPacket_wirePacket (context : BulkContext)
    (hrx : session.rx = wirePacket crypto half payload random ++ rest) :
    (parseEncryptedPacket crypto context session).result = .payload payload ∧
      (parseEncryptedPacket crypto context session).session.rx = rest ∧
      Mirrored (afterPacket crypto half payload random)
        (parseEncryptedPacket crypto context session).session := by
  have hpadding := (paddingFor_spec (show 8 ≤ 16 by decide) payload.length).2.1
  have hlimit := hsendable.length_le
  have hmac := hmirrored.macLen_cases
  have hmacLen := hmirrored.macLen_eq
  have hwire := @length_wirePacket crypto half payload hdigest hmac random
  have hpacket := length_prepareSshPacket payload 16 random
  obtain ⟨hword, hpad, hbody⟩ := prepareSshPacket_parts hlimit random
  obtain ⟨hlength, hsealed⟩ := nextSealed_wirePacket hdigest hmirrored hsendable random hrx
  have hcipher : (wirePacket crypto half payload random).length - half.macLen =
      (aesCtrXcryptBuffer crypto.cipher half.aesCtxStoc
        (prepareSshPacket payload 16 random)).1.length := by
    rw [length_aesCtrXcryptBuffer]
    omega
  have hciphertext : (nextSealed crypto session).ciphertext =
      (aesCtrXcryptBuffer crypto.cipher half.aesCtxStoc (prepareSshPacket payload 16 random)).1 := by
    rw [SealedPacket.ciphertext, hsealed]
    rw [hcipher, wirePacket_eq, take_left]
  have hdecrypted : (nextSealed crypto session).decrypted crypto =
      prepareSshPacket payload 16 random := by
    rw [SealedPacket.decrypted, hciphertext, hsealed]
    exact aesCtrXcryptBuffer_twice
  have hauthentic : (nextSealed crypto session).authentic crypto = true := by
    rw [SealedPacket.authentic, decide_eq_true_eq, SealedPacket.computedMac, hdecrypted,
      SealedPacket.recvMac, hsealed]
    dsimp only
    rw [hcipher, wirePacket_eq, drop_left]
  have hpayloadLength : ((nextSealed crypto session).payloadLength crypto).toNat =
      payload.length := by
    have hone : (1 : UInt32).toNat = 1 := rfl
    rw [SealedPacket.payloadLength, hdecrypted, hsealed]
    rw [UInt32.toNat_sub, UInt32.toNat_sub, UInt8.toNat_toUInt32, hpad, hlength, hone]
    omega
  have hbytes : session.rx.length = (wirePacket crypto half payload random).length + rest.length := by
    rw [hrx, length_append]
  have harrived : 4 + session.macLen ≤ session.rx.length := by omega
  have hnowrap : ¬ LengthWraps crypto session := fun hwraps => by
    have := hwraps.wraps
    omega
  have hfound : payload = (nextSealed crypto session).payload crypto := by
    rw [SealedPacket.payload, hpayloadLength, hdecrypted]
    exact hbody.symm
  have hfirst : (prepareSshPacket payload 16 random).getD 5 0 = payload.getD 0 0 := by
    conv_rhs => rw [← hbody]
    rw [getD_eq_getElem?_getD, getD_eq_getElem?_getD,
      getElem?_take_of_lt (length_pos_iff.mpr hsendable.nonempty), getElem?_drop]
  have hparsed : (parseSealedPacket crypto session).1 = .payload payload := by
    refine (parseSealedPacket_eq_payload_iff (by omega)).mpr
      ⟨harrived, hnowrap, hauthentic, hfound, ?_, ?_, ?_⟩
    · rw [hpayloadLength]
      exact length_pos_iff.mpr hsendable.nonempty
    · rw [hdecrypted]
      omega
    · rw [hdecrypted, hfirst]
      exact hsendable.message
  have hlong : ¬ (nextSealed crypto session).received.length < session.macLen := fun hfault =>
    hnowrap ((received_lt_macLen_iff (by omega) harrived).mp hfault)
  have hsession : (parseSealedPacket crypto session).2 =
      { afterSealed crypto session with
        packetsSeqNumCtos := session.packetsSeqNumCtos + 1 } := by
    rw [parseSealedPacket, if_neg (Nat.not_lt.mpr harrived)]
    rw [if_neg hlong, if_pos hauthentic]
  rw [parseEncryptedPacket_of_no_callback context hmirrored.callback]
  refine ⟨hparsed, ?_, ?_⟩
  · rw [parseSealedPacket_rx harrived hlong, toNat_bodyLength (by omega),
      Nat.mod_eq_of_lt (by omega), hrx]
    have hend : 4 + ((peekLength crypto session).toNat + session.macLen) =
        (wirePacket crypto half payload random).length := by omega
    rw [hend, drop_left]
  · rw [hsession]
    refine ⟨⟨congrArg (· + 1) hmirrored.agree.seq_eq, ?_⟩, hmacLen, hmirrored.macKey_eq, hmac,
      hmirrored.past, hmirrored.callback⟩
    change (aesCtrXcryptBuffer crypto.cipher session.aesCtxCtos
      (nextSealed crypto session).ciphertext).2 = _
    rw [hciphertext, hmirrored.agree.ctx_eq]
    exact aesCtrXcryptBuffer_ctx_congr (length_aesCtrXcryptBuffer _ _ _)

end

end Exchange

/-- One packet of an exchange. -/
structure Parcel where
  payload : Text
  random : ℕ → UInt8
  arrived : Text
  context : BulkContext

/-- The packets sent one after the other: the bytes written and the half after each. -/
def sendAll (crypto : SshCrypto) : List Parcel → SendingHalf → List (Text × SendingHalf)
  | [], _ => []
  | parcel :: parcels, half =>
    let sent := (sendServerSshPacket crypto half parcel.payload true parcel.random .complete).2
    sent :: sendAll crypto parcels sent.2

/-- The calls that parse them: the answer and the session after each. -/
def receiveAll (crypto : SshCrypto) : List Parcel → SshSession → List (ParseResult × SshSession)
  | [], _ => []
  | parcel :: parcels, session =>
    let reception := parseEncryptedPacket crypto parcel.context
      { session with rx := session.rx ++ parcel.arrived }
    (reception.result, reception.session) :: receiveAll crypto parcels reception.session

/-- Every packet has arrived by the time it is parsed. -/
def Delivered (written : List Text) (parcels : List Parcel) (rx : Text) : Prop :=
  ∀ count < parcels.length, (written.take (count + 1)).flatten <+:
    rx ++ ((parcels.take (count + 1)).map Parcel.arrived).flatten

theorem delivered_cons {first : Text} {written : List Text} {parcel : Parcel}
    {parcels : List Parcel} {rx : Text}
    (hdelivered : Delivered (first :: written) (parcel :: parcels) rx) :
    ∃ rest, rx ++ parcel.arrived = first ++ rest ∧ Delivered written parcels rest := by
  have hfirst := hdelivered 0 (Nat.succ_pos _)
  simp only [take_succ_cons, take_zero, flatten_cons,
    flatten_nil, append_nil, map_cons, map_nil] at hfirst
  obtain ⟨rest, hrest⟩ := hfirst
  refine ⟨rest, hrest.symm, fun count hcount => ?_⟩
  have hlater := hdelivered (count + 1) (Nat.succ_lt_succ hcount)
  rw [take_succ_cons, take_succ_cons, flatten_cons, map_cons,
    flatten_cons, ← append_assoc, ← hrest, append_assoc] at hlater
  exact (prefix_append_right_inj first).mp hlater

/-- The payloads come out as they went in, in order, and after each packet both sides
have the same sequence number and cipher state. -/
theorem packets_received_in_order (crypto : SshCrypto) (hdigest : DigestLengths crypto)
    (parcels : List Parcel) (half : SendingHalf) (session : SshSession)
    (hmirrored : Mirrored half session)
    (hsendable : ∀ parcel ∈ parcels, Sendable parcel.payload)
    (hdelivered : Delivered ((sendAll crypto parcels half).map Prod.fst) parcels session.rx) :
    (receiveAll crypto parcels session).map Prod.fst =
        parcels.map (fun parcel => ParseResult.payload parcel.payload) ∧
      List.Forall₂ InAgreement ((sendAll crypto parcels half).map Prod.snd)
        ((receiveAll crypto parcels session).map Prod.snd) := by
  induction parcels generalizing half session with
  | nil => exact ⟨rfl, .nil⟩
  | cons parcel parcels ih =>
    have hfirst := hsendable parcel mem_cons_self
    have hsent := sendServerSshPacket_sendable hdigest hmirrored hfirst parcel.random
    rw [sendAll, hsent] at hdelivered ⊢
    obtain ⟨rest, hrest, hlater⟩ := delivered_cons hdelivered
    have hready : Mirrored half { session with rx := session.rx ++ parcel.arrived } :=
      ⟨⟨hmirrored.agree.seq_eq, hmirrored.agree.ctx_eq⟩, hmirrored.macLen_eq,
        hmirrored.macKey_eq, hmirrored.macLen_cases, hmirrored.past, hmirrored.callback⟩
    obtain ⟨hresult, hrx, hnext⟩ := parseEncryptedPacket_wirePacket hdigest hready hfirst
      parcel.random parcel.context hrest
    rw [← hrx] at hlater
    obtain ⟨hpayloads, hagree⟩ := ih (afterPacket crypto half parcel.payload parcel.random) _ hnext
      (fun later hmem => hsendable later (mem_cons_of_mem _ hmem)) hlater
    rw [receiveAll]
    refine ⟨?_, .cons hnext.agree hagree⟩
    rw [map_cons, map_cons, hpayloads, hresult]

/-- The sending half of a session that waits for authentication, and the session of the
other side. -/
def sampleHalf : SendingHalf where
  state := .authenticationRequest
  macLen := 32
  macKeyStoc := zeros 32
  aesCtxStoc := { key := zeros 16, iv := zeros 16 }
  packetsSeqNumStoc := 3

def samplePeer : SshSession :=
  { freshSession with state := .authenticationRequest, macLen := 32, packetsSeqNumCtos := 3 }

def sampleParcels : List Parcel :=
  let service := sshMsgServiceRequest :: sshString (text "ssh-userauth")
  let accept := sshMsgServiceAccept :: sshString (text "ssh-userauth")
  let first := wirePacket sampleCrypto sampleHalf service fun _ => 7
  let second := wirePacket sampleCrypto
    (afterPacket sampleCrypto sampleHalf service fun _ => 7) accept fun _ => 9
  [{ payload := service, random := fun _ => 7, arrived := first ++ second
     context := sampleBulkTurn.bulk },
    { payload := accept, random := fun _ => 9, arrived := [], context := sampleBulkTurn.bulk }]

theorem sample_parcels_received :
    (receiveAll sampleCrypto sampleParcels samplePeer).map Prod.fst =
        sampleParcels.map (fun parcel => ParseResult.payload parcel.payload) ∧
      List.Forall₂ InAgreement ((sendAll sampleCrypto sampleParcels sampleHalf).map Prod.snd)
        ((receiveAll sampleCrypto sampleParcels samplePeer).map Prod.snd) :=
  packets_received_in_order sampleCrypto ⟨fun _ _ => rfl, fun _ _ => rfl⟩ sampleParcels sampleHalf
    samplePeer ⟨⟨rfl, rfl⟩, rfl, rfl, .inr rfl, rfl, rfl⟩ (by decide +kernel)
    (by unfold Delivered; decide +kernel)

end PdiStack.Transmission
