import PdiStack.Ssh.Message
import PdiStack.Utility.Aes
import PdiStack.Utility.PdiTypes

/-!
# SSH packets

How the server cuts a packet out of the bytes a client has sent.  Before the keys
are in use a packet is a length, a padding length, a payload and padding.
Afterwards the whole of it is encrypted, and a MAC over the sequence number and
the decrypted packet follows.  With a bulk callback set, the packet is instead
decrypted chunk by chunk and handed to the callback as it comes in.
-/

namespace PdiStack.Packet

open PdiTypes StringOperations Message Aes

/-- The primitives the session is built on. -/
structure SshCrypto where
  cipher : Text → Text → Text
  sha256 : Text → Text
  hmacSha1 : Text → Text → Text
  hmacSha256 : Text → Text → Text
  ed25519Verify : Text → Text → Text → Bool
  rsaVerify : Text → Text → Bool → Text → Text → Bool

/-- `compute_ssh_mac`: the hash goes with the negotiated length, and so does the
part of the key that is used. -/
def computeSshMac (crypto : SshCrypto) (macLen : ℕ) (key data : Text) : Text :=
  if macLen = 32 then crypto.hmacSha256 (key.take macLen) data
  else crypto.hmacSha1 (key.take macLen) data

inductive SessionState where
  | waitingForClient
  | clientConnected
  | vexSend
  | vexRecv
  | kexInitRecv
  | kexInitSend
  | kexdhInitRecv
  | kexdhInitSend
  | newkeysReceived
  | authenticationRequest
  | channelRequest
  | sessionEstablished
  | sessionTimeout
  | sessionClose
deriving DecidableEq, Repr

/-- `SSHKeyAlgorithm`; `min` stands for none. -/
inductive SshKeyAlgorithm where
  | min
  | ed25519
  | rsaSha256
  | rsaSha512
deriving DecidableEq, Repr

/-- The six values derived from the key exchange. -/
structure DerivedKeys where
  ivCtos : Text
  ivStoc : Text
  encKeyCtos : Text
  encKeyStoc : Text
  macKeyCtos : Text
  macKeyStoc : Text
deriving DecidableEq, Repr

/-- `ssh_config_t`; both methods are on unless the file says otherwise. -/
structure SshConfig where
  passwordAuth : Bool := true
  pubkeyAuth : Bool := true
deriving DecidableEq, Repr

/-- `LWSSHSession`.  `rx` holds the bytes of the client that have arrived and are
not yet read.  The callback itself lives with the channel; here stands whether
one is set. -/
structure SshSession where
  state : SessionState
  rx : Text
  clientVersion : Text
  serverKexInitSent : ℕ
  clientPubkey : Text
  sharedSecretKey : Text
  exchangeHashH : Text
  keys : DerivedKeys
  macLen : ℕ
  aesCtxCtos : AesCtx
  packetsSeqNumCtos : UInt32
  config : SshConfig
  configLoaded : Bool
  negotiatedHostkeyAlgo : SshKeyAlgorithm
  clientExtInfo : Bool
  bolusCallback : Bool
deriving DecidableEq

def zeros (count : ℕ) : Text := List.replicate count 0

/-- The session a new client gets.  The MAC length and the host key algorithm
start at a usable default. -/
def freshSession : SshSession where
  state := .waitingForClient
  rx := []
  clientVersion := []
  serverKexInitSent := 0
  clientPubkey := []
  sharedSecretKey := zeros 32
  exchangeHashH := zeros 32
  keys :=
    { ivCtos := zeros 16, ivStoc := zeros 16, encKeyCtos := zeros 16, encKeyStoc := zeros 16
      macKeyCtos := zeros 32, macKeyStoc := zeros 32 }
  macLen := 20
  aesCtxCtos := { key := zeros 16, iv := zeros 16 }
  packetsSeqNumCtos := 0
  config := {}
  configLoaded := false
  negotiatedHostkeyAlgo := .ed25519
  clientExtInfo := false
  bolusCallback := false

/-- What a parse function answers: a payload (status zero), nothing to act on
(status one), or an error code.  `fault` is a read outside the bytes received,
after which nothing is said.  `running` is a call that has not returned. -/
inductive ParseResult where
  | payload (bytes : Text)
  | more
  | failed (code : PdiErr)
  | fault
  | running
deriving DecidableEq, Repr

def acceptPayload (payload : Text) (payloadLength : UInt32) : ParseResult :=
  if payload ≠ [] ∧ payload.length = payloadLength.toNat ∧ payload.getD 0 0 < 101 then
    .payload payload
  else
    .failed .corrupt

/-- `parse_received_packet`.  The lengths are subtracted in 32 bits, and both
loops stop where the received bytes end. -/
def parseReceivedPacket (session : SshSession) : ParseResult × SshSession :=
  if session.rx.length < 5 then
    (.more, session)
  else
    let packetLength := wordAt session.rx 0
    let paddingLength := session.rx.getD 4 0
    let payloadLength := packetLength - paddingLength.toUInt32 - 1
    let payload := (session.rx.drop 5).take payloadLength.toNat
    let rest := (session.rx.drop (5 + payload.length)).drop paddingLength.toNat
    (acceptPayload payload payloadLength,
      { session with
        rx := rest
        packetsSeqNumCtos := session.packetsSeqNumCtos + 1 })

/-- The bytes read for one encrypted packet, with what the session checks them against. -/
structure SealedPacket where
  length : UInt32
  received : Text
  ctx : AesCtx
  seq : UInt32
  macLen : ℕ
  macKey : Text
deriving DecidableEq

namespace SealedPacket

variable (crypto : SshCrypto) (packet : SealedPacket)

def ciphertext : Text := packet.received.take (packet.received.length - packet.macLen)

def recvMac : Text := packet.received.drop (packet.received.length - packet.macLen)

def decrypted : Text := (aesCtrXcryptBuffer crypto.cipher packet.ctx packet.ciphertext).1

def computedMac : Text :=
  (computeSshMac crypto packet.macLen packet.macKey
    (bytesOfWord packet.seq ++ packet.decrypted crypto)).take packet.macLen

/-- The comparison of the two MACs. -/
def authentic : Bool := packet.recvMac = packet.computedMac crypto

def payloadLength : UInt32 := packet.length - ((packet.decrypted crypto).getD 4 0).toUInt32 - 1

def payload : Text := ((packet.decrypted crypto).drop 5).take (packet.payloadLength crypto).toNat

/-- Every byte that the header announces was received, with the MAC after it. -/
def Complete : Prop := packet.received.length = 4 + packet.length.toNat + packet.macLen

end SealedPacket

variable (crypto : SshCrypto) (session : SshSession)

/-- The length in the header, decrypted with a copy of the context. -/
def peekLength : UInt32 :=
  wordAt (aesCtrXcryptBuffer crypto.cipher session.aesCtxCtos (session.rx.take 4)).1 0

def bodyLength : UInt32 := peekLength crypto session + session.macLen.toUInt32

/-- The packet that stands at the head of the received bytes, as far as it has
been received. -/
def nextSealed : SealedPacket where
  length := peekLength crypto session
  received := session.rx.take 4 ++ (session.rx.drop 4).take (bodyLength crypto session).toNat
  ctx := session.aesCtxCtos
  seq := session.packetsSeqNumCtos
  macLen := session.macLen
  macKey := session.keys.macKeyCtos

def afterSealed : SshSession :=
  { session with
    rx := (session.rx.drop 4).drop (bodyLength crypto session).toNat
    aesCtxCtos :=
      (aesCtrXcryptBuffer crypto.cipher session.aesCtxCtos (nextSealed crypto session).ciphertext).2 }

/-- `parse_encrypted_packet` without a bulk callback.  Taking the MAC off fewer
bytes than it has is a fault. -/
def parseSealedPacket : ParseResult × SshSession :=
  if session.rx.length < 4 + session.macLen then
    (.more, session)
  else
    let packet := nextSealed crypto session
    if packet.received.length < session.macLen then
      (.fault, session)
    else if packet.authentic crypto then
      (acceptPayload (packet.payload crypto) (packet.payloadLength crypto),
        { afterSealed crypto session with
          packetsSeqNumCtos := session.packetsSeqNumCtos + 1 })
    else
      (.failed .sshMacFailed, afterSealed crypto session)

/-! ## Bulk packets

With a callback set the packet is read in chunks of at most 512 bytes, decrypted
with the overload that keeps its place in the block, and handed on.  The MAC at
its end is taken off and compared with nothing. -/

def bulkChunkSize : ℕ := 512
def bulkStallTime : UInt32 := 3000

/-- The variables of the bulk loop, with the blocks handed to the callback so
far. -/
structure BulkState where
  packetvec : Text
  parsedInitialSshHeader : Bool
  totalBytesRead : UInt32
  paddingLength : UInt8
  now : UInt32
  handlerContinue : Bool
  kept : AesStatic
  session : SshSession
  handed : List Text
deriving DecidableEq

/-- Where a pass of the bulk loop leads.  A fault keeps the state before the
chunk it happened in. -/
inductive BulkOutcome where
  | looping (state : BulkState)
  | done (state : BulkState)
  | fault (state : BulkState)
deriving DecidableEq

/-- The chunk of one pass once it is decrypted, with the state it leaves: the MAC
and the padding are taken off the last one. -/
def decryptChunk (islastchunk : Bool) (state : BulkState) : Option (Text × BulkState) :=
  let session := state.session
  if islastchunk then
    if state.packetvec.length < session.macLen then
      none
    else
      let body := state.packetvec.take (state.packetvec.length - session.macLen)
      let (plain, ctx, kept) :=
        aesCtrXcryptChunk crypto.cipher session.aesCtxCtos state.kept body true
      let padding := if state.parsedInitialSshHeader then state.paddingLength else plain.getD 4 0
      if plain.length < padding.toNat ∨ (¬ state.parsedInitialSshHeader ∧ plain.length ≤ 4) then
        none
      else
        some (plain.take (plain.length - padding.toNat),
          { state with
            paddingLength := padding
            kept := kept
            session := { session with
              aesCtxCtos := ctx
              packetsSeqNumCtos := session.packetsSeqNumCtos + 1 } })
  else
    let (plain, ctx, kept) :=
      aesCtrXcryptChunk crypto.cipher session.aesCtxCtos state.kept state.packetvec false
    some (plain, { state with kept := kept, session := { session with aesCtxCtos := ctx } })

/-- The header in front of the data of a channel data message: length, padding
length, message number, channel and data length. -/
def channelDataHeader : ℕ := 14

/-- Takes the header off the first chunk of a channel data message. -/
def skipHeader (plain : Text) (state : BulkState) : Option (Text × BulkState) :=
  if state.parsedInitialSshHeader then
    some (plain, state)
  else if plain.length ≤ 5 then
    none
  else if plain.getD 5 0 ≠ sshMsgChannelData then
    some (plain, state)
  else if plain.length < channelDataHeader then
    none
  else
    some (plain.drop channelDataHeader,
      { state with paddingLength := plain.getD 4 0, parsedInitialSshHeader := true })

/-- Hands a block to the callback until it has taken all of it.  Its last answer
is a function of every block it has seen. -/
def handBlock (answers : List Text → Bool) (block : Text) (state : BulkState) : BulkState :=
  if block = [] then
    { state with packetvec := [] }
  else
    { state with
      packetvec := []
      handed := state.handed ++ [block]
      handlerContinue := answers (state.handed ++ [block]) }

/-- One pass of the bulk loop, after `arrived` has come in and at time `clock`. -/
def bulkPass (packetLength : UInt32) (answers : List Text → Bool)
    (arrived : Text) (clock : UInt32) (state : BulkState) : BulkOutcome :=
  let rx := state.session.rx ++ arrived
  let total := packetLength + state.session.macLen.toUInt32
  let taken := rx.take (min bulkChunkSize (total - state.totalBytesRead).toNat)
  let state := { state with
    packetvec := state.packetvec ++ taken
    totalBytesRead := state.totalBytesRead + taken.length.toUInt32
    session := { state.session with rx := rx.drop taken.length } }
  let islastchunk := state.totalBytesRead = total
  let remaining := (total - state.totalBytesRead).toNat
  if 0 < remaining ∧ remaining ≤ state.paddingLength.toNat + state.session.macLen then
    .looping state
  else
    match decryptChunk crypto islastchunk state with
    | none => .fault state
    | some (plain, state) =>
      match skipHeader plain state with
      | none => .fault state
      | some (block, state) =>
        let state := handBlock answers block state
        let more := ¬ islastchunk ∧ state.parsedInitialSshHeader ∧ state.handlerContinue
        if state.session.rx ≠ [] then
          if more then .looping { state with now := clock }
          else .done { state with now := clock }
        else if bulkStallTime < clock - state.now then
          .done { state with handlerContinue := false }
        else
          if more then .looping state else .done state

/-- The passes of the bulk loop, each with what arrives before it and the time. -/
def bulkLoop (crypto : SshCrypto) (packetLength : UInt32) (answers : List Text → Bool) :
    List (Text × UInt32) → BulkState → BulkOutcome
  | [], state => .looping state
  | (arrived, clock) :: passes, state =>
    match bulkPass crypto packetLength answers arrived clock state with
    | .looping state => bulkLoop crypto packetLength answers passes state
    | outcome => outcome

/-- What surrounds a call of `parse_encrypted_packet`. -/
structure BulkContext where
  start : UInt32
  kept : AesStatic
  answers : List Text → Bool
  passes : List (Text × UInt32)

def bulkStart (context : BulkContext) (session : SshSession) : BulkState where
  packetvec := session.rx.take 4
  parsedInitialSshHeader := false
  totalBytesRead := 0
  paddingLength := 0
  now := context.start
  handlerContinue := true
  kept := context.kept
  session := { session with rx := session.rx.drop 4 }
  handed := []

/-- A call of `parse_encrypted_packet` with what it leaves. -/
structure Reception where
  result : ParseResult
  handed : List Text
  session : SshSession
  kept : AesStatic
deriving DecidableEq

def parseEncryptedPacket (context : BulkContext) (session : SshSession) : Reception :=
  if session.rx.length < 4 + session.macLen then
    { result := .more, handed := [], session := session, kept := context.kept }
  else if session.bolusCallback then
    match bulkLoop crypto (peekLength crypto session) context.answers context.passes
        (bulkStart context session) with
    | .fault state =>
      { result := .fault, handed := state.handed, session := state.session, kept := state.kept }
    | .looping state =>
      { result := .running, handed := state.handed, session := state.session, kept := state.kept }
    | .done state =>
      { result := .more
        handed := state.handed
        session := { state.session with bolusCallback := state.handlerContinue }
        kept := state.kept }
  else
    { result := (parseSealedPacket crypto session).1
      handed := []
      session := (parseSealedPacket crypto session).2
      kept := context.kept }

def BulkOutcome.state : BulkOutcome → BulkState
  | .looping state | .done state | .fault state => state

/-- A session after another one, with more bytes read. -/
def ReadOn (next : SshSession) : Prop :=
  ∃ rx ctx seq, next = { session with rx := rx, aesCtxCtos := ctx, packetsSeqNumCtos := seq }

theorem ReadOn.refl : ReadOn session session := ⟨_, _, _, rfl⟩

theorem ReadOn.trans {first second third : SshSession} (hfirst : ReadOn first second)
    (hsecond : ReadOn second third) : ReadOn first third := by
  obtain ⟨_, _, _, rfl⟩ := hfirst
  obtain ⟨_, _, _, rfl⟩ := hsecond
  exact ⟨_, _, _, rfl⟩

theorem ReadOn.withCallback {session next : SshSession} (hread : ReadOn session next)
    (callback : Bool) :
    ReadOn { session with bolusCallback := callback }
      { next with bolusCallback := callback } := by
  obtain ⟨_, _, _, rfl⟩ := hread
  exact ⟨_, _, _, rfl⟩

section

variable {crypto : SshCrypto} {state next : BulkState} {plain block : Text}

theorem decryptChunk_eq {islastchunk : Bool}
    (hdecrypted : decryptChunk crypto islastchunk state = some (plain, next)) :
    ∃ padding kept ctx seq, next = { state with
        paddingLength := padding
        kept := kept
        session := { state.session with aesCtxCtos := ctx, packetsSeqNumCtos := seq } } ∧
      (state.parsedInitialSshHeader = true → padding = state.paddingLength) := by
  unfold decryptChunk at hdecrypted
  dsimp only at hdecrypted
  repeat' split at hdecrypted
  all_goals cases hdecrypted
  all_goals
    refine ⟨_, _, _, _, rfl, fun hheader => ?_⟩
    first | rfl | contradiction

theorem skipHeader_eq (hskipped : skipHeader plain state = some (block, next)) :
    ∃ padding header,
      next = { state with paddingLength := padding, parsedInitialSshHeader := header } := by
  unfold skipHeader at hskipped
  repeat' split at hskipped
  all_goals
    cases hskipped
    try exact ⟨_, _, rfl⟩

theorem handBlock_eq (answers : List Text → Bool) (block : Text) (state : BulkState) :
    ∃ handed wanted, handBlock answers block state =
      { state with packetvec := [], handed := handed, handlerContinue := wanted } := by
  unfold handBlock
  split <;> exact ⟨_, _, rfl⟩

theorem bulkPass_readOn (crypto : SshCrypto) (packetLength : UInt32)
    (answers : List Text → Bool) (arrived : Text) (clock : UInt32) (state : BulkState) :
    ReadOn state.session
      (bulkPass crypto packetLength answers arrived clock state).state.session := by
  unfold bulkPass
  dsimp only
  split
  · exact ⟨_, _, _, rfl⟩
  split
  · exact ⟨_, _, _, rfl⟩
  rename_i plain decrypted hdecrypted
  obtain ⟨_, _, _, _, rfl, -⟩ := decryptChunk_eq hdecrypted
  split
  · exact ⟨_, _, _, rfl⟩
  · rename_i block skipped hskipped
    obtain ⟨_, _, rfl⟩ := skipHeader_eq hskipped
    obtain ⟨_, _, hhanded⟩ := handBlock_eq answers block _
    rw [hhanded]
    repeat' split
    all_goals exact ⟨_, _, _, rfl⟩

theorem bulkLoop_readOn (crypto : SshCrypto) (packetLength : UInt32)
    (answers : List Text → Bool) (passes : List (Text × UInt32)) (state : BulkState) :
    ReadOn state.session (bulkLoop crypto packetLength answers passes state).state.session := by
  induction passes generalizing state with
  | nil => exact .refl _
  | cons pass passes ih =>
    have hpass := bulkPass_readOn crypto packetLength answers pass.1 pass.2 state
    unfold bulkLoop
    split
    · rename_i passed hlooping
      rw [hlooping] at hpass
      exact hpass.trans (ih passed)
    · exact hpass

end

theorem parseSealedPacket_session :
    ∃ rx iv seq, (parseSealedPacket crypto session).2 = { session with
      rx := rx, aesCtxCtos := { session.aesCtxCtos with iv := iv }, packetsSeqNumCtos := seq } := by
  unfold parseSealedPacket
  dsimp only
  repeat' split
  all_goals exact ⟨_, _, _, rfl⟩

/-- A call leaves the session as it is, but for what it has read and whether the callback
is still set. -/
theorem parseEncryptedPacket_readOn {crypto : SshCrypto} {context : BulkContext}
    {session : SshSession} :
    ∃ callback, ReadOn { session with bolusCallback := callback }
      (parseEncryptedPacket crypto context session).session := by
  have hbulk := bulkLoop_readOn crypto (peekLength crypto session) context.answers
    context.passes (bulkStart context session)
  have hstart : ReadOn session (bulkStart context session).session := ⟨_, _, _, rfl⟩
  unfold parseEncryptedPacket
  split
  · exact ⟨session.bolusCallback, .refl _⟩
  split
  · have hread := hstart.trans hbulk
    split
    all_goals
      rename_i houtcome
      rw [houtcome] at hread
    · exact ⟨session.bolusCallback, hread⟩
    · exact ⟨session.bolusCallback, hread⟩
    · exact ⟨_, hread.withCallback _⟩
  · obtain ⟨rx, iv, seq, hread⟩ := parseSealedPacket_session crypto session
    exact ⟨session.bolusCallback, rx, _, seq, hread⟩

theorem parseEncryptedPacket_state (context : BulkContext)
    (session : SshSession) :
    (parseEncryptedPacket crypto context session).session.state = session.state := by
  obtain ⟨_, _, _, _, hread⟩ := parseEncryptedPacket_readOn
  rw [hread]

theorem parseEncryptedPacket_macLen (context : BulkContext)
    (session : SshSession) :
    (parseEncryptedPacket crypto context session).session.macLen = session.macLen := by
  obtain ⟨_, _, _, _, hread⟩ := parseEncryptedPacket_readOn
  rw [hread]

/-- A payload from an encrypted packet means that the MAC matched. -/
theorem parseSealedPacket_payload {crypto : SshCrypto} {session : SshSession} {payload : Text}
    (hparsed : (parseSealedPacket crypto session).1 = .payload payload) :
    (nextSealed crypto session).authentic crypto ∧
      payload = (nextSealed crypto session).payload crypto := by
  unfold parseSealedPacket at hparsed
  dsimp only at hparsed
  split at hparsed
  · cases hparsed
  split at hparsed
  · cases hparsed
  split at hparsed
  · rename_i hauthentic
    refine ⟨hauthentic, ?_⟩
    unfold acceptPayload at hparsed
    split at hparsed
    · exact (ParseResult.payload.inj hparsed).symm
    · cases hparsed
  · cases hparsed

/-- Without a callback an encrypted packet is parsed by the plain path. -/
theorem parseEncryptedPacket_of_no_callback {crypto : SshCrypto} {session : SshSession}
    (context : BulkContext)
    (hcallback : session.bolusCallback = false) :
    parseEncryptedPacket crypto context session =
      { result := (parseSealedPacket crypto session).1
        handed := []
        session := (parseSealedPacket crypto session).2
        kept := context.kept } := by
  unfold parseEncryptedPacket
  split
  · rename_i hshort
    rw [parseSealedPacket, if_pos hshort]
  · rw [hcallback, if_neg Bool.false_ne_true]

end PdiStack.Packet
