import PdiStack.Core.StateMachine
import PdiStack.Ssh.UserAuth

/-!
# The session state machine

`serviceSession` runs one session each time the server gets to it.  What the
world contributes to such a turn is collected in `SshEnv`: the bytes that have
arrived, whether the idle timer has run out, whether the packet that matters was
sent, the host keys, and what the device holds about its users.

A turn returns what it did besides changing the session.  The events say which
steps of the handshake happened and where the message behind them came from.
-/

namespace PdiStack.Session

open StringOperations Message Packet UserAuth

structure SshEnv where
  arrived : Text
  connected : Bool
  idle : Bool
  sendOk : Bool
  attachOk : Bool
  haveEd25519 : Bool
  haveRsa : Bool
  /-- The shared secret and the exchange hash of a prepared reply to the client's
  key, when the host key could be loaded. -/
  ecdhReply : Option (Text × Text)
  loadSshConfig : SshConfig → SshConfig
  device : AuthDevice
  bulk : BulkContext

/-- How a message reached the server. -/
inductive Origin where
  | plain
  | sealed (packet : SealedPacket)
deriving DecidableEq

inductive SshEvent where
  | kexInit (macLen : ℕ) (algorithm : SshKeyAlgorithm)
  | kexdhAnswered
  | newKeys (keys : DerivedKeys)
  | serviceRequest (origin : Origin)
  | userauthRequest (origin : Origin) (payload : Text) (accepted : Option Identity)
deriving DecidableEq

/-- What a turn does besides changing the session. -/
structure SshOutput (ε : Type) where
  events : List SshEvent
  replies : List UInt8
  effects : List ε
deriving DecidableEq

variable {ε : Type}

/-- Nothing but a change of the session. -/
def silent : SshOutput ε := { events := [], replies := [], effects := [] }

/-- What a channel message makes of the session. -/
inductive ChannelFate where
  | stay
  | timeout
  | close
deriving DecidableEq, Repr

def ChannelFate.state : ChannelFate → SessionState
  | .stay => .channelRequest
  | .timeout => .sessionTimeout
  | .close => .sessionClose

/-- The handling of channel messages and of pending terminal input.  No channel message leads
back into the handshake. -/
structure ChannelService (ε : Type) where
  onPayload : Text → SshSession → List ε × ChannelFate × Bool
  onBlock : Text → SshSession → List ε
  pending : SshSession → List ε × ChannelFate

/-- The bytes up to the line feed, without carriage returns, and the rest. -/
def readVersionLine : Text → Text × Text
  | [] => ([], [])
  | char :: rest =>
    if char = 0x0A then
      ([], rest)
    else if char = 0x0D then
      readVersionLine rest
    else
      (char :: (readVersionLine rest).1, (readVersionLine rest).2)

/-- `handleVersionExchange` once the server's version is sent. -/
def handleVersionExchange (session : SshSession) : SshSession :=
  let (line, rest) := readVersionLine session.rx
  let version := session.clientVersion ++ line
  { session with
    rx := rest
    clientVersion := version
    state :=
      if 4 < version.length ∧ version.take 4 = text "SSH-" then .kexInitRecv else .vexRecv }

/-- The first MAC of the client that the server knows, by its length. -/
def negotiateMac (algorithms : List Text) : ℕ :=
  (algorithms.findSome? fun name =>
    if name = text "hmac-sha2-256" then some 32
    else if name = text "hmac-sha1" then some 20
    else none).getD 0

def supportedHostkeyAlgos (env : SshEnv) : List Text :=
  (if env.haveEd25519 ∨ ¬ env.haveRsa then [sshEd25519KeyType] else []) ++
    if env.haveRsa then [sshRsaSigAlgoSha512, text "rsa-sha2-256"] else []

def negotiateHostkeyAlgo (env : SshEnv) (algorithms : List Text) : SshKeyAlgorithm :=
  (algorithms.findSome? fun name =>
    if !(supportedHostkeyAlgos env).contains name then none
    else if name = sshEd25519KeyType then some .ed25519
    else if name = sshRsaSigAlgoSha512 then some .rsaSha512
    else if name = text "rsa-sha2-256" then some .rsaSha256
    else none).getD .min

def negotiated (env : SshEnv) (fields : SshKexInitFields) (session : SshSession) : SshSession :=
  { session with
    macLen := negotiateMac fields.macAlgorithmsCtos
    negotiatedHostkeyAlgo := negotiateHostkeyAlgo env fields.serverHostKeyAlgorithms
    clientExtInfo := fields.kexAlgorithms.contains (text "ext-info-c") }

def handleKexMessage (env : SshEnv) (payload : Text) (session : SshSession) :
    SshOutput ε × SshSession :=
  if payload.getD 0 0 = sshMsgKexinit then
    match parseKexInitFields payload with
    | none => (silent, { session with state := .sessionClose })
    | some fields =>
      let session := negotiated env fields session
      if session.macLen = 0 ∨ session.negotiatedHostkeyAlgo = .min then
        (silent, { session with state := .sessionClose })
      else
        ({ silent with events := [.kexInit session.macLen session.negotiatedHostkeyAlgo] },
          { session with state := .kexInitSend })
  else if payload.getD 0 0 = sshMsgKexdhInit then
    match parseKexEcdhInit payload with
    | none => (silent, { session with state := .sessionClose })
    | some pubkey => (silent, { session with clientPubkey := pubkey, state := .kexdhInitSend })
  else
    (silent, session)

def handleKeyExchange (env : SshEnv) (session : SshSession) : SshOutput ε × SshSession :=
  if session.state = .kexInitRecv ∨ session.state = .kexdhInitRecv then
    match parseReceivedPacket session with
    | (.payload payload, session) => handleKexMessage env payload session
    | (.failed _, session) => (silent, { session with state := .sessionClose })
    | (_, session) => (silent, session)
  else if session.state = .kexInitSend then
    if 0 < session.serverKexInitSent then
      (silent, { session with state := .kexdhInitRecv })
    else
      ({ silent with replies := [sshMsgKexinit] },
        { session with
          serverKexInitSent := session.serverKexInitSent + 1
          state := if env.sendOk then .kexdhInitRecv else .sessionClose })
  else
    match env.ecdhReply with
    | none => (silent, { session with state := .sessionClose })
    | some (sharedSecret, exchangeHash) =>
      let session := { session with
        sharedSecretKey := sharedSecret, exchangeHashH := exchangeHash }
      if env.sendOk then
        ({ silent with events := [.kexdhAnswered], replies := [31] },
          { session with state := .newkeysReceived })
      else
        ({ silent with replies := [31] }, { session with state := .sessionClose })

/-- `append_mpint`: leading zeros are dropped, and a zero is put in front of a
set top bit. -/
def mpint (data : Text) : Text :=
  let digits := data.dropWhile (· = 0)
  sshString (if 0x80 ≤ digits.getD 0 0 then 0 :: digits else digits)

variable (crypto : SshCrypto) (channel : ChannelService ε)

/-- `derive_key`: the session identifier is the exchange hash itself. -/
def deriveKey (session : SshSession) (keyType : UInt8) (outLen : ℕ) : Text :=
  (crypto.sha256 (mpint session.sharedSecretKey ++ session.exchangeHashH ++ [keyType] ++
    session.exchangeHashH)).take outLen

def deriveKeys (session : SshSession) : DerivedKeys where
  ivCtos := deriveKey crypto session 0x41 16
  ivStoc := deriveKey crypto session 0x42 16
  encKeyCtos := deriveKey crypto session 0x43 16
  encKeyStoc := deriveKey crypto session 0x44 16
  macKeyCtos := deriveKey crypto session 0x45 32
  macKeyStoc := deriveKey crypto session 0x46 32

def withKeys (keys : DerivedKeys) (session : SshSession) : SshSession :=
  { session with
    keys := keys
    aesCtxCtos := { key := keys.encKeyCtos, iv := keys.ivCtos } }

/-- A `USERAUTH_REQUEST`: the decision, the reply and, on success, the identity of
the session. -/
def handleUserauthRequest (env : SshEnv) (origin : Origin) (payload : Text)
    (session : SshSession) : SshOutput ε × SshSession :=
  let verdict :=
    match parseUserauthRequest payload with
    | none => AuthVerdict.refused
    | some request => judgeRequest crypto env.device session request
  match verdict with
  | .pkOk =>
    ({ silent with
        events := [.userauthRequest origin payload none]
        replies := [sshMsgUserauthPkOk] }, session)
  | .refused =>
    ({ silent with
        events := [.userauthRequest origin payload none]
        replies := [sshMsgUserauthFailure] }, session)
  | .authed username =>
    if ¬ env.attachOk then
      ({ silent with
          events := [.userauthRequest origin payload none]
          replies := [sshMsgDisconnect] }, { session with state := .sessionClose })
    else if env.sendOk then
      ({ silent with
          events := [.userauthRequest origin payload (some (setAuthorized env.device username))]
          replies := [sshMsgUserauthSuccess] }, { session with state := .channelRequest })
    else
      ({ silent with
          events := [.userauthRequest origin payload none]
          replies := [sshMsgUserauthSuccess] }, session)

/-- A message in the authentication phase, whichever way it came in. -/
def handleAuthMessage (env : SshEnv) (origin : Origin) (payload : Text)
    (session : SshSession) : SshOutput ε × SshSession :=
  if payload.getD 0 0 = sshMsgNewkeys then
    if env.sendOk then
      let keys := deriveKeys crypto session
      ({ silent with
          events := [.newKeys keys]
          replies := sshMsgNewkeys :: if session.clientExtInfo then [sshMsgExtInfo] else [] },
        { withKeys keys session with state := .authenticationRequest })
    else
      ({ silent with replies := [sshMsgNewkeys] }, { session with state := .sessionClose })
  else if payload.getD 0 0 = sshMsgServiceRequest then
    ({ silent with events := [.serviceRequest origin], replies := [sshMsgServiceAccept] },
      { session with
        config := if session.configLoaded then session.config else env.loadSshConfig session.config
        configLoaded := true })
  else if payload.getD 0 0 = sshMsgUserauthRequest then
    handleUserauthRequest crypto env origin payload session
  else
    (silent, session)

/-- `handleAuthentication`: packets are taken as encrypted only in the states past
`SESSION_STATE_NEWKEYS_RECEIVED`. -/
def handleAuthentication (env : SshEnv) (session : SshSession) : SshOutput ε × SshSession :=
  if session.state = .authenticationRequest then
    let reception := parseEncryptedPacket crypto env.bulk session
    match reception.result with
    | .payload payload =>
      handleAuthMessage crypto env (.sealed (nextSealed crypto session)) payload
        reception.session
    | .failed _ => (silent, { reception.session with state := .sessionClose })
    | _ => (silent, reception.session)
  else
    match parseReceivedPacket session with
    | (.payload payload, session) => handleAuthMessage crypto env .plain payload session
    | (.failed _, session) => (silent, { session with state := .sessionClose })
    | (_, session) => (silent, session)

/-- The packet of a turn in the channel phase: handled when it was accepted, and
the end of the session when it was not.  Blocks go to the callback as they come. -/
def handleChannelPacket (env : SshEnv)
    (session : SshSession) : List ε × SshSession :=
  let reception := parseEncryptedPacket crypto env.bulk session
  let blocks := reception.handed.flatMap fun block => channel.onBlock block reception.session
  match reception.result with
  | .payload payload =>
    let (effects, fate, callback) := channel.onPayload payload reception.session
    (blocks ++ effects,
      { reception.session with state := fate.state, bolusCallback := callback })
  | .failed _ => (blocks, { reception.session with state := .sessionClose })
  | _ => (blocks, reception.session)

/-- `handleChannelRequest`: the packet, then the terminal input still pending. -/
def handleChannelRequest (env : SshEnv)
    (session : SshSession) : SshOutput ε × SshSession :=
  let (effects, session) := handleChannelPacket crypto channel env session
  let (more, fate) := channel.pending session
  ({ events := [], replies := [], effects := effects ++ more },
    match fate with
    | .stay => session
    | _ => { session with state := fate.state })

/-- The session once the idle timer has been looked at. -/
def checkTimeout (env : SshEnv) (session : SshSession) : SshSession :=
  if session.state = .channelRequest ∨ session.state = .sessionEstablished then
    if env.idle then { session with state := .sessionTimeout } else session
  else if session.rx = [] ∧ env.idle then
    { session with state := .sessionTimeout }
  else
    session

def inbox (env : SshEnv) (session : SshSession) : SshSession :=
  checkTimeout env { session with rx := session.rx ++ env.arrived }

def ongoing (outcome : SshOutput ε × SshSession) : SshOutput ε × Option SshSession :=
  (outcome.1, some outcome.2)

/-- `serviceSession`.  A session that is gone is `none`. -/
def serviceSession (env : SshEnv)
    (session : SshSession) : SshOutput ε × Option SshSession :=
  if ¬ env.connected then
    (silent, none)
  else
    let session := inbox env session
    match session.state with
    | .waitingForClient | .clientConnected | .vexRecv =>
      (silent, some (handleVersionExchange session))
    | .kexInitRecv | .kexInitSend | .kexdhInitRecv | .kexdhInitSend =>
      ongoing (handleKeyExchange env session)
    | .newkeysReceived | .authenticationRequest =>
      ongoing (handleAuthentication crypto env session)
    | .channelRequest =>
      ongoing (handleChannelRequest crypto channel env session)
    | .sessionTimeout | .sessionClose => (silent, none)
    | .vexSend | .sessionEstablished => (silent, some session)

/-- The machine whose turns are those of one session. -/
def turn : Option SshSession → SshEnv → SshOutput ε × Option SshSession
  | none, _ => (silent, none)
  | some session, env => serviceSession crypto channel env session

def eventsOf (history : List (SshEnv × SshOutput ε)) : List SshEvent :=
  history.flatMap fun entry => entry.2.events

/-- Primitives that leave everything in the clear and verify no signature. -/
def sampleCrypto : SshCrypto where
  cipher := fun _ _ => zeros 16
  sha256 := fun _ => zeros 32
  hmacSha1 := fun _ _ => zeros 20
  hmacSha256 := fun _ _ => zeros 32
  ed25519Verify := fun _ _ _ => false
  rsaVerify := fun _ _ _ _ _ => false

/-- A turn in which everything works and these bytes arrive. -/
def sampleTurn (device : AuthDevice) (arrived : Text) : SshEnv where
  arrived := arrived
  connected := true
  idle := false
  sendOk := true
  attachOk := true
  haveEd25519 := true
  haveRsa := false
  ecdhReply := some (zeros 32, zeros 32)
  loadSshConfig := id
  device := device
  bulk :=
    { start := 0, kept := { buffer := zeros 16, bi := 16 }, answers := fun _ => true
      passes := [] }

end PdiStack.Session
