import PdiStack.Ssh.Session

/-!
# The order of the handshake

A session must not open channels before the key exchange is complete and the user has
been authenticated through a packet protected by the new keys (`Authenticated`).
`NothingBeforeKeys` says that no authentication message is acted on earlier.

Two turns can break the order: in `SESSION_STATE_KEX_INIT_RECV` the server accepts the
second key exchange message without the first, and in `SESSION_STATE_NEWKEYS_RECEIVED` it
acts on authentication messages in the clear.  `orderlyTurn` excludes these two.
-/

namespace PdiStack.Handshake

open StringOperations Message Aes Packet UserAuth Session StateMachine List

variable {ε : Type}

/-- A `KEXINIT` was negotiated, with a MAC and a host key algorithm set from it. -/
def Negotiated (trace : List SshEvent) : Prop :=
  ∃ macLen algorithm, SshEvent.kexInit macLen algorithm ∈ trace ∧
    (macLen = 20 ∨ macLen = 32) ∧ algorithm ≠ .min

def Answered (trace : List SshEvent) : Prop :=
  ∃ before after, trace = before ++ .kexdhAnswered :: after ∧ Negotiated before

/-- After that a `NEWKEYS` came in and the keys were derived. -/
def Keyed (keys : DerivedKeys) (trace : List SshEvent) : Prop :=
  ∃ before after, trace = before ++ .newKeys keys :: after ∧ Answered before

/-- A payload taken from a packet that was decrypted under the keys and whose MAC
matched. -/
structure SealedUnder (crypto : SshCrypto) (keys : DerivedKeys) (packet : SealedPacket)
    (payload : Text) : Prop where
  macKey_eq : packet.macKey = keys.macKeyCtos
  cipherKey_eq : packet.ctx.key = keys.encKeyCtos
  authentic : packet.authentic crypto
  payload_eq : payload = packet.payload crypto

/-- After that a `USERAUTH_REQUEST` in a packet protected by those keys
succeeded. -/
def Authenticated (crypto : SshCrypto) (trace : List SshEvent) : Prop :=
  ∃ before after keys packet payload identity,
    trace = before ++ .userauthRequest (.sealed packet) payload (some identity) :: after ∧
      Keyed keys before ∧ SealedUnder crypto keys packet payload

/-- The messages that belong after the key exchange. -/
def isAuthMessage : SshEvent → Bool
  | .serviceRequest _ => true
  | .userauthRequest _ _ _ => true
  | _ => false

def NothingBeforeKeys (trace : List SshEvent) : Prop :=
  ∀ before event after, trace = before ++ event :: after → isAuthMessage event →
    ∃ keys, SshEvent.newKeys keys ∈ before

/-! ## Orderly turns -/

def plainMessage (session : SshSession) : Option UInt8 :=
  match (parseReceivedPacket session).1 with
  | .payload payload => some (payload.getD 0 0)
  | _ => none

/-- The turn does not take a `KEXDH_INIT` where a `KEXINIT` is due, nor an
authentication message where a `NEWKEYS` is due. -/
def orderlyTurn (env : SshEnv) (session : SshSession) : Bool :=
  match session.state with
  | .kexInitRecv => plainMessage (inbox env session) ≠ some sshMsgKexdhInit
  | .newkeysReceived =>
    plainMessage (inbox env session) ≠ some sshMsgServiceRequest ∧
      plainMessage (inbox env session) ≠ some sshMsgUserauthRequest
  | _ => true

/-- A turn of the machine is orderly; a session that is gone takes no turns. -/
def Orderly (reached : Option SshSession) (env : SshEnv) : Prop := reached.all (orderlyTurn env)

instance (reached : Option SshSession) (env : SshEnv) : Decidable (Orderly reached env) :=
  inferInstanceAs (Decidable (_ = true))

/-! ## What later events leave standing -/

variable {trace : List SshEvent}

theorem Negotiated.append (hdone : Negotiated trace)
    (more : List SshEvent) : Negotiated (trace ++ more) := by
  obtain ⟨macLen, algorithm, hmem, hgood⟩ := hdone
  exact ⟨macLen, algorithm, mem_append_left more hmem, hgood⟩

theorem Answered.append (hdone : Answered trace) (more : List SshEvent) :
    Answered (trace ++ more) := by
  obtain ⟨before, after, rfl, hbefore⟩ := hdone
  exact ⟨before, after ++ more, by simp, hbefore⟩

variable {keys : DerivedKeys}

theorem Keyed.append (hdone : Keyed keys trace) (more : List SshEvent) :
    Keyed keys (trace ++ more) := by
  obtain ⟨before, after, rfl, hbefore⟩ := hdone
  exact ⟨before, after ++ more, by simp, hbefore⟩

theorem Authenticated.append {crypto : SshCrypto}
    (hdone : Authenticated crypto trace) (more : List SshEvent) :
    Authenticated crypto (trace ++ more) := by
  obtain ⟨before, after, keys, packet, payload, identity, rfl, hrest⟩ := hdone
  exact ⟨before, after ++ more, keys, packet, payload, identity, by simp, hrest⟩

theorem Keyed.mem (hdone : Keyed keys trace) : SshEvent.newKeys keys ∈ trace := by
  obtain ⟨before, after, rfl, -⟩ := hdone
  simp

/-- One more event leaves the early part silent, when it is no authentication
message or keys have been derived before it. -/
theorem NothingBeforeKeys.append_singleton {event : SshEvent}
    (hquiet : NothingBeforeKeys trace)
    (hlate : isAuthMessage event → ∃ keys, SshEvent.newKeys keys ∈ trace) :
    NothingBeforeKeys (trace ++ [event]) := by
  intro before found after hsplit hauth
  rcases eq_nil_or_concat after with rfl | ⟨init, last, rfl⟩
  · obtain ⟨rfl, hevent⟩ := append_inj' hsplit rfl
    cases singleton_inj.mp hevent
    exact hlate hauth
  · have hlonger : trace ++ [event] = before ++ found :: init ++ [last] := by
      simpa using hsplit
    exact hquiet before found init (append_inj_left' hlonger rfl) hauth

theorem Keyed.answered (hdone : Keyed keys trace) : Answered trace := by
  obtain ⟨before, after, rfl, hbefore⟩ := hdone
  exact hbefore.append _

/-! ## The invariant of a session -/

/-- The states of a session that has not opened channels yet. -/
def beforeChannel : SessionState → Bool
  | .channelRequest | .sessionEstablished | .sessionTimeout | .sessionClose => false
  | _ => true

/-- What has happened by the time the session is in its state. -/
def Milestone (crypto : SshCrypto) (session : SshSession) (trace : List SshEvent) : Prop :=
  match session.state with
  | .kexInitSend | .kexdhInitRecv | .kexdhInitSend => Negotiated trace
  | .newkeysReceived => Answered trace
  | .authenticationRequest =>
    Keyed session.keys trace ∧ session.aesCtxCtos.key = session.keys.encKeyCtos
  | .channelRequest => Authenticated crypto trace
  | _ => True

structure InStep (crypto : SshCrypto) (session : SshSession) (trace : List SshEvent) : Prop where
  callback : beforeChannel session.state → session.bolusCallback = false
  milestone : Milestone crypto session trace
  quiet : NothingBeforeKeys trace

section

variable {crypto : SshCrypto} {session : SshSession} {trace : List SshEvent}

theorem Milestone.append (hdone : Milestone crypto session trace) (more : List SshEvent) :
    Milestone crypto session (trace ++ more) := by
  unfold Milestone at hdone ⊢
  split at hdone
  · exact Negotiated.append hdone more
  · exact Negotiated.append hdone more
  · exact Negotiated.append hdone more
  · exact Answered.append hdone more
  · exact ⟨hdone.1.append more, hdone.2⟩
  · exact Authenticated.append hdone more
  · trivial

/-- A session that is about to be closed has nothing left to show. -/
theorem InStep.over (hquiet : NothingBeforeKeys trace)
    (hstate : session.state = .sessionClose ∨ session.state = .sessionTimeout) :
    InStep crypto session trace := by
  refine ⟨?_, ?_, hquiet⟩
  · rcases hstate with hstate | hstate <;> simp [hstate, beforeChannel]
  · rcases hstate with hstate | hstate <;> simp [hstate, Milestone]

variable {next : SshSession} {payload : Text} (channel : ChannelService ε) (env : SshEnv)

/-- The invariant looks at four parts of the session only. -/
theorem InStep.of_same (hstep : InStep crypto session trace) (hstate : next.state = session.state)
    (hkeys : next.keys = session.keys) (hcipher : next.aesCtxCtos.key = session.aesCtxCtos.key)
    (hcallback : next.bolusCallback = session.bolusCallback) : InStep crypto next trace := by
  refine ⟨?_, ?_, hstep.quiet⟩
  · rw [hstate, hcallback]
    exact hstep.callback
  · have hdone := hstep.milestone
    unfold Milestone at hdone ⊢
    rw [hstate, hkeys, hcipher]
    exact hdone

/-! ## Parsing -/

theorem parseReceivedPacket_session (session : SshSession) :
    ∃ rx seq, (parseReceivedPacket session).2 =
      { session with rx := rx, packetsSeqNumCtos := seq } := by
  unfold parseReceivedPacket
  split <;> exact ⟨_, _, rfl⟩

theorem InStep.parseReceived (hstep : InStep crypto session trace) :
    InStep crypto (parseReceivedPacket session).2 trace := by
  obtain ⟨rx, seq, hread⟩ := parseReceivedPacket_session session
  rw [hread]
  exact hstep.of_same rfl rfl rfl rfl

/-! ## Version and key exchange -/

theorem handleVersionExchange_inStep (hstep : InStep crypto session trace)
    (hbefore : beforeChannel session.state) :
    InStep crypto (handleVersionExchange session) trace := by
  have hcallback := hstep.callback hbefore
  unfold handleVersionExchange
  dsimp only
  split
  · exact ⟨fun _ => hcallback, trivial, hstep.quiet⟩
  · exact ⟨fun _ => hcallback, trivial, hstep.quiet⟩

theorem negotiateMac_cases (algorithms : List Text) (hfound : negotiateMac algorithms ≠ 0) :
    negotiateMac algorithms = 20 ∨ negotiateMac algorithms = 32 := by
  unfold negotiateMac at hfound ⊢
  cases hpick : algorithms.findSome? _ with
  | none => simp [hpick] at hfound
  | some macLen =>
    obtain ⟨name, -, hname⟩ := exists_of_findSome?_eq_some hpick
    split at hname
    · cases hname
      exact .inr rfl
    split at hname
    · cases hname
      exact .inl rfl
    · cases hname

/-- The invariant after a handler, with the events it has added. -/
def StaysInStep (crypto : SshCrypto) (trace : List SshEvent)
    (outcome : SshOutput ε × SshSession) : Prop :=
  InStep crypto outcome.2 (trace ++ outcome.1.events)

theorem staysInStep_of_no_events {outcome : SshOutput ε × SshSession}
    (hevents : outcome.1.events = []) (hstep : InStep crypto outcome.2 trace) :
    StaysInStep crypto trace outcome := by
  rw [StaysInStep, hevents, append_nil]
  exact hstep

/-- A key exchange message keeps the invariant, unless it is a `KEXDH_INIT` that
comes before a `KEXINIT`. -/
theorem handleKexMessage_inStep (hstep : InStep crypto session trace)
    (hbefore : beforeChannel session.state)
    (horder : payload.getD 0 0 = sshMsgKexdhInit → Negotiated trace) :
    StaysInStep crypto trace
      (handleKexMessage env payload session : SshOutput ε × SshSession) := by
  have hcallback := hstep.callback hbefore
  unfold handleKexMessage
  split
  · split
    · exact staysInStep_of_no_events rfl (.over hstep.quiet (.inl rfl))
    dsimp only
    split
    · exact staysInStep_of_no_events rfl (.over hstep.quiet (.inl rfl))
    · rename_i hgood
      obtain ⟨hmac, halgorithm⟩ := not_or.mp hgood
      refine ⟨fun _ => hcallback, ?_, hstep.quiet.append_singleton nofun⟩
      exact ⟨_, _, mem_append_right trace (mem_singleton_self _),
        negotiateMac_cases _ hmac, halgorithm⟩
  split
  · rename_i hkexdh
    split
    · exact staysInStep_of_no_events rfl (.over hstep.quiet (.inl rfl))
    · exact staysInStep_of_no_events rfl ⟨fun _ => hcallback, horder hkexdh, hstep.quiet⟩
  · exact staysInStep_of_no_events rfl hstep

theorem plainMessage_eq_some (hparsed : parseReceivedPacket session = (.payload payload, next)) :
    plainMessage session = some (payload.getD 0 0) := by
  rw [plainMessage, hparsed]

def inKeyExchange (state : SessionState) : Prop :=
  state = .kexInitRecv ∨ state = .kexInitSend ∨ state = .kexdhInitRecv ∨ state = .kexdhInitSend

theorem handleKeyExchange_inStep (hstep : InStep crypto session trace)
    (hstate : inKeyExchange session.state)
    (horder : session.state = .kexInitRecv → plainMessage session ≠ some sshMsgKexdhInit) :
    StaysInStep crypto trace (handleKeyExchange env session : SshOutput ε × SshSession) := by
  have hbefore : beforeChannel session.state := by
    rcases hstate with hstate | hstate | hstate | hstate <;> rw [hstate] <;> rfl
  have hcallback := hstep.callback hbefore
  have hmilestone := hstep.milestone
  have hparsed := hstep.parseReceived
  unfold handleKeyExchange
  split
  · rename_i hreceiving
    split
    · rename_i payload next hpacket
      rw [hpacket] at hparsed
      refine handleKexMessage_inStep env hparsed ?_ fun hkexdh => ?_
      · obtain ⟨rx, seq, hread⟩ := parseReceivedPacket_session session
        rw [hpacket] at hread
        cases hread
        exact hbefore
      · rcases hreceiving with hinit | hdh
        · exact absurd (plainMessage_eq_some hpacket ▸ congrArg some hkexdh) (horder hinit)
        · rwa [Milestone, hdh] at hmilestone
    · exact staysInStep_of_no_events rfl (.over hstep.quiet (.inl rfl))
    · rename_i hpacket
      rw [hpacket] at hparsed
      exact staysInStep_of_no_events rfl hparsed
  rename_i hnotReceiving
  split
  · rename_i hsend
    rw [Milestone, hsend] at hmilestone
    split
    · exact staysInStep_of_no_events rfl ⟨fun _ => hcallback, hmilestone, hstep.quiet⟩
    · refine staysInStep_of_no_events rfl ?_
      split
      · exact ⟨fun _ => hcallback, hmilestone, hstep.quiet⟩
      · exact .over hstep.quiet (.inl rfl)
  · rename_i hnotSend
    have hdh : session.state = .kexdhInitSend := by
      rcases hstate with hinit | hsend | hrecv | hdh
      · exact absurd (.inl hinit) hnotReceiving
      · exact absurd hsend hnotSend
      · exact absurd (.inr hrecv) hnotReceiving
      · exact hdh
    rw [Milestone, hdh] at hmilestone
    split
    · exact staysInStep_of_no_events rfl (.over hstep.quiet (.inl rfl))
    · split
      · exact ⟨fun _ => hcallback, ⟨trace, [], rfl, hmilestone⟩,
          hstep.quiet.append_singleton nofun⟩
      · exact staysInStep_of_no_events rfl (.over hstep.quiet (.inl rfl))

/-! ## Authentication -/

section

variable (hstep : InStep crypto session trace)
include hstep

/-- A user authentication request in a packet protected by the session's keys. -/
theorem handleUserauthRequest_inStep {packet : SealedPacket}
    (hstate : session.state = .authenticationRequest)
    (hsealed : SealedUnder crypto session.keys packet payload) : StaysInStep crypto trace
      (handleUserauthRequest crypto env (.sealed packet) payload session :
        SshOutput ε × SshSession) := by
  have hkeyed : Keyed session.keys trace := by
    have hmilestone := hstep.milestone
    rw [Milestone, hstate] at hmilestone
    exact hmilestone.1
  -- Whatever the verdict, the one event it adds comes after the keys.
  have hquiet : ∀ accepted, NothingBeforeKeys
      (trace ++ [.userauthRequest (.sealed packet) payload accepted]) := fun accepted =>
    hstep.quiet.append_singleton fun _ => ⟨_, hkeyed.mem⟩
  have hunchanged : ∀ accepted, InStep crypto session
      (trace ++ [.userauthRequest (.sealed packet) payload accepted]) := fun accepted =>
    ⟨hstep.callback, hstep.milestone.append _, hquiet accepted⟩
  unfold handleUserauthRequest
  dsimp only
  split
  · exact hunchanged none
  · exact hunchanged none
  · split
    · exact .over (hquiet none) (.inl rfl)
    split
    · refine ⟨nofun, ?_, hquiet _⟩
      exact ⟨trace, [], session.keys, packet, payload, _, rfl, hkeyed, hsealed⟩
    · exact hunchanged none

/-- A message of the authentication phase keeps the invariant, when the messages
that authenticate come in protected packets. -/
theorem handleAuthMessage_inStep {origin : Origin} (hanswered : Answered trace)
    (hbefore : beforeChannel session.state) (horder : payload.getD 0 0 = sshMsgServiceRequest ∨
        payload.getD 0 0 = sshMsgUserauthRequest →
      session.state = .authenticationRequest ∧
        ∃ packet, origin = .sealed packet ∧ SealedUnder crypto session.keys packet payload) :
    StaysInStep crypto trace
      (handleAuthMessage crypto env origin payload session : SshOutput ε × SshSession) := by
  have hcallback := hstep.callback hbefore
  unfold handleAuthMessage
  split
  · split
    · refine ⟨fun _ => hcallback, ⟨⟨trace, [], rfl, hanswered⟩, rfl⟩, ?_⟩
      exact hstep.quiet.append_singleton nofun
    · exact staysInStep_of_no_events rfl (.over hstep.quiet (.inl rfl))
  split
  · rename_i hservice
    obtain ⟨hstate, -⟩ := horder (.inl hservice)
    have hmilestone := hstep.milestone
    rw [Milestone, hstate] at hmilestone
    have hadded : InStep crypto session (trace ++ [.serviceRequest origin]) :=
      ⟨hstep.callback, hstep.milestone.append _,
        hstep.quiet.append_singleton fun _ => ⟨_, hmilestone.1.mem⟩⟩
    exact hadded.of_same rfl rfl rfl rfl
  split
  · rename_i huserauth
    obtain ⟨hstate, packet, rfl, hsealed⟩ := horder (.inr huserauth)
    exact handleUserauthRequest_inStep env hstep hstate hsealed
  · exact staysInStep_of_no_events rfl hstep

theorem handleAuthentication_inStep
    (hstate : session.state = .newkeysReceived ∨ session.state = .authenticationRequest)
    (horder : session.state = .newkeysReceived →
      plainMessage session ≠ some sshMsgServiceRequest ∧
        plainMessage session ≠ some sshMsgUserauthRequest) :
    StaysInStep crypto trace (handleAuthentication crypto env session : SshOutput ε × SshSession) := by
  have hbefore : beforeChannel session.state := by
    rcases hstate with hstate | hstate <;> rw [hstate] <;> rfl
  have hmilestone := hstep.milestone
  unfold handleAuthentication
  split
  · rename_i hsealedState
    rw [Milestone, hsealedState] at hmilestone
    obtain ⟨hkeyed, hcipher⟩ := hmilestone
    rw [parseEncryptedPacket_of_no_callback env.bulk (hstep.callback hbefore)]
    dsimp only
    obtain ⟨rx, iv, seq, hread⟩ := parseSealedPacket_session crypto session
    have hparsed : InStep crypto (parseSealedPacket crypto session).2 trace := by
      rw [hread]
      exact hstep.of_same rfl rfl rfl rfl
    rw [hread] at hparsed ⊢
    split
    · rename_i payload hpayload
      obtain ⟨hauthentic, hpayloadEq⟩ := parseSealedPacket_payload hpayload
      refine handleAuthMessage_inStep env hparsed hkeyed.answered hbefore fun _ => ?_
      exact ⟨hsealedState, _, rfl, rfl, hcipher, hauthentic, hpayloadEq⟩
    · exact staysInStep_of_no_events rfl (.over hstep.quiet (.inl rfl))
    · exact staysInStep_of_no_events rfl hparsed
  · rename_i hplainState
    have hnewkeys : session.state = .newkeysReceived := hstate.resolve_right hplainState
    rw [Milestone, hnewkeys] at hmilestone
    obtain ⟨hservice, huserauth⟩ := horder hnewkeys
    have hparsed := hstep.parseReceived
    obtain ⟨rx, seq, hread⟩ := parseReceivedPacket_session session
    split
    · rename_i payload next hpacket
      rw [hpacket] at hparsed hread
      cases hread
      rw [plainMessage_eq_some hpacket] at hservice huserauth
      refine handleAuthMessage_inStep env hparsed hmilestone hbefore fun hmessage => ?_
      rcases hmessage with hmessage | hmessage
      · exact absurd (congrArg some hmessage) hservice
      · exact absurd (congrArg some hmessage) huserauth
    · exact staysInStep_of_no_events rfl (.over hstep.quiet (.inl rfl))
    · rename_i hpacket
      rw [hpacket] at hparsed
      exact staysInStep_of_no_events rfl hparsed

end

/-! ## Channels and whole turns -/

/-- A session that has opened channels, or is over, stays there. -/
def pastHandshake (state : SessionState) : Prop :=
  state = .channelRequest ∨ state = .sessionTimeout ∨ state = .sessionClose

theorem ChannelFate.pastHandshake_state (fate : ChannelFate) : pastHandshake fate.state := by
  cases fate
  · exact .inl rfl
  · exact .inr (.inl rfl)
  · exact .inr (.inr rfl)

theorem InStep.of_pastHandshake (hstep : InStep crypto session trace)
    (hstate : session.state = .channelRequest) (hnext : pastHandshake next.state) :
    InStep crypto next trace := by
  have hmilestone := hstep.milestone
  rw [Milestone, hstate] at hmilestone
  rcases hnext with hchannel | hover | hover
  · refine ⟨by simp [hchannel, beforeChannel], ?_, hstep.quiet⟩
    rw [Milestone, hchannel]
    exact hmilestone
  · exact .over hstep.quiet (.inr hover)
  · exact .over hstep.quiet (.inl hover)

theorem handleChannelPacket_pastHandshake
    (hstate : session.state = .channelRequest) :
    pastHandshake (handleChannelPacket crypto channel env session).2.state := by
  have hreceived := parseEncryptedPacket_state crypto env.bulk session
  unfold handleChannelPacket
  dsimp only
  split
  · exact ChannelFate.pastHandshake_state _
  · exact .inr (.inr rfl)
  · exact .inl (hreceived.trans hstate)

theorem handleChannelRequest_inStep (hstep : InStep crypto session trace)
    (hstate : session.state = .channelRequest) :
    StaysInStep crypto trace (handleChannelRequest crypto channel env session) := by
  refine staysInStep_of_no_events rfl (hstep.of_pastHandshake hstate ?_)
  have hpacket : pastHandshake (handleChannelPacket crypto channel env session).2.state :=
    handleChannelPacket_pastHandshake channel env hstate
  unfold handleChannelRequest
  dsimp only
  split
  · exact hpacket
  · exact ChannelFate.pastHandshake_state _

theorem inbox_eq (session : SshSession) : ∃ state, inbox env session =
    { session with state := state, rx := session.rx ++ env.arrived } ∧
      (state = session.state ∨ state = .sessionTimeout) := by
  unfold inbox checkTimeout
  repeat' split
  all_goals first
    | exact ⟨session.state, rfl, .inl rfl⟩
    | exact ⟨.sessionTimeout, rfl, .inr rfl⟩

theorem inbox_inStep (hstep : InStep crypto session trace) :
    InStep crypto (inbox env session) trace := by
  obtain ⟨state, hinbox, rfl | rfl⟩ := inbox_eq env session
  · rw [hinbox]
    exact hstep.of_same rfl rfl rfl rfl
  · rw [hinbox]
    exact .over hstep.quiet (.inr rfl)

theorem inbox_state {env : SshEnv} (hactive : (inbox env session).state ≠ .sessionTimeout) :
    (inbox env session).state = session.state := by
  obtain ⟨state, hinbox, hstate⟩ := inbox_eq env session
  rw [hinbox] at hactive ⊢
  exact hstate.resolve_right hactive

/-- What is known between two turns; a session that is gone has nothing left to
show. -/
def Standing (crypto : SshCrypto) (reached : Option SshSession) (trace : List SshEvent) : Prop :=
  NothingBeforeKeys trace ∧ ∀ session, reached = some session → InStep crypto session trace

theorem StaysInStep.standing {outcome : SshOutput ε × SshSession}
    (hstays : StaysInStep crypto trace outcome) :
    Standing crypto (ongoing outcome).2 (trace ++ (ongoing outcome).1.events) := by
  refine ⟨hstays.quiet, fun session hsession => ?_⟩
  cases hsession
  exact hstays

theorem standing_of_silent {reached : Option SshSession} (hquiet : NothingBeforeKeys trace)
    (hstep : ∀ session, reached = some session → InStep crypto session trace) :
    Standing crypto reached (trace ++ (silent : SshOutput ε).events) := by
  rw [silent, append_nil]
  exact ⟨hquiet, hstep⟩

theorem standing_gone (hquiet : NothingBeforeKeys trace) :
    Standing crypto none (trace ++ (silent : SshOutput ε).events) :=
  standing_of_silent hquiet fun session hgone => absurd hgone.symm (Option.some_ne_none session)

/-- What an orderly turn finds where a `KEXINIT` is due. -/
theorem orderlyTurn_kexInit {env : SshEnv} (horderly : orderlyTurn env session)
    (hstate : (inbox env session).state = .kexInitRecv) :
    plainMessage (inbox env session) ≠ some sshMsgKexdhInit := by
  rw [orderlyTurn, ← inbox_state (by rw [hstate]; nofun), hstate] at horderly
  exact of_decide_eq_true horderly

/-- What an orderly turn finds where a `NEWKEYS` is due. -/
theorem orderlyTurn_newkeys {env : SshEnv} (horderly : orderlyTurn env session)
    (hstate : (inbox env session).state = .newkeysReceived) :
    plainMessage (inbox env session) ≠ some sshMsgServiceRequest ∧
      plainMessage (inbox env session) ≠ some sshMsgUserauthRequest := by
  rw [orderlyTurn, ← inbox_state (by rw [hstate]; nofun), hstate] at horderly
  exact of_decide_eq_true horderly

theorem serviceSession_standing (hstep : InStep crypto session trace)
    (horderly : orderlyTurn env session) :
    Standing crypto (serviceSession crypto channel env session).2
      (trace ++ (serviceSession crypto channel env session).1.events) := by
  have hfound := inbox_inStep env hstep
  have hkexInit := orderlyTurn_kexInit horderly
  have hnewkeys := orderlyTurn_newkeys horderly
  unfold serviceSession
  generalize inbox env session = found at *
  split
  · exact standing_gone hstep.quiet
  dsimp only
  cases hstate : found.state
  case waitingForClient | clientConnected | vexRecv =>
    refine standing_of_silent hstep.quiet fun next hnext => ?_
    cases hnext
    exact handleVersionExchange_inStep hfound (by rw [hstate]; rfl)
  case kexInitRecv | kexInitSend | kexdhInitRecv | kexdhInitSend =>
    exact (handleKeyExchange_inStep env hfound (by simp [inKeyExchange, hstate]) hkexInit).standing
  case newkeysReceived | authenticationRequest =>
    exact (handleAuthentication_inStep env hfound (by simp [hstate]) hnewkeys).standing
  case channelRequest =>
    exact (handleChannelRequest_inStep channel env hfound hstate).standing
  case sessionTimeout | sessionClose =>
    exact standing_gone hstep.quiet
  case vexSend | sessionEstablished =>
    refine standing_of_silent hstep.quiet fun next hnext => ?_
    cases hnext
    exact hfound

theorem turn_standing (reached : Option SshSession) (trace : List SshEvent) (env : SshEnv)
    (horderly : Orderly reached env) (hstanding : Standing crypto reached trace) :
    Standing crypto (turn crypto channel reached env).2
      (trace ++ (turn crypto channel reached env).1.events) := by
  cases reached with
  | none => exact standing_gone hstanding.1
  | some session =>
    exact serviceSession_standing channel env (hstanding.2 session rfl) horderly

theorem standing_fresh (crypto : SshCrypto) : Standing crypto (some freshSession) [] := by
  have hquiet : NothingBeforeKeys [] := by
    intro before event after hsplit
    simp at hsplit
  refine ⟨hquiet, fun session hsession => ?_⟩
  cases hsession
  exact ⟨fun _ => rfl, trivial, hquiet⟩

end

/-- In a run of orderly turns, from a new client on, nothing of the authentication
happens before the keys are there, and a session that gets as far as opening
channels has completed every milestone in order. -/
theorem channelRequest_of_orderly (crypto : SshCrypto) (channel : ChannelService ε)
    (inputs : List SshEnv)
    (horderly : Allowed (turn crypto channel) Orderly inputs (some freshSession)) :
    let outcome := run (turn crypto channel) inputs (some freshSession)
    NothingBeforeKeys (eventsOf outcome.1) ∧
      ∀ session, outcome.2 = some session → session.state = .channelRequest →
        Authenticated crypto (eventsOf outcome.1) := by
  intro outcome
  have hstanding : Standing crypto outcome.2
      (outcome.1.foldl (fun trace entry => trace ++ entry.2.events) []) :=
    run_simulation_of_allowed _ (Standing crypto) (turn_standing channel) inputs horderly
      (standing_fresh crypto)
  rw [foldl_append_eq_flatMap SshOutput.events] at hstanding
  refine ⟨hstanding.1, fun session hreached hstate => ?_⟩
  have hmilestone := (hstanding.2 session hreached).milestone
  rw [Milestone, hstate] at hmilestone
  exact hmilestone

/-! ## Two short runs -/

def sampleDevice : AuthDevice where
  homeDirectory := text "/home"
  configFile := fun _ => none
  findUserByName := fun _ => none
  shadowExists := false
  loginUsername := text "pdiStack"
  isAuthorized := fun username password =>
    username = text "pdiStack" && password = text "pdistack@123"

def sampleChannel : ChannelService Unit where
  onPayload := fun _ _ => ([], .stay, false)
  onBlock := fun _ _ => []
  pending := fun _ => ([], .stay)

def samplePacket (payload : Text) : Text :=
  bytesOfWord (payload.length + 5).toUInt32 ++ [4] ++ payload ++ zeros 4

def sampleKexInit : Text :=
  [sshMsgKexinit] ++ zeros 16 ++ sshString (text "curve25519-sha256") ++
    sshString sshEd25519KeyType ++ sshString (text "aes128-ctr") ++
    sshString (text "aes128-ctr") ++ sshString (text "hmac-sha1") ++
    sshString (text "hmac-sha1") ++ sshString (text "none") ++ sshString (text "none") ++
    sshString [] ++ sshString [] ++ zeros 5

def sampleKexdhInit : Text := [sshMsgKexdhInit] ++ sshString (zeros 32)

def sampleLogin : Text :=
  [sshMsgUserauthRequest] ++ sshString (text "pdiStack") ++ sshString (text "ssh-connection") ++
    sshString methodPassword ++ [0] ++ sshString (text "pdistack@123")

def sampleHandshake : List SshEnv :=
  [text "SSH-2.0-client" ++ [0x0D, 0x0A], samplePacket sampleKexInit, [],
    samplePacket sampleKexdhInit, [], samplePacket [sshMsgNewkeys],
    samplePacket [sshMsgServiceRequest] ++ zeros 20, samplePacket sampleLogin ++ zeros 20].map
    (sampleTurn sampleDevice)

theorem sampleHandshake_authenticated :
    let outcome := run (turn sampleCrypto sampleChannel) sampleHandshake (some freshSession)
    outcome.2.map SshSession.state = some .channelRequest ∧
      Authenticated sampleCrypto (eventsOf outcome.1) := by
  intro outcome
  have hreached : outcome.2.map SshSession.state = some .channelRequest := by decide +kernel
  obtain ⟨session, hsession, hstate⟩ := Option.map_eq_some_iff.mp hreached
  exact ⟨hreached, (channelRequest_of_orderly sampleCrypto sampleChannel sampleHandshake
    (by decide +kernel)).2 session hsession hstate⟩

/-- The turns of a client that skips the negotiation and the new keys. -/
def sampleShortcut : List SshEnv :=
  [text "SSH-2.0-client" ++ [0x0D, 0x0A], samplePacket sampleKexdhInit, [],
    samplePacket sampleLogin].map (sampleTurn sampleDevice)

/-- It gets as far as opening channels, and its login was in the clear. -/
theorem sampleShortcut_unauthenticated :
    let outcome := run (turn sampleCrypto sampleChannel) sampleShortcut (some freshSession)
    outcome.2.map SshSession.state = some .channelRequest ∧
      ¬ NothingBeforeKeys (eventsOf outcome.1) ∧
      ¬ Authenticated sampleCrypto (eventsOf outcome.1) := by
  intro outcome
  have hevents : eventsOf outcome.1 =
      [.kexdhAnswered, .userauthRequest .plain sampleLogin
        (some { username := text "pdiStack", uid := 0, gid := 0 })] := by decide +kernel
  have hnever : ∀ keys, SshEvent.newKeys keys ∉ eventsOf outcome.1 := by
    simp [hevents]
  refine ⟨by decide +kernel, fun hquiet => ?_, fun hauthenticated => ?_⟩
  · obtain ⟨keys, hmem⟩ := hquiet [.kexdhAnswered] _ [] hevents rfl
    simp at hmem
  · obtain ⟨before, after, keys, packet, payload, identity, htrace, hkeyed, -⟩ := hauthenticated
    exact hnever keys (htrace ▸ mem_append_left _ hkeyed.mem)

end PdiStack.Handshake
