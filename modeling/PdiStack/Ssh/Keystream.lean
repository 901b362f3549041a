import PdiStack.Core.StreamCells
import PdiStack.Ssh.Handshake
import PdiStack.Ssh.Transmission

/-!
# Key stream bytes

Which bytes of the AES key stream the server uses, over a whole session.  Every packet
moves one of two counters on, and `NEWKEYS` sets both to what the key exchange has left.
The length of a packet is looked at with a copy of the context, which is not counted.

The bulk path of the receiver keeps the rest of a block in a buffer that all sessions
share.  What other sessions leave there counts as a block of its own.
`keystream_used_once` is about the runs in which no second `NEWKEYS` comes in.
-/

namespace PdiStack.Keystream

open StringOperations Message Aes StreamCells StateMachine Packet Session Handshake PacketFraming
  Transmission List Bool

variable {ε : Type}

/-- A key block: of a key and a counter of this session, or one that another session has
left in the shared buffer. -/
inductive KeyBlock where
  | own (key counter : Text)
  | foreign (index : ℕ)
deriving DecidableEq

abbrev Cell := KeyBlock × ℕ

def aesNumbering (key : Text) : Numbering Text KeyBlock where
  size := aesBlockLen
  size_pos := by decide
  next := incrementIv
  name := .own key

def keyBytes (cipher : Text → Text → Text) (foreign : List Text) : KeyBlock → Text
  | .own key counter => cipher key counter
  | .foreign index => foreign.getD index []

/-- The cells of a call of the three-argument `AES_CTR_xcrypt_buffer`. -/
def bufferCells (ctx : AesCtx) (count : ℕ) : List Cell :=
  ((aesNumbering ctx.key).take count ⟨ctx.iv, []⟩).1

def Holds (cipher : Text → Text → Text) (foreign : List Text) (ctx : AesCtx) (kept : AesStatic)
    (spare : List Cell) : Prop :=
  Matches (aesNumbering ctx.key) (keyBytes cipher foreign) ⟨ctx.iv, kept.buffer, kept.bi⟩
    ⟨ctx.iv, spare⟩

section Calls

variable (cipher : Text → Text → Text) (foreign : List Text)

/-- The three-argument call mixes these cells in, and leaves the counter behind them. -/
theorem aesCtrXcryptBuffer_cells {ctx : AesCtx} {buf : Text} :
    (aesCtrXcryptBuffer cipher ctx buf).1 =
        zipWith (· ^^^ ·) buf
          ((bufferCells ctx buf.length).map (valueAt (keyBytes cipher foreign))) ∧
      (aesCtrXcryptBuffer cipher ctx buf).2 =
        { ctx with iv := ((aesNumbering ctx.key).take buf.length ⟨ctx.iv, []⟩).2.counter } := by
  obtain ⟨houtput, hafter⟩ := @apply_eq_zipWith Text KeyBlock UInt8 _ (aesCtr cipher ctx.key)
    (aesNumbering ctx.key) (keyBytes cipher foreign) rfl rfl (fun _ => rfl) buf
    ((aesCtr cipher ctx.key).restart ctx.iv) ⟨ctx.iv, []⟩ (matches_restart rfl ctx.iv)
  refine ⟨houtput, ?_⟩
  rw [← hafter.counter_eq]
  rfl

variable {cipher foreign}

/-- The four-argument call goes on with the cells left over. -/
theorem aesCtrXcryptChunk_cells {ctx : AesCtx} {kept : AesStatic} {spare : List Cell}
    (hholds : Holds cipher foreign ctx kept spare) {buf : Text} {resetCtx : Bool} :
    let taken := (aesNumbering ctx.key).take buf.length ⟨ctx.iv, spare⟩
    let after := aesCtrXcryptChunk cipher ctx kept buf resetCtx
    after.1 = zipWith (· ^^^ ·) buf (taken.1.map (valueAt (keyBytes cipher foreign))) ∧
      after.2.1 = { ctx with iv := taken.2.counter } ∧
      Holds cipher foreign after.2.1 after.2.2 (if resetCtx then [] else taken.2.spare) := by
  obtain ⟨houtput, hafter⟩ := @apply_eq_zipWith Text KeyBlock UInt8 _ (aesCtr cipher ctx.key)
    (aesNumbering ctx.key) (keyBytes cipher foreign) rfl rfl (fun _ => rfl) buf _ _ hholds
  refine ⟨houtput, ?_, ?_⟩
  · rw [← hafter.counter_eq]
    rfl
  · cases resetCtx with
    | true =>
      refine ⟨rfl, le_refl _, ?_⟩
      rfl
    | false => exact ⟨rfl, hafter.position_le, hafter.buffer_eq⟩

end Calls

/-! ## What a reception uses -/

/-- The cells of one pass of the bulk loop, once it has taken its bytes, and those it
leaves over. -/
def passCells (packetLength : UInt32) (state : BulkState) (spare : List Cell) :
    List Cell × List Cell :=
  let ctx := state.session.aesCtxCtos
  if Waits packetLength state then
    ([], spare)
  else if remaining packetLength state = 0 then
    (((aesNumbering ctx.key).take (state.packetvec.length - state.session.macLen)
      ⟨ctx.iv, spare⟩).1, [])
  else
    (((aesNumbering ctx.key).take state.packetvec.length ⟨ctx.iv, spare⟩).1,
      ((aesNumbering ctx.key).take state.packetvec.length ⟨ctx.iv, spare⟩).2.spare)

def loopCells (crypto : SshCrypto) (packetLength : UInt32) (answers : List Text → Bool) :
    List (Text × UInt32) → BulkState → List Cell → List Cell × List Cell
  | [], _, spare => ([], spare)
  | (arrived, clock) :: passes, state, spare =>
    let used := passCells packetLength (filled packetLength arrived state) spare
    match bulkPass crypto packetLength answers arrived clock state with
    | .looping next =>
      let more := loopCells crypto packetLength answers passes next used.2
      (used.1 ++ more.1, more.2)
    | _ => used

/-- The cells that a call of `parse_encrypted_packet` decrypts with. -/
def receptionCells (crypto : SshCrypto) (context : BulkContext) (session : SshSession)
    (spare : List Cell) : List Cell × List Cell :=
  if session.rx.length < 4 + session.macLen then
    ([], spare)
  else if session.bolusCallback then
    loopCells crypto (peekLength crypto session) context.answers context.passes
      (bulkStart context session) spare
  else
    (bufferCells session.aesCtxCtos (nextSealed crypto session).ciphertext.length, spare)

section Reception

variable {crypto : SshCrypto} {foreign : List Text} {packetLength : UInt32}
  {answers : List Text → Bool} {used spare : List Cell}

/-- Cells of other sessions are of blocks that were left in the buffer. -/
def Known (foreign : List Text) (cells : List Cell) : Prop :=
  ∀ cell ∈ cells, ∀ index, cell.1 = .foreign index → index < foreign.length

/-- What is kept of the cells over a call: those used are accounted for, and the buffer
holds those left over. -/
structure Kept (crypto : SshCrypto) (foreign : List Text) (ahead : ℕ) (used : List Cell)
    (ctx : AesCtx) (kept : AesStatic) (spare : List Cell) : Prop where
  fresh : Fresh (aesNumbering ctx.key) ahead used ⟨ctx.iv, spare⟩
  holds : Holds crypto.cipher foreign ctx kept spare
  known : Known foreign (used ++ spare)

/-- The cells of a call are as well known as those left over before it. -/
theorem known_take (key iv : Text) (count : ℕ) (hknown : Known foreign (used ++ spare)) :
    Known foreign (used ++ (((aesNumbering key).take count ⟨iv, spare⟩).1 ++
      ((aesNumbering key).take count ⟨iv, spare⟩).2.spare)) := by
  intro cell hcell index hforeign
  rcases mem_append.mp hcell with hused | htaken
  · exact hknown cell (mem_append_left _ hused) index hforeign
  rcases (aesNumbering key).mem_take htaken with hspare | ⟨counter, hown⟩
  · exact hknown cell (mem_append_right _ hspare) index hforeign
  · cases hown.symm.trans hforeign

theorem Known.subset {cells fewer : List Cell} (hknown : Known foreign cells)
    (hfewer : fewer ⊆ cells) : Known foreign fewer :=
  fun cell hcell => hknown cell (hfewer hcell)

/-- The cipher after a piece was handed on. -/
theorem hands_cipher {state next : BulkState} {islastchunk : Bool}
    (hhands : Hands crypto answers islastchunk state next) :
    let body := if islastchunk then
        state.packetvec.take (state.packetvec.length - state.session.macLen)
      else state.packetvec
    let after := aesCtrXcryptChunk crypto.cipher state.session.aesCtxCtos state.kept body
      islastchunk
    next.session.aesCtxCtos = after.2.1 ∧ next.kept = after.2.2 := by
  obtain ⟨plain, decrypted, block, skipped, hdecrypted, hskipped, rfl⟩ := hhands
  obtain ⟨_, _, rfl⟩ := skipHeader_eq hskipped
  obtain ⟨_, _, hhanded⟩ := handBlock_eq answers block _
  rw [hhanded]
  cases islastchunk with
  | true =>
    rw [decryptChunk, if_pos rfl] at hdecrypted
    dsimp only at hdecrypted
    repeat' split at hdecrypted
    all_goals
      cases hdecrypted
      try exact ⟨rfl, rfl⟩
  | false =>
    cases hdecrypted
    exact ⟨rfl, rfl⟩

/-- The four-argument call keeps the account. -/
theorem Kept.chunk {ahead : ℕ} {ctx : AesCtx} {kept : AesStatic}
    (hkept : Kept crypto foreign ahead used ctx kept spare) {buf : Text} {count : ℕ}
    (hlength : buf.length = count) (hcount : count ≤ ahead) (resetCtx : Bool) :
    let taken := (aesNumbering ctx.key).take count ⟨ctx.iv, spare⟩
    let after := aesCtrXcryptChunk crypto.cipher ctx kept buf resetCtx
    Kept crypto foreign (ahead - count) (used ++ taken.1) after.2.1 after.2.2
      (if resetCtx then [] else taken.2.spare) := by
  subst hlength
  have hknown := known_take ctx.key ctx.iv buf.length hkept.known
  obtain ⟨-, hafter, hholds⟩ := aesCtrXcryptChunk_cells hkept.holds
  refine ⟨?_, hholds, hknown.subset ?_⟩
  · rw [hafter]
    cases resetCtx with
    | true => exact (hkept.fresh.take hcount).drop_all
    | false => exact hkept.fresh.take hcount
  · cases resetCtx <;> simp

theorem passCells_kept {ahead : ℕ} {state next : BulkState}
    (hkept : Kept crypto foreign ahead used state.session.aesCtxCtos state.kept spare)
    (hready : ¬ Waits packetLength state)
    (hhands : Hands crypto answers (remaining packetLength state = 0) state next)
    (hcount : (passCells packetLength state spare).1.length ≤ ahead) :
    Kept crypto foreign (ahead - (passCells packetLength state spare).1.length)
      (used ++ (passCells packetLength state spare).1) next.session.aesCtxCtos next.kept
      (passCells packetLength state spare).2 := by
  obtain ⟨hctx, hstatic⟩ := hands_cipher hhands
  rw [passCells, if_neg hready] at hcount ⊢
  rw [hctx, hstatic]
  by_cases hlast : remaining packetLength state = 0
  · rw [if_pos hlast, Numbering.length_take] at hcount ⊢
    rw [decide_eq_true hlast, if_pos rfl]
    simpa using hkept.chunk (length_take_of_le (Nat.sub_le _ _)) hcount true
  · rw [if_neg hlast, Numbering.length_take] at hcount ⊢
    rw [decide_eq_false hlast, if_neg Bool.false_ne_true]
    simpa using hkept.chunk rfl hcount false

/-- The bulk loop keeps the account, pass by pass, unless it faults. -/
theorem loopCells_kept (passes : List (Text × UInt32)) {ahead : ℕ} {state : BulkState}
    (hsafe : ¬ Faults (bulkLoop crypto packetLength answers passes state))
    (hkept : Kept crypto foreign ahead used state.session.aesCtxCtos state.kept spare)
    (hcount : (loopCells crypto packetLength answers passes state spare).1.length ≤ ahead) :
    Kept crypto foreign
      (ahead - (loopCells crypto packetLength answers passes state spare).1.length)
      (used ++ (loopCells crypto packetLength answers passes state spare).1)
      (bulkLoop crypto packetLength answers passes state).state.session.aesCtxCtos
      (bulkLoop crypto packetLength answers passes state).state.kept
      (loopCells crypto packetLength answers passes state spare).2 := by
  induction passes generalizing state used spare ahead with
  | nil =>
    rw [loopCells, append_nil]
    exact hkept
  | cons pass passes ih =>
    obtain ⟨arrived, clock⟩ := pass
    have hfilled : Kept crypto foreign ahead used
        (filled packetLength arrived state).session.aesCtxCtos
        (filled packetLength arrived state).kept spare := hkept
    have hends := bulkPass_cases crypto packetLength answers arrived clock state
    rw [bulkLoop] at hsafe ⊢
    rw [loopCells] at hcount ⊢
    generalize bulkPass crypto packetLength answers arrived clock state = outcome at *
    cases hends with
    | waits hwaits =>
      have hnone : passCells packetLength (filled packetLength arrived state) spare =
          ([], spare) := if_pos hwaits
      rw [hnone] at hcount ⊢
      exact ih hsafe hfilled hcount
    | faults found hready hfaults => exact absurd trivial hsafe
    | goesOn next now hready hhands hopen =>
      rw [length_append] at hcount
      have hpass := passCells_kept hfilled hready hhands (Nat.le_of_add_right_le hcount)
      have hmore := @ih _ _ _ { next with now := now } hsafe hpass (by omega)
      rw [append_assoc] at hmore
      rw [length_append, ← Nat.sub_sub]
      exact hmore
    | ends next now wanted hready hhands hover =>
      have hpass := passCells_kept hfilled hready hhands hcount
      exact hpass

/-- The receptions in which no byte is taken that is not there. -/
structure NoOverrun (crypto : SshCrypto) (context : BulkContext) (session : SshSession) :
    Prop where
  sealed : session.bolusCallback = false → ¬ LengthWraps crypto session
  bulk : session.bolusCallback = true → 4 + session.macLen ≤ session.rx.length →
    ¬ BulkOverrun crypto session context

/-- A call of `parse_encrypted_packet` keeps the account. -/
theorem receptionCells_kept {context : BulkContext} {session : SshSession} {ahead : ℕ}
    (hmac : session.macLen = 20 ∨ session.macLen = 32) (hsafe : NoOverrun crypto context session)
    (hkept : Kept crypto foreign ahead used session.aesCtxCtos context.kept spare)
    (hcount : (receptionCells crypto context session spare).1.length ≤ ahead) :
    Kept crypto foreign (ahead - (receptionCells crypto context session spare).1.length)
      (used ++ (receptionCells crypto context session spare).1)
      (parseEncryptedPacket crypto context session).session.aesCtxCtos
      (parseEncryptedPacket crypto context session).kept
      (receptionCells crypto context session spare).2 := by
  unfold receptionCells at hcount ⊢
  by_cases hshort : session.rx.length < 4 + session.macLen
  · rw [if_pos hshort, append_nil, parseEncryptedPacket, if_pos hshort]
    exact hkept
  rw [if_neg hshort] at hcount ⊢
  cases hcallback : session.bolusCallback with
  | true =>
    rw [hcallback] at hcount
    have hloop : ¬ Faults (bulkLoop crypto (peekLength crypto session) context.answers
        context.passes (bulkStart context session)) := fun hfaults =>
      hsafe.bulk hcallback (Nat.le_of_not_lt hshort)
        ((faults_bulkLoop_iff (by omega) (by omega) (Nat.le_of_not_lt hshort)).mp hfaults)
    have hafter := @loopCells_kept crypto foreign (peekLength crypto session) context.answers used
      spare context.passes ahead (bulkStart context session) hloop hkept hcount
    rw [parseEncryptedPacket, if_neg hshort, if_pos hcallback]
    generalize bulkLoop crypto (peekLength crypto session) context.answers context.passes
      (bulkStart context session) = outcome at hafter ⊢
    cases outcome <;> exact hafter
  | false =>
    rw [hcallback, if_neg Bool.false_ne_true] at hcount
    rw [if_neg Bool.false_ne_true, parseEncryptedPacket_of_no_callback context hcallback]
    rw [bufferCells, Numbering.length_take] at hcount
    have hctx : (parseSealedPacket crypto session).2.aesCtxCtos =
        { session.aesCtxCtos with
          iv := ((aesNumbering session.aesCtxCtos.key).take
            (nextSealed crypto session).ciphertext.length ⟨session.aesCtxCtos.iv, []⟩).2.counter } := by
      have hfault : ¬ (nextSealed crypto session).received.length < session.macLen := fun hfault =>
        hsafe.sealed hcallback
          ((received_lt_macLen_iff (by omega) (Nat.le_of_not_lt hshort)).mp hfault)
      rw [← (aesCtrXcryptBuffer_cells crypto.cipher foreign).2, parseSealedPacket, if_neg hshort]
      rw [if_neg hfault]
      split <;> rfl
    rw [hctx, bufferCells, Numbering.length_take]
    refine ⟨hkept.fresh.take_apart hcount,
      ⟨rfl, hkept.holds.position_le, hkept.holds.buffer_eq⟩, ?_⟩
    have htaken := known_take session.aesCtxCtos.key session.aesCtxCtos.iv
      (nextSealed crypto session).ciphertext.length
      (hkept.known.subset (append_subset.mpr ⟨subset_append_left _ _, nil_subset _⟩))
    intro cell hcell
    rcases mem_append.mp hcell with hused | hspare
    · exact htaken cell (by simp only [mem_append] at hused ⊢; tauto)
    · exact hkept.known cell (mem_append_right _ hspare)

end Reception

/-! ## What a turn does to the cipher -/

def keysOf (output : SshOutput ε) : Option DerivedKeys :=
  output.events.findSome? fun
    | .newKeys keys => some keys
    | _ => none

/-- The states in which a turn takes an encrypted packet. -/
def decrypts : SessionState → Bool
  | .authenticationRequest | .channelRequest => true
  | _ => false

/-- The message number of the encrypted packet at the head of the received bytes. -/
def sealedMessage (crypto : SshCrypto) (context : BulkContext) (session : SshSession) :
    Option UInt8 :=
  match (parseEncryptedPacket crypto context session).result with
  | .payload payload => some (payload.getD 0 0)
  | _ => none

/-- A session that goes on has one of the two MAC lengths. -/
def Settled (session : SshSession) : Prop :=
  (session.macLen = 20 ∨ session.macLen = 32) ∨
    session.state = .sessionClose ∨ session.state = .sessionTimeout

/-- What a turn does to the context of the receiver, by the state the session is found
in. -/
inductive TurnEnds (crypto : SshCrypto) (env : SshEnv) (found : SshSession) :
    SshOutput ε × Option SshSession → Prop where
  | gone (output : SshOutput ε) (hquiet : keysOf output = none) :
      TurnEnds crypto env found (output, none)
  | plain (output : SshOutput ε) (next : SshSession) (hstate : decrypts found.state = false)
      (hquiet : keysOf output = none) (hctx : next.aesCtxCtos = found.aesCtxCtos)
      (horder : pastNewkeys found.state = true → pastNewkeys next.state = true)
      (hsettled : Settled next) : TurnEnds crypto env found (output, some next)
  | keyed (output : SshOutput ε) (next : SshSession) (exchange : SshSession)
      (hstate : found.state = .newkeysReceived)
      (hkeys : keysOf output = some (deriveKeys crypto exchange))
      (hctx : next.aesCtxCtos =
        { key := deriveKey crypto exchange 0x43 16, iv := deriveKey crypto exchange 0x41 16 })
      (horder : pastNewkeys next.state = true) (hsettled : Settled next) :
      TurnEnds crypto env found (output, some next)
  | received (output : SshOutput ε) (next : SshSession) (hstate : decrypts found.state = true)
      (hquiet : keysOf output = none)
      (hctx : next.aesCtxCtos = (parseEncryptedPacket crypto env.bulk found).session.aesCtxCtos)
      (horder : pastNewkeys next.state = true) (hsettled : Settled next) :
      TurnEnds crypto env found (output, some next)
  | rekeyed (outcome : SshOutput ε × Option SshSession)
      (hstate : found.state = .authenticationRequest)
      (hmessage : sealedMessage crypto env.bulk found = some sshMsgNewkeys) :
      TurnEnds crypto env found outcome

section Turns

variable {crypto : SshCrypto} {env : SshEnv} {session : SshSession}

/-- A handler that leaves the cipher and the MAC as they are. -/
structure Undisturbed (session : SshSession) (outcome : SshOutput ε × SshSession) : Prop where
  quiet : keysOf outcome.1 = none
  ctx_eq : outcome.2.aesCtxCtos = session.aesCtxCtos
  macLen_eq : outcome.2.macLen = session.macLen
  order : outcome.2.state = session.state ∨ pastNewkeys outcome.2.state = true

theorem handleUserauthRequest_undisturbed {origin : Origin} {payload : Text} :
    Undisturbed session
      (handleUserauthRequest crypto env origin payload session : SshOutput ε × SshSession) := by
  unfold handleUserauthRequest
  extract_lets verdict
  clear_value verdict
  split
  · exact ⟨rfl, rfl, rfl, .inl rfl⟩
  · exact ⟨rfl, rfl, rfl, .inl rfl⟩
  · split
    · exact ⟨rfl, rfl, rfl, .inr rfl⟩
    split
    · exact ⟨rfl, rfl, rfl, .inr rfl⟩
    · exact ⟨rfl, rfl, rfl, .inl rfl⟩

/-- A message in the authentication phase that is no `NEWKEYS` leaves the cipher alone. -/
theorem handleAuthMessage_undisturbed (origin : Origin) {payload : Text}
    (hmessage : payload.getD 0 0 ≠ sshMsgNewkeys) :
    Undisturbed session
      (handleAuthMessage crypto env origin payload session : SshOutput ε × SshSession) := by
  unfold handleAuthMessage
  rw [if_neg hmessage]
  split
  · exact ⟨rfl, rfl, rfl, .inl rfl⟩
  split
  · exact handleUserauthRequest_undisturbed
  · exact ⟨rfl, rfl, rfl, .inl rfl⟩

theorem handleKeyExchange_settled (hsettled : session.macLen = 20 ∨ session.macLen = 32) :
    keysOf (handleKeyExchange env session : SshOutput ε × SshSession).1 = none ∧
      (handleKeyExchange env session : SshOutput ε × SshSession).2.aesCtxCtos = session.aesCtxCtos ∧
      Settled (handleKeyExchange env session : SshOutput ε × SshSession).2 := by
  obtain ⟨rx, seq, hread⟩ := parseReceivedPacket_session session
  unfold handleKeyExchange
  split
  · generalize parseReceivedPacket session = parsed at hread ⊢
    obtain ⟨result, next⟩ := parsed
    cases hread
    split
    case h_1 payload taken heq =>
      cases heq
      unfold handleKexMessage
      split
      · split
        · exact ⟨rfl, rfl, .inr (.inl rfl)⟩
        case h_2 fields _ =>
          dsimp only
          split
          · exact ⟨rfl, rfl, .inr (.inl rfl)⟩
          case isFalse hgood =>
            exact ⟨rfl, rfl, .inl (negotiateMac_cases _ fun hnone => hgood (.inl hnone))⟩
      split
      · split
        · exact ⟨rfl, rfl, .inr (.inl rfl)⟩
        · exact ⟨rfl, rfl, .inl hsettled⟩
      · exact ⟨rfl, rfl, .inl hsettled⟩
    case h_2 code taken heq =>
      cases heq
      exact ⟨rfl, rfl, .inr (.inl rfl)⟩
    case h_3 other taken heq =>
      cases heq
      exact ⟨rfl, rfl, .inl hsettled⟩
  split
  · split
    · exact ⟨rfl, rfl, .inl hsettled⟩
    · exact ⟨rfl, rfl, .inl hsettled⟩
  · split
    · exact ⟨rfl, rfl, .inr (.inl rfl)⟩
    · split
      · exact ⟨rfl, rfl, .inl hsettled⟩
      · exact ⟨rfl, rfl, .inr (.inl rfl)⟩

/-- What comes of a session that goes on after its packet. -/
theorem Undisturbed.settled {next : SshSession} {outcome : SshOutput ε × SshSession}
    (hundisturbed : Undisturbed next outcome)
    (hsettled : next.macLen = 20 ∨ next.macLen = 32) : Settled outcome.2 :=
  .inl (hundisturbed.macLen_eq ▸ hsettled)

theorem handleAuthentication_ends (hsettled : session.macLen = 20 ∨ session.macLen = 32)
    (hstate : session.state = .newkeysReceived ∨ session.state = .authenticationRequest) :
    TurnEnds crypto env session
      (ongoing (handleAuthentication crypto env session : SshOutput ε × SshSession)) := by
  unfold handleAuthentication
  by_cases hsealed : session.state = .authenticationRequest
  · have hdecrypts : decrypts session.state = true := by rw [hsealed]; rfl
    have hkeptState := parseEncryptedPacket_state crypto env.bulk session
    have hkeptMac := parseEncryptedPacket_macLen crypto env.bulk session
    have hpast : pastNewkeys (parseEncryptedPacket crypto env.bulk session).session.state =
        true := by
      rw [hkeptState, hsealed]
      rfl
    rw [if_pos hsealed]
    dsimp only
    split
    case h_1 payload hpayload =>
      by_cases hmessage : payload.getD 0 0 = sshMsgNewkeys
      · refine .rekeyed _ hsealed ?_
        rw [sealedMessage, hpayload]
        exact congrArg some hmessage
      · have hsame := @handleAuthMessage_undisturbed ε crypto env
          (parseEncryptedPacket crypto env.bulk session).session
          (.sealed (nextSealed crypto session)) payload hmessage
        refine .received _ _ hdecrypts hsame.quiet hsame.ctx_eq ?_
          (hsame.settled (hkeptMac ▸ hsettled))
        exact hsame.order.elim (fun heq => heq ▸ hpast) id
    case h_2 code hfailed =>
      exact .received _ _ hdecrypts rfl rfl rfl (.inr (.inl rfl))
    case h_3 hother =>
      exact .received _ _ hdecrypts rfl rfl hpast (.inl (hkeptMac ▸ hsettled))
  · have hnewkeys : session.state = .newkeysReceived := hstate.resolve_right hsealed
    have hdecrypts : decrypts session.state = false := by rw [hnewkeys]; rfl
    have horder : ∀ next : SshSession, pastNewkeys session.state = true →
        pastNewkeys next.state = true := by
      intro next hpast
      rw [hnewkeys] at hpast
      cases hpast
    obtain ⟨rx, seq, hread⟩ := parseReceivedPacket_session session
    rw [if_neg hsealed]
    generalize parseReceivedPacket session = parsed at hread ⊢
    obtain ⟨result, next⟩ := parsed
    cases hread
    split
    case h_1 payload taken heq =>
      cases heq
      by_cases hmessage : payload.getD 0 0 = sshMsgNewkeys
      · rw [handleAuthMessage, if_pos hmessage]
        cases env.sendOk with
        | true =>
          exact .keyed _ _ _ hnewkeys rfl rfl rfl (.inl hsettled)
        | false =>
          exact .plain _ _ hdecrypts rfl rfl (horder _) (.inr (.inl rfl))
      · have hsame := @handleAuthMessage_undisturbed ε crypto env
          { session with rx := rx, packetsSeqNumCtos := seq } .plain payload hmessage
        exact .plain _ _ hdecrypts hsame.quiet hsame.ctx_eq (horder _) (hsame.settled hsettled)
    case h_2 code taken heq =>
      cases heq
      exact .plain _ _ hdecrypts rfl rfl (horder _) (.inr (.inl rfl))
    case h_3 other taken heq =>
      cases heq
      exact .plain _ _ hdecrypts rfl rfl (horder _) (.inl hsettled)

theorem handleChannelRequest_ends {channel : ChannelService ε}
    (hsettled : session.macLen = 20 ∨ session.macLen = 32)
    (hstate : session.state = .channelRequest) :
    TurnEnds crypto env session (ongoing (handleChannelRequest crypto channel env session)) := by
  have hdecrypts : decrypts session.state = true := by rw [hstate]; rfl
  have hkeptMac := parseEncryptedPacket_macLen crypto env.bulk session
  have hpacket : (handleChannelPacket crypto channel env session).2.aesCtxCtos =
        (parseEncryptedPacket crypto env.bulk session).session.aesCtxCtos ∧
      (handleChannelPacket crypto channel env session).2.macLen = session.macLen := by
    unfold handleChannelPacket
    dsimp only
    split
    · exact ⟨rfl, hkeptMac⟩
    · exact ⟨rfl, hkeptMac⟩
    · exact ⟨rfl, hkeptMac⟩
  have hpast : ∀ {state : SessionState}, pastHandshake state → pastNewkeys state = true := by
    rintro state (rfl | rfl | rfl) <;> rfl
  have hpacketState := @handleChannelPacket_pastHandshake ε crypto session channel env hstate
  unfold handleChannelRequest
  dsimp only
  split
  · exact .received _ _ hdecrypts rfl hpacket.1 (hpast hpacketState)
      (.inl (hpacket.2 ▸ hsettled))
  · exact .received _ _ hdecrypts rfl hpacket.1 (hpast (ChannelFate.pastHandshake_state _))
      (.inl (hpacket.2 ▸ hsettled))

theorem inbox_aesCtxCtos : (inbox env session).aesCtxCtos = session.aesCtxCtos := by
  obtain ⟨_, hinbox, -⟩ := inbox_eq env session
  rw [hinbox]

theorem inbox_macLen (hsettled : Settled session) {state : SessionState}
    (hstate : (inbox env session).state = state) (hopen : state ≠ .sessionClose)
    (hactive : state ≠ .sessionTimeout) :
    (inbox env session).macLen = 20 ∨ (inbox env session).macLen = 32 := by
  subst hstate
  have hsame := inbox_state hactive
  obtain ⟨_, hinbox, -⟩ := inbox_eq env session
  rcases hsettled with hgood | hclosed | hclosed
  · rw [hinbox]
    exact hgood
  · exact absurd (hsame.trans hclosed) hopen
  · exact absurd (hsame.trans hclosed) hactive

/-- What a turn does, from the session it finds. -/
theorem serviceSession_ends (channel : ChannelService ε) (hsettled : Settled session) :
    TurnEnds crypto env (inbox env session) (serviceSession crypto channel env session) := by
  have hfound := @inbox_macLen env session hsettled
  unfold serviceSession
  generalize inbox env session = found at hfound ⊢
  split
  · exact .gone _ rfl
  dsimp only
  cases hstate : found.state
  case waitingForClient | clientConnected | vexRecv =>
    have hgood := hfound hstate nofun nofun
    refine .plain _ _ (by rw [hstate]; rfl) rfl rfl ?_ (.inl hgood)
    rw [hstate]
    nofun
  case kexInitRecv | kexInitSend | kexdhInitRecv | kexdhInitSend =>
    have hgood := hfound hstate nofun nofun
    obtain ⟨hquiet, hctx, hnext⟩ := @handleKeyExchange_settled ε env found hgood
    refine .plain _ _ (by rw [hstate]; rfl) hquiet hctx ?_ hnext
    rw [hstate]
    nofun
  case newkeysReceived =>
    exact handleAuthentication_ends (hfound hstate nofun nofun) (.inl hstate)
  case authenticationRequest =>
    exact handleAuthentication_ends (hfound hstate nofun nofun) (.inr hstate)
  case channelRequest =>
    exact handleChannelRequest_ends (hfound hstate nofun nofun) hstate
  case sessionTimeout | sessionClose => exact .gone _ rfl
  case vexSend | sessionEstablished =>
    exact .plain _ _ (by rw [hstate]; rfl) rfl rfl id (.inl (hfound hstate nofun nofun))

end Turns

/-! ## A session with its cells -/

/-- A session, the sending half and the shared buffer, with an account of the cells. -/
structure Line where
  session : Option SshSession
  aesCtxStoc : AesCtx
  packetsSeqNumStoc : UInt32
  kept : AesStatic
  foreign : List Text
  spare : List Cell
  sent : List Cell
  received : List Cell

/-- A new client, before any other session has used the buffer. -/
def freshLine : Line where
  session := some freshSession
  aesCtxStoc := { key := zeros 16, iv := zeros 16 }
  packetsSeqNumStoc := 0
  kept := { buffer := zeros 16, bi := aesBlockLen }
  foreign := []
  spare := []
  sent := []
  received := []

/-- What happens on a line. -/
inductive LineEvent where
  | turn (env : SshEnv)
  | send (payload : Text) (encrypt : Bool) (random : ℕ → UInt8) (writing : Writing)
  | usedUp (count : ℕ)
  | leftBy (buffer : Text) (left : Fin (aesBlockLen + 1))

def Line.half (line : Line) (session : SshSession) : SendingHalf where
  state := session.state
  macLen := session.macLen
  macKeyStoc := session.keys.macKeyStoc
  aesCtxStoc := line.aesCtxStoc
  packetsSeqNumStoc := line.packetsSeqNumStoc

/-- The turn finds the buffer as it is. -/
def Line.env (line : Line) (env : SshEnv) : SshEnv :=
  { env with bulk := { env.bulk with kept := line.kept } }

/-- The turn takes an encrypted packet. -/
def reads (env : SshEnv) (session : SshSession) : Bool :=
  env.connected && decrypts (inbox env session).state

variable (crypto : SshCrypto)

def turnCells (env : SshEnv) (session : SshSession) (spare : List Cell) : List Cell × List Cell :=
  if reads env session then receptionCells crypto env.bulk (inbox env session) spare
  else ([], spare)

def bufferAfter (env : SshEnv) (session : SshSession) : AesStatic :=
  if reads env session then (parseEncryptedPacket crypto env.bulk (inbox env session)).kept
  else env.bulk.kept

def Line.turn (channel : ChannelService ε) (line : Line) (env : SshEnv)
    (session : SshSession) : Line :=
  let env := line.env env
  let outcome := serviceSession crypto channel env session
  let cells := turnCells crypto env session line.spare
  { line with
    session := outcome.2
    aesCtxStoc :=
      match keysOf outcome.1 with
      | some keys => { key := keys.encKeyStoc, iv := keys.ivStoc }
      | none => line.aesCtxStoc
    kept := bufferAfter crypto env session
    spare := cells.2
    received := line.received ++ cells.1 }

def Line.send (line : Line) (payload : Text) (encrypt : Bool)
    (random : ℕ → UInt8) (writing : Writing) (session : SshSession) : Line :=
  let after := (sendServerSshPacket crypto (line.half session) payload encrypt random writing).2.2
  { line with
    aesCtxStoc := after.aesCtxStoc
    packetsSeqNumStoc := after.packetsSeqNumStoc
    sent := line.sent ++
      if encrypt ∧ pastNewkeys session.state then
        bufferCells line.aesCtxStoc (prepareSshPacket payload 16 random).length
      else [] }

def Line.step (channel : ChannelService ε) (line : Line) : LineEvent → Unit × Line
  | .turn env => ((), line.session.elim line (line.turn crypto channel env))
  | .send payload encrypt random writing =>
    ((), line.session.elim line (line.send crypto payload encrypt random writing))
  | .usedUp count =>
    ((), { line with
      kept := { line.kept with bi := min (line.kept.bi + count) aesBlockLen }
      spare := line.spare.drop count })
  | .leftBy buffer left =>
    ((), { line with
      kept := { buffer := buffer, bi := aesBlockLen - left }
      foreign := line.foreign ++ [buffer]
      spare := (range' (aesBlockLen - left) left).map
        fun position => (.foreign line.foreign.length, position) })

/-- The events in which no `NEWKEYS` comes in under keys that are in use, and no packet
makes the server take bytes that are not there. -/
def Guarded (line : Line) : LineEvent → Prop
  | .turn env => ∀ session, line.session = some session → reads (line.env env) session = true →
      ((inbox (line.env env) session).state = .authenticationRequest →
        sealedMessage crypto (line.env env).bulk (inbox (line.env env) session) ≠
          some sshMsgNewkeys) ∧
      NoOverrun crypto (line.env env).bulk (inbox (line.env env) session)
  | _ => True

/-! ## The account over a run -/

/-- The blocks that a counter of sixteen bytes numbers. -/
def counterBlocks : ℕ := 2 ^ 128

structure Accounted (crypto : SshCrypto) (line : Line) : Prop where
  sent : line.sent.length ≤ counterBlocks →
    Fresh (aesNumbering line.aesCtxStoc.key) (counterBlocks - line.sent.length) line.sent
      ⟨line.aesCtxStoc.iv, []⟩
  received : line.received.length ≤ counterBlocks → line.received.Nodup
  settled : ∀ session, line.session = some session → Settled session
  kept : ∀ session, line.session = some session → line.received.length ≤ counterBlocks →
    Kept crypto line.foreign (counterBlocks - line.received.length) line.received
      session.aesCtxCtos line.kept line.spare
  early : ∀ session, line.session = some session → pastNewkeys session.state = false →
    line.sent = [] ∧ line.received = [] ∧ ∀ cell ∈ line.spare, ∃ index, cell.1 = .foreign index

theorem fresh_start {key : Text} {iv : Text} (hiv : iv.length = aesBlockLen) {spare : List Cell}
    (hnodup : spare.Nodup) (hforeign : ∀ cell ∈ spare, ∃ index, cell.1 = .foreign index) :
    Fresh (aesNumbering key) counterBlocks [] ⟨iv, spare⟩ where
  nodup := hnodup
  behind := by
    intro cell hcell count _ hown
    obtain ⟨index, hindex⟩ := hforeign cell hcell
    cases hown.symm.trans hindex
  distinct := by
    intro first hfirst second hsecond hsame
    have hblocks : counterBlocks = 256 ^ iv.length := by
      rw [hiv]
      decide
    rw [hblocks] at hfirst hsecond
    exact iterate_incrementIv_injective iv hfirst hsecond (KeyBlock.own.inj hsame).2

section Account

variable {crypto : SshCrypto} {line : Line} {session : SshSession}

theorem accounted_freshLine {crypto : SshCrypto} : Accounted crypto freshLine where
  sent := fun _ => fresh_start rfl nodup_nil nofun
  received := fun _ => nodup_nil
  settled := by
    rintro session hsession
    cases hsession
    exact .inl (.inl rfl)
  kept := by
    rintro session hsession -
    cases hsession
    exact ⟨fresh_start rfl nodup_nil nofun, ⟨rfl, le_refl _, rfl⟩, nofun⟩
  early := fun _ _ _ => ⟨rfl, rfl, nofun⟩

theorem sendServerSshPacket_aesCtxStoc {half : SendingHalf} {payload : Text} {encrypt : Bool}
    {random : ℕ → UInt8} {writing : Writing} :
    (sendServerSshPacket crypto half payload encrypt random writing).2.2.aesCtxStoc =
      if encrypt ∧ pastNewkeys half.state then
        (aesCtrXcryptBuffer crypto.cipher half.aesCtxStoc (prepareSshPacket payload 16 random)).2
      else half.aesCtxStoc := by
  rw [sendServerSshPacket]
  by_cases hsealed : encrypt = true ∧ pastNewkeys half.state = true
  · rw [if_pos hsealed, if_pos hsealed]
    cases writing <;> rfl
  · rw [if_neg hsealed, if_neg hsealed]
    cases writing <;> rfl

section

variable (haccounted : Accounted crypto line)
include haccounted

theorem accounted_send (hsession : line.session = some session) {payload : Text} {encrypt : Bool}
    {random : ℕ → UInt8} {writing : Writing} :
    Accounted crypto (line.send crypto payload encrypt random writing session) := by
  have hctx : (sendServerSshPacket crypto (line.half session) payload encrypt random
      writing).2.2.aesCtxStoc =
        if encrypt ∧ pastNewkeys session.state then
          (aesCtrXcryptBuffer crypto.cipher line.aesCtxStoc (prepareSshPacket payload 16 random)).2
        else line.aesCtxStoc :=
    sendServerSshPacket_aesCtxStoc
  refine ⟨?_, haccounted.received, haccounted.settled, haccounted.kept, ?_⟩
  · unfold Line.send
    dsimp only
    rw [hctx]
    by_cases hsealed : encrypt = true ∧ pastNewkeys session.state = true
    · rw [if_pos hsealed, if_pos hsealed, length_append, bufferCells, Numbering.length_take,
        (aesCtrXcryptBuffer_cells crypto.cipher []).2, ← Nat.sub_sub]
      intro hcount
      exact ((haccounted.sent (Nat.le_of_add_right_le hcount)).take
        (Nat.le_sub_of_add_le' hcount)).drop_all
    · rw [if_neg hsealed, if_neg hsealed, append_nil]
      exact haccounted.sent
  · intro other hother hearly
    cases hsession.symm.trans hother
    obtain ⟨hsent, hrest⟩ := haccounted.early _ hsession hearly
    refine ⟨?_, hrest⟩
    unfold Line.send
    rw [if_neg fun hsealed => false_ne_true (hearly.symm.trans hsealed.2), append_nil]
    exact hsent

/-- Other sessions that go on in the buffer take cells away. -/
theorem accounted_usedUp {channel : ChannelService ε} {count : ℕ} :
    Accounted crypto (line.step crypto channel (.usedUp count)).2 := by
  refine ⟨haccounted.sent, haccounted.received, haccounted.settled, ?_, ?_⟩
  · intro session hsession hcount
    obtain ⟨hfresh, hholds, hknown⟩ := haccounted.kept session hsession hcount
    exact ⟨hfresh.drop count, hholds.skip count,
      hknown.subset (List.Sublist.append_left (drop_sublist _ _) _).subset⟩
  · intro session hsession hearly
    obtain ⟨hsent, hreceived, hforeign⟩ := haccounted.early session hsession hearly
    exact ⟨hsent, hreceived, fun cell hcell => hforeign cell (mem_of_mem_drop hcell)⟩

/-- A block that another session leaves in the buffer is in none of the cells used. -/
theorem accounted_leftBy {channel : ChannelService ε} {buffer : Text}
    {left : Fin (aesBlockLen + 1)} :
    Accounted crypto (line.step crypto channel (.leftBy buffer left)).2 := by
  have hname : ∀ cell ∈ (range' (aesBlockLen - left) left).map
      (fun position => ((KeyBlock.foreign line.foreign.length, position) : Cell)),
      cell.1 = .foreign line.foreign.length := by
    intro cell hcell
    obtain ⟨position, -, rfl⟩ := mem_map.mp hcell
    rfl
  refine ⟨haccounted.sent, haccounted.received, haccounted.settled, ?_, ?_⟩
  · intro session hsession hcount
    obtain ⟨hfresh, hholds, hknown⟩ := haccounted.kept session hsession hcount
    refine ⟨hfresh.replace ?_ ?_ ?_, ⟨rfl, Nat.sub_le _ _, ?_⟩, ?_⟩
    · exact (nodup_range').map fun _ _ heq => (Prod.mk.inj heq).2
    · intro cell hcell hused
      exact lt_irrefl _
        (hknown cell (mem_append_left _ hused) _ (hname cell hcell))
    · intro cell hcell count _ hown
      cases hown.symm.trans (hname cell hcell)
    · have hleft : aesBlockLen - (aesBlockLen - (left : ℕ)) = left :=
        Nat.sub_sub_self (Nat.le_of_lt_succ left.isLt)
      change (range' (aesBlockLen - (left : ℕ)) (aesBlockLen - (aesBlockLen - left))).map _ =
        (map _ _).map _
      rw [hleft, map_map]
      apply map_congr_left
      intro position _
      simp [valueAt, keyBytes, Line.step]
    · intro cell hcell index hindex
      change index < (line.foreign ++ [buffer]).length
      rw [length_append]
      rcases mem_append.mp hcell with hused | hcell
      · exact Nat.lt_succ_of_lt (hknown cell (mem_append_left _ hused) index hindex)
      · rw [← KeyBlock.foreign.inj ((hname cell hcell).symm.trans hindex)]
        exact Nat.lt_succ_self _
  · intro session hsession hearly
    obtain ⟨hsent, hreceived, -⟩ := haccounted.early session hsession hearly
    exact ⟨hsent, hreceived, fun cell hcell => ⟨_, hname cell hcell⟩⟩

end

theorem turnCells_kept {foreign : List Text} {ahead : ℕ} {used spare : List Cell} {env : SshEnv}
    (hsettled : Settled session)
    (hsafe : reads env session = true → NoOverrun crypto env.bulk (inbox env session))
    (hkept : Kept crypto foreign ahead used session.aesCtxCtos env.bulk.kept spare)
    (hcount : (turnCells crypto env session spare).1.length ≤ ahead) :
    Kept crypto foreign (ahead - (turnCells crypto env session spare).1.length)
      (used ++ (turnCells crypto env session spare).1)
      (if reads env session then
        (parseEncryptedPacket crypto env.bulk (inbox env session)).session.aesCtxCtos
      else session.aesCtxCtos)
      (bufferAfter crypto env session) (turnCells crypto env session spare).2 := by
  unfold turnCells bufferAfter at *
  by_cases hreads : reads env session = true
  · rw [if_pos hreads] at hcount
    rw [if_pos hreads, if_pos hreads, if_pos hreads]
    have hstate : decrypts (inbox env session).state = true := (and_eq_true_iff.mp hreads).2
    refine receptionCells_kept (inbox_macLen hsettled rfl ?_ ?_) (hsafe hreads) ?_ hcount
    · intro hclosed
      rw [hclosed] at hstate
      cases hstate
    · intro hover
      rw [hover] at hstate
      cases hstate
    · rw [inbox_aesCtxCtos]
      exact hkept
  · rw [if_neg hreads, if_neg hreads, if_neg hreads, append_nil]
    exact hkept

/-- A session that was found before its keys was there before them. -/
theorem early_of_inbox (env : SshEnv) (hfound : pastNewkeys (inbox env session).state = false) :
    pastNewkeys session.state = false := by
  have hactive : (inbox env session).state ≠ .sessionTimeout := fun hover => by
    rw [hover] at hfound
    cases hfound
  rw [← inbox_state hactive]
  exact hfound

section

variable (hdigest : ∀ data, (crypto.sha256 data).length = 32)
include hdigest

/-- The account of a session that has just derived its keys. -/
theorem accounted_keyed (haccounted : Accounted crypto line)
    (hsession : line.session = some session) (hearly : pastNewkeys session.state = false)
    {next : SshSession} {exchange : SshSession}
    (hctx : next.aesCtxCtos =
      { key := deriveKey crypto exchange 0x43 16, iv := deriveKey crypto exchange 0x41 16 })
    (horder : pastNewkeys next.state = true) (hsettled : Settled next) :
    Accounted crypto { line with
      session := some next
      aesCtxStoc :=
        { key := deriveKey crypto exchange 0x44 16, iv := deriveKey crypto exchange 0x42 16 } } := by
  have hlength : ∀ keyType, (deriveKey crypto exchange keyType 16).length = aesBlockLen := by
    intro keyType
    rw [deriveKey, length_take, hdigest]
    rfl
  obtain ⟨hsent, hreceived, hforeign⟩ := haccounted.early session hsession hearly
  refine ⟨fun _ => ?_, haccounted.received, ?_, ?_, ?_⟩
  · rw [hsent]
    exact fresh_start (hlength _) nodup_nil nofun
  · rintro _ ⟨⟩
    exact hsettled
  · rintro _ ⟨⟩ hcount
    obtain ⟨hfresh, hholds, hknown⟩ := haccounted.kept session hsession hcount
    rw [hctx]
    refine ⟨?_, ⟨rfl, hholds.position_le, hholds.buffer_eq⟩, hknown⟩
    rw [hreceived] at hfresh ⊢
    exact fresh_start (hlength _) hfresh.nodup hforeign
  · rintro _ ⟨⟩ hbefore
    exact absurd hbefore (by rw [horder]; nofun)

theorem accounted_turn {channel : ChannelService ε} (haccounted : Accounted crypto line)
    (hsession : line.session = some session) {env : SshEnv}
    (hguarded : Guarded crypto line (.turn env)) :
    Accounted crypto (line.turn crypto channel env session) := by
  have hsettled := haccounted.settled session hsession
  have hends := @serviceSession_ends ε crypto (line.env env) session channel hsettled
  have hreads := hguarded session hsession
  have hkept : ∀ hcount : (line.received ++
      (turnCells crypto (line.env env) session line.spare).1).length ≤ counterBlocks, _ :=
    fun hcount => turnCells_kept hsettled (fun h => (hreads h).2)
      (haccounted.kept session hsession (le_trans (by simp) hcount))
      (by rw [length_append] at hcount; exact Nat.le_sub_of_add_le' hcount)
  simp only [Nat.sub_sub, ← length_append] at hkept
  have hreceived : (line.received ++
      (turnCells crypto (line.env env) session line.spare).1).length ≤ counterBlocks →
      (line.received ++ (turnCells crypto (line.env env) session line.spare).1).Nodup :=
    fun hcount => (hkept hcount).fresh.nodup_used
  have hidle : decrypts (inbox (line.env env) session).state = false →
      turnCells crypto (line.env env) session line.spare = ([], line.spare) ∧
        bufferAfter crypto (line.env env) session = line.kept := by
    intro hstate
    have hnone : ¬ reads (line.env env) session = true := by
      rw [reads, hstate, Bool.and_false]
      exact false_ne_true
    rw [turnCells, bufferAfter, if_neg hnone, if_neg hnone]
    exact ⟨rfl, rfl⟩
  have hgone {fact : SshSession → Prop} : ∀ session, none = some session → fact session := nofun
  unfold Line.turn
  dsimp only
  by_cases hconnected : (line.env env).connected = true
  case neg =>
    rw [serviceSession, if_pos hconnected]
    exact ⟨haccounted.sent, hreceived, hgone, hgone, hgone⟩
  generalize serviceSession crypto channel (line.env env) session = outcome at hends ⊢
  cases hends with
  | gone output hquiet =>
    rw [hquiet]
    exact ⟨haccounted.sent, hreceived, hgone, hgone, hgone⟩
  | plain output next hstate hquiet hctx horder hnext =>
    obtain ⟨hcells, hbuffer⟩ := hidle hstate
    rw [hcells, hbuffer, hquiet, append_nil]
    refine ⟨haccounted.sent, haccounted.received, ?_, ?_, ?_⟩
    · rintro _ ⟨⟩
      exact hnext
    · rintro _ ⟨⟩ hcount
      rw [hctx, inbox_aesCtxCtos]
      exact haccounted.kept session hsession hcount
    · rintro _ ⟨⟩ hbefore
      refine haccounted.early session hsession
        (early_of_inbox (line.env env) (eq_false_iff.mpr ?_))
      intro hpast
      exact absurd (horder hpast) (by rw [hbefore]; nofun)
  | keyed output next exchange hstate hkeys hctx horder hnext =>
    obtain ⟨hcells, hbuffer⟩ := hidle (by rw [hstate]; rfl)
    rw [hcells, hbuffer, hkeys, append_nil]
    exact accounted_keyed hdigest haccounted hsession
      (early_of_inbox (line.env env) (by rw [hstate]; rfl)) hctx horder hnext
  | received output next hstate hquiet hctx horder hnext =>
    have hread : reads (line.env env) session = true := by
      rw [reads, hstate, hconnected]
      rfl
    rw [hquiet]
    refine ⟨haccounted.sent, hreceived, ?_, ?_, ?_⟩
    · rintro _ ⟨⟩
      exact hnext
    · rintro _ ⟨⟩ hcount
      have hafter := hkept hcount
      rw [if_pos hread] at hafter
      rw [hctx]
      exact hafter
    · rintro _ ⟨⟩ hbefore
      exact absurd hbefore (by rw [horder]; nofun)
  | rekeyed _ hstate hmessage =>
    have hread : reads (line.env env) session = true := by
      rw [reads, hstate, hconnected]
      rfl
    exact absurd hmessage ((hreads hread).1 hstate)

/-- The account is kept by whatever happens on the line. -/
theorem accounted_step {channel : ChannelService ε} (haccounted : Accounted crypto line)
    {event : LineEvent} (hguarded : Guarded crypto line event) :
    Accounted crypto (line.step crypto channel event).2 := by
  cases event with
  | turn env =>
    unfold Line.step
    cases hsession : line.session with
    | none => exact haccounted
    | some session => exact accounted_turn hdigest haccounted hsession hguarded
  | send payload encrypt random writing =>
    unfold Line.step
    cases hsession : line.session with
    | none => exact haccounted
    | some session => exact accounted_send haccounted hsession
  | usedUp count => exact accounted_usedUp haccounted
  | leftBy buffer left => exact accounted_leftBy haccounted

end

end Account

/-! ## Runs -/

/-- In a run in which no `NEWKEYS` comes in under keys that are in use and no byte is taken
that is not there, no byte that the server sends and no byte that it receives meets a
byte of the keystream that another one has met, as long as the counter of a direction has
not come round. -/
theorem keystream_used_once (crypto : SshCrypto)
    (hdigest : ∀ data, (crypto.sha256 data).length = 32) (channel : ChannelService ε)
    (events : List LineEvent)
    (hguarded : Allowed (Line.step crypto channel) (Guarded crypto) events freshLine) :
    let line := (run (Line.step crypto channel) events freshLine).2
    (line.sent.length ≤ counterBlocks → line.sent.Nodup) ∧
      (line.received.length ≤ counterBlocks → line.received.Nodup) := by
  intro line
  have haccounted : Accounted crypto line := by
    refine (run_invariant_of_allowed (Accounted crypto) (fun _ => True) ?_ events hguarded
      (accounted_freshLine)).1
    intro line event hevent haccounted
    exact ⟨accounted_step hdigest haccounted hevent, trivial⟩
  exact ⟨fun hcount => (haccounted.sent hcount).nodup_used, haccounted.received⟩

/-- A condition on an event that can be evaluated: the packet is not a `NEWKEYS`, comes in
without a callback and states a length that leaves room for the MAC. -/
def Plain (crypto : SshCrypto) (line : Line) : LineEvent → Prop
  | .turn env => line.session.all fun session =>
    let env := line.env env
    let found := inbox env session
    !reads env session ||
      (sealedMessage crypto env.bulk found != some sshMsgNewkeys && !found.bolusCallback &&
        decide ((peekLength crypto found).toNat + found.macLen < 2 ^ 32))
  | _ => True

instance (crypto : SshCrypto) (line : Line) : (event : LineEvent) →
    Decidable (Plain crypto line event)
  | .turn _ => inferInstanceAs (Decidable (_ = true))
  | .send .. | .usedUp _ | .leftBy .. => .isTrue trivial

theorem Plain.guarded {crypto : SshCrypto} {line : Line} {event : LineEvent}
    (hplain : Plain crypto line event) : Guarded crypto line event := by
  cases event with
  | turn env =>
    intro session hsession hreads
    unfold Plain at hplain
    simp only [hsession, Option.all_some, hreads, Bool.not_true, Bool.false_or,
      Bool.and_eq_true, bne_iff_ne, decide_eq_true_eq, Bool.not_eq_true'] at hplain
    obtain ⟨⟨hmessage, hcallback⟩, hlength⟩ := hplain
    refine ⟨fun _ => hmessage, fun _ hwraps => ?_, fun hother => ?_⟩
    · exact Nat.not_lt.mpr hwraps.wraps hlength
    · cases hcallback.symm.trans hother
  | send | usedUp | leftBy => trivial

/-- A client that exchanges keys and asks for the service, and the answer to it. -/
def sampleOpening : List LineEvent :=
  (sampleHandshake.take 7).map .turn ++ [.send [sshMsgServiceAccept] true (fun _ => 0) .complete]

def sampleDigest : SshCrypto :=
  { sampleCrypto with
    sha256 := fun data => replicate 32 (data.foldl (fun sum byte => 31 * sum + byte) 7) }

/-- The client asks for new keys as soon as it has them, and for the service again. -/
def sampleRekeying : List LineEvent :=
  sampleOpening ++
    [.turn (sampleTurn sampleDevice (samplePacket [sshMsgNewkeys] ++ zeros 20)),
      .turn (sampleTurn sampleDevice (samplePacket [sshMsgServiceRequest] ++ zeros 20)),
      .send [sshMsgServiceAccept] true (fun _ => 0) .complete]

theorem sampleOpening_used_once :
    let line := (run (Line.step sampleDigest sampleChannel) sampleOpening freshLine).2
    line.sent.length = 16 ∧ line.received.length = 10 ∧ line.sent.Nodup ∧ line.received.Nodup := by
  intro line
  have hsent : line.sent.length = 16 := by decide +kernel
  have hreceived : line.received.length = 10 := by decide +kernel
  have hguarded : Allowed (Line.step sampleDigest sampleChannel) (Plain sampleDigest)
      sampleOpening freshLine := by decide +kernel
  obtain ⟨hnodupSent, hnodupReceived⟩ := keystream_used_once sampleDigest (fun _ => rfl)
    sampleChannel sampleOpening (hguarded.mono fun _ _ => Plain.guarded)
  exact ⟨hsent, hreceived, hnodupSent (le_trans (le_of_eq hsent) (by decide)),
    hnodupReceived (le_trans (le_of_eq hreceived) (by decide))⟩

theorem sampleRekeying_reuses :
    let line := (run (Line.step sampleDigest sampleChannel) sampleRekeying freshLine).2
    line.sent.length = 32 ∧ ¬ line.sent.Nodup ∧ ¬ line.received.Nodup := by
  decide +kernel

end PdiStack.Keystream
