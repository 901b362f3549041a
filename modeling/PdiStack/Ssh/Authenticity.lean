import PdiStack.Ssh.Session

/-!
# Authenticity of encrypted packets

Past the key exchange every packet carries a MAC.  Without a bulk callback nothing of a
packet gets anywhere before its MAC was compared, and a packet whose MAC does not match
closes the session and does nothing else.  With a bulk callback the source gives the
comparison up.

The results are about packets whose length and MAC together do not exceed 32 bits.
-/

namespace PdiStack.Authenticity

open StringOperations Message Packet Session List

variable {ε : Type} {crypto : SshCrypto} {session : SshSession}

/-- The length in the header leaves room for the MAC in 32 bits. -/
def FitsLength (crypto : SshCrypto) (session : SshSession) : Prop :=
  (peekLength crypto session).toNat + session.macLen < 2 ^ 32

section

variable (hfits : FitsLength crypto session)
include hfits

theorem bodyLength_toNat :
    (bodyLength crypto session).toNat = (peekLength crypto session).toNat + session.macLen := by
  unfold FitsLength at hfits
  have hmac : session.macLen.toUInt32.toNat = session.macLen :=
    UInt32.toNat_ofNat_of_lt' (show session.macLen < 2 ^ 32 by omega)
  rw [bodyLength, UInt32.toNat_add, hmac, Nat.mod_eq_of_lt hfits]

theorem length_received : (nextSealed crypto session).received.length =
      min 4 session.rx.length +
        min ((peekLength crypto session).toNat + session.macLen) (session.rx.length - 4) := by
  simp [nextSealed, length_append, length_take, length_drop, bodyLength_toNat hfits]

/-- A packet that has arrived as a whole is read as a whole. -/
theorem complete_of_arrived
    (harrived : 4 + (peekLength crypto session).toNat + session.macLen ≤ session.rx.length) :
    (nextSealed crypto session).Complete := by
  rw [SealedPacket.Complete, length_received hfits]
  change _ = 4 + (peekLength crypto session).toNat + session.macLen
  omega

/-- A packet with a wrong MAC is refused, once there are enough bytes to look. -/
theorem parseSealedPacket_of_wrong_mac (henough : 4 + session.macLen ≤ session.rx.length)
    (hwrong : ¬ (nextSealed crypto session).authentic crypto) :
    parseSealedPacket crypto session = (.failed .sshMacFailed, afterSealed crypto session) := by
  have hlong : ¬ (nextSealed crypto session).received.length < session.macLen := by
    rw [length_received hfits]
    omega
  rw [parseSealedPacket, if_neg (by omega)]
  rw [if_neg hlong, if_neg hwrong]

end

/-- Nothing unchecked is acted on, without a bulk callback.  No block is handed
on.  A payload is the one of a packet whose MAC matched, and of all its bytes when
they had arrived.  A wrong MAC closes the session, with no effect and no reply. -/
theorem sealed_packets_checked (crypto : SshCrypto) (channel : ChannelService ε) (env : SshEnv)
    (session : SshSession) (hcallback : session.bolusCallback = false)
    (hfits : FitsLength crypto session) :
    let packet := nextSealed crypto session
    let reception := parseEncryptedPacket crypto env.bulk session
    reception.handed = [] ∧
      (∀ payload, reception.result = .payload payload →
        payload = packet.payload crypto ∧ packet.authentic crypto ∧
          (4 + packet.length.toNat + session.macLen ≤ session.rx.length → packet.Complete)) ∧
      (4 + session.macLen ≤ session.rx.length → ¬ packet.authentic crypto →
        handleChannelPacket crypto channel env session =
            ([], { afterSealed crypto session with state := .sessionClose }) ∧
          (session.state = .authenticationRequest →
            handleAuthentication crypto env session =
              ((silent : SshOutput ε),
                { afterSealed crypto session with state := .sessionClose }))) := by
  intro packet reception
  have hreception : reception = _ := parseEncryptedPacket_of_no_callback env.bulk hcallback
  refine ⟨by rw [hreception], fun payload hpayload => ?_, fun henough hwrong => ?_⟩
  · rw [hreception] at hpayload
    obtain ⟨hauthentic, hpayloadEq⟩ := parseSealedPacket_payload hpayload
    exact ⟨hpayloadEq, hauthentic, complete_of_arrived hfits⟩
  · have hrefused := parseSealedPacket_of_wrong_mac hfits henough hwrong
    constructor
    · rw [handleChannelPacket, parseEncryptedPacket_of_no_callback env.bulk hcallback, hrefused]
      rfl
    · intro hstate
      rw [handleAuthentication, if_pos hstate,
        parseEncryptedPacket_of_no_callback env.bulk hcallback, hrefused]

/-- A session that is writing a file, with a packet of channel data at the head of
the received bytes and a MAC after it. -/
def sampleUpload (bolusCallback : Bool) (mac : Text) : SshSession :=
  { freshSession with
    state := .channelRequest
    bolusCallback := bolusCallback
    rx := bytesOfWord 17 ++ [4, sshMsgChannelData] ++ bytesOfWord 0 ++ sshString (text "abc") ++
      zeros 4 ++ mac }

/-- A device whose channel writes down every block it is handed. -/
def sampleWriter : ChannelService Text where
  onPayload := fun _ _ => ([], .stay, false)
  onBlock := fun block _ => [block]
  pending := fun _ => ([], .stay)

def sampleBulkTurn : SshEnv :=
  let env := sampleTurn
    { homeDirectory := [], configFile := fun _ => none, findUserByName := fun _ => none
      shadowExists := false, loginUsername := [], isAuthorized := fun _ _ => false } []
  { env with bulk := { env.bulk with passes := [([], 0)] } }

theorem wrong_mac_closes :
    handleChannelPacket sampleCrypto sampleWriter sampleBulkTurn
        (sampleUpload false (replicate 20 1)) =
      ([], { afterSealed sampleCrypto (sampleUpload false (replicate 20 1)) with
        state := .sessionClose }) :=
  ((sealed_packets_checked sampleCrypto sampleWriter sampleBulkTurn
    (sampleUpload false (replicate 20 1)) rfl (by unfold FitsLength; decide +kernel)).2.2
      (by decide +kernel) (by decide +kernel)).1

/-- With the callback set, the data of the same packet is written. -/
theorem bulk_block_unchecked :
    let session := sampleUpload true (replicate 20 1)
    ¬ (nextSealed sampleCrypto session).authentic sampleCrypto ∧
      (parseEncryptedPacket sampleCrypto sampleBulkTurn.bulk session).handed = [text "abc"] ∧
      (handleChannelPacket sampleCrypto sampleWriter sampleBulkTurn session).1 = [text "abc"] := by
  decide +kernel

end PdiStack.Authenticity
