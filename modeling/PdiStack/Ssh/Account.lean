import PdiStack.Ssh.Session

/-!
# Logging in with a key

What stands behind a login by public key: the key is listed on the device, its owner
signed data that names the session, the user and the key, and the session then acts as
that user.  A key on the list opens every account, and also a name that no account has.

The verification primitives are parameters.  `GenuineOnly` is what they are trusted
with: a signature that verifies was made by the owner of the key.
-/

namespace PdiStack.Account

open StringOperations Message Packet UserAuth Session

variable {ε : Type}

inductive PublicKey where
  | ed25519 (key : Text)
  | rsa (exponent modulus : Text)
deriving DecidableEq, Repr

def publicKeyOf (blob : Text) : Option PublicKey :=
  match extractEd25519BlobField blob 32 with
  | some key => some (.ed25519 key)
  | none => (extractRsaPubkey blob).map fun (exponent, modulus) => .rsa exponent modulus

structure GenuineOnly (crypto : SshCrypto) (signed : PublicKey → Text → Prop) : Prop where
  ed25519 : ∀ signature data key,
    crypto.ed25519Verify signature data key → signed (.ed25519 key) data
  rsa : ∀ exponent modulus long data signature,
    crypto.rsaVerify exponent modulus long data signature → signed (.rsa exponent modulus) data

theorem extractEd25519BlobField_of_ne {blob type : Text} {offset expectedSize : ℕ}
    (htype : readSshString blob 0 = some (type, offset)) (hne : type ≠ sshEd25519KeyType) :
    extractEd25519BlobField blob expectedSize = none := by
  rw [extractEd25519BlobField, htype]
  exact if_pos hne

variable {crypto : SshCrypto} {session : SshSession} {request : SshUserAuthRequest}

/-- A request whose signature verifies carries the key that signed its data. -/
theorem signed_of_verifyPubkeySignature {signed : PublicKey → Text → Prop}
    (hgenuine : GenuineOnly crypto signed)
    (hverified : verifyPubkeySignature crypto session request) :
    ∃ key, publicKeyOf request.pubkeyBlob = some key ∧
      signed key (pubkeyAuthSignedData session request) := by
  unfold verifyPubkeySignature at hverified
  split at hverified
  · cases hverified
  rename_i type offset htype
  split at hverified
  · split at hverified
    · rename_i rawkey rawsig hrawkey _
      exact ⟨.ed25519 rawkey, by rw [publicKeyOf, hrawkey], hgenuine.ed25519 _ _ _ hverified⟩
    · cases hverified
  rename_i hnotEd25519
  split at hverified
  · split at hverified
    · rename_i name rawsig exponent modulus _ hpubkey
      refine ⟨.rsa exponent modulus, ?_, hgenuine.rsa _ _ _ _ _ hverified⟩
      rw [publicKeyOf, extractEd25519BlobField_of_ne htype hnotEd25519, hpubkey]
      rfl
    · cases hverified
  · cases hverified

/-- The session, the user and the key that a signature is about. -/
structure Named where
  sessionId : Text
  username : Text
  pubkeyBlob : Text
deriving DecidableEq, Repr

def readNamed (data : Text) : Option Named := do
  let (sessionId, offset) ← readSshString data 0
  let (username, offset) ← readSshString data (offset + 1)
  let (_, offset) ← readSshString data offset
  let (_, offset) ← readSshString data offset
  let (_, offset) ← readSshString data (offset + 1)
  let (pubkeyBlob, _) ← readSshString data offset
  some { sessionId := sessionId, username := username, pubkeyBlob := pubkeyBlob }

private theorem drop_succ {payload rest : Text} {offset : ℕ} {byte : UInt8}
    (hdrop : payload.drop offset = byte :: rest) : payload.drop (offset + 1) = rest := by
  rw [← List.drop_drop, hdrop, List.drop_one, List.tail_cons]

/-- The data a signature is verified over names the session, the user and the
key, and nothing else can be read from it. -/
theorem readNamed_pubkeyAuthSignedData (hhash : session.exchangeHashH.length = 32)
    (hshort : ShortFields request) :
    readNamed (pubkeyAuthSignedData session request) =
      some { sessionId := session.exchangeHashH
             username := request.username
             pubkeyBlob := request.pubkeyBlob } := by
  have hhashShort : session.exchangeHashH.length < 2 ^ 32 := by omega
  have hstart : (pubkeyAuthSignedData session request).drop 0 =
      sshString session.exchangeHashH ++ sshMsgUserauthRequest :: (sshString request.username ++
        (sshString request.service ++ (sshString request.method ++ 1 ::
          (sshString request.pkAlgorithm ++ (sshString request.pubkeyBlob ++ []))))) := by
    simp [pubkeyAuthSignedData]
  obtain ⟨hreadHash, hafterHash⟩ := readSshString_of_drop hhashShort hstart
  obtain ⟨hreadName, hafterName⟩ := readSshString_of_drop hshort.username (drop_succ hafterHash)
  obtain ⟨hreadService, hafterService⟩ := readSshString_of_drop hshort.service hafterName
  obtain ⟨hreadMethod, hafterMethod⟩ := readSshString_of_drop hshort.method hafterService
  obtain ⟨hreadAlgorithm, hafterAlgorithm⟩ :=
    readSshString_of_drop hshort.pkAlgorithm (drop_succ hafterMethod)
  obtain ⟨hreadBlob, -⟩ := readSshString_of_drop hshort.pubkeyBlob hafterAlgorithm
  simp [readNamed, hreadHash, hreadName, hreadService, hreadMethod, hreadAlgorithm, hreadBlob,
    Option.bind_eq_bind, Option.bind_some]

/-- The device lists the key and its owner signed for this session and user. -/
structure Entitled (signed : PublicKey → Text → Prop) (device : AuthDevice)
    (session : SshSession) (request : SshUserAuthRequest) : Prop where
  listed : keyListedUnder device device.homeDirectory request.pubkeyBlob
  agreed : ∃ key data, publicKeyOf request.pubkeyBlob = some key ∧ signed key data ∧
    readNamed data = some
      { sessionId := session.exchangeHashH
        username := request.username
        pubkeyBlob := request.pubkeyBlob }

theorem judgeRequest_publickey {device : AuthDevice} {username : Text}
    (hmethod : request.method = methodPublickey)
    (hauthed : judgeRequest crypto device session request = .authed username) :
    isAuthorizedPubkey device request.pubkeyBlob ∧
      verifyPubkeySignature crypto session request ∧ username = cString request.username := by
  have hnotPassword : ¬ (request.method = methodPassword ∧ session.config.passwordAuth) := by
    rw [hmethod]
    exact fun hpassword => absurd hpassword.1 (by decide +kernel)
  unfold judgeRequest at hauthed
  rw [if_neg hnotPassword] at hauthed
  split at hauthed
  · split at hauthed
    · cases hauthed
    rename_i hlisted
    split at hauthed
    · cases hauthed
    split at hauthed
    · rename_i hverified
      exact ⟨not_not.mp hlisted, hverified, (AuthVerdict.authed.inj hauthed).symm⟩
    · cases hauthed
  · cases hauthed

/-- Success is only answered to a request that was verified, and the event says
whom the session acts for. -/
theorem handleUserauthRequest_success {env : SshEnv} {origin : Origin} {payload : Text}
    (hsuccess : sshMsgUserauthSuccess ∈
      (handleUserauthRequest crypto env origin payload session :
        SshOutput ε × SshSession).1.replies) :
    ∃ request username, parseUserauthRequest payload = some request ∧
      judgeRequest crypto env.device session request = .authed username ∧
      (handleUserauthRequest crypto env origin payload session : SshOutput ε × SshSession).1.events =
        [.userauthRequest origin payload
          (if env.sendOk then some (setAuthorized env.device username) else none)] := by
  unfold handleUserauthRequest at hsuccess ⊢
  cases hparsed : parseUserauthRequest payload with
  | none => simp [hparsed, sshMsgUserauthSuccess, sshMsgUserauthFailure] at hsuccess
  | some request =>
    simp only [hparsed] at hsuccess ⊢
    cases hverdict : judgeRequest crypto env.device session request with
    | pkOk => simp [hverdict, sshMsgUserauthSuccess, sshMsgUserauthPkOk] at hsuccess
    | refused => simp [hverdict, sshMsgUserauthSuccess, sshMsgUserauthFailure] at hsuccess
    | authed username =>
      refine ⟨request, username, rfl, hverdict, ?_⟩
      simp only [hverdict] at hsuccess ⊢
      split
      · rename_i hrefused
        simp [hrefused, sshMsgUserauthSuccess, sshMsgDisconnect] at hsuccess
      split
      · rfl
      · rfl

/-- What a session of this user acts as: the user's record, nobody where there are
accounts but not this one, and root where there are none. -/
structure ActsAs (device : AuthDevice) (username : Text) (identity : Identity) : Prop where
  username_eq : identity.username = username
  of_record : ∀ record, device.findUserByName username = some record →
    identity.uid = record.uid ∧ identity.gid = record.gid
  of_missing : device.findUserByName username = none → device.shadowExists →
    identity.uid = userStoreNobodyUid ∧ identity.gid = userStoreNobodyGid
  of_unmanaged : device.findUserByName username = none → ¬ device.shadowExists →
    identity.uid = userStoreRootUid ∧ identity.gid = userStoreRootGid

theorem setAuthorized_actsAs {device : AuthDevice} {username : Text} (hname : username ≠ [])
    (hfree : 0 ∉ username) : ActsAs device username (setAuthorized device username) := by
  have hfound : findUser device (cString username) = device.findUserByName username := by
    rw [cString_of_notMem hfree, findUser, if_neg hname]
  simp only [setAuthorized, if_neg hname, hfound]
  refine ⟨?_, fun record hrecord => ?_, fun hmissing hshadow => ?_, fun hmissing hshadow => ?_⟩
  · repeat' split
    all_goals rfl
  · rw [hrecord]
    exact ⟨rfl, rfl⟩
  · rw [hmissing]
    simp [hshadow]
  · rw [hmissing]
    simp [hshadow]

/-- A request by public key for a name is answered with success only if it is
entitled to it, and the session then acts as that user.  The exchange hash is the
one of SHA-256. -/
theorem pubkey_login_entitled {crypto : SshCrypto} {signed : PublicKey → Text → Prop}
    (hgenuine : GenuineOnly crypto signed) (env : SshEnv) (origin : Origin) (payload : Text)
    (session : SshSession) (request : SshUserAuthRequest)
    (hhash : session.exchangeHashH.length = 32)
    (hparsed : parseUserauthRequest payload = some request)
    (hmethod : request.method = methodPublickey)
    (hname : request.username ≠ []) (hfree : 0 ∉ request.username) :
    let output := (handleUserauthRequest crypto env origin payload session :
      SshOutput ε × SshSession).1
    sshMsgUserauthSuccess ∈ output.replies →
      Entitled signed env.device session request ∧
        ∃ identity, ActsAs env.device request.username identity ∧
          output.events =
            [.userauthRequest origin payload (if env.sendOk then some identity else none)] := by
  intro output hsuccess
  obtain ⟨parsed, username, hparsed', hauthed, hevents⟩ := handleUserauthRequest_success hsuccess
  cases hparsed.symm.trans hparsed'
  obtain ⟨hlisted, hverified, hverifiedName⟩ := judgeRequest_publickey hmethod hauthed
  obtain ⟨key, hkey, hsigned⟩ := signed_of_verifyPubkeySignature hgenuine hverified
  rw [hverifiedName, cString_of_notMem hfree] at hevents
  refine ⟨⟨?_, key, _, hkey, hsigned, ?_⟩, _, setAuthorized_actsAs hname hfree, hevents⟩
  · exact (Bool.and_eq_true_iff.mp hlisted).2
  · exact readNamed_pubkeyAuthSignedData hhash (parseUserauthRequest_shortFields hparsed)

/-- Primitives whose signatures are the key written twice. -/
def sampleSigning : SshCrypto :=
  { sampleCrypto with ed25519Verify := fun signature _ key => signature = key ++ key }

def samplePubkeyBlob : Text := sshString sshEd25519KeyType ++ sshString (zeros 32)

def sampleUsers : Text → Option UserRecord := fun username =>
  if username = text "ann" then
    some { username := text "ann", uid := 1000, gid := 1000, home := text "/home/ann" }
  else if username = text "bob" then
    some { username := text "bob", uid := 1001, gid := 1001, home := text "/home/bob" }
  else
    none

/-- A device with two users whose list of keys holds one key.  The list in the
home directory of one of them is empty. -/
def sampleAccounts : AuthDevice where
  homeDirectory := text "/home"
  configFile := fun path =>
    if path = text "/home/.ssh/authorized_keys" then
      some [{ key := sshEd25519KeyType
              value := text "AAAAC3NzaC1lZDI1NTE5AAAAIAAAAAAAAAAAAAAAAAAAAAAAAAAAAAAAAAAAAAAAAAAA" }]
    else if path = text "/home/bob/.ssh/authorized_keys" then
      some []
    else
      none
  findUserByName := sampleUsers
  shadowExists := true
  loginUsername := text "pdiStack"
  isAuthorized := fun _ _ => false

def samplePubkeyRequest (username : Text) : SshUserAuthRequest :=
  { plainUserAuth username (text "ssh-connection") methodPublickey with
    hasSignature := true
    pkAlgorithm := sshEd25519KeyType
    pubkeyBlob := samplePubkeyBlob
    signature := sshString sshEd25519KeyType ++ sshString (zeros 64) }

def samplePubkeyPayload (username : Text) : Text :=
  [sshMsgUserauthRequest] ++ sshString username ++ sshString (text "ssh-connection") ++
    sshString methodPublickey ++ [1] ++ sshString sshEd25519KeyType ++
    sshString samplePubkeyBlob ++ sshString (sshString sshEd25519KeyType ++ sshString (zeros 64))

def samplePubkeyLogin (username : Text) : SshOutput Unit :=
  (handleUserauthRequest sampleSigning (sampleTurn sampleAccounts []) .plain
    (samplePubkeyPayload username) freshSession).1

theorem ann_login_entitled :
    sshMsgUserauthSuccess ∈ (samplePubkeyLogin (text "ann")).replies ∧
      Entitled (fun _ _ => True) sampleAccounts freshSession (samplePubkeyRequest (text "ann")) := by
  have hgenuine : GenuineOnly sampleSigning fun _ _ => True :=
    ⟨fun _ _ _ _ => trivial, fun _ _ _ _ _ _ => trivial⟩
  have hparsed : parseUserauthRequest (samplePubkeyPayload (text "ann")) =
      some (samplePubkeyRequest (text "ann")) := by decide +kernel
  have hlogin := @pubkey_login_entitled Unit _ _ hgenuine (sampleTurn sampleAccounts []) .plain _
    freshSession _ rfl hparsed rfl (by decide +kernel) (by decide +kernel)
  exact ⟨by decide +kernel, (hlogin (by decide +kernel)).1⟩

/-- The key opens an account whose own list does not have it, and a name that no
account has. -/
theorem shared_key_opens_any_name :
    (sshMsgUserauthSuccess ∈ (samplePubkeyLogin (text "bob")).replies ∧
        (sampleUsers (text "bob")).isSome ∧
        ¬ keyListedUnder sampleAccounts (text "/home/bob") samplePubkeyBlob) ∧
      sshMsgUserauthSuccess ∈ (samplePubkeyLogin (text "eve")).replies ∧
        sampleUsers (text "eve") = none := by
  decide +kernel

end PdiStack.Account
