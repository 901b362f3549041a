import PdiStack.Ssh.Packet
import PdiStack.Utility.Base64

/-!
# User authentication

What the server decides about a user authentication request, and the identity it
then gives the session.  A public key is looked up in one `authorized_keys` file
under the home directory of the device.  Its signature is verified over data that
names the session, the user and the key.  A password is handed to the
authentication service.
-/

namespace PdiStack.UserAuth

open StringOperations Message Packet Base64

structure UserRecord where
  username : Text
  uid : UInt16
  gid : UInt16
  home : Text
deriving DecidableEq, Repr

structure ConfigKv where
  key : Text
  value : Text
deriving DecidableEq, Repr

/-- What the device holds for the decision. -/
structure AuthDevice where
  homeDirectory : Text
  configFile : Text → Option (List ConfigKv)
  findUserByName : Text → Option UserRecord
  shadowExists : Bool
  loginUsername : Text
  isAuthorized : Text → Text → Bool

def sshEd25519KeyType : Text := text "ssh-ed25519"
def sshRsaKeyType : Text := text "ssh-rsa"
def sshRsaSigAlgoSha512 : Text := text "rsa-sha2-512"

/-- The path of the keys file below a home directory, cut to the buffer it is
printed into. -/
def authorizedKeysPath (home : Text) : Text :=
  ((if 1 < home.length then home else []) ++ text "/.ssh/authorized_keys").take 63

/-- The key blob on one line of the file: the Base64 text up to the first blank. -/
def keyBlobOf (line : ConfigKv) : Option Text :=
  if line.key = sshEd25519KeyType ∨ line.key = sshRsaKeyType then
    match base64Decode (line.value.takeWhile fun char => char ≠ 0x20 ∧ char ≠ 0x09) with
    | some [] => none
    | decoded => decoded
  else
    none

def keyListedUnder (device : AuthDevice) (home blob : Text) : Bool :=
  match device.configFile (authorizedKeysPath home) with
  | none => false
  | some lines => lines.any fun line => keyBlobOf line = some blob

/-- `is_authorized_pubkey`: the home directory is the device's, whoever logs in. -/
def isAuthorizedPubkey (device : AuthDevice) (blob : Text) : Bool :=
  blob ≠ [] && keyListedUnder device device.homeDirectory blob

/-- `build_pubkey_auth_signed_data`: the session's exchange hash, then the request
up to the key with the signature flag set. -/
def pubkeyAuthSignedData (session : SshSession) (request : SshUserAuthRequest) : Text :=
  sshString session.exchangeHashH ++ [sshMsgUserauthRequest] ++ sshString request.username ++
    sshString request.service ++ sshString request.method ++ [1] ++
    sshString request.pkAlgorithm ++ sshString request.pubkeyBlob

def extractEd25519BlobField (blob : Text) (expectedSize : ℕ) : Option Text :=
  match readSshString blob 0 with
  | none => none
  | some (type, offset) =>
    if type ≠ sshEd25519KeyType then
      none
    else
      match readSshString blob offset with
      | none => none
      | some (field, _) => if field.length = expectedSize then some field else none

def extractRsaPubkey (blob : Text) : Option (Text × Text) :=
  match readSshString blob 0 with
  | none => none
  | some (type, offset) =>
    if type ≠ sshRsaKeyType then
      none
    else
      match readSshString blob offset with
      | none => none
      | some (exponent, offset) =>
        (readSshString blob offset).map fun (modulus, _) => (exponent, modulus)

/-- The name of the signature algorithm and the signature in an RSA signature. -/
def extractRsaSignature (signature : Text) : Option (Text × Text) :=
  match readSshString signature 0 with
  | none => none
  | some (name, offset) =>
    (readSshString signature offset).map fun (rawsig, _) => (name, rawsig)

/-- `verify_pubkey_signature`: the key type in the blob selects the algorithm. -/
def verifyPubkeySignature (crypto : SshCrypto) (session : SshSession)
    (request : SshUserAuthRequest) : Bool :=
  match readSshString request.pubkeyBlob 0 with
  | none => false
  | some (type, _) =>
    if type = sshEd25519KeyType then
      match extractEd25519BlobField request.pubkeyBlob 32,
          extractEd25519BlobField request.signature 64 with
      | some rawkey, some rawsig =>
        crypto.ed25519Verify rawsig (pubkeyAuthSignedData session request) rawkey
      | _, _ => false
    else if type = sshRsaKeyType then
      match extractRsaSignature request.signature, extractRsaPubkey request.pubkeyBlob with
      | some (name, rawsig), some (exponent, modulus) =>
        crypto.rsaVerify exponent modulus (name = sshRsaSigAlgoSha512)
          (pubkeyAuthSignedData session request) rawsig
      | _, _ => false
    else
      false

def userStoreRootUid : UInt16 := 0
def userStoreRootGid : UInt16 := 0
def userStoreNobodyUid : UInt16 := 65534
def userStoreNobodyGid : UInt16 := 65534

/-- What an authorized session acts as. -/
structure Identity where
  username : Text
  uid : UInt16
  gid : UInt16
deriving DecidableEq, Repr

/-- `findUserByName` on a C string; no record has an empty name. -/
def findUser (device : AuthDevice) (username : Text) : Option UserRecord :=
  if username = [] then none else device.findUserByName username

/-- `setAuthorized(true)`: the identity of the last verified name.  A name
without a record is nobody on a device with a shadow file, and root on one
without.  The empty name stands for the login of the device. -/
def setAuthorized (device : AuthDevice) (lastVerifiedUsername : Text) : Identity :=
  let username :=
    if lastVerifiedUsername = [] then device.loginUsername else lastVerifiedUsername
  match findUser device (cString username) with
  | some record => { username := username, uid := record.uid, gid := record.gid }
  | none =>
    if device.shadowExists then
      { username := username, uid := userStoreNobodyUid, gid := userStoreNobodyGid }
    else
      { username := username, uid := userStoreRootUid, gid := userStoreRootGid }

/-- What a request comes to. -/
inductive AuthVerdict where
  | pkOk
  | authed (verifiedUsername : Text)
  | refused
deriving DecidableEq, Repr

def judgeRequest (crypto : SshCrypto) (device : AuthDevice) (session : SshSession)
    (request : SshUserAuthRequest) : AuthVerdict :=
  if request.method = methodPublickey ∧ session.config.pubkeyAuth then
    if ¬ isAuthorizedPubkey device request.pubkeyBlob then
      .refused
    else if ¬ request.hasSignature then
      .pkOk
    else if verifyPubkeySignature crypto session request then
      .authed (cString request.username)
    else
      .refused
  else if request.method = methodPassword ∧ session.config.passwordAuth then
    if 1 < request.username.length ∧ 1 < request.password.length ∧
        device.isAuthorized (cString request.username) (cString request.password) then
      .authed (cString request.username)
    else
      .refused
  else
    .refused

end PdiStack.UserAuth
