import PdiStack.Core.WordBytes
import PdiStack.Utility.StringOperations

/-!
# SSH message fields

The fields inside an SSH payload: big-endian words, length-prefixed strings and
comma-separated name lists, and the three messages of the handshake that the
server takes apart.  A reader takes the payload and an offset and returns the
field with the offset after it, or refuses.
-/

namespace PdiStack.Message

open StringOperations WordBytes List

def sshMsgServiceRequest : UInt8 := 5
def sshMsgServiceAccept : UInt8 := 6
def sshMsgExtInfo : UInt8 := 7
def sshMsgKexinit : UInt8 := 20
def sshMsgNewkeys : UInt8 := 21
def sshMsgKexdhInit : UInt8 := 30
def sshMsgUserauthRequest : UInt8 := 50
def sshMsgUserauthFailure : UInt8 := 51
def sshMsgUserauthSuccess : UInt8 := 52
def sshMsgUserauthPkOk : UInt8 := 60
def sshMsgDisconnect : UInt8 := 1
def sshMsgChannelData : UInt8 := 94

def bytesOfWord (word : UInt32) : Text :=
  [(word >>> 24).toUInt8, (word >>> 16).toUInt8, (word >>> 8).toUInt8, word.toUInt8]

def wordAt (payload : Text) (offset : ℕ) : UInt32 :=
  (payload.getD offset 0).toUInt32 <<< 24 ||| (payload.getD (offset + 1) 0).toUInt32 <<< 16 |||
    (payload.getD (offset + 2) 0).toUInt32 <<< 8 ||| (payload.getD (offset + 3) 0).toUInt32

/-- `append_ssh_string`: the length as a word, then the bytes. -/
def sshString (data : Text) : Text := bytesOfWord data.length.toUInt32 ++ data

@[simp]
theorem length_sshString (data : Text) : (sshString data).length = 4 + data.length := by
  rw [sshString, length_append]
  rfl

def readSshString (payload : Text) (offset : ℕ) : Option (Text × ℕ) :=
  if payload.length < offset + 4 then
    none
  else
    let length := (wordAt payload offset).toNat
    if payload.length - (offset + 4) < length then
      none
    else
      some ((payload.drop (offset + 4)).take length, offset + 4 + length)

theorem wordAt_bytesOfWord (before rest : Text) (word : UInt32) :
    wordAt (before ++ (bytesOfWord word ++ rest)) before.length = word := by
  have hbytes : wordAt (before ++ (bytesOfWord word ++ rest)) before.length =
      (word >>> 24).toUInt8.toUInt32 <<< 24 ||| (word >>> 16).toUInt8.toUInt32 <<< 16 |||
        (word >>> 8).toUInt8.toUInt32 <<< 8 ||| word.toUInt8.toUInt32 := by
    simp [wordAt, bytesOfWord]
  rw [hbytes, ofBytes32_bytes_bigEndian]

theorem readSshString_sshString (before data rest : Text) (hlength : data.length < 2 ^ 32) :
    readSshString (before ++ (sshString data ++ rest)) before.length =
      some (data, before.length + 4 + data.length) := by
  have hword : data.length.toUInt32.toNat = data.length := UInt32.toNat_ofNat_of_lt' hlength
  have hsize : (before ++ (sshString data ++ rest)).length =
      before.length + 4 + data.length + rest.length := by
    simp only [length_append, length_sshString]
    omega
  have hbody : (before ++ (sshString data ++ rest)).drop (before.length + 4) = data ++ rest := by
    rw [← drop_drop, drop_left]
    rfl
  have hread : wordAt (before ++ (sshString data ++ rest)) before.length =
      data.length.toUInt32 := by
    exact wordAt_bytesOfWord before (data ++ rest) data.length.toUInt32
  rw [readSshString, if_neg (by omega), hread, hword]
  rw [if_neg (by omega), hbody, take_left]

variable {payload : Text} {offset : ℕ}

/-- A string that stands at an offset is read there, and what follows it stands at
the offset after it. -/
theorem readSshString_of_drop {data rest : Text} (hlength : data.length < 2 ^ 32)
    (hdrop : payload.drop offset = sshString data ++ rest) :
    readSshString payload offset = some (data, offset + 4 + data.length) ∧
      payload.drop (offset + 4 + data.length) = rest := by
  have hoffset : (payload.take offset).length = offset := by
    have hsize := congrArg List.length hdrop
    simp only [length_drop, length_append, length_sshString] at hsize
    rw [length_take]
    omega
  have hsplit : payload = payload.take offset ++ (sshString data ++ rest) := by
    rw [← hdrop, take_append_drop]
  constructor
  · have hread := readSshString_sshString (payload.take offset) data rest hlength
    rwa [← hsplit, hoffset] at hread
  · rw [add_assoc, ← drop_drop, hdrop, ← length_sshString, drop_left]

theorem length_lt_of_readSshString {data : Text} {next : ℕ}
    (hread : readSshString payload offset = some (data, next)) : data.length < 2 ^ 32 := by
  unfold readSshString at hread
  dsimp only at hread
  split at hread
  · cases hread
  split at hread
  · cases hread
  · cases hread
    exact lt_of_le_of_lt (length_take_le _ _) (UInt32.toNat_lt _)

/-- The names between commas.  A name after the last comma counts only when it is
not empty. -/
def splitNames : Text → Text → List Text
  | current, [] => if current = [] then [] else [current]
  | current, byte :: rest =>
    if byte = 0x2C then current :: splitNames [] rest else splitNames (current ++ [byte]) rest

def parseNameList (payload : Text) (offset : ℕ) : Option (List Text × ℕ) :=
  (readSshString payload offset).map fun (names, next) => (splitNames [] names, next)

def parseNameLists (payload : Text) : ℕ → ℕ → Option (List (List Text) × ℕ)
  | 0, offset => some ([], offset)
  | count + 1, offset =>
    match parseNameList payload offset with
    | none => none
    | some (names, offset) =>
      (parseNameLists payload count offset).map fun (lists, offset) => (names :: lists, offset)

structure SshKexInitFields where
  kexAlgorithms : List Text
  serverHostKeyAlgorithms : List Text
  macAlgorithmsCtos : List Text
deriving DecidableEq, Repr

/-- `parse_kex_init_fields`: the message code, a cookie of sixteen bytes, ten
name lists, a flag and a reserved word. -/
def parseKexInitFields (payload : Text) : Option SshKexInitFields :=
  if payload.length < 17 ∨ payload.getD 0 0 ≠ sshMsgKexinit then
    none
  else
    match parseNameLists payload 10 17 with
    | none => none
    | some (lists, offset) =>
      if payload.length < offset + 1 + 4 then
        none
      else
        some
          { kexAlgorithms := lists.getD 0 []
            serverHostKeyAlgorithms := lists.getD 1 []
            macAlgorithmsCtos := lists.getD 4 [] }

/-- `parse_kex_ecdh_init`: the client's public key of 32 bytes. -/
def parseKexEcdhInit (payload : Text) : Option Text :=
  if payload.length < 1 ∨ payload.getD 0 0 ≠ sshMsgKexdhInit then
    none
  else if payload.length < 1 + 4 then
    none
  else if wordAt payload 1 ≠ 32 ∨ payload.length < 5 + 32 then
    none
  else
    some ((payload.drop 5).take 32)

structure SshUserAuthRequest where
  username : Text
  service : Text
  method : Text
  password : Text
  hasSignature : Bool
  pkAlgorithm : Text
  pubkeyBlob : Text
  signature : Text
deriving DecidableEq, Repr

def methodPassword : Text := text "password"
def methodPublickey : Text := text "publickey"

def plainUserAuth (username service method : Text) : SshUserAuthRequest :=
  { username := username, service := service, method := method, password := []
    hasSignature := false, pkAlgorithm := [], pubkeyBlob := [], signature := [] }

/-- The password method: a flag that is ignored, then the password. -/
def parsePasswordAuth (payload : Text) (offset : ℕ) (request : SshUserAuthRequest) :
    Option SshUserAuthRequest :=
  if payload.length ≤ offset then
    none
  else
    (readSshString payload (offset + 1)).map fun (password, _) =>
      { request with password := password }

/-- The public key method: whether a signature follows, the algorithm, the key
and the signature. -/
def parsePublickeyAuth (payload : Text) (offset : ℕ) (request : SshUserAuthRequest) :
    Option SshUserAuthRequest :=
  if payload.length ≤ offset then
    none
  else
    match readSshString payload (offset + 1) with
    | none => none
    | some (algorithm, offset') =>
      match readSshString payload offset' with
      | none => none
      | some (blob, offset'') =>
        let request := { request with
          hasSignature := payload.getD offset 0 ≠ 0, pkAlgorithm := algorithm
          pubkeyBlob := blob }
        if request.hasSignature then
          (readSshString payload offset'').map fun (signature, _) =>
            { request with signature := signature }
        else
          some request

def parseUserauthRequest (payload : Text) : Option SshUserAuthRequest :=
  match readSshString payload 1 with
  | none => none
  | some (username, offset) =>
    match readSshString payload offset with
    | none => none
    | some (service, offset) =>
      match readSshString payload offset with
      | none => none
      | some (method, offset) =>
        let request := plainUserAuth username service method
        if method = methodPassword then
          parsePasswordAuth payload offset request
        else if method = methodPublickey then
          parsePublickeyAuth payload offset request
        else
          some request

/-- The fields of a request that a signature covers were all read as strings. -/
structure ShortFields (request : SshUserAuthRequest) : Prop where
  username : request.username.length < 2 ^ 32
  service : request.service.length < 2 ^ 32
  method : request.method.length < 2 ^ 32
  pkAlgorithm : request.pkAlgorithm.length < 2 ^ 32
  pubkeyBlob : request.pubkeyBlob.length < 2 ^ 32

theorem shortFields_plainUserAuth {username service method : Text}
    (husername : username.length < 2 ^ 32) (hservice : service.length < 2 ^ 32)
    (hmethod : method.length < 2 ^ 32) : ShortFields (plainUserAuth username service method) :=
  ⟨husername, hservice, hmethod, Nat.two_pow_pos 32, Nat.two_pow_pos 32⟩

variable {request : SshUserAuthRequest}

theorem parsePasswordAuth_shortFields {parsed : SshUserAuthRequest} (hshort : ShortFields request)
    (hparsed : parsePasswordAuth payload offset request = some parsed) : ShortFields parsed := by
  unfold parsePasswordAuth at hparsed
  split at hparsed
  · cases hparsed
  · obtain ⟨_, _, rfl⟩ := Option.map_eq_some_iff.mp hparsed
    exact ⟨hshort.username, hshort.service, hshort.method, hshort.pkAlgorithm, hshort.pubkeyBlob⟩

theorem parsePublickeyAuth_shortFields {parsed : SshUserAuthRequest} (hshort : ShortFields request)
    (hparsed : parsePublickeyAuth payload offset request = some parsed) : ShortFields parsed := by
  unfold parsePublickeyAuth at hparsed
  split at hparsed
  · cases hparsed
  split at hparsed
  · cases hparsed
  rename_i algorithm _ halgorithm
  split at hparsed
  · cases hparsed
  rename_i blob _ hblob
  dsimp only at hparsed
  split at hparsed
  · obtain ⟨_, _, rfl⟩ := Option.map_eq_some_iff.mp hparsed
    exact ⟨hshort.username, hshort.service, hshort.method,
      length_lt_of_readSshString halgorithm, length_lt_of_readSshString hblob⟩
  · cases hparsed
    exact ⟨hshort.username, hshort.service, hshort.method,
      length_lt_of_readSshString halgorithm, length_lt_of_readSshString hblob⟩

theorem parseUserauthRequest_shortFields (hparsed : parseUserauthRequest payload = some request) :
    ShortFields request := by
  unfold parseUserauthRequest at hparsed
  split at hparsed
  · cases hparsed
  rename_i husername
  split at hparsed
  · cases hparsed
  rename_i hservice
  split at hparsed
  · cases hparsed
  rename_i hmethod
  have hplain := shortFields_plainUserAuth (length_lt_of_readSshString husername)
    (length_lt_of_readSshString hservice) (length_lt_of_readSshString hmethod)
  split at hparsed
  · exact parsePasswordAuth_shortFields hplain hparsed
  split at hparsed
  · exact parsePublickeyAuth_shortFields hplain hparsed
  · cases hparsed
    exact hplain

end PdiStack.Message
