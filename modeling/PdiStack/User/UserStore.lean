import PdiStack.Core.Lines
import PdiStack.Core.Loop
import PdiStack.Storage.FileSystemInterface
import PdiStack.Utility.DataTypeConversions

/-!
# The user store

`UserStoreService` keeps accounts in `/etc/passwd` and password hashes in
`/etc/shadow`, one line a user and fields between colons, and reads them again
for every lookup.  A change of an existing line copies the file line by line to
the temporary directory, leaves the line out, deletes the original and moves the
copy into its place.

The hash function and the salt of the moment are parameters.
-/

namespace PdiStack.UserStore

open StringOperations DataTypeConversions FileSystemInterface Loop

variable {σ τ : Type}

def passwdPath : Text := text "/etc/passwd"

def shadowPath : Text := text "/etc/shadow"

def fieldSep : UInt8 := 0x3A

def lineCommentChar : UInt8 := 0x23

def newline : UInt8 := 0x0A

def carriageReturn : UInt8 := 0x0D

def saltLen : ℕ := 8

structure UserRecord where
  uid : UInt16
  gid : UInt16
  username : Text
  home : Text
  shell : Text
deriving DecidableEq, Repr

def numberField (field : Text) : UInt16 :=
  (stringToUint32Upto field (UInt8.ofNat field.length)).toUInt16

/-- `parsePasswdLine`.  Fields behind the sixth are not looked at. -/
def parsePasswdLine (line : Text) : Option UserRecord :=
  if line = [] ∨ line.head? = some lineCommentChar then
    none
  else
    match line.splitOn fieldSep with
    | username :: _ :: uid :: gid :: home :: shell :: _ =>
      some
        { uid := numberField uid
          gid := numberField gid
          username := username
          home := home
          shell := shell }
    | _ => none

def passwdFields (record : UserRecord) : List Text :=
  [record.username, text "x", uint32ToString record.uid.toUInt32 8,
    uint32ToString record.gid.toUInt32 8, record.home, record.shell]

def serializePasswdLine (record : UserRecord) : Text := [fieldSep].intercalate (passwdFields record)

def popCarriageReturn (linedata : Text) : Text :=
  if linedata.getLast? = some carriageReturn then linedata.dropLast else linedata

variable (fs : FileSystem σ) (username : Text)

def shadowLine (hash salt : Text) : Text :=
  username ++ [fieldSep] ++ bytesToHexString hash ++ [fieldSep] ++ bytesToHexString salt

/-- The hash and the salt in a line of the shadow file, when it is a well formed
line of the given user. -/
def parseShadowLine (line : Text) : Option (Text × Text) :=
  match find line [fieldSep] 0 with
  | none => none
  | some sep1 =>
    if sep1 = username.length ∧ line.take username.length = username then
      match find line [fieldSep] (sep1 + 1) with
      | none => none
      | some sep2 =>
        if sep2 - sep1 - 1 = 64 ∧ line.length - sep2 - 1 = saltLen * 2 then do
          let hash ← hexStringToBytes (line.drop (sep1 + 1)) 32
          let salt ← hexStringToBytes (line.drop (sep2 + 1)) saltLen
          return (hash, salt)
        else
          none
    else
      none

/-- One read up to the next line end: the count it returns and the text it hands
over. -/
def readLine (path : Text) (offset : ℕ) (world : σ) : Reply × Text :=
  match fs.readFile path 128 offset (text "\n") world with
  | .error error => (.error error, [])
  | .ok stream => stream.deliver (fun data linedata => (true, linedata ++ data)) []

/-- One pass: a read that fails ends the loop, and the next line starts one byte
behind this one. -/
def linePass (path : Text) (size : ℕ) (worldOf : τ → σ) (stop : τ → Bool)
    (body : Text → τ → τ) (at_ : ℕ × τ) : Pass (ℕ × τ) τ :=
  if at_.1 < size ∧ stop at_.2 = false then
    match readLine fs path at_.1 (worldOf at_.2) with
    | (.error _, _) => .done at_.2
    | (.ok bytes, linedata) => .again (at_.1 + bytes + 1, body linedata at_.2)
  else
    .done at_.2

theorem linePass_variant (path : Text) (size : ℕ) (worldOf : τ → σ)
    (stop : τ → Bool) (body : Text → τ → τ) :
    Variant (linePass fs path size worldOf stop body) fun at_ => size - at_.1 := by
  intro at_ next hpass
  unfold linePass at hpass
  split at hpass
  case isTrue hgoes =>
    split at hpass
    · cases hpass
    · cases hpass
      dsimp only
      omega
  case isFalse => cases hpass

def readLines (path : Text) (size : ℕ) (worldOf : τ → σ) (stop : τ → Bool)
    (body : Text → τ → τ) (state : τ) : τ :=
  run (linePass fs path size worldOf stop body) _
    (linePass_variant fs path size worldOf stop body) (0, state)

/-- A search through a file for the first line that `found` accepts. -/
def scanFile (path : Text) (found : Text → Option τ) (world : σ) : Option τ :=
  if fs.isFileExist path world then
    match fs.getFileSize path world with
    | .error _ => none
    | .ok size =>
      if size = 0 then none
      else readLines fs path size (fun _ => world) Option.isSome
        (fun linedata _ => found (popCarriageReturn linedata)) none
  else
    none

def scanPasswdFile (accepts : UserRecord → Bool) (world : σ) : Option UserRecord :=
  scanFile fs passwdPath (fun line => (parsePasswdLine line).filter accepts) world

def findUserByName (world : σ) : Option UserRecord :=
  if username = [] then none
  else scanPasswdFile fs (fun candidate => candidate.username = username) world

def findUserByUid (uid : UInt16) (world : σ) : Option UserRecord :=
  scanPasswdFile fs (fun candidate => candidate.uid = uid) world

def readShadowRecord (world : σ) : Option (Text × Text) :=
  scanFile fs shadowPath (parseShadowLine username) world

def verifyPassword (hashPassword : Text → Text → Text)
    (username password : Text) (world : σ) : Bool :=
  match readShadowRecord fs username world with
  | none => false
  | some (storedHash, salt) => storedHash = hashPassword password salt

def tempPath (filepath : Text) : Text := getTempDirectory ++ basename filepath

def matchesUsername (linedata : Text) : Bool :=
  username.length < linedata.length ∧ linedata.take username.length = username ∧
    linedata[username.length]? = some fieldSep

/-- What the copying loop does with a line: a line of the user is left out, an
empty one too, and any other is appended to the copy. -/
def copyLine (temppath username linedata : Text) (state : Bool × σ) : Bool × σ :=
  if matchesUsername username linedata then (true, state.2)
  else if linedata = [] then state
  else (state.1, (fs.writeFile temppath (linedata ++ [newline]) true state.2).2)

/-- A copy left over from an earlier change is deleted, and a new one is made with
the permissions of the original. -/
def startCopy (temppath : Text) (original : Option FileInfo) (world : σ) : σ :=
  let world := if fs.isFileExist temppath world then (fs.deleteFile temppath world).2 else world
  match original with
  | none => world
  | some original =>
    match fs.createFile temppath [] world with
    | (.error _, world) => world
    | (.ok _, world) => (fs.setFilePermissions temppath original.perms world).2

/-- The original is deleted and the copy takes its place, with the permissions and
the owner the original had. -/
def finishCopy (filepath temppath : Text) (original : Option FileInfo)
    (world : σ) : σ :=
  let world := (fs.deleteFile filepath world).2
  let world := (fs.moveFile temppath filepath world).2
  match original with
  | none => world
  | some original =>
    let world := (fs.setFilePermissions filepath original.perms world).2
    (fs.setFileOwner filepath original.uid original.gid world).2

def removeLineByUsername (filepath username : Text) (world : σ) : Bool × σ :=
  if fs.isFileExist filepath world then
    let original := (fs.getFileMeta filepath world).toOption
    let temppath := tempPath filepath
    let world := startCopy fs temppath original world
    match fs.getFileSize filepath world with
    | .error _ => (false, world)
    | .ok size =>
      if size = 0 then (false, world)
      else
        match readLines fs filepath size Prod.snd (fun _ => false)
            (copyLine fs temppath username) (false, world) with
        | (true, world) => (true, finishCopy fs filepath temppath original world)
        | (false, world) => (false, (fs.deleteFile temppath world).2)
  else
    (false, world)

/-- `setPassword` with the hash and the salt it has computed.  A null name or
password is refused as an empty name is. -/
def setPassword (hash salt username : Text) (world : σ) : Bool × σ :=
  if username = [] then (false, world)
  else
    let line := shadowLine username hash salt ++ [newline]
    let world := (removeLineByUsername fs shadowPath username world).2
    let append := fun world : σ =>
      match fs.writeFile shadowPath line true world with
      | (.error _, world) => (false, world)
      | (.ok _, world) => (true, world)
    if fs.isFileExist shadowPath world then append world
    else
      match fs.createFile shadowPath [] world with
      | (.error _, world) => (false, world)
      | (.ok _, world) => append (fs.setFilePermissions shadowPath 0o600 world).2

/-- `addUser`.  No password and an empty one are the same to it. -/
def addUser (hashPassword : Text → Text → Text) (salt : Text)
    (record : UserRecord) (password : Text) (world : σ) : Bool × σ :=
  if record.username = [] then (false, world)
  else if (findUserByName fs (cString record.username) world).isSome then (false, world)
  else
    let line := serializePasswdLine record ++ [newline]
    let append := fun world : σ =>
      match fs.writeFile passwdPath line true world with
      | (.error _, world) => (false, world)
      | (.ok _, world) =>
        if password = [] then (true, world)
        else
          match setPassword fs (hashPassword password salt) salt (cString record.username)
              world with
          | (true, world) => (true, world)
          | (false, world) =>
            (false, (removeLineByUsername fs passwdPath (cString record.username) world).2)
    if fs.isFileExist passwdPath world then append world
    else
      match fs.createFile passwdPath [] world with
      | (.error _, world) => (false, world)
      | (.ok _, world) => append world

def removeUser (world : σ) : Bool × σ :=
  if username = [] then (false, world)
  else
    match removeLineByUsername fs passwdPath username world with
    | (passwdRemoved, world) =>
      (passwdRemoved, (removeLineByUsername fs shadowPath username world).2)

end PdiStack.UserStore
