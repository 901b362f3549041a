import PdiStack.Core.ByteReader
import PdiStack.Ssh.Message
import PdiStack.Storage.FileSystemInterface
import PdiStack.Utility.Base64
import PdiStack.Utility.DataTypeConversions

/-!
# SFTP requests

`handleChannelSubsystemSftpRequest` takes one request out of the data of a channel, does
what it asks for and answers it.  Each branch reads the fields it needs, with or without
asking first whether they are there, and leaves a reply, a status code, or neither.

The fields are read by a `Reader`, which remembers how far it has read.  Offsets are
natural numbers: the data of a channel is far shorter than 32 bits can count.
-/

namespace PdiStack.Sftp

open StringOperations DataTypeConversions Base64 Message ByteReader FileSystemInterface List Option

/-- The requests that have a branch. -/
inductive PacketType where
  | init
  | open
  | close
  | read
  | write
  | lstat
  | fstat
  | setstat
  | fsetstat
  | opendir
  | readdir
  | remove
  | mkdir
  | rmdir
  | realpath
  | stat
  | rename
  | readlink
  | symlink
deriving DecidableEq, Repr

def PacketType.ofByte : UInt8 → Option PacketType
  | 1 => some .init
  | 3 => some .open
  | 4 => some .close
  | 5 => some .read
  | 6 => some .write
  | 7 => some .lstat
  | 8 => some .fstat
  | 9 => some .setstat
  | 10 => some .fsetstat
  | 11 => some .opendir
  | 12 => some .readdir
  | 13 => some .remove
  | 14 => some .mkdir
  | 15 => some .rmdir
  | 16 => some .realpath
  | 17 => some .stat
  | 18 => some .rename
  | 19 => some .readlink
  | 20 => some .symlink
  | _ => none

def sshFxpVersion : UInt8 := 2
def sshFxpStatus : UInt8 := 101
def sshFxpHandle : UInt8 := 102
def sshFxpData : UInt8 := 103
def sshFxpName : UInt8 := 104
def sshFxpAttrs : UInt8 := 105

/-- The status codes that are sent. -/
inductive SftpStatus where
  | ok
  | eof
  | noSuchFile
  | failure
  | badMessage
  | opUnsupported
  | invalidHandle
  | noSuchPath
  | fileAlreadyExists
deriving DecidableEq, Repr

def SftpStatus.code : SftpStatus → UInt32
  | .ok => 0
  | .eof => 1
  | .noSuchFile => 2
  | .failure => 4
  | .badMessage => 5
  | .opUnsupported => 8
  | .invalidHandle => 9
  | .noSuchPath => 10
  | .fileAlreadyExists => 11

def sshFxfRead : UInt32 := 0x01
def sshFxfWrite : UInt32 := 0x02
def sshFxfCreat : UInt32 := 0x08
def sshFxfTrunc : UInt32 := 0x10
def sshFxfExcl : UInt32 := 0x20

/-- The attributes that are sent: size, owner, permissions and times. -/
def sshFilexferAttrs : UInt32 := 0x0F

/-! ## State -/

structure SftpEntry where
  name : Text
  size : UInt64
  isDir : Bool
  uid : UInt16
  gid : UInt16
  perms : UInt16
  ctime : UInt32
  mtime : UInt32
deriving DecidableEq, Repr

/-- `SSHSubsystemRequest`, and whether the channel has a handler for bolus chunks. -/
structure SubsystemRequest where
  subsystem : Text
  filepath : Text
  handle : Text
  isDir : Bool
  readdirOffset : ℕ
  dirEntries : List SftpEntry
  bolusCallback : Bool
deriving DecidableEq, Repr

/-- What a request finds around it. -/
structure SftpEnv (σ : Type) where
  fs : FileSystem σ
  pwd : Text
  random : ℕ → ℕ
  dateOf : UInt32 → Text

/-! ## Replies -/

def bytesOfWord64 (word : UInt64) : Text :=
  bytesOfWord (word >>> 32).toUInt32 ++ bytesOfWord word.toUInt32

def word64At (payload : Text) (offset : ℕ) : UInt64 :=
  (wordAt payload offset).toUInt64 <<< 32 ||| (wordAt payload (offset + 4)).toUInt64

/-- A packet with the length that its branch has computed for it. -/
def sftpPacket (replyLen : ℕ) (type : UInt8) (requestId : UInt32) (body : Text) : Text :=
  bytesOfWord replyLen.toUInt32 ++ [type] ++ bytesOfWord requestId ++ body

def versionReply : Text := [0, 0, 0, 5, sshFxpVersion, 0, 0, 0, 3]

variable (requestId : UInt32)

def statusReply (status : SftpStatus) : Text :=
  sftpPacket (1 + 4 + 4 + 4 + 4) sshFxpStatus requestId
    (bytesOfWord status.code ++ bytesOfWord 0 ++ bytesOfWord 0)

def handleSize : ℕ := 3

def handleReply (handle : Text) : Text :=
  sftpPacket (1 + 4 + 4 + handleSize) sshFxpHandle requestId ([0, 0, 0, 3] ++ handle)

def dataReply (data : Text) : Text :=
  sftpPacket (1 + 4 + 4 + data.length) sshFxpData requestId
    (bytesOfWord data.length.toUInt32 ++ data)

/-- The attributes of a file, in the order of version three. -/
structure FileAttrs where
  size : UInt64
  uid : UInt32
  gid : UInt32
  perms : UInt32
  atime : UInt32
  mtime : UInt32

def FileAttrs.bytes (attrs : FileAttrs) : Text :=
  bytesOfWord sshFilexferAttrs ++ bytesOfWord64 attrs.size ++ bytesOfWord attrs.uid ++
    bytesOfWord attrs.gid ++ bytesOfWord attrs.perms ++ bytesOfWord attrs.atime ++
    bytesOfWord attrs.mtime

def attrsReply (attrs : FileAttrs) : Text :=
  sftpPacket (1 + 4 + 4 + 8 + 4 + 4 + 4 + 4 + 4) sshFxpAttrs requestId attrs.bytes

/-- The permission bits with the type of the file in front of them. -/
def typedPerms (isDir : Bool) (perms : UInt16) : UInt32 :=
  (if isDir then 0o40000 else 0o100000) ||| (perms.toUInt32 &&& 0o7777)

def attrsOfInfo (info : FileInfo) : FileAttrs where
  size := if info.type = .dir then 0 else info.size.toUInt64
  uid := info.uid.toUInt32
  gid := info.gid.toUInt32
  perms := typedPerms (info.type = .dir) info.perms
  atime := info.ctime
  mtime := info.mtime

def attrsOfEntry (entry : SftpEntry) : FileAttrs where
  size := entry.size
  uid := entry.uid.toUInt32
  gid := entry.gid.toUInt32
  perms := typedPerms entry.isDir entry.perms
  atime := entry.ctime
  mtime := entry.mtime

/-- The answer to `SSH_FXP_REALPATH`. -/
def nameReply (canonical : Text) : Text :=
  sftpPacket (1 + 4 + 4 + (4 + canonical.length) + (4 + canonical.length) + 4) sshFxpName requestId
    (bytesOfWord 1 ++ sshString canonical ++ sshString canonical ++ bytesOfWord 0)

def padded (width value : ℕ) : Text :=
  let digits := uint32ToString value.toUInt32 12
  replicate (width - digits.length) 0x20 ++ digits

/-- The line of a directory listing, as long as its buffer takes it. -/
def longname (dateOf : UInt32 → Text) (entry : SftpEntry) : Text :=
  let permstr := (range 9).map fun bit =>
    if entry.perms &&& ((1 : UInt16) <<< (8 - bit.toUInt16)) ≠ 0 then (text "rwx").getD (bit % 3) 0
    else 0x2D
  let line := (if entry.isDir then 0x64 else 0x2D) :: permstr ++ text " 1 " ++
    padded 0 entry.uid.toNat ++ [0x20] ++ padded 0 entry.gid.toNat ++ [0x20] ++
    padded 10 entry.size.toNat ++ [0x20] ++ dateOf entry.mtime ++ [0x20] ++ cString entry.name
  line.take 159

def entryBytes (dateOf : UInt32 → Text) (entry : SftpEntry) : Text :=
  sshString entry.name ++ sshString (longname dateOf entry) ++ (attrsOfEntry entry).bytes

/-- The answer to `SSH_FXP_READDIR`.  The length is summed up entry by entry. -/
def readdirReply (dateOf : UInt32 → Text) (requestId : UInt32) (batch : List SftpEntry) : Text :=
  sftpPacket
    (batch.foldl (fun replyLen entry =>
      replyLen + (4 + entry.name.length) + (4 + (longname dateOf entry).length) +
        (4 + 8 + 8 + 4 + 8)) (1 + 4 + 4))
    sshFxpName requestId
    (bytesOfWord batch.length.toUInt32 ++ batch.flatMap (entryBytes dateOf))

/-! ## Fields -/

def takeWord : Reader UInt8 UInt32 := do
  let bytes ← Reader.next 4
  return wordAt bytes 0

def takeWord64 : Reader UInt8 UInt64 := do
  let bytes ← Reader.next 8
  return word64At bytes 0

/-- `read_ssh_string`, and the checks that some branches write out in its place.  A string
that is cut short has had its length read. -/
def takeSshString : Reader UInt8 (Option Text) := do
  if ← Reader.fits 4 then
    let len ← takeWord
    if ← Reader.fits len.toNat then
      return some (← Reader.next len.toNat)
    else
      return none
  else
    return none

section Fields

variable {data : Text} {cursor : Cursor}

theorem wordAt_window {data : Text} {offset count place : ℕ} (hplace : place + 4 ≤ count) :
    wordAt ((data.drop offset).take count) place = wordAt data (offset + place) := by
  have hbyte : ∀ index < 4, ((data.drop offset).take count).getD (place + index) 0 =
      data.getD (offset + place + index) 0 := by
    intro index hindex
    rw [getD_eq_getElem?_getD, getD_eq_getElem?_getD, getElem?_take_of_lt (by omega),
      getElem?_drop, add_assoc]
  unfold wordAt
  rw [hbyte 1 (by decide), hbyte 2 (by decide), hbyte 3 (by decide)]
  have hfirst := hbyte 0 (by decide)
  rw [add_zero, add_zero] at hfirst
  rw [hfirst]

theorem run_takeWord (hfits : cursor.offset + 4 ≤ data.length) :
    takeWord.run data cursor = some (wordAt data cursor.offset, cursor.past 4) := by
  rw [takeWord, Reader.run_bind, Reader.run_next_of_le hfits]
  change some (wordAt _ 0, _) = _
  rw [wordAt_window (le_refl 4), add_zero]

theorem run_takeWord_of_lt (hshort : data.length < cursor.offset + 4) :
    takeWord.run data cursor = none := by
  rw [takeWord, Reader.run_bind, Reader.run_next_of_lt hshort]
  rfl

theorem run_takeWord64 (hfits : cursor.offset + 8 ≤ data.length) :
    takeWord64.run data cursor = some (word64At data cursor.offset, cursor.past 8) := by
  rw [takeWord64, Reader.run_bind, Reader.run_next_of_le hfits]
  change some (word64At _ 0, _) = _
  unfold word64At
  rw [wordAt_window (by decide), wordAt_window (by decide)]
  rfl

theorem run_takeWord64_of_lt (hshort : data.length < cursor.offset + 8) :
    takeWord64.run data cursor = none := by
  rw [takeWord64, Reader.run_bind, Reader.run_next_of_lt hshort]
  rfl

def afterString (data : Text) (cursor : Cursor) : Cursor :=
  if data.length < cursor.offset + 4 then
    cursor
  else if data.length < cursor.offset + 4 + (wordAt data cursor.offset).toNat then
    cursor.past 4
  else
    (cursor.past 4).past (wordAt data cursor.offset).toNat

/-- Reading a string comes to an end, and finds what `read_ssh_string` finds. -/
theorem run_takeSshString (data : Text) (cursor : Cursor) :
    takeSshString.run data cursor =
      some ((readSshString data cursor.offset).map Prod.fst, afterString data cursor) := by
  rw [takeSshString, Reader.run_bind, Reader.run_fits, readSshString, afterString]
  by_cases hlength : data.length < cursor.offset + 4
  · simp [Nat.not_le.mpr hlength]
  rw [if_neg hlength, if_neg hlength]
  have hword := @run_takeWord data cursor (Nat.not_lt.mp hlength)
  dsimp only [bind_some]
  rw [if_pos (decide_eq_true (Nat.not_lt.mp hlength)), Reader.run_bind, hword]
  dsimp only [bind_some]
  rw [Reader.run_bind, Reader.run_fits]
  have hoffset : (cursor.past 4).offset = cursor.offset + 4 := rfl
  by_cases hbytes : data.length < cursor.offset + 4 + (wordAt data cursor.offset).toNat
  · rw [if_pos (by omega), if_pos hbytes]
    dsimp only [bind_some]
    rw [if_neg (by rw [decide_eq_true_eq]; omega)]
    rfl
  · rw [if_neg (by omega), if_neg hbytes]
    dsimp only [bind_some]
    rw [if_pos (by rw [decide_eq_true_eq]; omega), Reader.run_bind,
      Reader.run_next_of_le (by rw [hoffset]; omega)]
    rfl

end Fields

/-! ## Branches -/

/-- What a branch leaves: the error code, none where it is still `-1`, the bytes it has
put into the reply, and the state after it. -/
structure SftpOutcome (σ : Type) where
  errcode : Option SftpStatus
  reply : Text
  request : SubsystemRequest
  world : σ

section Branches

variable {σ : Type} (env : SftpEnv σ) (requestId : UInt32) (request : SubsystemRequest) (world : σ)

def status (code : SftpStatus) : SftpOutcome σ := ⟨some code, [], request, world⟩

def answer (reply : Text) : SftpOutcome σ := ⟨none, reply, request, world⟩

/-- The code for a call that succeeds or fails as a whole. -/
def performed (result : Reply × σ) : SftpOutcome σ :=
  match result with
  | (.error _, world) => status request world .failure
  | (.ok _, world) => status request world .ok

@[simp]
theorem world_performed (result : Reply × σ) : (performed request result).world = result.2 := by
  obtain ⟨_ | _, _⟩ := result
  · rfl
  · rfl

/-- A branch that needs one string. -/
def onString (served : Text → SftpOutcome σ) : Reader UInt8 (SftpOutcome σ) := do
  match ← takeSshString with
  | none => return status request world .badMessage
  | some string => return served string

/-- A branch that goes on only with the handle that is open. -/
def onOpenHandle (served : Reader UInt8 (SftpOutcome σ)) : Reader UInt8 (SftpOutcome σ) := do
  match ← takeSshString with
  | none => return status request world .badMessage
  | some handle =>
    if handle = [] then
      return status request world .badMessage
    else if request.handle = handle then
      served
    else
      return status request world .invalidHandle

/-! ### Paths -/

/-- A path from the root: one that does not start there is one below the working
directory. -/
def absolutePath (pwd reqpath : Text) : Text :=
  if reqpath.head? = some pathSeparator then
    reqpath
  else if pwd.getLast? = some pathSeparator then
    pwd ++ reqpath
  else
    pwd ++ [pathSeparator] ++ reqpath

def addSegment (canonical segment : Text) : Text :=
  if segment = [0x2E] then
    canonical
  else if segment = [0x2E, 0x2E] then
    match findLastOf canonical pathSeparator with
    | none => canonical
    | some lastsep => canonical.take lastsep
  else
    canonical ++ [pathSeparator] ++ segment

/-- The loop over the segments.  Each turn passes at least one character. -/
def addSegments : ℕ → Text → Text → Text
  | 0, _, canonical => canonical
  | turns + 1, rest, canonical =>
    match rest.dropWhile (· = pathSeparator) with
    | [] => canonical
    | rest@(_ :: _) =>
      addSegments turns (rest.dropWhile (· ≠ pathSeparator))
        (addSegment canonical (rest.takeWhile (· ≠ pathSeparator)))

def canonicalPath (abspath : Text) : Text :=
  match addSegments abspath.length abspath [] with
  | [] => [pathSeparator]
  | canonical@(_ :: _) => canonical

def sftpRealpath : Reader UInt8 (SftpOutcome σ) :=
  onString request world fun reqpath =>
    answer request world
      (nameReply requestId (canonicalPath (absolutePath env.pwd reqpath)))

/-- A file name that cannot be read is taken as empty, and the code for it stays. -/
def sftpStat : Reader UInt8 (SftpOutcome σ) := do
  let filename ← takeSshString
  match env.fs.getFileMeta (cString (filename.getD [])) world with
  | .error _ => return status request world .noSuchFile
  | .ok info =>
    return { errcode := if filename = none then some .badMessage else none
             reply := attrsReply requestId (attrsOfInfo info)
             request := request
             world := world }

def sftpMkdir : Reader UInt8 (SftpOutcome σ) :=
  onString request world fun dirpath =>
    let path := cString dirpath
    if env.fs.isDirExist path world ∨ env.fs.isFileExist path world then
      status request world .fileAlreadyExists
    else
      performed request (env.fs.createDirectory path world)

def sftpSetstat : Reader UInt8 (SftpOutcome σ) :=
  onString request world fun path =>
    if ¬ env.fs.isFileExist (cString path) world ∧ ¬ env.fs.isDirExist (cString path) world then
      status request world .noSuchFile
    else
      status request world .ok

def sftpRename : Reader UInt8 (SftpOutcome σ) := do
  match ← takeSshString with
  | none => return status request world .badMessage
  | some oldpath =>
    match ← takeSshString with
    | none => return status request world .badMessage
    | some newpath =>
      let old := cString oldpath
      let new := cString newpath
      if oldpath = [] ∨ newpath = [] then
        return status request world .badMessage
      else if ¬ env.fs.isFileExist old world ∧ ¬ env.fs.isDirExist old world then
        return status request world .noSuchFile
      else if env.fs.isFileExist new world ∨ env.fs.isDirExist new world then
        return status request world .fileAlreadyExists
      else
        return performed request (env.fs.rename old new world)

def sftpRemove : Reader UInt8 (SftpOutcome σ) :=
  onString request world fun filepath =>
    let path := cString filepath
    if ¬ env.fs.isFileExist path world then
      status request world (if env.fs.isDirExist path world then .failure else .noSuchFile)
    else
      performed request (env.fs.deleteFile path world)

def sftpRmdir : Reader UInt8 (SftpOutcome σ) :=
  onString request world fun dirpath =>
    let path := cString dirpath
    if ¬ env.fs.isDirExist path world then
      status request world (if env.fs.isFileExist path world then .failure else .noSuchFile)
    else
      performed request (env.fs.deleteDirectory path world)

/-! ### Handles -/

/-- A file is created for an open request that asks for it, and the handler for bolus
chunks is set once it is there. -/
def createFor (path : Text) (fileExists : Bool) (errcode : Option SftpStatus) (world : σ) :
    Option SftpStatus × SubsystemRequest × σ :=
  if fileExists then
    (errcode, { request with bolusCallback := true }, world)
  else
    match env.fs.createFile path [] world with
    | (.error _, world) => (some .noSuchPath, request, world)
    | (.ok _, world) => (errcode, { request with bolusCallback := true }, world)

def openWith (flags : UInt32) (path : Text) (errcode : Option SftpStatus) :
    Option SftpStatus × SubsystemRequest × σ :=
  let fileExists := env.fs.isFileExist path world
  let dirExists := env.fs.isDirExist path world
  if flags &&& sshFxfRead ≠ 0 ∧ flags &&& sshFxfWrite = 0 then
    (if fileExists ∨ dirExists then errcode else some .noSuchFile, request, world)
  else if flags &&& sshFxfCreat ≠ 0 then
    if flags &&& sshFxfExcl ≠ 0 then
      if fileExists ∨ dirExists then (some .fileAlreadyExists, request, world)
      else createFor env request path false errcode world
    else if flags &&& sshFxfTrunc ≠ 0 then
      if fileExists then
        createFor env request path false errcode (env.fs.deleteFile path world).2
      else if dirExists then
        createFor env request path false errcode (env.fs.deleteDirectory path world).2
      else
        createFor env request path false errcode world
    else if flags &&& sshFxfWrite ≠ 0 then
      createFor env request path fileExists errcode world
    else
      (errcode, request, world)
  else
    (errcode, request, world)

def opened (name : Text) : Option SftpStatus × SubsystemRequest × σ → SftpOutcome σ
  | (some code, request, world) => status request world code
  | (none, request, world) =>
    let handle := genUniqueKey env.random handleSize
    answer { request with filepath := name, handle := cString handle, isDir := false } world
      (handleReply requestId handle)

/-- A file name that cannot be read is taken as empty, and the flags are looked for where
reading it has stopped. -/
def sftpOpen : Reader UInt8 (SftpOutcome σ) := do
  let filename ← takeSshString
  let flags ← if ← Reader.fits 4 then takeWord else pure 0
  let name := filename.getD []
  return opened env requestId name
    (openWith env request world flags (cString name)
      (if filename = none then some .badMessage else none))

def entryOf (item : Text × FileInfo) : SftpEntry where
  name := item.1
  size := item.2.size.toUInt64
  isDir := item.2.type = .dir
  uid := item.2.uid
  gid := item.2.gid
  perms := item.2.perms
  ctime := item.2.ctime
  mtime := item.2.mtime

def sftpOpendir : Reader UInt8 (SftpOutcome σ) :=
  onString request world fun dirpath =>
    let path := cString dirpath
    if ¬ env.fs.isDirExist path world then
      status request world .noSuchFile
    else
      match env.fs.getDirFileList path [] world with
      | .error _ => status request world .failure
      | .ok items =>
        let handle := genUniqueKey env.random handleSize
        answer
          { request with
            dirEntries := items.map entryOf
            readdirOffset := 0
            isDir := true
            filepath := dirpath
            handle := cString handle }
          world (handleReply requestId handle)

def batchMax : ℕ := 16

def sftpReaddir : Reader UInt8 (SftpOutcome σ) :=
  onString request world fun handle =>
    if handle = [] then
      status request world .badMessage
    else if request.handle ≠ handle ∨ ¬ request.isDir then
      status request world .invalidHandle
    else if request.dirEntries.length ≤ request.readdirOffset then
      status request world .eof
    else
      let batch := (request.dirEntries.drop request.readdirOffset).take batchMax
      answer { request with readdirOffset := request.readdirOffset + batch.length } world
        (readdirReply env.dateOf requestId batch)

/-- The value of a call that returns a size or a negative code, as 64 unsigned bits. -/
def sizeWord : Reply → UInt64
  | .ok size => size.toUInt64
  | .error code => 0 - code.below.toUInt64

/-- Without metadata the attributes are those of the handle. -/
def attrsOfHandle (path : Text) : FileAttrs :=
  match env.fs.getFileMeta path world with
  | .ok info => attrsOfInfo info
  | .error _ =>
    { size := if request.isDir then 0 else sizeWord (env.fs.getFileSize path world)
      uid := 0
      gid := 0
      perms := typedPerms request.isDir (if request.isDir then 0o755 else 0o644)
      atime := 0
      mtime := 0 }

def sftpFstat : Reader UInt8 (SftpOutcome σ) :=
  onOpenHandle request world do
    return answer request world
      (attrsReply requestId (attrsOfHandle env request world (cString request.filepath)))

def sftpFsetstat : Reader UInt8 (SftpOutcome σ) :=
  onOpenHandle request world do
    return status { request with bolusCallback := false } world .ok

def sftpClose : Reader UInt8 (SftpOutcome σ) :=
  onOpenHandle request world do
    return status
      { request with
        bolusCallback := false
        isDir := false
        readdirOffset := 0
        dirEntries := []
        handle := [] }
      world .ok

/-! ### Contents -/

/-- What the callback of a read keeps between two chunks. -/
structure ReadProgress where
  startsending : Bool
  totalskip : UInt64
  reply : Text

/-- The callback of a read: it passes over the chunks in front of the offset and puts what
it finds there into the reply, up to the end of the chunk. -/
def readback (fileoffset : UInt64) (chunk : Text) (progress : ReadProgress) : Bool × ReadProgress :=
  if progress.startsending ∨ fileoffset = 0 ∨ fileoffset ≤ progress.totalskip then
    (false, { progress with
      startsending := true
      reply := progress.reply ++ dataReply requestId chunk })
  else
    let skip := (fileoffset - progress.totalskip).toUInt32
    if chunk.length ≤ skip.toNat then
      (true, { progress with totalskip := progress.totalskip + chunk.length.toUInt64 })
    else
      (false,
        { startsending := true
          totalskip := progress.totalskip + skip.toUInt64
          reply := progress.reply ++ dataReply requestId (chunk.drop skip.toNat) })

def readChunk : ℕ := 1024

def readOpenFile (fileoffset : UInt64) (length : UInt32) : SftpOutcome σ :=
  let path := cString request.filepath
  if env.fs.isFileExist path world then
    let fileSize := sizeWord (env.fs.getFileSize path world)
    if fileSize ≤ fileoffset ∧ 0 < length then
      status request world .eof
    else if 0 < fileSize ∧ length = 0 then
      status request world .eof
    else
      match env.fs.readFile path readChunk 0 [] world with
      | .error _ => status request world .failure
      | .ok stream =>
        match stream.deliver (readback requestId fileoffset) ⟨false, 0, []⟩ with
        | (.error _, _) => status request world .failure
        | (.ok _, progress) => answer request world progress.reply
  else
    status request world .noSuchPath

def sftpRead : Reader UInt8 (SftpOutcome σ) :=
  onOpenHandle request world do
    let fileoffset ← takeWord64
    let length ← takeWord
    return readOpenFile env requestId request world fileoffset length

def sftpWrite : Reader UInt8 (SftpOutcome σ) :=
  onOpenHandle request world do
    let fileoffset ← takeWord64
    let length ← takeWord
    let content ← Reader.next length.toNat
    return performed request
      (env.fs.editFile (cString request.filepath) fileoffset content world)

/-! ## The handler -/

/-- The branch of a type.  A request without one leaves neither a reply nor a code. -/
def branchOf : Option PacketType → Reader UInt8 (SftpOutcome σ)
  | none => pure (answer request world [])
  | some .init => pure (answer request world versionReply)
  | some .realpath => sftpRealpath env requestId request world
  | some .stat | some .lstat => sftpStat env requestId request world
  | some .open => sftpOpen env requestId request world
  | some .opendir => sftpOpendir env requestId request world
  | some .readdir => sftpReaddir env requestId request world
  | some .mkdir => sftpMkdir env request world
  | some .fstat => sftpFstat env requestId request world
  | some .setstat => sftpSetstat env request world
  | some .readlink | some .symlink => pure (status request world .opUnsupported)
  | some .rename => sftpRename env request world
  | some .remove => sftpRemove env request world
  | some .rmdir => sftpRmdir env request world
  | some .read => sftpRead env requestId request world
  | some .write => sftpWrite env request world
  | some .fsetstat => sftpFsetstat request world
  | some .close => sftpClose request world

end Branches

/-- What a call leaves, and how far it has read. -/
structure SftpTurn (σ : Type) where
  closed : Bool
  reply : Text
  sent : List Text
  request : SubsystemRequest
  world : σ
  reach : ℕ

def packetLength (data : Text) : ℕ := (wordAt data 0).toNat

def packetType (data : Text) : Option PacketType := PacketType.ofByte (data.getD 4 0)

def requestIdOf (data : Text) : UInt32 := wordAt data 5

def isSftp (request : SubsystemRequest) : Bool := find request.subsystem (text "sftp") 0 = some 0

/-- The reply once a branch is done: a code takes the place of what the branch has put
into it. -/
def SftpOutcome.finish {σ : Type} (outcome : SftpOutcome σ) (requestId : UInt32) : Text :=
  match outcome.errcode with
  | some code => statusReply requestId code
  | none => outcome.reply

/-- The end of a turn: the reply is sent if there is one and the caller wants it. -/
def turnOf {σ : Type} (requestId : UInt32) (expectReply : Bool)
    (result : SftpOutcome σ × Cursor) : SftpTurn σ :=
  let reply := result.1.finish requestId
  { closed := false
    reply := reply
    sent := if reply ≠ [] ∧ expectReply then [reply] else []
    request := result.1.request
    world := result.1.world
    reach := result.2.reach }

/-- `handleChannelSubsystemSftpRequest`.  Without a result it has read outside of the
data. -/
def handleChannelSubsystemSftpRequest {σ : Type} (env : SftpEnv σ) (data : Text)
    (expectReply : Bool) (request : SubsystemRequest) (world : σ) : Option (SftpTurn σ) :=
  if ¬ isSftp request then
    some ⟨false, [], [], request, world, 0⟩
  else if data.length < 4 then
    some ⟨true, [], [], request, world, 0⟩
  else if data.length - 4 < packetLength data then
    some ⟨true, [], [], request, world, 4⟩
  else if 5 ≤ packetLength data ∧ packetLength data < 2 ^ 31 then
    ((branchOf env (requestIdOf data) request world (packetType data)).run data ⟨9, 9⟩).map
      (turnOf (requestIdOf data) expectReply)
  else
    some ⟨false, [], [], request, world, 4⟩

end PdiStack.Sftp
