import PdiStack.Utility.PdiTypes
import PdiStack.Utility.StringOperations

/-!
# The file system interface

`iFileSystemInterface` is the table of calls that every backend answers and that the
dispatcher forwards.  A backend is modelled as that table over a type `σ` of storage
worlds: a call reads the world it finds and hands back the next one.

A read hands its content to a callback in chunks: a call returns the stream it is going
to deliver, and `ReadStream.deliver` runs a callback over it.
-/

namespace PdiStack.FileSystemInterface

open PdiTypes StringOperations

def pathSeparator : UInt8 := 0x2F

def fileNameMaxSize : ℕ := 24

/-- `applyFileSizeLimit`: a name over the limit keeps its extension and loses the
end of its stem.  The length kept is a `uint32_t`, so an extension as long as the
limit makes it wrap around and nothing is cut. -/
def applyFileSizeLimit (name : Text) (sizelimit : ℕ) : Text :=
  if sizelimit < name.length then
    let fileformat := match findLastOf name 0x2E with
      | none => []
      | some lastDot => name.drop lastDot
    let keepsize := UInt32.ofNat sizelimit - 1 - UInt32.ofNat fileformat.length
    name.take keepsize.toNat ++ fileformat
  else
    name

/-- `m_temp` of `FileSystemInterfaceImpl`, which the dispatcher answers with for
its root backend. -/
def getTempDirectory : Text := text "/temp/"

/-- `FileSystemInterfaceImpl::basename`: what stands behind the last separator. -/
def basename (path : Text) : Text :=
  match findLastOf path pathSeparator with
  | none => path
  | some lastSlash => path.drop (lastSlash + 1)

inductive FileType where
  | reg
  | dir
  | link
deriving DecidableEq, Repr

/-- `file_info_t`.  The name stands beside it where a listing returns one. -/
structure FileInfo where
  type : FileType
  size : ℕ
  ctime : UInt32
  mtime : UInt32
  perms : UInt16
  uid : UInt16
  gid : UInt16
deriving DecidableEq, Repr

def filePermDefaultFile : UInt16 := 0o644
def filePermDefaultDir : UInt16 := 0o755
def fileUmaskDefault : UInt16 := 0o022

def fileOpenRead : UInt8 := 0x01
def fileOpenWrite : UInt8 := 0x02
def fileOpenCreate : UInt8 := 0x04
def fileOpenTruncate : UInt8 := 0x08
def fileOpenAppend : UInt8 := 0x10

/-- `file_seek_t`: what an offset is counted from. -/
inductive FileSeek where
  | set
  | cur
  | ending
deriving DecidableEq, Repr

/-- What the storage layer takes from the current session. -/
structure Caller where
  uid : UInt16
  gid : UInt16
  umask : UInt16
deriving DecidableEq, Repr

/-- The count a call returns, or its negative code. -/
abbrev Reply := Except PdiErr ℕ

/-- What a read is going to deliver. -/
structure ReadStream where
  chunks : List Text
  status : PdiErr
  matched : Bool
deriving DecidableEq, Repr

/-- Hands the chunks to `readback` until it refuses one.  The count is that of
the chunks it accepted.  A failure of the read itself shows once every chunk
before it has been accepted. -/
def deliverChunks {τ : Type*} (readback : Text → τ → Bool × τ) (status : PdiErr) :
    List Text → ℕ → τ → Reply × τ
  | [], done, state => (if status = .ok then .ok done else .error status, state)
  | chunk :: rest, done, state =>
    match readback chunk state with
    | (false, state) => (.ok done, state)
    | (true, state) => deliverChunks readback status rest (done + chunk.length) state

def ReadStream.deliver {τ : Type*} (stream : ReadStream) (readback : Text → τ → Bool × τ)
    (state : τ) : Reply × τ :=
  deliverChunks readback stream.status stream.chunks 0 state

/-- Cuts a content into chunks of `size` bytes, the last one shorter.  Each step
takes at least one byte off, so the length bounds the number of steps. -/
def chunksOf (size : ℕ) : ℕ → Text → List Text
  | 0, _ => []
  | _ + 1, [] => []
  | steps + 1, content@(_ :: _) =>
    content.take size :: chunksOf size steps (content.drop size)

/-- The stream a backend that holds its content in memory delivers.  It starts
at `offset` and stops short of the first match of a non-empty `readUntilMatch`.
A `size` of zero, or one not below the total, delivers everything at once. -/
def contentStream (content : Text) (size offset : ℕ) (readUntilMatch : Text) : ReadStream :=
  if content.length ≤ offset then
    { chunks := [], status := .ok, matched := false }
  else
    let rest := content.drop offset
    let found := strstr rest readUntilMatch 0
    let wanted := rest.take (found.getD rest.length)
    let chunk := if 0 < size ∧ size < wanted.length then size else wanted.length
    { chunks := chunksOf chunk wanted.length wanted
      status := .ok
      matched := found.isSome }

/-- `iFileSystemInterface` over storage worlds `σ`.  Queries leave the world as
it is and return only their answer. -/
structure FileSystem (σ : Type) where
  createFile : Text → Text → σ → Reply × σ
  editFile : Text → UInt64 → Text → σ → Reply × σ
  writeFile : Text → Text → Bool → σ → Reply × σ
  readFile : Text → ℕ → ℕ → Text → σ → Except PdiErr ReadStream
  getOffsetFromLineNumber : Text → ℤ → σ → Reply
  getLineNumberFromOffset : Text → ℤ → σ → Reply
  findInFile : Text → Text → ℤ → ℤ → ℤ → σ → Except PdiErr (List ℕ)
  getLineNumbersInFile : Text → ℤ → ℤ → σ → Except PdiErr (List ℕ)
  readLineInFile : Text → ℤ → Text → σ → Except PdiErr Text
  createDirectory : Text → σ → Reply × σ
  deleteDirectory : Text → σ → Reply × σ
  rename : Text → Text → σ → Reply × σ
  copyFile : Text → Text → σ → Reply × σ
  moveFile : Text → Text → σ → Reply × σ
  deleteFile : Text → σ → Reply × σ
  getFileSize : Text → σ → Reply
  getDirFileList : Text → Text → σ → Except PdiErr (List (Text × FileInfo))
  isFileExist : Text → σ → Bool
  isDirExist : Text → σ → Bool
  isDirectory : Text → σ → Bool
  setFileAttr : Text → UInt8 → Text → σ → Reply × σ
  getFileAttr : Text → UInt8 → σ → Except PdiErr Text
  removeFileAttr : Text → UInt8 → σ → Reply × σ
  getFileMeta : Text → σ → Except PdiErr FileInfo
  setFilePermissions : Text → UInt16 → σ → Reply × σ
  setFileOwner : Text → UInt16 → UInt16 → σ → Reply × σ
  touch : Text → σ → Reply × σ
  openFile : Text → UInt8 → σ → Reply × σ
  readFileHandle : ℕ → ℕ → σ → Except PdiErr Text × σ
  writeFileHandle : ℕ → Text → σ → Reply × σ
  seekFile : ℕ → ℤ → FileSeek → σ → Reply × σ
  syncFile : ℕ → σ → Reply × σ
  closeFile : ℕ → σ → Reply × σ
deriving Inhabited

end PdiStack.FileSystemInterface
