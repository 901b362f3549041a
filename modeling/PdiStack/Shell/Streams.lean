import PdiStack.Storage.Dispatcher

/-!
# Streams behind a descriptor

What a command of a line reads from and writes to when its descriptors do not
point at the terminal: a file that is written, a file that is read, and the pipe
to the next command.  A file stream holds a handle where the backend has handles
and falls back to the path calls where it has none.
-/

namespace PdiStack.Streams

open StringOperations FileSystemInterface Dispatcher

def fileStreamBuffer : ℕ := 128

def pipeCapacity : ℕ := 1024

variable {σ : Type}

def handleOf : Reply → Option ℕ
  | .ok handle => some handle
  | .error _ => none

/-- `FileWriteStream`.  `buffer` holds what is not committed yet. -/
structure FileWriteStream where
  path : Text
  buffer : Text
  written : ℕ
  append : Bool
  started : Bool
  failed : Bool
  handle : Option ℕ
deriving DecidableEq, Repr

namespace FileWriteStream

variable (dispatcher : VfsDispatcher σ) (caller : Caller)

def openFlags (append : Bool) : UInt8 :=
  fileOpenWrite ||| fileOpenCreate ||| if append then fileOpenAppend else fileOpenTruncate

def create (path : Text) (append : Bool) (world : σ) : FileWriteStream × σ :=
  let outcome := dispatcher.openFile caller path (openFlags append) world
  ({ path := path, buffer := [], written := 0, append := append, started := false
     failed := false, handle := handleOf outcome.1 }, outcome.2)

variable (stream : FileWriteStream)

def store (world : σ) : Reply × σ :=
  match stream.handle with
  | some handle => dispatcher.writeFileHandle handle stream.buffer world
  | none =>
    dispatcher.writeFile caller stream.path stream.buffer (stream.append || stream.started) world

def commit (world : σ) : Bool × FileWriteStream × σ :=
  if stream.buffer = [] then
    (true, stream, world)
  else
    match store dispatcher caller stream world with
    | (.ok _, world) =>
      (true,
        { stream with
          started := true, written := stream.written + stream.buffer.length, buffer := [] },
        world)
    | (.error _, world) => (false, { stream with failed := true, buffer := [] }, world)

/-- `write`: the buffer is filled, and committed when a further byte finds it
full.  Each pass takes at least one byte or stops. -/
def write : ℕ → Text → FileWriteStream → σ → FileWriteStream × σ
  | 0, _, stream, world => (stream, world)
  | passes + 1, data, stream, world =>
    if data = [] ∨ stream.failed then
      (stream, world)
    else if fileStreamBuffer ≤ stream.buffer.length then
      match commit dispatcher caller stream world with
      | (false, stream, world) => (stream, world)
      | (true, stream, world) =>
        write passes (data.drop fileStreamBuffer)
          { stream with buffer := data.take fileStreamBuffer } world
    else
      let room := fileStreamBuffer - stream.buffer.length
      write passes (data.drop room)
        { stream with buffer := stream.buffer ++ data.take room } world

/-- `disconnect`: what is buffered is committed and the handle closed.  False
when either failed. -/
def disconnect (world : σ) : Bool × FileWriteStream × σ :=
  let (landed, stream, world) := commit dispatcher caller stream world
  match stream.handle with
  | none => (landed, stream, world)
  | some handle =>
    match dispatcher.closeFile handle world with
    | (.ok _, world) => (landed, { stream with handle := none }, world)
    | (.error _, world) => (false, { stream with handle := none, failed := true }, world)

def destroy (world : σ) : σ :=
  let (_, stream, world) := commit dispatcher caller stream world
  match stream.handle with
  | none => world
  | some handle => (dispatcher.closeFile handle world).2

end FileWriteStream

/-- `FileReadStream`, as a redirection opens and closes it: only a command reads from it.
`size` is `none` for a file that was not found. -/
structure FileReadStream where
  path : Text
  buffer : Text
  offset : ℕ
  size : Option ℕ
  handle : Option ℕ
deriving DecidableEq, Repr

namespace FileReadStream

variable (dispatcher : VfsDispatcher σ) (caller : Caller)

variable (stream : FileReadStream)

def isValid : Bool := stream.size.isSome

def create (path : Text) (world : σ) : FileReadStream × σ :=
  let absent : FileReadStream :=
    { path := path, buffer := [], offset := 0, size := none, handle := none }
  if dispatcher.isFileExist path world then
    match dispatcher.getFileSize path world with
    | .error _ => (absent, world)
    | .ok size =>
      let outcome := dispatcher.openFile caller path fileOpenRead world
      ({ absent with size := some size, handle := handleOf outcome.1 }, outcome.2)
  else
    (absent, world)

def destroy (world : σ) : σ :=
  match stream.handle with
  | none => world
  | some handle => (dispatcher.closeFile handle world).2

end FileReadStream

/-- `PipeStream`: what was written and not read back, and whether something did
not fit. -/
structure PipeStream where
  content : Text
  overflowed : Bool
deriving DecidableEq, Repr

namespace PipeStream

def create : PipeStream := { content := [], overflowed := false }

def write (data : Text) (pipe : PipeStream) : PipeStream :=
  let room := pipeCapacity - pipe.content.length
  { content := pipe.content ++ data.take room
    overflowed := pipe.overflowed || room < data.length }

def read (wanted : ℕ) (pipe : PipeStream) : Text × PipeStream :=
  (pipe.content.take wanted, { pipe with content := pipe.content.drop wanted })

end PipeStream

end PdiStack.Streams
