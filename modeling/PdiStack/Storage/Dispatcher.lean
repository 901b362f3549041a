import PdiStack.Storage.FileSystemInterface

/-!
# The dispatcher

`VfsDispatcher` owns the mount table.  Every path call checks the permissions, picks the
mount whose prefix is the longest one that ends at a path boundary, and forwards the rest
of the path to that mount's backend.  Two-path calls stay inside one backend where they
can, and stream the file across otherwise.

The backend a mount points to is an index into `object`, so that two mounts of one
backend compare equal.
-/

namespace PdiStack.Dispatcher

open PdiTypes StringOperations FileSystemInterface

/-- `vfs_mount_t`.  The display name and the type of a mount are read by no
call that is modelled. -/
structure VfsMount where
  prefixPath : Text
  backend : ℕ
deriving DecidableEq, Repr

structure VfsDispatcher (σ : Type) where
  mounts : List VfsMount
  privDepth : UInt8
  object : ℕ → FileSystem σ

def vfsMaxMounts : ℕ := 5
def vfsMountPrefixMax : ℕ := 15

def vfsAccessR : UInt8 := 4
def vfsAccessW : UInt8 := 2

def vfsHandleMountShift : ℕ := 24
def vfsHandleBackendMask : ℕ := 0x00FFFFFF
def vfsHandleMountMax : ℕ := 0x7F

variable {σ : Type}

namespace VfsDispatcher

def mount (dispatcher : VfsDispatcher σ) (prefixPath : Text) (backend : ℕ) :
    Except PdiErr (VfsDispatcher σ) :=
  if vfsMaxMounts ≤ dispatcher.mounts.length then
    .error .noSpace
  else if prefixPath.length = 0 ∨ vfsMountPrefixMax < prefixPath.length then
    .error .invalidArg
  else if dispatcher.mounts.any fun mounted => mounted.prefixPath = prefixPath then
    .error .exists
  else
    .ok { dispatcher with
      mounts := dispatcher.mounts ++ [{ prefixPath := prefixPath, backend := backend }] }

end VfsDispatcher

def VfsMount.isRoot (mounted : VfsMount) : Bool := mounted.prefixPath = [pathSeparator]

def VfsMount.covers (mounted : VfsMount) (path : Text) : Bool :=
  mounted.prefixPath.isPrefixOf path &&
    match path.drop mounted.prefixPath.length with
    | [] => true
    | after :: _ => after = pathSeparator

/-- `best_len`: the length of the best prefix so far, zero while there is none. -/
def bestLength (best : Option VfsMount) : ℕ :=
  match best with
  | none => 0
  | some mounted => mounted.prefixPath.length

/-- One turn of the search loop. -/
def considerMount (path : Text) (best : Option VfsMount) (mounted : VfsMount) : Option VfsMount :=
  if mounted.prefixPath.length = 0 then
    best
  else if mounted.isRoot then
    if bestLength best = 0 then some mounted else best
  else if mounted.covers path ∧ bestLength best < mounted.prefixPath.length then
    some mounted
  else
    best

namespace VfsDispatcher

def findMountForPath (dispatcher : VfsDispatcher σ) (path : Text) : Option VfsMount :=
  dispatcher.mounts.foldl (considerMount path) none

/-- The path a mount's backend is given: the whole path below the root mount,
what follows the prefix below any other, and the separator for a mount point. -/
def relativePath (mounted : VfsMount) (path : Text) : Text :=
  if mounted.isRoot then
    path
  else if path.drop mounted.prefixPath.length = [] then
    [pathSeparator]
  else
    path.drop mounted.prefixPath.length

def resolve (dispatcher : VfsDispatcher σ) (path : Text) : Option (ℕ × Text) :=
  (dispatcher.findMountForPath path).map fun mounted =>
    (mounted.backend, relativePath mounted path)

def isPrivileged (dispatcher : VfsDispatcher σ) : Bool := 0 < dispatcher.privDepth

/-- `VFS_ROUTE_PATH`: the call on the backend that owns the path. -/
def routePath {α : Type} (dispatcher : VfsDispatcher σ) (path : Text) (fail : α)
    (method : FileSystem σ → Text → α) : α :=
  match dispatcher.resolve path with
  | none => fail
  | some (backend, rel) => method (dispatcher.object backend) rel

/-- `VFS_ROUTE_PATH` for a call that changes the world. -/
def routeCall {α : Type} (dispatcher : VfsDispatcher σ) (path : Text)
    (method : FileSystem σ → Text → σ → Except PdiErr α × σ) (world : σ) :
    Except PdiErr α × σ :=
  dispatcher.routePath path (.error .storageNotMounted, world)
    fun backend rel => method backend rel world

def getFileMeta (dispatcher : VfsDispatcher σ) (path : Text) (world : σ) : Except PdiErr FileInfo :=
  dispatcher.routePath path (.error .storageNotMounted)
    fun backend rel => backend.getFileMeta rel world

end VfsDispatcher

/-- The three bits that apply to the caller: the owner's, else the group's, else
those of everybody. -/
def selectBits (caller : Caller) (info : FileInfo) : UInt8 :=
  if info.uid = caller.uid then
    (info.perms >>> 6 &&& 7).toUInt8
  else if info.gid = caller.gid then
    (info.perms >>> 3 &&& 7).toUInt8
  else
    (info.perms &&& 7).toUInt8

namespace VfsDispatcher

/-- The check in front of a call.  A path without metadata is let through, so
that it can be created. -/
def checkAccess (dispatcher : VfsDispatcher σ) (caller : Caller) (path : Text)
    (needMask : UInt8) (world : σ) : Bool :=
  if dispatcher.isPrivileged then
    true
  else if caller.uid = 0 then
    true
  else
    match dispatcher.getFileMeta path world with
    | .error _ => true
    | .ok info => selectBits caller info &&& needMask = needMask

def checkOwnerOrRoot (dispatcher : VfsDispatcher σ) (caller : Caller) (path : Text)
    (world : σ) : Bool :=
  if dispatcher.isPrivileged then
    true
  else if caller.uid = 0 then
    true
  else
    match dispatcher.getFileMeta path world with
    | .error _ => true
    | .ok info => info.uid = caller.uid

def checkRoot (dispatcher : VfsDispatcher σ) (caller : Caller) : Bool :=
  if dispatcher.isPrivileged then true else caller.uid = 0

/-- A checked call: the code for a missing permission, or the forwarded call. -/
def guardedCall {α : Type} (granted : Bool) (call : σ → Except PdiErr α × σ) (world : σ) :
    Except PdiErr α × σ :=
  if granted then call world else (.error .perm, world)

def guardedQuery {α : Type} (granted : Bool) (answer : Except PdiErr α) : Except PdiErr α :=
  if granted then answer else .error .perm

end VfsDispatcher

def opensForReading (flags : UInt8) : Bool := flags &&& fileOpenRead ≠ 0

def opensForWriting (flags : UInt8) : Bool :=
  flags &&& (fileOpenWrite ||| fileOpenCreate ||| fileOpenTruncate ||| fileOpenAppend) ≠ 0

namespace VfsDispatcher

section

variable (dispatcher : VfsDispatcher σ) (caller : Caller)

def createFile (path content : Text) : σ → Reply × σ :=
  dispatcher.routeCall path fun backend rel => backend.createFile rel content

def editFile (path : Text) (offset : UInt64) (content : Text) (world : σ) : Reply × σ :=
  guardedCall (dispatcher.checkAccess caller path vfsAccessW world)
    (dispatcher.routeCall path fun backend rel => backend.editFile rel offset content) world

def writeFile (path content : Text) (append : Bool) (world : σ) : Reply × σ :=
  guardedCall (dispatcher.checkAccess caller path vfsAccessW world)
    (dispatcher.routeCall path fun backend rel => backend.writeFile rel content append) world

def readFile (path : Text) (size offset : ℕ) (readUntilMatch : Text) (world : σ) :
    Except PdiErr ReadStream :=
  guardedQuery (dispatcher.checkAccess caller path vfsAccessR world)
    (dispatcher.routePath path (.error .storageNotMounted) fun backend rel =>
      backend.readFile rel size offset readUntilMatch world)

def getOffsetFromLineNumber (path : Text) (linenumber : ℤ) (world : σ) : Reply :=
  guardedQuery (dispatcher.checkAccess caller path vfsAccessR world)
    (dispatcher.routePath path (.error .storageNotMounted) fun backend rel =>
      backend.getOffsetFromLineNumber rel linenumber world)

def getLineNumberFromOffset (path : Text) (offset : ℤ) (world : σ) : Reply :=
  guardedQuery (dispatcher.checkAccess caller path vfsAccessR world)
    (dispatcher.routePath path (.error .storageNotMounted) fun backend rel =>
      backend.getLineNumberFromOffset rel offset world)

def findInFile (path findStr : Text) (maxindices everynthindice offset : ℤ) (world : σ) :
    Except PdiErr (List ℕ) :=
  guardedQuery (dispatcher.checkAccess caller path vfsAccessR world)
    (dispatcher.routePath path (.error .storageNotMounted) fun backend rel =>
      backend.findInFile rel findStr maxindices everynthindice offset world)

def getLineNumbersInFile (path : Text) (maxlinenumbers linenumberoffset : ℤ) (world : σ) :
    Except PdiErr (List ℕ) :=
  guardedQuery (dispatcher.checkAccess caller path vfsAccessR world)
    (dispatcher.routePath path (.error .storageNotMounted) fun backend rel =>
      backend.getLineNumbersInFile rel maxlinenumbers linenumberoffset world)

def readLineInFile (path : Text) (linenumber : ℤ) (pattern : Text) (world : σ) :
    Except PdiErr Text :=
  guardedQuery (dispatcher.checkAccess caller path vfsAccessR world)
    (dispatcher.routePath path (.error .storageNotMounted) fun backend rel =>
      backend.readLineInFile rel linenumber pattern world)

def createDirectory (path : Text) : σ → Reply × σ :=
  dispatcher.routeCall path fun backend rel => backend.createDirectory rel

def deleteDirectory (path : Text) (world : σ) : Reply × σ :=
  guardedCall (dispatcher.checkAccess caller path vfsAccessW world)
    (dispatcher.routeCall path fun backend rel => backend.deleteDirectory rel) world

def deleteFile (path : Text) (world : σ) : Reply × σ :=
  guardedCall (dispatcher.checkAccess caller path vfsAccessW world)
    (dispatcher.routeCall path fun backend rel => backend.deleteFile rel) world

def getFileSize (path : Text) (world : σ) : Reply :=
  dispatcher.routePath path (.error .storageNotMounted) fun backend rel =>
    backend.getFileSize rel world

def getDirFileList (path pattern : Text) (world : σ) : Except PdiErr (List (Text × FileInfo)) :=
  guardedQuery (dispatcher.checkAccess caller path vfsAccessR world)
    (dispatcher.routePath path (.error .storageNotMounted) fun backend rel =>
      backend.getDirFileList rel pattern world)

def isFileExist (path : Text) (world : σ) : Bool :=
  dispatcher.routePath path false fun backend rel => backend.isFileExist rel world

def isDirExist (path : Text) (world : σ) : Bool :=
  dispatcher.routePath path false fun backend rel => backend.isDirExist rel world

def isDirectory (path : Text) (world : σ) : Bool :=
  dispatcher.routePath path false fun backend rel => backend.isDirectory rel world

def setFileAttr (path : Text) (type : UInt8) (buffer : Text) (world : σ) : Reply × σ :=
  guardedCall (dispatcher.checkOwnerOrRoot caller path world)
    (dispatcher.routeCall path fun backend rel => backend.setFileAttr rel type buffer) world

def getFileAttr (path : Text) (type : UInt8) (world : σ) : Except PdiErr Text :=
  dispatcher.routePath path (.error .storageNotMounted) fun backend rel =>
    backend.getFileAttr rel type world

def removeFileAttr (path : Text) (type : UInt8) (world : σ) : Reply × σ :=
  guardedCall (dispatcher.checkOwnerOrRoot caller path world)
    (dispatcher.routeCall path fun backend rel => backend.removeFileAttr rel type) world

def setFilePermissions (path : Text) (perms : UInt16) (world : σ) : Reply × σ :=
  guardedCall (dispatcher.checkOwnerOrRoot caller path world)
    (dispatcher.routeCall path fun backend rel => backend.setFilePermissions rel perms) world

def setFileOwner (path : Text) (uid gid : UInt16) (world : σ) : Reply × σ :=
  guardedCall (dispatcher.checkRoot caller)
    (dispatcher.routeCall path fun backend rel => backend.setFileOwner rel uid gid) world

def touch (path : Text) (world : σ) : Reply × σ :=
  guardedCall (dispatcher.checkAccess caller path vfsAccessW world)
    (dispatcher.routeCall path fun backend rel => backend.touch rel) world

def openNeed (flags : UInt8) : UInt8 :=
  (if opensForReading flags then vfsAccessR else 0) |||
    (if opensForWriting flags then vfsAccessW else 0)

/-- One more than the index of the first mount of a backend, zero without one. -/
def mountId (backend : ℕ) : ℕ :=
  match dispatcher.mounts.findIdx? fun mounted => mounted.backend = backend with
  | some index => index + 1
  | none => 0

def openFile (path : Text) (flags : UInt8) (world : σ) : Reply × σ :=
  if path = [] then
    (.error .storageBadPath, world)
  else if openNeed flags ≠ 0 ∧ ¬ dispatcher.checkAccess caller path (openNeed flags) world then
    (.error .perm, world)
  else
    match dispatcher.resolve path with
    | none => (.error .storageNotMounted, world)
    | some (backend, rel) =>
      if dispatcher.mountId backend = 0 then
        (.error .storageNotMounted, world)
      else
        match (dispatcher.object backend).openFile rel flags world with
        | (.error code, world) => (.error code, world)
        | (.ok handle, world) =>
          if vfsHandleBackendMask < handle then
            (.error .range, ((dispatcher.object backend).closeFile handle world).2)
          else
            (.ok (dispatcher.mountId backend <<< vfsHandleMountShift ||| handle), world)

/-- The backend a handle belongs to, with the backend's own handle. -/
def resolveHandle (handle : ℕ) : Option (FileSystem σ × ℕ) :=
  let mountId := (handle >>> vfsHandleMountShift) &&& vfsHandleMountMax
  if mountId = 0 then
    none
  else
    (dispatcher.mounts[mountId - 1]?).map fun mounted =>
      (dispatcher.object mounted.backend, handle &&& vfsHandleBackendMask)

/-- A call on a handle, with the code for a handle of no mount. -/
def routeHandle {α : Type} (handle : ℕ)
    (method : FileSystem σ → ℕ → σ → Except PdiErr α × σ) (world : σ) :
    Except PdiErr α × σ :=
  match dispatcher.resolveHandle handle with
  | none => (.error .invalidArg, world)
  | some (backend, backendHandle) => method backend backendHandle world

def readFileHandle (handle size : ℕ) : σ → Except PdiErr Text × σ :=
  dispatcher.routeHandle handle fun backend own => backend.readFileHandle own size

def writeFileHandle (handle : ℕ) (content : Text) : σ → Reply × σ :=
  dispatcher.routeHandle handle fun backend own => backend.writeFileHandle own content

def seekFile (handle : ℕ) (offset : ℤ) (whence : FileSeek) : σ → Reply × σ :=
  dispatcher.routeHandle handle fun backend own => backend.seekFile own offset whence

def syncFile (handle : ℕ) : σ → Reply × σ :=
  dispatcher.routeHandle handle fun backend own => backend.syncFile own

def closeFile (handle : ℕ) : σ → Reply × σ :=
  dispatcher.routeHandle handle fun backend own => backend.closeFile own

end

end VfsDispatcher

/-- What the copying callback keeps between chunks. -/
structure CopyState (σ : Type) where
  first : Bool
  ok : Bool
  world : σ

/-- The callback of `crossCopy`: the first chunk creates the destination, the
rest append to it. -/
def copyChunk (destination : FileSystem σ) (drel data : Text) (state : CopyState σ) :
    Bool × CopyState σ :=
  match destination.writeFile drel data (!state.first) state.world with
  | (.error _, world) => (false, { first := false, ok := false, world := world })
  | (.ok _, world) => (true, { first := false, ok := state.ok, world := world })

def crossCopyChunk : ℕ := 128

/-- Removes what a failed copy may have left behind. -/
def dropCopy (destination : FileSystem σ) (drel : Text) (world : σ) : PdiErr × σ :=
  (.storageBackend, (destination.deleteFile drel world).2)

def crossCopy (source : FileSystem σ) (srel : Text) (destination : FileSystem σ) (drel : Text)
    (world : σ) : PdiErr × σ :=
  if ¬ source.isFileExist srel world ∨ source.isDirectory srel world then
    (.storageNotAFile, world)
  else if destination.isFileExist drel world ∨ destination.isDirExist drel world then
    (.exists, world)
  else
    match source.readFile srel crossCopyChunk 0 [] world with
    | .error _ => dropCopy destination drel world
    | .ok stream =>
      match stream.deliver (copyChunk destination drel)
          { first := true, ok := true, world := world } with
      | (.error _, state) => dropCopy destination drel state.world
      | (.ok _, state) =>
        if ¬ state.ok then
          dropCopy destination drel state.world
        else if state.first then
          -- A write of no bytes does not create the file on every backend.
          match destination.createFile drel [] state.world with
          | (.error _, world) => (.storageBackend, world)
          | (.ok _, world) => (.ok, world)
        else
          (.ok, state.world)

def called {α : Type} (outcome : Except PdiErr α × σ) : PdiErr × σ :=
  (statusOf outcome.1, outcome.2)

namespace VfsDispatcher

variable (dispatcher : VfsDispatcher σ) (caller : Caller)

/-- A call that moves an entry: inside one backend by that backend's own
`method`, across two by copying the file and deleting the source. -/
def transfer (method : FileSystem σ → Text → Text → σ → Reply × σ) (oldPath newPath : Text)
    (world : σ) : PdiErr × σ :=
  match dispatcher.resolve oldPath, dispatcher.resolve newPath with
  | some (oldBackend, orel), some (newBackend, nrel) =>
    if oldBackend = newBackend then
      called (method (dispatcher.object oldBackend) orel nrel world)
    else
      match crossCopy (dispatcher.object oldBackend) orel (dispatcher.object newBackend) nrel
          world with
      | (.ok, world) =>
        called ((dispatcher.object oldBackend).deleteFile orel world)
      | (code, world) => (code, world)
  | _, _ => (.storageNotMounted, world)

/-- The destination is checked and the source is not. -/
def rename (oldPath newPath : Text) (world : σ) : PdiErr × σ :=
  if dispatcher.checkAccess caller newPath vfsAccessW world then
    dispatcher.transfer FileSystem.rename oldPath newPath world
  else
    (.perm, world)

def moveFile (oldPath newPath : Text) (world : σ) : PdiErr × σ :=
  if dispatcher.checkAccess caller newPath vfsAccessW world then
    dispatcher.transfer FileSystem.moveFile oldPath newPath world
  else
    (.perm, world)

def copyFile (sourcePath destPath : Text) (world : σ) : PdiErr × σ :=
  if ¬ dispatcher.checkAccess caller sourcePath vfsAccessR world then
    (.perm, world)
  else if ¬ dispatcher.checkAccess caller destPath vfsAccessW world then
    (.perm, world)
  else
    match dispatcher.resolve sourcePath, dispatcher.resolve destPath with
    | some (sourceBackend, srel), some (destBackend, drel) =>
      if sourceBackend = destBackend then
        called ((dispatcher.object sourceBackend).copyFile srel drel world)
      else
        crossCopy (dispatcher.object sourceBackend) srel (dispatcher.object destBackend) drel world
    | _, _ => (.storageNotMounted, world)

end VfsDispatcher

end PdiStack.Dispatcher
