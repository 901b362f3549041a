import PdiStack.Storage.FileSystemInterface

/-!
# The memory file system

`TmpFs` keeps its files and directories as one list of nodes, each under its
whole path.  A path is normalized by taking the separators off both ends, and no
further.  Sizes are counted in 32 bits, as the source counts them.
-/

namespace PdiStack.TmpFs

open PdiTypes StringOperations FileSystemInterface

def tmpfsMaxBytes : UInt32 := 4096
def tmpfsMaxNodes : ℕ := 24
def tmpfsMaxPath : ℕ := 63

structure TmpfsNode where
  path : Text
  data : Text
  type : FileType
  perms : UInt16
  uid : UInt16
  gid : UInt16
  ctime : UInt32
  mtime : UInt32
deriving DecidableEq, Repr

/-- `m_nodes`, the whole state of one instance. -/
abbrev TmpfsNodes := List TmpfsNode

def normalize (path : Text) : Text :=
  ((path.dropWhile (· = pathSeparator)).reverse.dropWhile (· = pathSeparator)).reverse

variable (nodes : TmpfsNodes) (norm : Text)

def findNode : Option TmpfsNode :=
  nodes.find? fun node => node.path = norm

def parentOf : Text := ((norm.reverse.dropWhile (· ≠ pathSeparator)).drop 1).reverse

def isDirNode : Bool :=
  (findNode nodes norm).any fun node => node.type = .dir

def isRegNode : Bool :=
  (findNode nodes norm).any fun node => node.type = .reg

def parentExists : Bool := parentOf norm = [] || isDirNode nodes (parentOf norm)

def usedBytes : UInt32 :=
  nodes.foldl (fun total node => total + node.data.length.toUInt32) 0

def updateNode (nodes : TmpfsNodes) (norm : Text) (change : TmpfsNode → TmpfsNode) : TmpfsNodes :=
  match nodes with
  | [] => []
  | node :: rest =>
    if node.path = norm then change node :: rest else node :: updateNode rest norm change

def eraseNode : TmpfsNodes :=
  nodes.eraseP fun node => node.path = norm

def isBelow (path : Text) : Bool :=
  (norm ++ [pathSeparator]).isPrefixOf path && norm.length + 1 < path.length

section

variable (caller : Caller) (now : UInt32)

/-- A new node as `stampNew` stamps it. -/
def newNode (norm data : Text) (type : FileType) (defperms : UInt16) : TmpfsNode :=
  { path := norm
    data := data
    type := type
    perms := defperms &&& ~~~caller.umask
    uid := caller.uid
    gid := caller.gid
    ctime := now
    mtime := now }

def putContent (norm content : Text) (append : Bool) (nodes : TmpfsNodes) : Reply × TmpfsNodes :=
  let size := content.length.toUInt32
  if norm = [] ∨ tmpfsMaxPath < norm.length then
    (.error .storageBadPath, nodes)
  else
    match findNode nodes norm with
    | none =>
      if ¬ parentExists nodes norm then
        (.error .storageNoParent, nodes)
      else if tmpfsMaxNodes ≤ nodes.length then
        (.error .storageNodeLimit, nodes)
      else if tmpfsMaxBytes < usedBytes nodes + size then
        (.error .noSpace, nodes)
      else
        (.ok size.toNat,
          nodes ++ [newNode caller now norm content .reg filePermDefaultFile])
    | some node =>
      let oldlen := node.data.length.toUInt32
      let newused :=
        if append then usedBytes nodes + size else usedBytes nodes - oldlen + size
      if node.type = .dir then
        (.error .storageNotAFile, nodes)
      else if tmpfsMaxBytes < newused then
        (.error .noSpace, nodes)
      else
        (.ok size.toNat, updateNode nodes norm fun node =>
          { node with
            data := if append then node.data ++ content else content
            mtime := now })

def createFile (path content : Text) (nodes : TmpfsNodes) : Reply × TmpfsNodes :=
  if normalize path = [] then
    (.error .storageBadPath, nodes)
  else if (findNode nodes (normalize path)).isSome then
    (.error .exists, nodes)
  else
    putContent caller now (normalize path) content false nodes

def writeFile (path content : Text) (append : Bool) (nodes : TmpfsNodes) : Reply × TmpfsNodes :=
  putContent caller now (normalize path) content append nodes

/-- Stores the bytes one index after the other, the index taken in 32 bits.  An
index past the end is outside the string and stores nothing in it. -/
def overwrite (offset : UInt32) : Text → Text → Text
  | [], data => data
  | byte :: rest, data => overwrite (offset + 1) rest (data.set offset.toNat byte)

def editFile (path : Text) (offset : UInt64) (content : Text) (nodes : TmpfsNodes) :
    Reply × TmpfsNodes :=
  let size := content.length.toUInt32
  match findNode nodes (normalize path) with
  | none => (.error .storageNotAFile, nodes)
  | some node =>
    let oldlen := node.data.length.toUInt32
    let ending := offset.toUInt32 + size
    if node.type ≠ .reg then
      (.error .storageNotAFile, nodes)
    else if oldlen < ending ∧ tmpfsMaxBytes < usedBytes nodes - oldlen + ending then
      (.error .noSpace, nodes)
    else
      (.ok size.toNat, updateNode nodes (normalize path) fun node =>
        { node with
          data := overwrite offset.toUInt32 content
            (node.data ++ List.replicate (ending.toNat - node.data.length) 0)
          mtime := now })

def readFile (path : Text) (size offset : ℕ) (readUntilMatch : Text) (nodes : TmpfsNodes) :
    Except PdiErr ReadStream :=
  match findNode nodes (normalize path) with
  | none => .error .storageNotAFile
  | some node =>
    if node.type ≠ .reg then
      .error .storageNotAFile
    else
      .ok (contentStream node.data size offset readUntilMatch)

def createDirectory (path : Text) (nodes : TmpfsNodes) : Reply × TmpfsNodes :=
  let norm := normalize path
  if norm = [] ∨ tmpfsMaxPath < norm.length then
    (.error .storageBadPath, nodes)
  else if (findNode nodes norm).isSome then
    (.error .exists, nodes)
  else if ¬ parentExists nodes norm then
    (.error .storageNoParent, nodes)
  else if tmpfsMaxNodes ≤ nodes.length then
    (.error .storageNodeLimit, nodes)
  else
    (.ok 0, nodes ++ [newNode caller now norm [] .dir filePermDefaultDir])

end

def deleteFile (path : Text) (nodes : TmpfsNodes) : Reply × TmpfsNodes :=
  if isRegNode nodes (normalize path) then
    (.ok 0, eraseNode nodes (normalize path))
  else
    (.error .storageNotAFile, nodes)

def deleteDirectory (path : Text) (nodes : TmpfsNodes) : Reply × TmpfsNodes :=
  let norm := normalize path
  if norm = [] then
    (.error .storageBadPath, nodes)
  else if ¬ isDirNode nodes norm then
    (.error .storageNotADirectory, nodes)
  else
    (.ok 0, nodes.filter fun node => ¬ (node.path = norm ∨ isBelow norm node.path))

def renamedPath (oldn newn path : Text) : Text :=
  if isBelow oldn path then
    newn ++ [pathSeparator] ++ path.drop (oldn.length + 1)
  else
    path

def rename (oldPath newPath : Text) (nodes : TmpfsNodes) : Reply × TmpfsNodes :=
  let oldn := normalize oldPath
  let newn := normalize newPath
  if oldn = [] ∨ newn = [] then
    (.error .storageBadPath, nodes)
  else
    match findNode nodes oldn with
    | none => (.error .notFound, nodes)
    | some node =>
      if (findNode nodes newn).isSome then
        (.error .exists, nodes)
      else if ¬ parentExists nodes newn then
        (.error .storageNoParent, nodes)
      else if tmpfsMaxPath < newn.length then
        (.error .storageNameTooLong, nodes)
      else
        let moved := updateNode nodes oldn fun node => { node with path := newn }
        if node.type = .dir then
          (.ok 0, moved.map fun node => { node with path := renamedPath oldn newn node.path })
        else
          (.ok 0, moved)

def moveFile (oldPath newPath : Text) : TmpfsNodes → Reply × TmpfsNodes := rename oldPath newPath

section

variable (caller : Caller) (now : UInt32)

def copyFile (sourcePath destPath : Text) (nodes : TmpfsNodes) : Reply × TmpfsNodes :=
  let dst := normalize destPath
  match findNode nodes (normalize sourcePath) with
  | none => (.error .storageNotAFile, nodes)
  | some source =>
    if source.type ≠ .reg then
      (.error .storageNotAFile, nodes)
    else if dst = [] then
      (.error .storageBadPath, nodes)
    else if (findNode nodes dst).isSome then
      (.error .exists, nodes)
    else if ¬ parentExists nodes dst then
      (.error .storageNoParent, nodes)
    else if tmpfsMaxPath < dst.length then
      (.error .storageNameTooLong, nodes)
    else if tmpfsMaxNodes ≤ nodes.length then
      (.error .storageNodeLimit, nodes)
    else if tmpfsMaxBytes < usedBytes nodes + source.data.length.toUInt32 then
      (.error .noSpace, nodes)
    else
      (.ok 0, nodes ++ [newNode caller now dst source.data .reg filePermDefaultFile])

def touch (path : Text) (nodes : TmpfsNodes) : Reply × TmpfsNodes :=
  if (findNode nodes (normalize path)).isSome then
    (.ok 0, updateNode nodes (normalize path) fun node => { node with mtime := now })
  else
    createFile caller now path [] nodes

end

def getFileSize (path : Text) (nodes : TmpfsNodes) : Reply :=
  match findNode nodes (normalize path) with
  | none => .error .storageNotAFile
  | some node => if node.type = .reg then .ok node.data.length else .error .storageNotAFile

def isFileExist (path : Text) (nodes : TmpfsNodes) : Bool := isRegNode nodes (normalize path)

/-- The root is a directory without a node. -/
def isDirExist (path : Text) (nodes : TmpfsNodes) : Bool :=
  normalize path = [] || isDirNode nodes (normalize path)

def infoOf (node : TmpfsNode) : FileInfo :=
  { type := node.type
    size := if node.type = .reg then node.data.length else 0
    ctime := node.ctime
    mtime := node.mtime
    perms := node.perms
    uid := node.uid
    gid := node.gid }

def rootInfo : FileInfo :=
  { type := .dir, size := 0, ctime := 0, mtime := 0, perms := 0o777, uid := 0, gid := 0 }

def getFileMeta (path : Text) (nodes : TmpfsNodes) : Except PdiErr FileInfo :=
  if normalize path = [] then
    .ok rootInfo
  else
    match findNode nodes (normalize path) with
    | none => .error .notFound
    | some node => .ok (infoOf node)

/-- What follows the last separator. -/
def basename (path : Text) : Text := (path.reverse.takeWhile (· ≠ pathSeparator)).reverse

def getDirFileList (path : Text) (nodes : TmpfsNodes) : Except PdiErr (List (Text × FileInfo)) :=
  if ¬ isDirExist path nodes then
    .error .storageNotADirectory
  else
    .ok ((nodes.filter fun node => parentOf node.path = normalize path).map fun node =>
      (basename node.path, infoOf node))

def fileAttrCtime : UInt8 := 1
def fileAttrMtime : UInt8 := 2
def fileAttrPerms : UInt8 := 3
def fileAttrUid : UInt8 := 4
def fileAttrGid : UInt8 := 5

def bytesOf16 (value : UInt16) : Text := [value.toUInt8, (value >>> 8).toUInt8]

def bytesOf32 (value : UInt32) : Text :=
  [value.toUInt8, (value >>> 8).toUInt8, (value >>> 16).toUInt8, (value >>> 24).toUInt8]

def ofBytes16 (buffer : Text) : UInt16 :=
  (buffer.getD 0 0).toUInt16 ||| (buffer.getD 1 0).toUInt16 <<< 8

def ofBytes32 (buffer : Text) : UInt32 :=
  (buffer.getD 0 0).toUInt32 ||| (buffer.getD 1 0).toUInt32 <<< 8 |||
    (buffer.getD 2 0).toUInt32 <<< 16 ||| (buffer.getD 3 0).toUInt32 <<< 24

def getFileAttr (path : Text) (type : UInt8) (nodes : TmpfsNodes) : Except PdiErr Text :=
  match getFileMeta path nodes with
  | .error code => .error code
  | .ok info =>
    if type = fileAttrPerms then .ok (bytesOf16 info.perms)
    else if type = fileAttrUid then .ok (bytesOf16 info.uid)
    else if type = fileAttrGid then .ok (bytesOf16 info.gid)
    else if type = fileAttrCtime then .ok (bytesOf32 info.ctime)
    else if type = fileAttrMtime then .ok (bytesOf32 info.mtime)
    else .error .storageAttrNotFound

/-- The change a stored attribute makes to its node, when the buffer holds one. -/
def attrChange (type : UInt8) (buffer : Text) : Option (TmpfsNode → TmpfsNode) :=
  if type = fileAttrPerms ∧ 2 ≤ buffer.length then
    some fun node => { node with perms := ofBytes16 buffer }
  else if type = fileAttrUid ∧ 2 ≤ buffer.length then
    some fun node => { node with uid := ofBytes16 buffer }
  else if type = fileAttrGid ∧ 2 ≤ buffer.length then
    some fun node => { node with gid := ofBytes16 buffer }
  else if type = fileAttrCtime ∧ 4 ≤ buffer.length then
    some fun node => { node with ctime := ofBytes32 buffer }
  else if type = fileAttrMtime ∧ 4 ≤ buffer.length then
    some fun node => { node with mtime := ofBytes32 buffer }
  else
    none

def setFileAttr (path : Text) (type : UInt8) (buffer : Text) (nodes : TmpfsNodes) :
    Reply × TmpfsNodes :=
  if buffer = [] then
    (.error .invalidArg, nodes)
  else if (findNode nodes (normalize path)).isNone then
    (.error .notFound, nodes)
  else
    match attrChange type buffer with
    | none => (.error .storageAttrNotFound, nodes)
    | some change => (.ok buffer.length, updateNode nodes (normalize path) change)

/-- `setFilePermissions` and `setFileOwner`: a change of an existing node. -/
def changeNode (path : Text) (change : TmpfsNode → TmpfsNode) (nodes : TmpfsNodes) :
    Reply × TmpfsNodes :=
  if (findNode nodes (normalize path)).isNone then
    (.error .notFound, nodes)
  else
    (.ok 0, updateNode nodes (normalize path) change)

def setFilePermissions (path : Text) (perms : UInt16) : TmpfsNodes → Reply × TmpfsNodes :=
  changeNode path fun node => { node with perms := perms }

def setFileOwner (path : Text) (uid gid : UInt16) : TmpfsNodes → Reply × TmpfsNodes :=
  changeNode path fun node => { node with uid := uid, gid := gid }

section

variable {σ : Type} (get : σ → TmpfsNodes) (put : TmpfsNodes → σ → σ)

def onNodes (call : TmpfsNodes → Reply × TmpfsNodes) (world : σ) : Reply × σ :=
  let (reply, nodes) := call (get world)
  (reply, put nodes world)

def notSupported {α : Type} (world : σ) : Except PdiErr α × σ := (.error .notSupported, world)

def fileSystem (caller : Caller) (now : UInt32) : FileSystem σ where
  createFile path content := onNodes get put (createFile caller now path content)
  editFile path offset content := onNodes get put (editFile now path offset content)
  writeFile path content append := onNodes get put (writeFile caller now path content append)
  readFile path size offset readUntilMatch world :=
    readFile path size offset readUntilMatch (get world)
  getOffsetFromLineNumber _ _ _ := .error .notSupported
  getLineNumberFromOffset _ _ _ := .error .notSupported
  findInFile _ _ _ _ _ _ := .error .notSupported
  getLineNumbersInFile _ _ _ _ := .error .notSupported
  readLineInFile _ _ _ _ := .error .notSupported
  createDirectory path := onNodes get put (createDirectory caller now path)
  deleteDirectory path := onNodes get put (deleteDirectory path)
  rename oldPath newPath := onNodes get put (rename oldPath newPath)
  copyFile sourcePath destPath := onNodes get put (copyFile caller now sourcePath destPath)
  moveFile oldPath newPath := onNodes get put (moveFile oldPath newPath)
  deleteFile path := onNodes get put (deleteFile path)
  getFileSize path world := getFileSize path (get world)
  getDirFileList path _ world := getDirFileList path (get world)
  isFileExist path world := isFileExist path (get world)
  isDirExist path world := isDirExist path (get world)
  isDirectory path world := isDirExist path (get world)
  setFileAttr path type buffer := onNodes get put (setFileAttr path type buffer)
  getFileAttr path type world := getFileAttr path type (get world)
  removeFileAttr _ _ := notSupported
  getFileMeta path world := getFileMeta path (get world)
  setFilePermissions path perms := onNodes get put (setFilePermissions path perms)
  setFileOwner path uid gid := onNodes get put (setFileOwner path uid gid)
  touch path := onNodes get put (touch caller now path)
  openFile _ _ := notSupported
  readFileHandle _ _ := notSupported
  writeFileHandle _ _ := notSupported
  seekFile _ _ _ := notSupported
  syncFile _ := notSupported
  closeFile _ := notSupported

end

end PdiStack.TmpFs
