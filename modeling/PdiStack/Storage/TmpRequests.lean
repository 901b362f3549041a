import PdiStack.Storage.TmpFs

/-!
# Requests of the memory file system

Everything that changes a `TmpFs` instance is one request: a call with its arguments, made
by a caller at a time.  A run of the file system is a list of requests from the empty list
of nodes.
-/

namespace PdiStack.TmpRequests

open PdiTypes StringOperations FileSystemInterface TmpFs List

/-- The content of a call, whose size is a 32-bit number. -/
abbrev Content := { bytes : Text // bytes.length < 2 ^ 32 }

/-- A call that may change the nodes. -/
inductive Mutation where
  | createFile (path : Text) (content : Content)
  | writeFile (path : Text) (content : Content) (append : Bool)
  | editFile (path : Text) (offset : UInt64) (content : Content)
  | createDirectory (path : Text)
  | deleteFile (path : Text)
  | deleteDirectory (path : Text)
  | rename (oldPath newPath : Text)
  | moveFile (oldPath newPath : Text)
  | copyFile (sourcePath destPath : Text)
  | touch (path : Text)
  | setFileAttr (path : Text) (type : UInt8) (buffer : Text)
  | setFilePermissions (path : Text) (perms : UInt16)
  | setFileOwner (path : Text) (uid gid : UInt16)

/-- A call with the session and the clock it is made under. -/
structure Request where
  caller : Caller
  now : UInt32
  mutation : Mutation

def perform (nodes : TmpfsNodes) (request : Request) : Reply × TmpfsNodes :=
  match request.mutation with
  | .createFile path content => createFile request.caller request.now path content nodes
  | .writeFile path content append =>
    writeFile request.caller request.now path content append nodes
  | .editFile path offset content => editFile request.now path offset content nodes
  | .createDirectory path => createDirectory request.caller request.now path nodes
  | .deleteFile path => deleteFile path nodes
  | .deleteDirectory path => deleteDirectory path nodes
  | .rename oldPath newPath => rename oldPath newPath nodes
  | .moveFile oldPath newPath => moveFile oldPath newPath nodes
  | .copyFile sourcePath destPath =>
    copyFile request.caller request.now sourcePath destPath nodes
  | .touch path => touch request.caller request.now path nodes
  | .setFileAttr path type buffer => setFileAttr path type buffer nodes
  | .setFilePermissions path perms => setFilePermissions path perms nodes
  | .setFileOwner path uid gid => setFileOwner path uid gid nodes

variable {norm : Text} {node : TmpfsNode} {nodes : TmpfsNodes}

theorem path_of_findNode (hfind : findNode nodes norm = some node) : node.path = norm := by
  have hpath := find?_some hfind
  exact of_decide_eq_true hpath

theorem mem_of_findNode (hfind : findNode nodes norm = some node) : node ∈ nodes :=
  mem_of_find?_eq_some hfind

theorem findNode_eq_none : findNode nodes norm = none ↔ ∀ node ∈ nodes, node.path ≠ norm := by
  rw [findNode]
  simp

/-- An update replaces the node that is found and keeps the others in their places. -/
theorem updateNode_of_findNode (hfind : findNode nodes norm = some node)
    (change : TmpfsNode → TmpfsNode) :
    ∃ before after, nodes = before ++ node :: after ∧
      updateNode nodes norm change = before ++ change node :: after := by
  induction nodes with
  | nil => cases hfind
  | cons first rest ih =>
    rw [findNode, find?_cons] at hfind
    rw [updateNode]
    split at hfind
    case h_1 hfirst =>
      obtain rfl := Option.some.inj hfind
      exact ⟨[], rest, rfl, if_pos (of_decide_eq_true hfirst)⟩
    case h_2 hfirst =>
      obtain ⟨before, after, hrest, hupdate⟩ := ih hfind
      refine ⟨first :: before, after, congrArg _ hrest, ?_⟩
      rw [if_neg (of_decide_eq_false hfirst), hupdate]
      rfl

theorem updateNode_of_none (hfind : findNode nodes norm = none) (change : TmpfsNode → TmpfsNode) :
    updateNode nodes norm change = nodes := by
  induction nodes with
  | nil => rfl
  | cons first rest ih =>
    obtain ⟨hfirst, hrest⟩ := forall_mem_cons.mp (findNode_eq_none.mp hfind)
    rw [updateNode, if_neg hfirst, ih (findNode_eq_none.mpr hrest)]

theorem forall_updateNode {holds : TmpfsNode → Prop} {change : TmpfsNode → TmpfsNode}
    (hnodes : ∀ node ∈ nodes, holds node)
    (hchange : ∀ node, findNode nodes norm = some node → holds (change node)) :
    ∀ node ∈ updateNode nodes norm change, holds node := by
  cases hfind : findNode nodes norm with
  | none =>
    rw [updateNode_of_none hfind]
    exact hnodes
  | some found =>
    obtain ⟨before, after, hsplit, hupdate⟩ := updateNode_of_findNode hfind change
    rw [hupdate]
    rw [hsplit] at hnodes
    simp only [forall_mem_append, forall_mem_cons] at hnodes ⊢
    exact ⟨hnodes.1, hchange found hfind, hnodes.2.2⟩

/-- A property of the nodes as a list of values that the update keeps. -/
theorem map_updateNode {β : Type*} {view : TmpfsNode → β} {change : TmpfsNode → TmpfsNode}
    (hview : ∀ node, findNode nodes norm = some node → view (change node) = view node) :
    (updateNode nodes norm change).map view = nodes.map view := by
  cases hfind : findNode nodes norm with
  | none => rw [updateNode_of_none hfind]
  | some found =>
    obtain ⟨before, after, hsplit, hupdate⟩ := updateNode_of_findNode hfind change
    rw [hupdate, hsplit]
    simp [hview found hfind]

end PdiStack.TmpRequests
