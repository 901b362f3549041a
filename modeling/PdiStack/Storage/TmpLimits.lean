import Mathlib
import PdiStack.Core.StateMachine
import PdiStack.Storage.TmpTree

/-!
# The limits of the memory file system

The number of nodes, the sum of the file lengths and the length of every path are bounded.
Each call checks the bounds for itself, the sums in 32 bits.  The calls are given once
more without the checks, on exact numbers: a call that would leave the limits there has to
fail and change nothing.  The checks do that as long as their sums do not wrap, and a
rename as long as the paths below the directory fit as well.
-/

namespace PdiStack.TmpLimits

open PdiTypes StringOperations FileSystemInterface StateMachine TmpFs TmpRequests TmpTree List

def totalBytes (nodes : TmpfsNodes) : ℕ := (nodes.map fun node => node.data.length).sum

/-- The nodes keep to the limits.  The number is that of `tmpfsMaxBytes`. -/
structure WithinLimits (nodes : TmpfsNodes) : Prop where
  count : nodes.length ≤ tmpfsMaxNodes
  bytes : totalBytes nodes ≤ 4096
  paths : ∀ node ∈ nodes, node.path.length ≤ tmpfsMaxPath

theorem withinLimits_nil : WithinLimits [] := ⟨by decide, by decide, nofun⟩

theorem totalBytes_append {nodes : TmpfsNodes} {node : TmpfsNode} :
    totalBytes (nodes ++ [node]) = totalBytes nodes + node.data.length := by
  simp [totalBytes]

variable {norm : Text} {node : TmpfsNode}

variable {nodes : TmpfsNodes}

theorem length_le_totalBytes (hnode : node ∈ nodes) : node.data.length ≤ totalBytes nodes :=
  single_le_sum (fun _ _ => Nat.zero_le _) _ (mem_map_of_mem hnode)

theorem totalBytes_updateNode (hfind : findNode nodes norm = some node)
    (change : TmpfsNode → TmpfsNode) :
    totalBytes (updateNode nodes norm change) + node.data.length =
      totalBytes nodes + (change node).data.length := by
  obtain ⟨before, after, hsplit, hupdate⟩ := updateNode_of_findNode hfind change
  rw [hupdate, hsplit]
  simp only [totalBytes, map_append, map_cons, sum_append, sum_cons]
  omega

theorem length_updateNode {nodes : TmpfsNodes} {norm : Text} {change : TmpfsNode → TmpfsNode} :
    (updateNode nodes norm change).length = nodes.length := by
  cases hfind : findNode nodes norm with
  | none => rw [updateNode_of_none hfind]
  | some node =>
    obtain ⟨before, after, hsplit, hupdate⟩ := updateNode_of_findNode hfind change
    rw [hupdate, hsplit]
    simp

section

variable (hwithin : WithinLimits nodes)

include hwithin

theorem withinLimits_add_iff (hroom : nodes.length < tmpfsMaxNodes)
    (hshort : node.path.length ≤ tmpfsMaxPath) :
    WithinLimits (nodes ++ [node]) ↔ totalBytes nodes + node.data.length ≤ 4096 := by
  rw [← totalBytes_append]
  refine ⟨fun hnext => hnext.bytes, fun hbytes => ⟨?_, hbytes, ?_⟩⟩
  · rw [length_append]
    exact hroom
  · rw [forall_mem_append, forall_mem_singleton]
    exact ⟨hwithin.paths, hshort⟩

theorem withinLimits_updateNode_iff (hfind : findNode nodes norm = some node)
    (change : TmpfsNode → TmpfsNode) (hpath : ∀ node, (change node).path = node.path) :
    WithinLimits (updateNode nodes norm change) ↔
      totalBytes nodes - node.data.length + (change node).data.length ≤ 4096 := by
  have htotal := totalBytes_updateNode hfind change
  have hfile := length_le_totalBytes (mem_of_findNode hfind)
  refine ⟨fun hnext => ?_, fun hbytes => ⟨?_, ?_, ?_⟩⟩
  · have := hnext.bytes
    omega
  · rw [length_updateNode]
    exact hwithin.count
  · omega
  · refine forall_updateNode hwithin.paths fun found hfound => ?_
    rw [hpath]
    exact hwithin.paths found (mem_of_findNode hfound)

theorem withinLimits_attributes {norm : Text} {change : TmpfsNode → TmpfsNode}
    (hpath : ∀ node, (change node).path = node.path)
    (hdata : ∀ node, (change node).data = node.data) :
    WithinLimits (updateNode nodes norm change) := by
  cases hfind : findNode nodes norm with
  | none =>
    rw [updateNode_of_none hfind]
    exact hwithin
  | some node =>
    refine (withinLimits_updateNode_iff hwithin hfind change hpath).mpr ?_
    have hfile := length_le_totalBytes (mem_of_findNode hfind)
    have hbytes := hwithin.bytes
    rw [hdata]
    omega

theorem withinLimits_sublist {left : TmpfsNodes} (hleft : left.Sublist nodes) : WithinLimits left where
  count := hleft.length_le.trans hwithin.count
  bytes := (List.Sublist.sum_le_sum (hleft.map _) fun _ _ => Nat.zero_le _).trans hwithin.bytes
  paths node hnode := hwithin.paths node (hleft.subset hnode)

end

/-! ## The sums of the checks -/

theorem usedBytes_eq {nodes : TmpfsNodes} : usedBytes nodes = (totalBytes nodes).toUInt32 := by
  have hfold : ∀ (rest : TmpfsNodes) (total : ℕ),
      rest.foldl (fun total node => total + node.data.length.toUInt32) total.toUInt32 =
        (total + totalBytes rest).toUInt32 := by
    intro rest
    induction rest with
    | nil => exact fun total => rfl
    | cons node rest ih =>
      intro total
      rw [foldl_cons, ← show (total + node.data.length).toUInt32 = _ from UInt32.ofNat_add _ _, ih]
      simp [totalBytes, add_assoc]
  have := hfold nodes 0
  rwa [zero_add] at this

/-- What a check sees of an exact sum. -/
theorem over_iff {total : ℕ} : tmpfsMaxBytes < total.toUInt32 ↔ 4096 < total % 2 ^ 32 := by
  exact Iff.rfl

/-! ## Calls without limits -/

/-- Bytes stored from an offset on, with zeros up to it. -/
def storeAt (offset : ℕ) (content data : Text) : Text :=
  let ending := offset + content.length
  let padded := data ++ replicate (ending - data.length) 0
  padded.take offset ++ content ++ padded.drop ending

theorem length_storeAt (offset : ℕ) (content data : Text) :
    (storeAt offset content data).length = max data.length (offset + content.length) := by
  simp only [storeAt, length_append, length_take, length_drop, length_replicate]
  omega

section

variable (caller : Caller) (now : UInt32)

def unlimitedPut (norm content : Text) (append : Bool) (nodes : TmpfsNodes) : TmpfsNodes :=
  if norm = [] then
    nodes
  else
    match findNode nodes norm with
    | none =>
      if parentExists nodes norm then
        nodes ++ [newNode caller now norm content .reg filePermDefaultFile]
      else
        nodes
    | some node =>
      if node.type = .dir then
        nodes
      else
        updateNode nodes norm fun node =>
          { node with data := if append then node.data ++ content else content, mtime := now }

def unlimitedCreate (path content : Text) (nodes : TmpfsNodes) : TmpfsNodes :=
  if (findNode nodes (normalize path)).isSome then nodes
  else unlimitedPut caller now (normalize path) content false nodes

def unlimitedEdit (path : Text) (offset : ℕ) (content : Text) (nodes : TmpfsNodes) : TmpfsNodes :=
  match findNode nodes (normalize path) with
  | none => nodes
  | some node =>
    if node.type ≠ .reg then
      nodes
    else
      updateNode nodes (normalize path) fun node =>
        { node with data := storeAt offset content node.data, mtime := now }

def unlimitedDirectory (path : Text) (nodes : TmpfsNodes) : TmpfsNodes :=
  let norm := normalize path
  if norm = [] ∨ (findNode nodes norm).isSome ∨ ¬ parentExists nodes norm then nodes
  else nodes ++ [newNode caller now norm [] .dir filePermDefaultDir]

def unlimitedRename (oldPath newPath : Text) (nodes : TmpfsNodes) : TmpfsNodes :=
  let oldn := normalize oldPath
  let newn := normalize newPath
  match findNode nodes oldn with
  | none => nodes
  | some node =>
    if oldn = [] ∨ newn = [] ∨ (findNode nodes newn).isSome ∨ ¬ parentExists nodes newn then nodes
    else renamed nodes oldn newn node

def unlimitedCopy (sourcePath destPath : Text) (nodes : TmpfsNodes) : TmpfsNodes :=
  let dst := normalize destPath
  match findNode nodes (normalize sourcePath) with
  | none => nodes
  | some source =>
    if source.type ≠ .reg ∨ dst = [] ∨ (findNode nodes dst).isSome ∨ ¬ parentExists nodes dst then
      nodes
    else
      nodes ++ [newNode caller now dst source.data .reg filePermDefaultFile]

def unlimitedTouch (path : Text) (nodes : TmpfsNodes) : TmpfsNodes :=
  if (findNode nodes (normalize path)).isSome then
    updateNode nodes (normalize path) fun node => { node with mtime := now }
  else
    unlimitedCreate caller now path [] nodes

end

/-- What a request is for, in a file system that has no limits.  The calls that check none
are taken as they are. -/
def unlimited (nodes : TmpfsNodes) (request : Request) : TmpfsNodes :=
  match request.mutation with
  | .createFile path content => unlimitedCreate request.caller request.now path content nodes
  | .writeFile path content append =>
    unlimitedPut request.caller request.now (normalize path) content append nodes
  | .editFile path offset content => unlimitedEdit request.now path offset.toNat content nodes
  | .createDirectory path => unlimitedDirectory request.caller request.now path nodes
  | .rename oldPath newPath | .moveFile oldPath newPath => unlimitedRename oldPath newPath nodes
  | .copyFile sourcePath destPath =>
    unlimitedCopy request.caller request.now sourcePath destPath nodes
  | .touch path => unlimitedTouch request.caller request.now path nodes
  | _ => (perform nodes request).2

/-- The limits hold after a call, and a call that would break them fails and changes
nothing. -/
def Respects (nodes wish : TmpfsNodes) (result : Reply × TmpfsNodes) : Prop :=
  WithinLimits result.2 ∧
    (¬ WithinLimits wish → (∃ code, result.1 = .error code) ∧ result.2 = nodes)

def StaysWithin (nodes : TmpfsNodes) (request : Request) : Prop :=
  Respects nodes (unlimited nodes request) (perform nodes request)

variable {nodes : TmpfsNodes}

theorem respects_error (hwithin : WithinLimits nodes) {wish : TmpfsNodes}
    {code : PdiErr} : Respects nodes wish (.error code, nodes) :=
  ⟨hwithin, fun _ => ⟨⟨code, rfl⟩, rfl⟩⟩

/-- A call that succeeds has to stay within the limits both ways. -/
theorem respects_ok_iff {wish next : TmpfsNodes} {count : ℕ} :
    Respects nodes wish (.ok count, next) ↔ WithinLimits next ∧ WithinLimits wish := by
  refine and_congr_right fun _ => ⟨fun hbroken => ?_, fun hwish hbroken => absurd hwish hbroken⟩
  by_contra hwish
  obtain ⟨⟨code, hcode⟩, -⟩ := hbroken hwish
  cases hcode

theorem respects_same {result : Reply × TmpfsNodes}
    (hnext : WithinLimits result.2) : Respects nodes result.2 result :=
  ⟨hnext, fun hbroken => absurd hnext hbroken⟩

/-! ## Contents -/

/-- A new node would be made at the path. -/
structure Addable (nodes : TmpfsNodes) (norm : Text) : Prop where
  ne : norm ≠ []
  short : norm.length ≤ tmpfsMaxPath
  free : findNode nodes norm = none
  parent : parentExists nodes norm = true
  room : nodes.length < tmpfsMaxNodes

/-- The content of the node at the path would be changed. -/
structure Rewritable (nodes : TmpfsNodes) (norm : Text) (node : TmpfsNode) : Prop where
  ne : norm ≠ []
  short : norm.length ≤ tmpfsMaxPath
  found : findNode nodes norm = some node
  file : node.type ≠ .dir

def putTotal (nodes : TmpfsNodes) (node : TmpfsNode) (size : ℕ) (append : Bool) : ℕ :=
  if append then totalBytes nodes + size else totalBytes nodes - node.data.length + size

/-- The sum that the check of `putContent` compares does not wrap. -/
def PutSeen (nodes : TmpfsNodes) (norm : Text) (size : ℕ) (append : Bool) : Prop :=
  (Addable nodes norm → totalBytes nodes + size < 2 ^ 32) ∧
    ∀ node, Rewritable nodes norm node → putTotal nodes node size append < 2 ^ 32

theorem usedBytes_add {nodes : TmpfsNodes} {size : ℕ} :
    usedBytes nodes + size.toUInt32 = (totalBytes nodes + size).toUInt32 := by
  rw [usedBytes_eq]
  exact (UInt32.ofNat_add _ _).symm

theorem usedBytes_sub_add (hnode : node ∈ nodes) {size : ℕ} :
    usedBytes nodes - node.data.length.toUInt32 + size.toUInt32 =
      (totalBytes nodes - node.data.length + size).toUInt32 := by
  have hsub : (totalBytes nodes - node.data.length).toUInt32 =
      (totalBytes nodes).toUInt32 - node.data.length.toUInt32 :=
    UInt32.ofNat_sub (length_le_totalBytes hnode)
  rw [usedBytes_eq, ← hsub]
  exact (UInt32.ofNat_add _ _).symm

theorem newused_eq (hnode : node ∈ nodes) {size : ℕ} {append : Bool} :
    (if append then usedBytes nodes + size.toUInt32
      else usedBytes nodes - node.data.length.toUInt32 + size.toUInt32) =
      (putTotal nodes node size append).toUInt32 := by
  cases append with
  | true => exact usedBytes_add
  | false => exact usedBytes_sub_add hnode

theorem putTotal_eq (hnode : node ∈ nodes) {content : Text} {append : Bool} :
    putTotal nodes node content.length append =
      totalBytes nodes - node.data.length +
        (if append then node.data ++ content else content).length := by
  have hfile := length_le_totalBytes hnode
  unfold putTotal
  cases append with
  | true =>
    rw [if_pos rfl, if_pos rfl, length_append]
    omega
  | false => rfl

/-- A sum of at most the limit and a 32-bit size is seen for what it is unless it wraps. -/
theorem seen_of_over {total base size : ℕ} (htotal : total = base + size) (hbase : base ≤ 4096)
    (hsize : size < 2 ^ 32) (hover : 4096 < total % 2 ^ 32) : total < 2 ^ 32 := by
  omega

theorem le_iff_of_not_over {total : ℕ} (hover : ¬ 4096 < total % 2 ^ 32) :
    total ≤ 4096 ↔ total < 2 ^ 32 := by
  omega

def rewriteNode (now : UInt32) (content : Text) (append : Bool) (node : TmpfsNode) : TmpfsNode :=
  { node with data := if append then node.data ++ content else content, mtime := now }

/-- `putContent` fails, adds a node or rewrites one, as the sum of its check tells it. -/
theorem putContent_cases {caller : Caller} {now : UInt32} {norm content : Text} {append : Bool}
    {nodes : TmpfsNodes} :
    ((∃ code, putContent caller now norm content append nodes = (.error code, nodes)) ∧
        (Addable nodes norm → 4096 < (totalBytes nodes + content.length) % 2 ^ 32) ∧
        ∀ node, Rewritable nodes norm node →
          4096 < putTotal nodes node content.length append % 2 ^ 32) ∨
      (Addable nodes norm ∧ ¬ 4096 < (totalBytes nodes + content.length) % 2 ^ 32 ∧
        ∃ count, putContent caller now norm content append nodes =
          (.ok count, nodes ++ [newNode caller now norm content .reg filePermDefaultFile])) ∨
      ∃ node, Rewritable nodes norm node ∧
        ¬ 4096 < putTotal nodes node content.length append % 2 ^ 32 ∧
        ∃ count, putContent caller now norm content append nodes =
          (.ok count, updateNode nodes norm (rewriteNode now content append)) := by
  unfold putContent
  extract_lets size
  split
  case isTrue hpath =>
    refine .inl ⟨⟨_, rfl⟩, fun hadd => absurd hpath ?_, fun node hnode => absurd hpath ?_⟩
    · exact not_or.mpr ⟨hadd.ne, Nat.not_lt.mpr hadd.short⟩
    · exact not_or.mpr ⟨hnode.ne, Nat.not_lt.mpr hnode.short⟩
  case isFalse hpath =>
    obtain ⟨hne, hlong⟩ := not_or.mp hpath
    have hshort := Nat.not_lt.mp hlong
    split
    case h_1 hfind =>
      have hrewrite : ∀ node, Rewritable nodes norm node →
          4096 < putTotal nodes node content.length append % 2 ^ 32 := by
        intro node hnode
        cases hfind.symm.trans hnode.found
      split
      case isTrue horphan =>
        exact .inl ⟨⟨_, rfl⟩, fun hadd => absurd hadd.parent horphan, hrewrite⟩
      case isFalse hparent =>
        split
        case isTrue hfull =>
          exact .inl ⟨⟨_, rfl⟩, fun hadd => absurd hfull (Nat.not_le.mpr hadd.room), hrewrite⟩
        case isFalse hroom =>
          have hsum : usedBytes nodes + size = (totalBytes nodes + content.length).toUInt32 :=
            usedBytes_add
          split
          case isTrue hover =>
            rw [hsum] at hover
            exact .inl ⟨⟨_, rfl⟩, fun _ => hover, hrewrite⟩
          case isFalse hover =>
            rw [hsum] at hover
            exact .inr (.inl ⟨⟨hne, hshort, hfind, not_not.mp hparent, Nat.not_le.mp hroom⟩,
              hover, _, rfl⟩)
    case h_2 node hfind =>
      have hadd : Addable nodes norm → 4096 < (totalBytes nodes + content.length) % 2 ^ 32 := by
        intro hadd
        cases hfind.symm.trans hadd.free
      have hfound : ∀ other, Rewritable nodes norm other → other = node := by
        intro other hother
        exact Option.some.inj (hother.found.symm.trans hfind)
      extract_lets oldlen newused
      have hnewused : newused = (putTotal nodes node content.length append).toUInt32 :=
        newused_eq (mem_of_findNode hfind)
      split
      case isTrue hdir =>
        exact .inl ⟨⟨_, rfl⟩, hadd, fun other hother => absurd (hfound other hother ▸ hdir) hother.file⟩
      case isFalse hfile =>
        split
        case isTrue hover =>
          rw [hnewused] at hover
          exact .inl ⟨⟨_, rfl⟩, hadd, fun other hother => hfound other hother ▸ hover⟩
        case isFalse hover =>
          rw [hnewused] at hover
          exact .inr (.inr ⟨node, ⟨hne, hshort, hfind, hfile⟩, hover, _, rfl⟩)

theorem unlimitedPut_of_addable (hadd : Addable nodes norm) {caller : Caller}
    {now : UInt32} {content : Text} {append : Bool} :
    unlimitedPut caller now norm content append nodes =
      nodes ++ [newNode caller now norm content .reg filePermDefaultFile] := by
  simp [unlimitedPut, if_neg hadd.ne, hadd.free, if_pos hadd.parent]

theorem unlimitedPut_of_rewritable (hnode : Rewritable nodes norm node)
    {caller : Caller} {now : UInt32} {content : Text} {append : Bool} :
    unlimitedPut caller now norm content append nodes =
      updateNode nodes norm (rewriteNode now content append) := by
  simp only [unlimitedPut, if_neg hnode.ne, hnode.found, if_neg hnode.file]
  rfl

/-- Contents keep to the limits exactly when the sum of the check does not wrap. -/
theorem respects_putContent_iff (hwithin : WithinLimits nodes)
    {caller : Caller} {now : UInt32} {norm : Text} {content : Text}
    (hsize : content.length < 2 ^ 32) {append : Bool} :
    Respects nodes (unlimitedPut caller now norm content append nodes)
        (putContent caller now norm content append nodes) ↔
      PutSeen nodes norm content.length append := by
  have hbytes := hwithin.bytes
  have hbase : ∀ node, Rewritable nodes norm node →
      ∃ base ≤ 4096, putTotal nodes node content.length append = base + content.length := by
    intro node hnode
    unfold putTotal
    split
    · exact ⟨_, hbytes, rfl⟩
    · exact ⟨_, by omega, rfl⟩
  rcases putContent_cases with
    ⟨⟨code, hfails⟩, hadd, hrewrite⟩ | ⟨hadd, hover, count, hok⟩ | ⟨node, hnode, hover, count, hok⟩
  · rw [hfails]
    refine iff_of_true (respects_error hwithin) ⟨fun haddable => ?_, fun node hnode => ?_⟩
    · exact seen_of_over rfl hbytes hsize (hadd haddable)
    · obtain ⟨base, hlimit, htotal⟩ := hbase node hnode
      exact seen_of_over htotal hlimit hsize (hrewrite node hnode)
  · have hseen : PutSeen nodes norm content.length append ↔
        totalBytes nodes + content.length < 2 ^ 32 := by
      refine ⟨fun hseen => hseen.1 hadd, fun hsum => ⟨fun _ => hsum, fun node hnode => ?_⟩⟩
      cases hadd.free.symm.trans hnode.found
    rw [hok, unlimitedPut_of_addable hadd, respects_ok_iff, and_self_iff, hseen,
      withinLimits_add_iff hwithin hadd.room hadd.short]
    exact le_iff_of_not_over hover
  · have hseen : PutSeen nodes norm content.length append ↔
        putTotal nodes node content.length append < 2 ^ 32 := by
      refine ⟨fun hseen => hseen.2 node hnode, fun hsum => ⟨fun hadd => ?_, fun other hother => ?_⟩⟩
      · cases hadd.free.symm.trans hnode.found
      · rw [Option.some.inj (hother.found.symm.trans hnode.found)]
        exact hsum
    rw [hok, unlimitedPut_of_rewritable hnode, respects_ok_iff, and_self_iff, hseen,
      withinLimits_updateNode_iff hwithin hnode.found (rewriteNode now content append) fun _ => rfl,
      rewriteNode,
      ← putTotal_eq (mem_of_findNode hnode.found)]
    exact le_iff_of_not_over hover

theorem respects_createFile_iff (hwithin : WithinLimits nodes)
    {caller : Caller} {now : UInt32} {path : Text} {content : Text}
    (hsize : content.length < 2 ^ 32) :
    Respects nodes (unlimitedCreate caller now path content nodes)
        (createFile caller now path content nodes) ↔
      (Addable nodes (normalize path) → totalBytes nodes + content.length < 2 ^ 32) := by
  unfold createFile
  split
  case isTrue hnil =>
    exact iff_of_true (respects_error hwithin) fun hadd => absurd hnil hadd.ne
  case isFalse =>
    unfold unlimitedCreate
    by_cases htaken : (findNode nodes (normalize path)).isSome
    · rw [if_pos htaken, if_pos htaken]
      refine iff_of_true (respects_error hwithin) fun hadd => ?_
      rw [hadd.free] at htaken
      cases htaken
    · rw [if_neg htaken, if_neg htaken, respects_putContent_iff hwithin hsize]
      refine ⟨fun hseen => hseen.1, fun hsum => ⟨hsum, fun node hnode => ?_⟩⟩
      rw [hnode.found] at htaken
      exact absurd rfl htaken

/-! ## Edits -/

/-- The end of an edit fits, or it is taken for one that does not fit. -/
def EditSeen (nodes : TmpfsNodes) (node : TmpfsNode) (ending : ℕ) : Prop :=
  let others := totalBytes nodes - node.data.length
  ending ≤ node.data.length ∨ others + ending ≤ 4096 ∨
    (4096 < others + ending % 2 ^ 32 ∧ others + ending % 2 ^ 32 < 2 ^ 32)

theorem length_overwrite (offset : UInt32) (content data : Text) :
    (overwrite offset content data).length = data.length := by
  induction content generalizing offset data with
  | nil => rfl
  | cons byte rest ih => rw [overwrite, ih, length_set]

theorem toNat_ending (offset : UInt64) (size : ℕ) :
    (offset.toUInt32 + size.toUInt32).toNat = (offset.toNat + size) % 2 ^ 32 := by
  exact (Nat.add_mod _ _ _).symm

/-- Whether an edit is refused, on exact numbers. -/
theorem edit_over_iff (hwithin : WithinLimits nodes) (hnode : node ∈ nodes)
    (offset : UInt64) (size : ℕ) :
    (node.data.length.toUInt32 < offset.toUInt32 + size.toUInt32 ∧
        tmpfsMaxBytes < usedBytes nodes - node.data.length.toUInt32 +
          (offset.toUInt32 + size.toUInt32)) ↔
      (node.data.length < (offset.toNat + size) % 2 ^ 32 ∧
        4096 < (totalBytes nodes - node.data.length + (offset.toNat + size) % 2 ^ 32) % 2 ^ 32) := by
  have hfile := length_le_totalBytes hnode
  have hbytes := hwithin.bytes
  have hending := toNat_ending offset size
  generalize offset.toUInt32 + size.toUInt32 = ending at hending
  have hself : ending = ((offset.toNat + size) % 2 ^ 32).toUInt32 := by
    rw [← hending]
    exact (UInt32.ofNat_toNat).symm
  refine and_congr ?_ ?_
  · rw [UInt32.lt_iff_toNat_lt, hending]
    rw [show node.data.length.toUInt32.toNat = node.data.length from
      Nat.mod_eq_of_lt (by omega)]
  · rw [hself, usedBytes_sub_add hnode, over_iff]

theorem respects_editFile_iff (hwithin : WithinLimits nodes) {now : UInt32}
    {path : Text} {offset : UInt64} {content : Text} :
    Respects nodes (unlimitedEdit now path offset.toNat content nodes)
        (editFile now path offset content nodes) ↔
      ∀ node, findNode nodes (normalize path) = some node → node.type = .reg →
        EditSeen nodes node (offset.toNat + content.length) := by
  unfold editFile unlimitedEdit
  cases hfind : findNode nodes (normalize path) with
  | none => exact iff_of_true (respects_error hwithin) nofun
  | some node =>
    have hbytes := hwithin.bytes
    have hfile := length_le_totalBytes (mem_of_findNode hfind)
    have hover := edit_over_iff hwithin (mem_of_findNode hfind) offset content.length
    dsimp only
    by_cases hreg : node.type ≠ .reg
    · rw [if_pos hreg, if_pos hreg]
      refine iff_of_true (respects_error hwithin) fun other hother htype => ?_
      rw [← Option.some.inj hother] at htype
      exact absurd htype hreg
    · rw [if_neg hreg, if_neg hreg]
      have hseen : (∀ other, some node = some other → other.type = .reg →
          EditSeen nodes other (offset.toNat + content.length)) ↔
          EditSeen nodes node (offset.toNat + content.length) := by
        refine ⟨fun hall => hall node rfl (not_not.mp hreg), fun hseen other hother _ => ?_⟩
        rwa [← Option.some.inj hother]
      rw [hseen]
      unfold EditSeen
      by_cases hrefused : node.data.length.toUInt32 < offset.toUInt32 + content.length.toUInt32 ∧
          tmpfsMaxBytes < usedBytes nodes - node.data.length.toUInt32 +
            (offset.toUInt32 + content.length.toUInt32)
      · rw [if_pos hrefused]
        refine iff_of_true (respects_error hwithin) ?_
        rw [hover] at hrefused
        omega
      · rw [if_neg hrefused, respects_ok_iff]
        have hnext := withinLimits_updateNode_iff hwithin hfind
          (fun node =>
            { node with
              data := overwrite offset.toUInt32 content (node.data ++ replicate
                ((offset.toUInt32 + content.length.toUInt32).toNat - node.data.length) 0)
              mtime := now }) fun _ => rfl
        have hwish := withinLimits_updateNode_iff hwithin hfind
          (fun node => { node with data := storeAt offset.toNat content node.data, mtime := now })
          fun _ => rfl
        rw [hover] at hrefused
        rw [hnext, hwish, length_overwrite, length_storeAt, length_append,
          length_replicate, toNat_ending]
        omega

/-! ## Calls that always keep to the limits -/

section Always

variable {nodes : TmpfsNodes} (hwithin : WithinLimits nodes) (caller : Caller) (now : UInt32)
include hwithin

theorem respects_createDirectory {path : Text} :
    Respects nodes (unlimitedDirectory caller now path nodes)
      (createDirectory caller now path nodes) := by
  unfold createDirectory
  extract_lets norm
  repeat' split
  any_goals exact respects_error hwithin
  case isFalse hpath htaken horphan hfull =>
    have hwish : unlimitedDirectory caller now path nodes =
        nodes ++ [newNode caller now norm [] .dir filePermDefaultDir] := by
      refine if_neg (not_or.mpr ⟨fun hnil => hpath (.inl hnil), not_or.mpr ⟨htaken, ?_⟩⟩)
      exact horphan
    rw [hwish]
    refine respects_same ((withinLimits_add_iff hwithin (Nat.not_le.mp hfull) ?_).mpr ?_)
    · exact Nat.not_lt.mp (not_or.mp hpath).2
    · exact hwithin.bytes

theorem respects_copyFile {sourcePath destPath : Text} :
    Respects nodes (unlimitedCopy caller now sourcePath destPath nodes)
      (copyFile caller now sourcePath destPath nodes) := by
  unfold copyFile
  extract_lets dst
  split
  case h_1 => exact respects_error hwithin
  case h_2 source hfind =>
    repeat' split
    any_goals exact respects_error hwithin
    case isFalse hreg hnil htaken horphan hlong hfull hover =>
      have hwish : unlimitedCopy caller now sourcePath destPath nodes =
          nodes ++ [newNode caller now dst source.data .reg filePermDefaultFile] := by
        unfold unlimitedCopy
        rw [hfind]
        exact if_neg (not_or.mpr ⟨hreg, not_or.mpr ⟨hnil, not_or.mpr ⟨htaken, horphan⟩⟩⟩)
      rw [usedBytes_add, over_iff] at hover
      rw [hwish]
      refine respects_same ((withinLimits_add_iff hwithin (Nat.not_le.mp hfull) ?_).mpr ?_)
      · exact Nat.not_lt.mp hlong
      · have hfile := length_le_totalBytes (mem_of_findNode hfind)
        have hbytes := hwithin.bytes
        dsimp only [newNode]
        omega

theorem respects_touch {path : Text} :
    Respects nodes (unlimitedTouch caller now path nodes) (touch caller now path nodes) := by
  unfold touch unlimitedTouch
  by_cases hfound : (findNode nodes (normalize path)).isSome
  · rw [if_pos hfound, if_pos hfound]
    refine respects_same (withinLimits_attributes hwithin ?_ ?_)
    · exact fun _ => rfl
    · exact fun _ => rfl
  · rw [if_neg hfound, if_neg hfound, respects_createFile_iff hwithin (by decide)]
    intro _
    have := hwithin.bytes
    simp only [length_nil]
    omega

end Always

/-! ## Renames -/

/-- Every path a directory takes with it fits behind the new one. -/
def RenameSeen (nodes : TmpfsNodes) (oldn newn : Text) : Prop :=
  ∀ node, Renames nodes oldn newn node → node.type = .dir →
    ∀ path ∈ newn :: nodes.map TmpfsNode.path, isBelow oldn path = true →
      (renamedPath oldn newn path).length ≤ tmpfsMaxPath

variable {nodes : TmpfsNodes}

section

variable (hwithin : WithinLimits nodes)

include hwithin

/-- The node that is renamed takes its place by itself. -/
theorem withinLimits_moved (oldn : Text) {newn : Text} (hshort : newn.length ≤ tmpfsMaxPath) :
    WithinLimits (updateNode nodes oldn fun node => { node with path := newn }) where
  count := by
    rw [length_updateNode]
    exact hwithin.count
  bytes := by
    have hdata : totalBytes (updateNode nodes oldn fun node => { node with path := newn }) =
        totalBytes nodes := congrArg sum (map_updateNode fun _ _ => rfl)
    rw [hdata]
    exact hwithin.bytes
  paths := forall_updateNode hwithin.paths fun _ _ => hshort

theorem withinLimits_map_iff {change : Text → Text} :
    WithinLimits (nodes.map fun node => { node with path := change node.path }) ↔
      ∀ node ∈ nodes, (change node.path).length ≤ tmpfsMaxPath := by
  refine ⟨fun hnext node hnode => hnext.paths _ (mem_map_of_mem hnode), fun hpaths => ⟨?_, ?_, ?_⟩⟩
  · rw [length_map]
    exact hwithin.count
  · rw [totalBytes, map_map]
    exact hwithin.bytes
  · rw [forall_mem_map]
    exact hpaths

theorem withinLimits_renamed_iff {oldn newn : Text} (hrenames : Renames nodes oldn newn node) :
    WithinLimits (renamed nodes oldn newn node) ↔ RenameSeen nodes oldn newn := by
  have hmoved := withinLimits_moved hwithin oldn hrenames.short
  unfold renamed
  split
  case isFalse hfile =>
    refine iff_of_true hmoved fun other hother htype => absurd htype ?_
    rwa [Option.some.inj (hother.found.symm.trans hrenames.found)]
  case isTrue hdir =>
    obtain ⟨before, after, hsplit, hupdate⟩ :=
      updateNode_of_findNode hrenames.found fun node => { node with path := newn }
    rw [withinLimits_map_iff hmoved]
    constructor
    · intro hpaths other hother htype path hpath hbelow
      rcases mem_cons.mp hpath with rfl | hpath
      · refine hpaths { node with path := path } ?_
        exact hupdate ▸ mem_append_right before mem_cons_self
      obtain ⟨kept, hkept, rfl⟩ := mem_map.mp hpath
      refine hpaths kept ?_
      have hne : kept ≠ node := by
        rintro rfl
        rw [path_of_findNode hrenames.found] at hbelow
        simp [isBelow] at hbelow
      rw [hsplit] at hkept
      rw [hupdate]
      simp only [mem_append, mem_cons] at hkept ⊢
      exact hkept.imp_right fun hafter => .inr (hafter.resolve_left hne)
    · intro hseen other hother
      by_cases hbelow : isBelow oldn other.path = true
      · refine hseen node hrenames hdir other.path ?_ hbelow
        rw [hupdate] at hother
        rw [hsplit]
        simp only [mem_append, mem_cons, map_append, map_cons] at hother ⊢
        rcases hother with hbefore | rfl | hafter
        · exact .inr (.inl (mem_map_of_mem hbefore))
        · exact .inl rfl
        · exact .inr (.inr (.inr (mem_map_of_mem hafter)))
      · rw [renamedPath, if_neg hbelow]
        exact hmoved.paths other hother

theorem respects_rename_iff {oldPath newPath : Text} :
    Respects nodes (unlimitedRename oldPath newPath nodes) (rename oldPath newPath nodes) ↔
      RenameSeen nodes (normalize oldPath) (normalize newPath) := by
  rcases rename_cases oldPath newPath nodes with ⟨⟨code, hfails⟩, hnever⟩ | ⟨node, hrenames, hok⟩
  · rw [hfails]
    exact iff_of_true (respects_error hwithin)
      fun node hrenames => absurd hrenames (hnever node)
  · have hwish : unlimitedRename oldPath newPath nodes =
        renamed nodes (normalize oldPath) (normalize newPath) node := by
      dsimp only [unlimitedRename]
      rw [hrenames.found]
      refine if_neg ?_
      rw [hrenames.free, hrenames.parent]
      simp [hrenames.oldn_ne, hrenames.newn_ne]
    rw [hok, hwish, respects_ok_iff, and_self_iff]
    exact withinLimits_renamed_iff hwithin hrenames

end

/-! ## Runs -/

/-- The sums that a request checks are seen for what they are, and so are the paths that a
directory takes with it. -/
def Seen (nodes : TmpfsNodes) (request : Request) : Prop :=
  match request.mutation with
  | .createFile path content =>
    Addable nodes (normalize path) → totalBytes nodes + content.1.length < 2 ^ 32
  | .writeFile path content append => PutSeen nodes (normalize path) content.1.length append
  | .editFile path offset content =>
    ∀ node, findNode nodes (normalize path) = some node → node.type = .reg →
      EditSeen nodes node (offset.toNat + content.1.length)
  | .rename oldPath newPath | .moveFile oldPath newPath =>
    RenameSeen nodes (normalize oldPath) (normalize newPath)
  | _ => True

theorem deleteFile_sublist {path : Text} {nodes : TmpfsNodes} :
    (deleteFile path nodes).2.Sublist nodes := by
  unfold deleteFile
  split
  · exact eraseP_sublist
  · exact List.Sublist.refl nodes

theorem deleteDirectory_sublist {path : Text} {nodes : TmpfsNodes} :
    (deleteDirectory path nodes).2.Sublist nodes := by
  unfold deleteDirectory
  extract_lets norm
  repeat' split
  any_goals exact List.Sublist.refl nodes
  exact filter_sublist

theorem withinLimits_setFileAttr (hwithin : WithinLimits nodes)
    {path : Text} {type : UInt8} {buffer : Text} :
    WithinLimits (setFileAttr path type buffer nodes).2 := by
  unfold setFileAttr
  repeat' split
  any_goals exact hwithin
  case h_2 change hchange =>
    refine withinLimits_attributes hwithin (fun node => ?_) fun node => ?_
    · exact congrArg Prod.fst (attrChange_keeps hchange node).1
    · exact (attrChange_keeps hchange node).2

theorem withinLimits_changeNode (hwithin : WithinLimits nodes) {path : Text}
    {change : TmpfsNode → TmpfsNode} (hpath : ∀ node, (change node).path = node.path)
    (hdata : ∀ node, (change node).data = node.data) :
    WithinLimits (changeNode path change nodes).2 := by
  unfold changeNode
  split
  · exact hwithin
  · exact withinLimits_attributes hwithin hpath hdata

theorem staysWithin_iff (hwithin : WithinLimits nodes) {request : Request} :
    StaysWithin nodes request ↔ Seen nodes request := by
  unfold StaysWithin unlimited Seen perform
  cases request.mutation with
  | createFile path content => exact respects_createFile_iff hwithin content.2
  | writeFile path content append =>
    exact respects_putContent_iff hwithin content.2
  | editFile path offset content => exact respects_editFile_iff hwithin
  | createDirectory path => exact iff_true_intro (respects_createDirectory hwithin _ _)
  | rename oldPath newPath | moveFile oldPath newPath =>
    exact respects_rename_iff hwithin
  | copyFile sourcePath destPath =>
    exact iff_true_intro (respects_copyFile hwithin _ _)
  | touch path => exact iff_true_intro (respects_touch hwithin _ _)
  | deleteFile path =>
    exact iff_true_intro
      (respects_same (withinLimits_sublist hwithin (deleteFile_sublist)))
  | deleteDirectory path =>
    exact iff_true_intro
      (respects_same (withinLimits_sublist hwithin (deleteDirectory_sublist)))
  | setFileAttr path type buffer =>
    exact iff_true_intro (respects_same (withinLimits_setFileAttr hwithin))
  | setFilePermissions path perms | setFileOwner path uid gid =>
    refine iff_true_intro (respects_same ?_)
    apply withinLimits_changeNode hwithin
    · exact fun _ => rfl
    · exact fun _ => rfl

/-- In a run from the empty file system the limits hold in every state, and every request
that would break them fails and changes nothing, if and only if no checked sum wraps and no
directory takes a path with it that becomes too long. -/
theorem run_staysWithin_iff (requests : List Request) :
    Allowed perform StaysWithin requests [] ↔ Allowed perform Seen requests [] :=
  allowed_iff_of_invariant WithinLimits (fun _ _ hwithin => staysWithin_iff hwithin)
    (fun _ _ hwithin hseen => ((staysWithin_iff hwithin).mpr hseen).1)
    requests withinLimits_nil

/-- A directory of two nodes whose lower path is too long after a rename, and an empty edit
whose offset makes a file of four gigabytes beside another one. -/
theorem limits_broken :
    ¬ Allowed perform StaysWithin
        [asRoot (.createDirectory (text "a")),
          asRoot (.createDirectory (text "a/" ++ replicate 60 0x78)),
          asRoot (.rename (text "a") (text "abcde"))] [] ∧
      ¬ Allowed perform StaysWithin
        [asRoot (.createFile (text "a") ⟨text "x", by decide⟩),
          asRoot (.createFile (text "b") ⟨[], by decide⟩),
          asRoot (.editFile (text "b") 0xFFFFFFFF ⟨[], by decide⟩)] [] := by
  constructor
  · rintro ⟨-, -, ⟨hwithin, -⟩, -⟩
    have hpaths := hwithin.paths
    revert hpaths
    decide +kernel
  · rintro ⟨-, ⟨hwithin, -⟩, hedit, -⟩
    rw [staysWithin_iff hwithin] at hedit
    have hseen := hedit _ rfl (by decide)
    revert hseen
    unfold EditSeen
    decide +kernel

end PdiStack.TmpLimits
