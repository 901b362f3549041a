import Mathlib
import PdiStack.Core.SepPath
import PdiStack.Core.StateMachine
import PdiStack.Storage.TmpRequests

/-!
# The memory file system as a tree

The nodes are a flat list, and the tree is only in their paths.  What makes them a tree is
stated for the list of paths and types alone.  Every request keeps it except one: a
directory that is renamed to a place inside itself is torn off, because its own new path
is rewritten with those of its descendants.
-/

namespace PdiStack.TmpTree

open StringOperations FileSystemInterface StateMachine SepPath TmpFs TmpRequests List

/-- A node as its place in the tree. -/
def shapeOf (node : TmpfsNode) : Text × FileType := (node.path, node.type)

/-- The paths are normalized and all different, and the parent of each is empty or the path
of a directory. -/
structure TreeShape (entries : List (Text × FileType)) : Prop where
  distinct : (entries.map fun entry => TmpFs.normalize entry.1).Nodup
  normal : ∀ entry ∈ entries, TmpFs.normalize entry.1 = entry.1 ∧ entry.1 ≠ []
  parent : ∀ entry ∈ entries, parentOf entry.1 = [] ∨ (parentOf entry.1, .dir) ∈ entries
  kind : ∀ entry ∈ entries, entry.2 ≠ .link

/-- The nodes form a tree in which only regular files carry data. -/
structure IsTree (nodes : TmpfsNodes) : Prop where
  shape : TreeShape (nodes.map shapeOf)
  data : ∀ node ∈ nodes, node.data ≠ [] → node.type = .reg

theorem isTree_nil : IsTree [] where
  shape := ⟨nodup_nil, nofun, nofun, nofun⟩
  data := nofun

section Shapes

variable {entries : List (Text × FileType)}

variable {entry : Text × FileType}

section

variable (hshape : TreeShape entries)
include hshape

theorem TreeShape.trimmed (hentry : entry ∈ entries) : Trimmed pathSeparator entry.1 := by
  rw [← (hshape.normal entry hentry).1]
  exact trimmed_trim pathSeparator entry.1

theorem TreeShape.unique {first second : Text × FileType} (hfirst : first ∈ entries)
    (hsecond : second ∈ entries) (hsame : first.1 = second.1) : first = second :=
  inj_on_of_nodup_map hshape.distinct hfirst hsecond (congrArg normalize hsame)

/-- Whatever lies properly within a path has it for a directory. -/
theorem TreeShape.dir_of_within {norm : Text} (hnorm : norm ≠ []) (hentry : entry ∈ entries)
    (hwithin : Within pathSeparator norm entry.1) (hne : entry.1 ≠ norm) :
    (norm, .dir) ∈ entries := by
  have hclosed : ParentClosed pathSeparator { path | ∃ type, (path, type) ∈ entries }
      { path | (path, FileType.dir) ∈ entries } := by
    rintro path ⟨type, hpath⟩
    exact hshape.parent (path, type) hpath
  exact mem_of_within hclosed (fun path hpath => ⟨.dir, hpath⟩) hnorm ⟨entry.2, hentry⟩ hwithin hne

/-- Nothing lies within a path that has no entry. -/
theorem TreeShape.not_within {norm : Text} (hnorm : norm ≠ [])
    (hfree : ∀ entry ∈ entries, entry.1 ≠ norm) (hentry : entry ∈ entries) :
    ¬ Within pathSeparator norm entry.1 := by
  intro hwithin
  exact hfree _ (hshape.dir_of_within hnorm hentry hwithin (hfree entry hentry)) rfl

theorem TreeShape.add {path : Text} {type : FileType} (hnormal : normalize path = path)
    (hne : path ≠ []) (hfree : ∀ entry ∈ entries, entry.1 ≠ path)
    (hparent : parentOf path = [] ∨ (parentOf path, .dir) ∈ entries) (hkind : type ≠ .link) :
    TreeShape (entries ++ [(path, type)]) where
  distinct := by
    rw [map_append, map_singleton, nodup_append]
    refine ⟨hshape.distinct, nodup_singleton _, ?_⟩
    intro norm hnorm other hother
    obtain ⟨entry, hentry, rfl⟩ := mem_map.mp hnorm
    rw [mem_singleton.mp hother, (hshape.normal entry hentry).1, hnormal]
    exact hfree entry hentry
  normal := by
    rw [forall_mem_append, forall_mem_singleton]
    exact ⟨hshape.normal, hnormal, hne⟩
  parent := by
    rw [forall_mem_append, forall_mem_singleton]
    refine ⟨fun entry hentry => ?_, hparent.imp_right (mem_append_left _)⟩
    exact (hshape.parent entry hentry).imp_right (mem_append_left _)
  kind := by
    rw [forall_mem_append, forall_mem_singleton]
    exact ⟨hshape.kind, hkind⟩

/-- Entries may be left out as long as the parents of the others stay. -/
theorem TreeShape.sublist {left : List (Text × FileType)} (hleft : left.Sublist entries)
    (hparents : ∀ entry ∈ left, (parentOf entry.1, .dir) ∈ entries →
      parentOf entry.1 ≠ [] → (parentOf entry.1, .dir) ∈ left) :
    TreeShape left where
  distinct := hshape.distinct.sublist (hleft.map _)
  normal entry hentry := hshape.normal entry (hleft.subset hentry)
  parent entry hentry := by
    rcases hshape.parent entry (hleft.subset hentry) with hnil | hdir
    · exact .inl hnil
    · by_cases hnil : parentOf entry.1 = []
      · exact .inl hnil
      · exact .inr (hparents entry hentry hdir hnil)
  kind entry hentry := hshape.kind entry (hleft.subset hentry)

/-- Everything within a path may be moved to a free place that is not within it. -/
theorem TreeShape.relocate {source target : Text} (hsource : source ≠ []) (hne : target ≠ [])
    (hnormal : normalize target = target) (hfree : ∀ entry ∈ entries, entry.1 ≠ target)
    (hparent : parentOf target = [] ∨ (parentOf target, .dir) ∈ entries)
    (hinto : ¬ Within pathSeparator source target) : TreeShape (entries.map fun entry =>
      (SepPath.relocate pathSeparator source target entry.1, entry.2)) := by
  have htarget : Trimmed pathSeparator target := by
    rw [← hnormal]
    exact trimmed_trim pathSeparator target
  have hmoved : ∀ entry ∈ entries,
      Trimmed pathSeparator (SepPath.relocate pathSeparator source target entry.1) :=
    fun entry hentry => trimmed_relocate htarget hne (hshape.trimmed hentry)
  have hdir : ∀ path, (path, FileType.dir) ∈ entries →
      (SepPath.relocate pathSeparator source target path, FileType.dir) ∈ entries.map fun entry =>
        (SepPath.relocate pathSeparator source target entry.1, entry.2) :=
    fun path hpath => mem_map.mpr ⟨(path, .dir), hpath, rfl⟩
  constructor
  case distinct =>
    rw [map_map]
    refine List.Nodup.map_on ?_ hshape.distinct.of_map
    intro first hfirst second hsecond hsame
    simp only [Function.comp_apply] at hsame
    rw [show normalize _ = _ from trim_of_trimmed (hmoved first hfirst),
      show normalize _ = _ from trim_of_trimmed (hmoved second hsecond)] at hsame
    exact hshape.unique hfirst hsecond (relocate_injective
      (hshape.not_within hne hfree hfirst) (hshape.not_within hne hfree hsecond) hsame)
  case normal =>
    rw [forall_mem_map]
    intro entry hentry
    refine ⟨trim_of_trimmed (hmoved entry hentry), fun hnil => ?_⟩
    by_cases hwithin : Within pathSeparator source entry.1
    · have hthere := within_relocate target hwithin
      rw [show SepPath.relocate pathSeparator source target entry.1 = [] from hnil] at hthere
      exact not_within_nil hne hthere
    · rw [relocate_of_not_within hwithin] at hnil
      exact (hshape.normal entry hentry).2 hnil
  case parent =>
    rw [forall_mem_map]
    intro entry hentry
    by_cases hhere : entry.1 = source
    · rw [hhere, relocate_source]
      refine hparent.imp_right fun hmem => ?_
      have hout : ¬ Within pathSeparator source (parentOf target) :=
        fun hin => hinto (within_of_parent hsource hin)
      have := hdir _ hmem
      rwa [relocate_of_not_within hout] at this
    · have hcommute : parentOf (SepPath.relocate pathSeparator source target entry.1) =
          SepPath.relocate pathSeparator source target (parentOf entry.1) :=
        parent_relocate hsource hhere
      rw [hcommute]
      rcases hshape.parent entry hentry with hnil | hmem
      · refine .inl ?_
        rw [hnil]
        exact relocate_of_not_within (not_within_nil hsource)
      · exact .inr (hdir _ hmem)
  case kind =>
    rw [forall_mem_map]
    exact hshape.kind

end

end Shapes

/-! ## Single changes -/

section Changes

variable {nodes : TmpfsNodes}

variable {newn norm oldn : Text} {node : TmpfsNode}

theorem IsTree.trimmed (htree : IsTree nodes) (hnode : node ∈ nodes) :
    Trimmed pathSeparator node.path :=
  htree.shape.trimmed (mem_map_of_mem hnode)

theorem IsTree.type_of_findNode (htree : IsTree nodes) {other : TmpfsNode}
    (hfind : findNode nodes norm = some node) (hother : other ∈ nodes) (hpath : other.path = norm) :
    other.type = node.type := by
  have hshape : shapeOf other = shapeOf node :=
    htree.shape.unique (mem_map_of_mem hother) (mem_map_of_mem (mem_of_findNode hfind))
      (hpath.trans (path_of_findNode hfind).symm)
  exact congrArg Prod.snd hshape

theorem IsTree.nodup_paths (htree : IsTree nodes) : (nodes.map TmpfsNode.path).Nodup := by
  have hdistinct := htree.shape.distinct
  rw [map_map] at hdistinct
  refine List.Nodup.of_map normalize ?_
  rwa [map_map]

theorem free_of_findNode (hfind : findNode nodes norm = none) :
    ∀ entry ∈ nodes.map shapeOf, entry.1 ≠ norm :=
  forall_mem_map.mpr (findNode_eq_none.mp hfind)

theorem dir_of_isDirNode (hdir : isDirNode nodes norm = true) :
    (norm, .dir) ∈ nodes.map shapeOf := by
  rw [isDirNode, Option.any_eq_true] at hdir
  obtain ⟨node, hfind, htype⟩ := hdir
  refine mem_map.mpr ⟨node, mem_of_findNode hfind, ?_⟩
  rw [shapeOf, path_of_findNode hfind, of_decide_eq_true htype]

theorem parent_of_parentExists (hparent : parentExists nodes norm = true) :
    parentOf norm = [] ∨ (parentOf norm, .dir) ∈ nodes.map shapeOf := by
  rw [parentExists, Bool.or_eq_true] at hparent
  exact hparent.imp of_decide_eq_true dir_of_isDirNode

theorem normalize_normalize {path : Text} : normalize (normalize path) = normalize path :=
  trim_of_trimmed (trimmed_trim pathSeparator path)

section

variable (htree : IsTree nodes)
include htree

theorem isTree_add (hnormal : normalize node.path = node.path) (hne : node.path ≠ [])
    (hfree : findNode nodes node.path = none) (hparent : parentExists nodes node.path = true)
    (hkind : node.type ≠ .link) (hdata : node.data ≠ [] → node.type = .reg) :
    IsTree (nodes ++ [node]) where
  shape := by
    rw [map_append]
    exact htree.shape.add hnormal hne (free_of_findNode hfree) (parent_of_parentExists hparent)
      hkind
  data := by
    rw [forall_mem_append, forall_mem_singleton]
    exact ⟨htree.data, hdata⟩

theorem isTree_updateNode {change : TmpfsNode → TmpfsNode}
    (hshape : ∀ node, shapeOf (change node) = shapeOf node)
    (hdata : ∀ node ∈ nodes, node.path = norm → (change node).data ≠ [] → node.type = .reg) :
    IsTree (updateNode nodes norm change) where
  shape := by
    rw [map_updateNode fun node _ => hshape node]
    exact htree.shape
  data := by
    refine forall_updateNode htree.data fun node hfind hfilled => ?_
    have htype : (change node).type = node.type := congrArg Prod.snd (hshape node)
    rw [htype]
    exact hdata node (mem_of_findNode hfind) (path_of_findNode hfind) hfilled

theorem isTree_attributes {norm : Text} {change : TmpfsNode → TmpfsNode}
    (hshape : ∀ node, shapeOf (change node) = shapeOf node)
    (hdata : ∀ node, (change node).data = node.data) : IsTree (updateNode nodes norm change) := by
  refine isTree_updateNode htree hshape fun node hnode _ hfilled => htree.data node hnode ?_
  rwa [hdata] at hfilled

variable (caller : Caller) (now : UInt32) (path : Text)

theorem isTree_putContent (hnormal : normalize norm = norm) {content : Text} {append : Bool} :
    IsTree (putContent caller now norm content append nodes).2 := by
  unfold putContent
  extract_lets size
  split
  case isTrue => exact htree
  case isFalse hpath =>
    obtain ⟨hne, -⟩ := not_or.mp hpath
    split
    case h_1 hfind =>
      repeat' split
      any_goals exact htree
      exact isTree_add htree hnormal hne hfind (not_not.mp ‹¬ ¬ parentExists nodes norm = true›)
        nofun fun _ => rfl
    case h_2 node hfind =>
      extract_lets oldlen newused
      split
      case isTrue => exact htree
      case isFalse hfile =>
        split
        case isTrue => exact htree
        case isFalse =>
          refine isTree_updateNode htree (fun _ => rfl) fun other hother hsame _ => ?_
          have hlink := htree.shape.kind _ (mem_map_of_mem (mem_of_findNode hfind))
          rw [htree.type_of_findNode hfind hother hsame]
          cases hkind : node.type with
          | reg => rfl
          | dir => exact absurd hkind hfile
          | link => exact absurd hkind hlink

theorem isTree_createFile (content : Text) :
    IsTree (createFile caller now path content nodes).2 := by
  unfold createFile
  split
  · exact htree
  · split
    · exact htree
    · exact isTree_putContent htree caller now (normalize_normalize)

theorem isTree_editFile (offset : UInt64) (content : Text) :
    IsTree (editFile now path offset content nodes).2 := by
  unfold editFile
  split
  case h_1 => exact htree
  case h_2 node hfind =>
    extract_lets oldlen
    split
    case isTrue => exact htree
    case isFalse hreg =>
      split
      case isTrue => exact htree
      case isFalse =>
        refine isTree_updateNode htree (fun _ => rfl) fun other hother hsame _ => ?_
        exact (htree.type_of_findNode hfind hother hsame).trans (not_not.mp hreg)

theorem isTree_createDirectory :
    IsTree (createDirectory caller now path nodes).2 := by
  unfold createDirectory
  extract_lets norm
  split
  case isTrue => exact htree
  case isFalse hpath =>
    split
    case isTrue => exact htree
    case isFalse hfind =>
      repeat' split
      any_goals exact htree
      exact isTree_add htree (normalize_normalize) (not_or.mp hpath).1
        (Option.not_isSome_iff_eq_none.mp hfind)
        (not_not.mp ‹¬ ¬ parentExists nodes norm = true›) nofun (absurd rfl)

theorem isTree_copyFile (sourcePath destPath : Text) :
    IsTree (copyFile caller now sourcePath destPath nodes).2 := by
  unfold copyFile
  extract_lets dst
  split
  case h_1 => exact htree
  case h_2 source hsource =>
    repeat' split
    any_goals exact htree
    exact isTree_add htree (normalize_normalize) ‹¬ dst = []›
      (Option.not_isSome_iff_eq_none.mp ‹¬ (findNode nodes dst).isSome = true›)
      (not_not.mp ‹¬ ¬ parentExists nodes dst = true›) nofun fun _ => rfl

/-- Nodes may be left out as long as the parents of the others stay. -/
theorem isTree_sublist {left : TmpfsNodes} (hleft : left.Sublist nodes)
    (hparents : ∀ node ∈ left, ∀ dir ∈ nodes, dir.type = .dir → dir.path = parentOf node.path →
      dir.path ≠ [] → dir ∈ left) :
    IsTree left where
  shape := by
    refine htree.shape.sublist (hleft.map _) ?_
    rw [forall_mem_map]
    intro node hnode hdir hne
    obtain ⟨dir, hmem, hshape⟩ := mem_map.mp hdir
    obtain ⟨hpath, htype⟩ := Prod.mk.inj hshape
    refine mem_map.mpr ⟨dir, hparents node hnode dir hmem htype hpath ?_, hshape⟩
    rw [hpath]
    exact hne
  data node hnode := htree.data node (hleft.subset hnode)

/-- A regular file is nobody's parent. -/
theorem isTree_deleteFile : IsTree (deleteFile path nodes).2 := by
  unfold deleteFile
  split
  case isFalse => exact htree
  case isTrue hreg =>
    rw [isRegNode, Option.any_eq_true] at hreg
    obtain ⟨file, hfind, htype⟩ := hreg
    refine isTree_sublist htree eraseP_sublist fun node _ dir hdir hkind _ _ => ?_
    refine (mem_eraseP_of_neg ?_).mpr hdir
    intro hsame
    have hboth := htree.type_of_findNode hfind hdir (of_decide_eq_true hsame)
    rw [hkind, of_decide_eq_true htype] at hboth
    cases hboth

end

/-- On normalized paths, to be below is to lie properly within. -/
theorem isBelow_iff {path : Text} (hpath : Trimmed pathSeparator path) :
    isBelow norm path = true ↔ Within pathSeparator norm path ∧ path ≠ norm := by
  rw [isBelow, Bool.and_eq_true, isPrefixOf_iff_prefix, decide_eq_true_iff]
  constructor
  · rintro ⟨hstart, hlong⟩
    refine ⟨.inr hstart, fun hsame => ?_⟩
    rw [hsame] at hlong
    omega
  · rintro ⟨hwithin, hne⟩
    obtain ⟨rest, rfl⟩ := (within_iff.mp hwithin).resolve_left hne
    refine ⟨⟨rest, by simp⟩, ?_⟩
    cases rest with
    | nil => exact absurd (by simp) hpath.2
    | cons letter rest => simp

/-- Whatever lies within a directory goes with it. -/
theorem isTree_deleteDirectory (htree : IsTree nodes) {path : Text} :
    IsTree (deleteDirectory path nodes).2 := by
  unfold deleteDirectory
  extract_lets norm
  split
  case isTrue => exact htree
  case isFalse hnorm =>
    split
    case isTrue => exact htree
    case isFalse =>
      have hgone : ∀ node ∈ nodes, (node.path = norm ∨ isBelow norm node.path = true) ↔
          Within pathSeparator norm node.path := by
        intro node hnode
        rw [isBelow_iff (htree.trimmed hnode)]
        constructor
        · rintro (hsame | ⟨hwithin, -⟩)
          · exact .inl hsame
          · exact hwithin
        · intro hwithin
          by_cases hsame : node.path = norm
          · exact .inl hsame
          · exact .inr ⟨hwithin, hsame⟩
      refine isTree_sublist htree filter_sublist fun node hnode dir hdir _ hparent _ => ?_
      obtain ⟨hmem, hkept⟩ := mem_filter.mp hnode
      refine mem_filter.mpr ⟨hdir, decide_eq_true fun hlost => ?_⟩
      have hwithin := (hgone dir hdir).mp hlost
      rw [hparent] at hwithin
      exact of_decide_eq_true hkept ((hgone node hmem).mpr (within_of_parent hnorm hwithin))

/-! ## Renaming -/

/-- What a rename passes before it changes anything. -/
structure Renames (nodes : TmpfsNodes) (oldn newn : Text) (node : TmpfsNode) : Prop where
  oldn_ne : oldn ≠ []
  newn_ne : newn ≠ []
  found : findNode nodes oldn = some node
  free : findNode nodes newn = none
  parent : parentExists nodes newn = true
  short : newn.length ≤ tmpfsMaxPath

def renamed (nodes : TmpfsNodes) (oldn newn : Text) (node : TmpfsNode) : TmpfsNodes :=
  let moved := updateNode nodes oldn fun node => { node with path := newn }
  if node.type = .dir then
    moved.map fun node => { node with path := renamedPath oldn newn node.path }
  else
    moved

/-- A rename fails one of its checks, or passes them all and changes the nodes. -/
theorem rename_cases (oldPath newPath : Text) (nodes : TmpfsNodes) :
    ((∃ code, rename oldPath newPath nodes = (.error code, nodes)) ∧
        ∀ node, ¬ Renames nodes (normalize oldPath) (normalize newPath) node) ∨
      ∃ node, Renames nodes (normalize oldPath) (normalize newPath) node ∧
        rename oldPath newPath nodes =
          (.ok 0, renamed nodes (normalize oldPath) (normalize newPath) node) := by
  unfold rename
  extract_lets oldn newn
  split
  case isTrue hpaths =>
    exact .inl ⟨⟨_, rfl⟩, fun node hrenames => hpaths.elim hrenames.oldn_ne hrenames.newn_ne⟩
  case isFalse hpaths =>
    obtain ⟨holdn, hnewn⟩ := not_or.mp hpaths
    split
    case h_1 hfind =>
      refine .inl ⟨⟨_, rfl⟩, fun node hrenames => ?_⟩
      cases hfind.symm.trans hrenames.found
    case h_2 node hfind =>
      split
      case isTrue htaken =>
        refine .inl ⟨⟨_, rfl⟩, fun node hrenames => ?_⟩
        rw [hrenames.free] at htaken
        cases htaken
      case isFalse hfree =>
        split
        case isTrue horphan =>
          exact .inl ⟨⟨_, rfl⟩, fun node hrenames => horphan hrenames.parent⟩
        case isFalse hparent =>
          split
          case isTrue hlong =>
            exact .inl ⟨⟨_, rfl⟩, fun node hrenames => Nat.not_lt.mpr hrenames.short hlong⟩
          case isFalse hshort =>
            refine .inr ⟨node, ⟨holdn, hnewn, hfind, Option.not_isSome_iff_eq_none.mp hfree,
              not_not.mp hparent, Nat.le_of_not_lt hshort⟩, ?_⟩
            unfold renamed
            split <;> rfl

def relocateNode (oldn newn : Text) (node : TmpfsNode) : TmpfsNode :=
  { node with path := relocate pathSeparator oldn newn node.path }

theorem renamedPath_eq_relocate {path : Text} (hpath : Trimmed pathSeparator path)
    (hne : path ≠ oldn) :
    renamedPath oldn newn path = relocate pathSeparator oldn newn path := by
  unfold renamedPath
  split
  case isTrue hbelow =>
    obtain ⟨rest, rfl⟩ := (within_iff.mp ((isBelow_iff hpath).mp hbelow).1).resolve_left hne
    rw [relocate_append]
    simp
  case isFalse hbelow =>
    rw [relocate_of_not_within fun hwithin => hbelow ((isBelow_iff hpath).mpr ⟨hwithin, hne⟩)]

section

variable (htree : IsTree nodes) (hnormal : normalize newn = newn)
  (hrenames : Renames nodes oldn newn node)

include htree hnormal hrenames

omit hnormal in
/-- A rename that does not go into the renamed directory moves exactly what lies within
the old path. -/
theorem renamed_eq_map (hout : ¬ (node.type = .dir ∧ isBelow oldn newn = true)) :
    renamed nodes oldn newn node = nodes.map (relocateNode oldn newn) := by
  obtain ⟨before, after, hsplit, hupdate⟩ :=
    updateNode_of_findNode hrenames.found fun node => { node with path := newn }
  have hmoved : relocateNode oldn newn node = { node with path := newn } := by
    rw [relocateNode, path_of_findNode hrenames.found, relocate_source]
  -- the other nodes have other paths
  have hothers : ∀ other ∈ before ++ after, other ∈ nodes ∧ other.path ≠ oldn := by
    have hpaths := htree.nodup_paths
    rw [hsplit, map_append, map_cons, nodup_middle, nodup_cons, ← map_append] at hpaths
    intro other hother
    refine ⟨?_, fun hsame => hpaths.1 ?_⟩
    · rw [hsplit]
      simp only [mem_append, mem_cons] at hother ⊢
      exact hother.imp_right .inr
    · rw [path_of_findNode hrenames.found, ← hsame]
      exact mem_map_of_mem hother
  rw [forall_mem_append] at hothers
  unfold renamed
  rw [hupdate, hsplit]
  split
  case isTrue hdir =>
    have hstays : renamedPath oldn newn newn = newn := if_neg fun hbelow => hout ⟨hdir, hbelow⟩
    have hsame : ∀ other, other ∈ nodes ∧ other.path ≠ oldn →
        { other with path := renamedPath oldn newn other.path } = relocateNode oldn newn other := by
      rintro other ⟨hmem, hne⟩
      rw [renamedPath_eq_relocate (htree.trimmed hmem) hne, relocateNode]
    simp only [map_append, map_cons, hstays, hmoved]
    congr 1
    · exact map_congr_left fun other hother => hsame other (hothers.1 other hother)
    · congr 1
      exact map_congr_left fun other hother => hsame other (hothers.2 other hother)
  case isFalse hfile =>
    have hstays : ∀ other, other ∈ nodes ∧ other.path ≠ oldn → relocateNode oldn newn other = other := by
      rintro other ⟨hmem, hne⟩
      have hwithin : ¬ Within pathSeparator oldn other.path := by
        intro hwithin
        obtain ⟨dir, hdir, hshape⟩ := mem_map.mp (htree.shape.dir_of_within hrenames.oldn_ne
          (mem_map_of_mem hmem) hwithin hne)
        obtain ⟨hpath, htype⟩ := Prod.mk.inj hshape
        exact hfile ((htree.type_of_findNode hrenames.found hdir hpath).symm.trans htype)
      rw [relocateNode, relocate_of_not_within hwithin]
    have hkept : ∀ list : TmpfsNodes, (∀ other ∈ list, other ∈ nodes ∧ other.path ≠ oldn) →
        list.map (relocateNode oldn newn) = list := by
      intro list hlist
      calc list.map (relocateNode oldn newn)
          = list.map id := map_congr_left fun other hother => hstays other (hlist other hother)
        _ = list := map_id list
    rw [map_append, map_cons, hmoved, hkept before hothers.1, hkept after hothers.2]

/-- The nodes at or below the old path are gone from there and stand at the corresponding
paths at or below the new one; the others are as they were. -/
def Moved (nodes : TmpfsNodes) (oldn newn : Text) (next : TmpfsNodes) : Prop :=
  next = nodes.map (relocateNode oldn newn) ∧ ∀ node ∈ next, ¬ Within pathSeparator oldn node.path

theorem isTree_relocate (hinto : ¬ Within pathSeparator oldn newn) :
    IsTree (nodes.map (relocateNode oldn newn)) where
  shape := by
    have hshape := htree.shape.relocate hrenames.oldn_ne hrenames.newn_ne hnormal
      (free_of_findNode hrenames.free) (parent_of_parentExists hrenames.parent) hinto
    rw [map_map] at hshape ⊢
    exact hshape
  data := by
    rw [forall_mem_map]
    exact htree.data

theorem not_within_of_renames (hout : ¬ (node.type = .dir ∧ isBelow oldn newn = true)) :
    ¬ Within pathSeparator oldn newn := by
  intro hwithin
  have hne : newn ≠ oldn := by
    rintro rfl
    have hboth := hrenames.found.symm.trans hrenames.free
    cases hboth
  have hnewn : Trimmed pathSeparator newn := by
    rw [← hnormal]
    exact trimmed_trim pathSeparator newn
  -- the parent of the new path lies within the old one, which is a directory for that
  have hparent : Within pathSeparator oldn (parentOf newn) := within_parent hwithin hne
  have hdir : (oldn, FileType.dir) ∈ nodes.map shapeOf := by
    rcases parent_of_parentExists hrenames.parent with hnil | hmem
    · rw [hnil] at hparent
      exact absurd hparent (not_within_nil hrenames.oldn_ne)
    · by_cases hhere : parentOf newn = oldn
      · rwa [hhere] at hmem
      · exact htree.shape.dir_of_within hrenames.oldn_ne hmem hparent hhere
  obtain ⟨dir, hmem, hshape⟩ := mem_map.mp hdir
  obtain ⟨hpath, htype⟩ := Prod.mk.inj hshape
  refine hout ⟨?_, (isBelow_iff hnewn).mpr ⟨hwithin, hne⟩⟩
  exact (htree.type_of_findNode hrenames.found hmem hpath).symm.trans htype

theorem moved_of_renames (hout : ¬ (node.type = .dir ∧ isBelow oldn newn = true)) :
    IsTree (renamed nodes oldn newn node) ∧ Moved nodes oldn newn (renamed nodes oldn newn node) := by
  have hinto := not_within_of_renames htree hnormal hrenames hout
  rw [renamed_eq_map htree hrenames hout]
  refine ⟨isTree_relocate htree hnormal hrenames hinto, rfl, ?_⟩
  have hover : ¬ Within pathSeparator newn oldn := by
    have hfound := mem_map_of_mem (f := shapeOf) (mem_of_findNode hrenames.found)
    have hfree := htree.shape.not_within hrenames.newn_ne (free_of_findNode hrenames.free) hfound
    rwa [shapeOf, path_of_findNode hrenames.found] at hfree
  rw [forall_mem_map]
  exact fun other _ => not_within_relocate hinto hover other.path

end

/-- A directory that is renamed into itself is torn off. -/
theorem not_isTree_of_into (hrenames : Renames nodes oldn newn node) (hdir : node.type = .dir)
    (hinto : isBelow oldn newn = true) :
    ¬ IsTree (renamed nodes oldn newn node) := by
  intro htorn
  have hlong : ∀ path, isBelow oldn path = true →
      renamedPath oldn newn path = newn ++ pathSeparator :: path.drop (oldn.length + 1) := by
    intro path hbelow
    rw [renamedPath, if_pos hbelow, append_assoc, singleton_append]
  -- no node gets to the new path itself
  have hempty : ∀ path, renamedPath oldn newn path ≠ newn := by
    intro path hhere
    by_cases hbelow : isBelow oldn path = true
    · rw [hlong path hbelow] at hhere
      simp at hhere
    · rw [renamedPath, if_neg hbelow] at hhere
      exact hbelow (hhere ▸ hinto)
  obtain ⟨before, after, -, hupdate⟩ :=
    updateNode_of_findNode hrenames.found fun node => { node with path := newn }
  rw [renamed, if_pos hdir, hupdate] at htorn
  have hfree : ∀ entry ∈ ((before ++ { node with path := newn } :: after).map fun node =>
      { node with path := renamedPath oldn newn node.path }).map shapeOf, entry.1 ≠ newn := by
    simp only [forall_mem_map]
    exact fun other _ => hempty other.path
  refine htorn.shape.not_within hrenames.newn_ne hfree
    (mem_map_of_mem (mem_map_of_mem (mem_append_right before mem_cons_self))) ?_
  rw [hlong newn hinto]
  exact within_append newn _

end Changes

/-! ## Runs -/

def renameOf : Mutation → Option (Text × Text)
  | .rename oldPath newPath | .moveFile oldPath newPath =>
    some (normalize oldPath, normalize newPath)
  | _ => none

/-- After a request the nodes are a tree, and a successful rename has moved exactly what
was at or below the old path. -/
def StaysTree (nodes : TmpfsNodes) (request : Request) : Prop :=
  IsTree (perform nodes request).2 ∧
    ∀ places, renameOf request.mutation = some places →
      ∀ count, (perform nodes request).1 = .ok count →
        Moved nodes places.1 places.2 (perform nodes request).2

/-- A request renames a directory to a place inside itself, and none of the checks of a
rename stops it. -/
def IntoItself (nodes : TmpfsNodes) (request : Request) : Prop :=
  ∃ places node, renameOf request.mutation = some places ∧
    Renames nodes places.1 places.2 node ∧ node.type = .dir ∧ isBelow places.1 places.2 = true

theorem rename_staysTree_iff {nodes : TmpfsNodes} (htree : IsTree nodes) (oldPath newPath : Text) :
    (IsTree (rename oldPath newPath nodes).2 ∧
        ∀ count, (rename oldPath newPath nodes).1 = .ok count →
          Moved nodes (normalize oldPath) (normalize newPath) (rename oldPath newPath nodes).2) ↔
      ¬ ∃ node, Renames nodes (normalize oldPath) (normalize newPath) node ∧ node.type = .dir ∧
        isBelow (normalize oldPath) (normalize newPath) = true := by
  rcases rename_cases oldPath newPath nodes with ⟨⟨code, hfails⟩, hnever⟩ | ⟨node, hrenames, hok⟩
  · rw [hfails]
    exact ⟨fun _ ⟨node, hrenames, _⟩ => hnever node hrenames, fun _ => ⟨htree, nofun⟩⟩
  rw [hok]
  constructor
  · rintro ⟨hnext, -⟩ ⟨other, hother, hdir, hinto⟩
    exact not_isTree_of_into hrenames (Option.some.inj (hrenames.found.symm.trans hother.found) ▸ hdir)
      hinto hnext
  · intro hout
    obtain ⟨hnext, hmoved⟩ := moved_of_renames htree (normalize_normalize) hrenames
      fun hinto => hout ⟨node, hrenames, hinto⟩
    exact ⟨hnext, fun _ _ => hmoved⟩

theorem attrChange_keeps {type : UInt8} {buffer : Text} {change : TmpfsNode → TmpfsNode}
    (hchange : attrChange type buffer = some change) (node : TmpfsNode) :
    shapeOf (change node) = shapeOf node ∧ (change node).data = node.data := by
  unfold attrChange at hchange
  repeat' split at hchange
  all_goals cases hchange
  all_goals exact ⟨rfl, rfl⟩

/-- Every request but a rename keeps the tree. -/
theorem isTree_perform {nodes : TmpfsNodes} (htree : IsTree nodes) {request : Request}
    (hrename : renameOf request.mutation = none) : IsTree (perform nodes request).2 := by
  unfold perform
  cases hmutation : request.mutation with
  | createFile path content => exact isTree_createFile htree ..
  | writeFile path content append =>
    exact isTree_putContent htree _ _ (normalize_normalize)
  | editFile path offset content => exact isTree_editFile htree ..
  | createDirectory path => exact isTree_createDirectory htree ..
  | deleteFile path => exact isTree_deleteFile htree path
  | deleteDirectory path => exact isTree_deleteDirectory htree
  | rename oldPath newPath | moveFile oldPath newPath =>
    rw [hmutation] at hrename
    cases hrename
  | copyFile sourcePath destPath => exact isTree_copyFile htree ..
  | touch path =>
    dsimp only [touch]
    split
    · exact isTree_attributes htree (fun _ => rfl) fun _ => rfl
    · exact isTree_createFile htree ..
  | setFileAttr path type buffer =>
    dsimp only [setFileAttr]
    split
    · exact htree
    · split
      · exact htree
      · split
        case h_1 => exact htree
        case h_2 change hchange =>
          exact isTree_attributes htree (fun node => (attrChange_keeps hchange node).1)
            fun node => (attrChange_keeps hchange node).2
  | setFilePermissions path perms =>
    dsimp only [setFilePermissions, changeNode]
    split
    · exact htree
    · exact isTree_attributes htree (fun _ => rfl) fun _ => rfl
  | setFileOwner path uid gid =>
    dsimp only [setFileOwner, changeNode]
    split
    · exact htree
    · exact isTree_attributes htree (fun _ => rfl) fun _ => rfl

theorem perform_of_renameOf {request : Request} {places : Text × Text}
    (hplaces : renameOf request.mutation = some places) (nodes : TmpfsNodes) :
    ∃ oldPath newPath, perform nodes request = rename oldPath newPath nodes ∧
      places = (normalize oldPath, normalize newPath) := by
  unfold perform
  cases hmutation : request.mutation with
  | rename oldPath newPath | moveFile oldPath newPath =>
    rw [hmutation] at hplaces
    exact ⟨oldPath, newPath, rfl, (Option.some.inj hplaces).symm⟩
  | _ =>
    rw [hmutation] at hplaces
    cases hplaces

theorem staysTree_iff {nodes : TmpfsNodes} (htree : IsTree nodes) {request : Request} :
    StaysTree nodes request ↔ ¬ IntoItself nodes request := by
  unfold StaysTree IntoItself
  cases hplaces : renameOf request.mutation with
  | none =>
    refine ⟨?_, fun _ => ⟨isTree_perform htree hplaces, nofun⟩⟩
    rintro - ⟨places, node, hsome, -⟩
    cases hsome
  | some places =>
    obtain ⟨oldPath, newPath, hperform, rfl⟩ := perform_of_renameOf hplaces nodes
    simpa [hperform] using rename_staysTree_iff htree oldPath newPath

/-- In a run from the empty file system every request leaves a tree, and every successful
rename moves exactly what it should, if and only if no directory is renamed to a place
inside itself. -/
theorem run_staysTree_iff (requests : List Request) :
    Allowed perform StaysTree requests [] ↔
      Allowed perform (fun nodes request => ¬ IntoItself nodes request) requests [] :=
  allowed_iff_of_invariant IsTree (fun _ _ htree => staysTree_iff htree)
    (fun _ _ htree hout => ((staysTree_iff htree).mpr hout).1) requests isTree_nil

def asRoot (mutation : Mutation) : Request :=
  { caller := { uid := 0, gid := 0, umask := 0o022 }, now := 0, mutation := mutation }

/-- A directory with nothing in it, renamed to a place inside itself, is a node without a
parent. -/
theorem directory_torn_off :
    ¬ Allowed perform StaysTree
      [asRoot (.createDirectory (text "a")), asRoot (.rename (text "a") (text "a/b"))] [] := by
  rintro ⟨-, ⟨htree, -⟩, -⟩
  have hparent := htree.shape.parent (text "a/b/b", .dir) (by decide)
  revert hparent
  decide

end PdiStack.TmpTree
