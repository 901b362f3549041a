import PdiStack.Storage.Dispatcher
import PdiStack.Storage.TmpFs

/-!
# Access through the dispatcher

What a session may do to a path is decided by the three permission bits that
`selectBits` picks.  `Operation.demands` says which bits a dispatcher call asks for on
which of its paths.  A call is `Guarded` when a missing bit makes it return the
permission code and leave the world alone.

A rename, which the documentation calls ungated, asks for nothing on its source, and the
removal of a directory asks for nothing on what lies in it.
-/

namespace PdiStack.Access

open PdiTypes StringOperations FileSystemInterface Dispatcher List

variable {σ : Type}

/-- The dispatcher calls that read, replace or remove the content of a path. -/
inductive Operation where
  | readFile (path : Text) (size offset : ℕ) (readUntilMatch : Text)
  | readLineInFile (path : Text) (linenumber : ℤ) (pattern : Text)
  | findInFile (path findStr : Text) (maxindices everynthindice offset : ℤ)
  | getLineNumbersInFile (path : Text) (maxlinenumbers linenumberoffset : ℤ)
  | getOffsetFromLineNumber (path : Text) (linenumber : ℤ)
  | getLineNumberFromOffset (path : Text) (offset : ℤ)
  | getDirFileList (path pattern : Text)
  | deleteFile (path : Text)
  | deleteDirectory (path : Text)
  | writeFile (path content : Text) (append : Bool)
  | editFile (path : Text) (offset : UInt64) (content : Text)
  | touch (path : Text)
  | openFile (path : Text) (flags : UInt8)
  | copyFile (sourcePath destPath : Text)
  | rename (oldPath newPath : Text)
  | moveFile (oldPath newPath : Text)
deriving DecidableEq, Repr

def queried {α : Type} (answer : Except PdiErr α) (world : σ) : PdiErr × σ :=
  (statusOf answer, world)

namespace Operation

def run (dispatcher : VfsDispatcher σ) (caller : Caller) : Operation → σ → PdiErr × σ
  | .readFile path size offset readUntilMatch, world =>
    queried (dispatcher.readFile caller path size offset readUntilMatch world) world
  | .readLineInFile path linenumber pattern, world =>
    queried (dispatcher.readLineInFile caller path linenumber pattern world) world
  | .findInFile path findStr maxindices everynthindice offset, world =>
    queried (dispatcher.findInFile caller path findStr maxindices everynthindice offset world)
      world
  | .getLineNumbersInFile path maxlinenumbers linenumberoffset, world =>
    queried (dispatcher.getLineNumbersInFile caller path maxlinenumbers linenumberoffset world)
      world
  | .getOffsetFromLineNumber path linenumber, world =>
    queried (dispatcher.getOffsetFromLineNumber caller path linenumber world) world
  | .getLineNumberFromOffset path offset, world =>
    queried (dispatcher.getLineNumberFromOffset caller path offset world) world
  | .getDirFileList path pattern, world =>
    queried (dispatcher.getDirFileList caller path pattern world) world
  | .deleteFile path, world => called (dispatcher.deleteFile caller path world)
  | .deleteDirectory path, world => called (dispatcher.deleteDirectory caller path world)
  | .writeFile path content append, world =>
    called (dispatcher.writeFile caller path content append world)
  | .editFile path offset content, world =>
    called (dispatcher.editFile caller path offset content world)
  | .touch path, world => called (dispatcher.touch caller path world)
  | .openFile path flags, world => called (dispatcher.openFile caller path flags world)
  | .copyFile sourcePath destPath, world => dispatcher.copyFile caller sourcePath destPath world
  | .rename oldPath newPath, world => dispatcher.rename caller oldPath newPath world
  | .moveFile oldPath newPath, world => dispatcher.moveFile caller oldPath newPath world

end Operation

/-- The paths of a call, each with a bit that the session has to hold on it:
read where its content is delivered, write where it is replaced or removed.  Of the
two paths of a move it is the destination. -/
def Operation.demands : Operation → List (Text × UInt8)
  | .readFile path _ _ _ => [(path, vfsAccessR)]
  | .readLineInFile path _ _ => [(path, vfsAccessR)]
  | .findInFile path _ _ _ _ => [(path, vfsAccessR)]
  | .getLineNumbersInFile path _ _ => [(path, vfsAccessR)]
  | .getOffsetFromLineNumber path _ => [(path, vfsAccessR)]
  | .getLineNumberFromOffset path _ => [(path, vfsAccessR)]
  | .getDirFileList path _ => [(path, vfsAccessR)]
  | .deleteFile path => [(path, vfsAccessW)]
  | .deleteDirectory path => [(path, vfsAccessW)]
  | .writeFile path _ _ => [(path, vfsAccessW)]
  | .editFile path _ _ => [(path, vfsAccessW)]
  | .touch path => [(path, vfsAccessW)]
  | .openFile path flags =>
    (if opensForReading flags then [(path, vfsAccessR)] else []) ++
      if opensForWriting flags then [(path, vfsAccessW)] else []
  | .copyFile sourcePath destPath => [(sourcePath, vfsAccessR), (destPath, vfsAccessW)]
  | .rename _ newPath => [(newPath, vfsAccessW)]
  | .moveFile _ newPath => [(newPath, vfsAccessW)]

variable (dispatcher : VfsDispatcher σ)

/-- The path exists, and the bits selected for the session do not include
`need`. -/
def Lacks (caller : Caller) (path : Text) (need : UInt8)
    (world : σ) : Prop :=
  ∃ info, dispatcher.getFileMeta path world = .ok info ∧ selectBits caller info &&& need ≠ need

/-- A missing bit on an existing path makes the call return the permission code
and change nothing.  The empty string names no path. -/
def Guarded (caller : Caller) (operation : Operation) (world : σ) : Prop :=
  ∀ path need, (path, need) ∈ operation.demands → path ≠ [] →
    Lacks dispatcher caller path need world → operation.run dispatcher caller world = (.perm, world)

/-- The calls that take entries away without a look at their bits. -/
def Operation.TakesUnchecked : Operation → Prop
  | .rename _ _ => True
  | .deleteDirectory _ => True
  | _ => False

/-- A call that is refused for want of a permission lacks one of the bits it demands. -/
def AsksNoMore (caller : Caller) (operation : Operation) (world : σ) : Prop :=
  (operation.run dispatcher caller world).1 = .perm →
    ∃ path need, (path, need) ∈ operation.demands ∧ Lacks dispatcher caller path need world

/-- The call succeeds, and the path is gone after it. -/
def Removes (caller : Caller) (operation : Operation) (path : Text) (world : σ) : Prop :=
  (operation.run dispatcher caller world).1 = .ok ∧
    ¬ (dispatcher.getFileMeta path (operation.run dispatcher caller world).2).isOk

/-- A backend keeps no permissions of its own, so none of its renaming or deleting
calls answers with the permission code.  In the source the dispatcher alone
returns that code. -/
structure NeverPerm (backend : FileSystem σ) : Prop where
  rename : ∀ oldPath newPath world, statusOf (backend.rename oldPath newPath world).1 ≠ .perm
  deleteFile : ∀ path world, statusOf (backend.deleteFile path world).1 ≠ .perm
  deleteDirectory : ∀ path world, statusOf (backend.deleteDirectory path world).1 ≠ .perm

section

variable {dispatcher : VfsDispatcher σ} {caller : Caller} {world : σ}

/-- For an ordinary session outside the privileged scope the check refuses
exactly when the bits are missing on an existing path. -/
theorem checkAccess_eq_false_iff (huid : caller.uid ≠ 0) (hpriv : dispatcher.privDepth = 0)
    {path : Text} {need : UInt8} :
    dispatcher.checkAccess caller path need world = false ↔
      Lacks dispatcher caller path need world := by
  have hunprivileged : dispatcher.isPrivileged = false := by
    simp [VfsDispatcher.isPrivileged, hpriv]
  unfold VfsDispatcher.checkAccess Lacks
  rw [hunprivileged, if_neg huid]
  cases dispatcher.getFileMeta path world with
  | error code | ok info => simp

theorem checkAccess_eq_true (huid : caller.uid ≠ 0) (hpriv : dispatcher.privDepth = 0)
    {path : Text} {need : UInt8} (hheld : ¬ Lacks dispatcher caller path need world) :
    dispatcher.checkAccess caller path need world = true := by
  rw [← checkAccess_eq_false_iff huid hpriv] at hheld
  exact Bool.not_eq_false _ ▸ hheld

/-- A mask is missing a bit whenever a part of it does. -/
theorem mask_of_or {bits mask other : UInt8} (hheld : bits &&& (mask ||| other) = mask ||| other) :
    bits &&& mask = mask := by
  have habsorb : (mask ||| other) &&& mask = mask := by
    apply UInt8.eq_of_toBitVec_eq
    ext index
    simp
    grind
  calc bits &&& mask = bits &&& ((mask ||| other) &&& mask) := by rw [habsorb]
    _ = bits &&& (mask ||| other) &&& mask := (UInt8.and_assoc ..).symm
    _ = mask := by rw [hheld, habsorb]

theorem Lacks.openNeed_of_read {path : Text} {flags : UInt8} (hreads : opensForReading flags)
    (hlacks : Lacks dispatcher caller path vfsAccessR world) :
    Lacks dispatcher caller path (VfsDispatcher.openNeed flags) world := by
  obtain ⟨info, hinfo, hmissing⟩ := hlacks
  refine ⟨info, hinfo, fun hheld => hmissing ?_⟩
  rw [VfsDispatcher.openNeed, if_pos hreads] at hheld
  exact mask_of_or hheld

theorem Lacks.openNeed_of_write {path : Text} {flags : UInt8} (hwrites : opensForWriting flags)
    (hlacks : Lacks dispatcher caller path vfsAccessW world) :
    Lacks dispatcher caller path (VfsDispatcher.openNeed flags) world := by
  obtain ⟨info, hinfo, hmissing⟩ := hlacks
  refine ⟨info, hinfo, fun hheld => hmissing ?_⟩
  rw [VfsDispatcher.openNeed, if_pos hwrites, UInt8.or_comm] at hheld
  exact mask_of_or hheld

variable (huid : caller.uid ≠ 0) (hpriv : dispatcher.privDepth = 0)

include huid hpriv

/-- A call on one path that stands behind the check for the bit it demands. -/
theorem guarded_of_check {operation : Operation} {path : Text} {need : UInt8}
    (hdemands : operation.demands = [(path, need)])
    (hrun : dispatcher.checkAccess caller path need world = false →
      operation.run dispatcher caller world = (.perm, world)) :
    Guarded dispatcher caller operation world := by
  intro asked bit hmem _ hlacks
  rw [hdemands, mem_singleton, Prod.mk.injEq] at hmem
  obtain ⟨rfl, rfl⟩ := hmem
  exact hrun ((checkAccess_eq_false_iff huid hpriv).mpr hlacks)

theorem guarded_openFile {path : Text} {flags : UInt8} :
    Guarded dispatcher caller (.openFile path flags) world := by
  intro asked bit hmem hnonempty hlacks
  have hrefused : asked = path ∧
      Lacks dispatcher caller path (VfsDispatcher.openNeed flags) world := by
    rcases mem_append.mp hmem with hread | hwrite
    · split at hread
      · rename_i hreads
        obtain ⟨rfl, rfl⟩ := Prod.mk.inj (mem_singleton.mp hread)
        exact ⟨rfl, hlacks.openNeed_of_read hreads⟩
      · cases hread
    · split at hwrite
      · rename_i hwrites
        obtain ⟨rfl, rfl⟩ := Prod.mk.inj (mem_singleton.mp hwrite)
        exact ⟨rfl, hlacks.openNeed_of_write hwrites⟩
      · cases hwrite
  obtain ⟨rfl, hmissing⟩ := hrefused
  have hneed : VfsDispatcher.openNeed flags ≠ 0 := by
    intro hzero
    obtain ⟨info, -, hbits⟩ := hmissing
    rw [hzero] at hbits
    exact hbits (UInt8.and_zero)
  have hcheck := (checkAccess_eq_false_iff huid hpriv).mpr hmissing
  simp only [Operation.run, VfsDispatcher.openFile, if_neg hnonempty, hcheck]
  rw [if_pos ⟨hneed, Bool.false_ne_true⟩]
  rfl

theorem guarded_copyFile {sourcePath destPath : Text} :
    Guarded dispatcher caller (.copyFile sourcePath destPath) world := by
  intro asked bit hmem _ hlacks
  have hcheck := (checkAccess_eq_false_iff huid hpriv).mpr hlacks
  simp only [Operation.demands, mem_cons, not_mem_nil, or_false] at hmem
  simp only [Operation.run, VfsDispatcher.copyFile]
  rcases hmem with ⟨rfl, rfl⟩ | ⟨rfl, rfl⟩
  · rw [hcheck, if_pos Bool.false_ne_true]
  · rw [hcheck, if_pos Bool.false_ne_true, ite_self]

omit huid hpriv

theorem crossCopy_ne_perm {source : FileSystem σ} {srel : Text} {destination : FileSystem σ}
    {drel : Text} {world : σ} : (crossCopy source srel destination drel world).1 ≠ .perm := by
  unfold crossCopy dropCopy
  repeat' split
  all_goals simp

/-- Past the check a rename never ends in the permission code. -/
theorem transfer_rename_ne_perm (hbackends : ∀ backend, NeverPerm (dispatcher.object backend))
    {oldPath newPath : Text} {world : σ} :
    (dispatcher.transfer FileSystem.rename oldPath newPath world).1 ≠ .perm := by
  unfold VfsDispatcher.transfer
  split
  · split
    · exact (hbackends _).rename _ _ _
    · split
      · exact (hbackends _).deleteFile _ _
      · rename_i hcopy
        exact fun hperm => crossCopy_ne_perm (congrArg Prod.fst hcopy |>.trans hperm)
  · nofun

include huid hpriv

/-- A rename that is refused lacks the write bit on its destination. -/
theorem asksNoMore_rename (hbackends : ∀ backend, NeverPerm (dispatcher.object backend))
    (oldPath newPath : Text) :
    AsksNoMore dispatcher caller (.rename oldPath newPath) world := by
  intro hperm
  refine ⟨newPath, vfsAccessW, mem_singleton.mpr rfl, ?_⟩
  by_contra hheld
  rw [Operation.run, VfsDispatcher.rename, checkAccess_eq_true huid hpriv hheld] at hperm
  exact transfer_rename_ne_perm hbackends hperm

/-- The removal of a directory that is refused lacks the write bit on the directory. -/
theorem asksNoMore_deleteDirectory
    (hbackends : ∀ backend, NeverPerm (dispatcher.object backend)) (path : Text) :
    AsksNoMore dispatcher caller (.deleteDirectory path) world := by
  intro hperm
  refine ⟨path, vfsAccessW, mem_singleton.mpr rfl, ?_⟩
  by_contra hheld
  rw [Operation.run, VfsDispatcher.deleteDirectory, checkAccess_eq_true huid hpriv hheld,
    VfsDispatcher.guardedCall, if_pos rfl, VfsDispatcher.routeCall, VfsDispatcher.routePath] at hperm
  split at hperm
  · cases hperm
  · exact (hbackends _).deleteDirectory _ _ hperm

end

/-- For every session other than root outside the privileged scope, every mount
table, every world and every call: a missing bit on a path that the call names makes it
return the permission code and change nothing.  A rename and the removal of a directory
are refused for nothing else, whatever the bits of what they take away. -/
theorem access_guarded (dispatcher : VfsDispatcher σ) (caller : Caller) (operation : Operation)
    (world : σ) (huid : caller.uid ≠ 0) (hpriv : dispatcher.privDepth = 0)
    (hbackends : ∀ backend, NeverPerm (dispatcher.object backend)) :
    Guarded dispatcher caller operation world ∧
      (operation.TakesUnchecked → AsksNoMore dispatcher caller operation world) := by
  -- A refused check ends each call on one path in the same way.
  have hcall {α : Type} {granted : Bool} {call : σ → Except PdiErr α × σ}
      (hrefused : granted = false) :
      called (VfsDispatcher.guardedCall granted call world) = (.perm, world) := by
    subst hrefused
    rfl
  have hquery {α : Type} {granted : Bool} {answer : Except PdiErr α}
      (hrefused : granted = false) :
      queried (VfsDispatcher.guardedQuery granted answer) world = (.perm, world) := by
    subst hrefused
    rfl
  have hmove {granted : Bool} {moved : PdiErr × σ} (hrefused : granted = false) :
      (if granted then moved else (.perm, world)) = (.perm, world) := by
    subst hrefused
    rfl
  cases operation with
  | readFile path size offset readUntilMatch | readLineInFile path linenumber pattern
  | findInFile path findStr maxindices everynthindice offset
  | getLineNumbersInFile path maxlinenumbers linenumberoffset
  | getOffsetFromLineNumber path linenumber | getLineNumberFromOffset path offset
  | getDirFileList path pattern =>
    exact ⟨guarded_of_check huid hpriv rfl hquery, nofun⟩
  | deleteFile path | writeFile path content append | editFile path offset content | touch path =>
    exact ⟨guarded_of_check huid hpriv rfl hcall, nofun⟩
  | deleteDirectory path =>
    exact ⟨guarded_of_check huid hpriv rfl hcall,
      fun _ => asksNoMore_deleteDirectory huid hpriv hbackends path⟩
  | openFile path flags => exact ⟨guarded_openFile huid hpriv, nofun⟩
  | copyFile sourcePath destPath => exact ⟨guarded_copyFile huid hpriv, nofun⟩
  | moveFile oldPath newPath => exact ⟨guarded_of_check huid hpriv rfl hmove, nofun⟩
  | rename oldPath newPath =>
    exact ⟨guarded_of_check huid hpriv rfl hmove,
      fun _ => asksNoMore_rename huid hpriv hbackends oldPath newPath⟩

/-! ## Two memory file systems

The root and `/tmp` on an instance each, and a session of user 1000.  In `/tmp`
lies a file of root that nobody else may read or write, and another one in a directory
that the session owns. -/

theorem TmpFs.neverPerm (get : σ → TmpFs.TmpfsNodes) (put : TmpFs.TmpfsNodes → σ → σ)
    (caller : Caller) (now : UInt32) : NeverPerm (TmpFs.fileSystem get put caller now) where
  rename oldPath newPath world := by
    simp only [TmpFs.fileSystem, TmpFs.onNodes, TmpFs.rename]
    repeat' split
    all_goals simp [statusOf]
  deleteFile path world := by
    simp only [TmpFs.fileSystem, TmpFs.onNodes, TmpFs.deleteFile]
    split <;> simp [statusOf]
  deleteDirectory path world := by
    simp only [TmpFs.fileSystem, TmpFs.onNodes, TmpFs.deleteDirectory]
    repeat' split
    all_goals simp [statusOf]

def sampleCaller : Caller := { uid := 1000, gid := 1000, umask := fileUmaskDefault }

/-- The two instances, the root's first. -/
abbrev SampleWorld := TmpFs.TmpfsNodes × TmpFs.TmpfsNodes

def sampleDispatcher : VfsDispatcher SampleWorld where
  mounts := [{ prefixPath := text "/", backend := 0 }, { prefixPath := text "/tmp", backend := 1 }]
  privDepth := 0
  object
    | 0 => TmpFs.fileSystem Prod.fst (fun nodes world => (nodes, world.2)) sampleCaller 7
    | _ => TmpFs.fileSystem Prod.snd (fun nodes world => (world.1, nodes)) sampleCaller 7

def sampleNode (path data : Text) (perms owner : UInt16) : TmpFs.TmpfsNode :=
  { path := path, data := data, type := .reg, perms := perms, uid := owner, gid := owner
    ctime := 1, mtime := 1 }

def sampleWorld : SampleWorld :=
  ([], [sampleNode (text "secret") (text "key") 0o600 0,
    { sampleNode (text "d") [] 0o755 1000 with type := .dir },
    sampleNode (text "d/secret") (text "code") 0o600 0])

theorem sampleDispatcher_neverPerm (backend : ℕ) : NeverPerm (sampleDispatcher.object backend) := by
  cases backend with
  | zero | succ backend => exact TmpFs.neverPerm ..

theorem sample_lacks {need : UInt8} (hneed : need ≠ 0) :
    Lacks sampleDispatcher sampleCaller (text "/tmp/secret") need sampleWorld ∧
      Lacks sampleDispatcher sampleCaller (text "/tmp/d/secret") need sampleWorld := by
  refine ⟨⟨TmpFs.infoOf (sampleNode (text "secret") (text "key") 0o600 0), by decide +kernel, ?_⟩,
    TmpFs.infoOf (sampleNode (text "d/secret") (text "code") 0o600 0), by decide +kernel, ?_⟩
  all_goals
    rw [show selectBits sampleCaller _ = 0 by decide, UInt8.zero_and]
    exact hneed.symm

/-- A rename onto a file of root. -/
theorem rename_onto_secret :
    Operation.run sampleDispatcher sampleCaller
        (.rename (text "/tmp/secret") (text "/tmp/d/secret")) sampleWorld =
      (.perm, sampleWorld) :=
  (access_guarded sampleDispatcher sampleCaller _ sampleWorld (by decide) rfl
    sampleDispatcher_neverPerm).1 (text "/tmp/d/secret") vfsAccessW (mem_singleton.mpr rfl)
    (by decide) (sample_lacks (by decide)).2

/-- The session holds neither bit on the files of root.  It renames or moves one of them
out of `/tmp` all the same, the copy is its own to read, and it removes the other one with
the directory around it. -/
theorem rename_takes_secret :
    (∀ need, need ≠ 0 →
      Lacks sampleDispatcher sampleCaller (text "/tmp/secret") need sampleWorld ∧
        Lacks sampleDispatcher sampleCaller (text "/tmp/d/secret") need sampleWorld) ∧
      Removes sampleDispatcher sampleCaller (.rename (text "/tmp/secret") (text "/mine"))
        (text "/tmp/secret") sampleWorld ∧
      sampleDispatcher.readFile sampleCaller (text "/mine") 0 0 []
          (sampleDispatcher.rename sampleCaller (text "/tmp/secret") (text "/mine")
            sampleWorld).2 =
        .ok { chunks := [text "key"], status := .ok, matched := false } ∧
      Removes sampleDispatcher sampleCaller (.moveFile (text "/tmp/secret") (text "/mine"))
        (text "/tmp/secret") sampleWorld ∧
      Removes sampleDispatcher sampleCaller (.deleteDirectory (text "/tmp/d"))
        (text "/tmp/d/secret") sampleWorld :=
  ⟨fun _ => sample_lacks, ⟨by decide +kernel, by decide +kernel⟩, by decide +kernel,
    ⟨by decide +kernel, by decide +kernel⟩, by decide +kernel, by decide +kernel⟩

end PdiStack.Access
