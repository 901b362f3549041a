import PdiStack.Http.Staging
import PdiStack.Storage.Access
import PdiStack.Web.Controllers

/-!
# What the upload route hands over

The parser stages the files of a request before anyone has looked for its session, and
enters each of them as an argument.  The upload route takes the file that the argument
`nf` names, moves it and makes the logged in user its owner.  It does not ask where the
argument comes from: a field of the query string or of the form comes first.
-/

namespace PdiStack.UploadRoute

open StringOperations IOInterface FileSystemInterface HttpRequest Multipart Staging Controllers List Bool

def stagedFiles (parsed : Parsed) : List Text := parsed.actions.filterMap fileOf

/-- No staged path is longer than what an argument holds. -/
def ShortPaths (parsed : Parsed) : Prop := ∀ path ∈ stagedFiles parsed, path.length < 2 ^ 16

theorem zero_notMem_cString {string : Text} : 0 ∉ cString string := by
  intro hzero
  exact absurd (mem_takeWhile_imp hzero) (by decide)

/-- Every entry of an upload holds a path that the actions are about, as far as an
argument holds it. -/
def EntriesStaged (parts : Parts) : Prop :=
  ∀ entry ∈ parts.files, ∃ path ∈ parts.actions.filterMap fileOf,
    0 ∉ path ∧ entry.value = some (keptText path)

theorem entriesStaged_afterUpload {parts : Parts} (hparts : EntriesStaged parts)
    {path : Text} (hzero : 0 ∉ path) {name : Text} {received : Received} :
    EntriesStaged (parts.afterUpload name path received) := by
  have hactions : ∀ file ∈ parts.actions.filterMap fileOf,
      file ∈ (parts.afterUpload name path received).actions.filterMap fileOf := by
    intro file hfile
    simp only [Parts.afterUpload, filterMap_append, mem_append]
    exact .inl (.inl (.inl hfile))
  have hkept : ∀ entry ∈ parts.files, ∃ file ∈
      (parts.afterUpload name path received).actions.filterMap fileOf,
      0 ∉ file ∧ entry.value = some (keptText file) := by
    intro entry hentry
    obtain ⟨file, hfile, hvalue⟩ := hparts entry hentry
    exact ⟨file, hactions file hfile, hvalue⟩
  have hpath : path ∈ (parts.afterUpload name path received).actions.filterMap fileOf := by
    simp [Parts.afterUpload, fileOf]
  intro entry hentry
  simp only [Parts.afterUpload] at hentry
  split at hentry
  · exact hkept entry hentry
  · rcases mem_append.mp hentry with hold | hnew
    · exact hkept entry hold
    · rw [mem_singleton.mp hnew]
      exact ⟨path, hpath, hzero, rfl⟩

theorem entriesStaged_partPass {boundary : Text} {parts : Parts} (hparts : EntriesStaged parts) :
    EntriesStaged (partPass boundary parts).state := by
  dsimp only [partPass, takePart]
  split
  · exact hparts
  split
  · exact hparts
  split
  · exact hparts
  split
  · split
    · exact hparts
    · rw [receiveFile_state]
      exact entriesStaged_afterUpload hparts (zero_notMem_cString)
  · exact hparts

theorem entriesStaged_readParts {boundary : Text} {parts : Parts} (hparts : EntriesStaged parts) :
    EntriesStaged (readParts boundary parts) := by
  exact Loop.run_invariant (fun _ => entriesStaged_partPass) (partPass_variant boundary)
    hparts

def requestOf : HeadOutcome → HttpRequestData
  | .refused request _ => request
  | .complete request _ => request
  | .form _ request _ => request

theorem files_readHead (request : HttpRequestData) (client : Client) :
    (requestOf (readHead request client)).files = request.files := by
  simp only [readHead, readBody]
  split
  · rfl
  split
  · rfl
  split
  · rfl
  split <;> split <;> rfl

/-- The entries of the uploads of a request hold paths that the parser has staged for it. -/
theorem parseRequest_entries (request : HttpRequestData) (client : Client) :
    ∀ entry ∈ (parseRequest request.clear client).request.files,
      ∃ path ∈ stagedFiles (parseRequest request.clear client),
        0 ∉ path ∧ entry.value = some (keptText path) := by
  have hfiles := files_readHead request.clear client
  rw [parseRequest]
  cases hhead : readHead request.clear client with
  | refused head rest | complete head rest =>
    rw [hhead] at hfiles
    intro entry hentry
    rw [show head.files = [] from hfiles] at hentry
    cases hentry
  | form boundaryStr head rest =>
    rw [hhead] at hfiles
    have hstart : EntriesStaged (Parts.start head rest) := by
      intro entry hentry
      rw [show (Parts.start head rest).files = [] from hfiles] at hentry
      cases hentry
    exact entriesStaged_readParts hstart

def fileArgument : Text := text "nf"

def hasField (request : HttpRequestData) : Bool :=
  (request.queries ++ request.formdata).any (·.isKeyMatch fileArgument)

section Route

variable {σ : Type} (services : Services σ) (visit : Visit)

/-- What the route moves is allowed, and it makes the user the owner of nothing else. -/
structure HandsOver (allowed : Text → Prop) (before after : Portal σ) : Prop where
  moved : ∀ path newPath, .rename path newPath ∈ after.changes.drop before.changes.length →
    allowed path
  owned : ∀ newPath uid gid,
    .setFileOwner newPath uid gid ∈ after.changes.drop before.changes.length →
      ∃ path, allowed path ∧ .rename path newPath ∈ after.changes.drop before.changes.length

/-- The route records no move but that of the file which its argument names. -/
theorem uploadRoute_changes (portal : Portal σ) (slot : Option ℕ) :
    ∃ added, (handleStorageFileUploadRoute services visit portal slot).changes =
        portal.changes ++ added ∧
      (∀ path newPath, .rename path newPath ∈ added →
        hasArg visit.request fileArgument = true ∧ path = arg visit.request fileArgument) ∧
      ∀ newPath uid gid, .setFileOwner newPath uid gid ∈ added →
        ∃ path, .rename path newPath ∈ added := by
  rw [handleStorageFileUploadRoute]
  obtain ⟨moved, hmoved, hrename, howner⟩ : ∃ moved,
      (moveFile services visit portal slot).changes = portal.changes ++ moved ∧
      (∀ path newPath, .rename path newPath ∈ moved →
        hasArg visit.request fileArgument = true ∧ path = arg visit.request fileArgument) ∧
      ∀ newPath uid gid, .setFileOwner newPath uid gid ∈ moved →
        ∃ path, .rename path newPath ∈ moved := by
    rw [moveFile]
    split
    case isFalse => exact ⟨[], (append_nil _).symm, nofun, nofun⟩
    case isTrue hmoves =>
      simp only [movesFile, and_eq_true] at hmoves
      dsimp only
      split
      · refine ⟨_, append_assoc _ _ _, fun path newPath hmem => ?_, fun newPath uid gid hmem => ?_⟩
        · rcases mem_pair.mp hmem with hsame | hother
          · exact ⟨hmoves.1.1.1, (Change.rename.inj hsame).1⟩
          · cases hother
        · rcases mem_pair.mp hmem with hother | hsame
          · cases hother
          · rw [(Change.setFileOwner.inj hsame).1]
            exact ⟨_, mem_cons_self⟩
      · refine ⟨_, rfl, fun path newPath hmem => ?_, fun newPath uid gid hmem => ?_⟩
        · exact ⟨hmoves.1.1.1, (Change.rename.inj (mem_singleton.mp hmem)).1⟩
        · cases mem_singleton.mp hmem
  rw [makeFolder]
  split
  · refine ⟨moved ++ [_], by rw [Portal.change, hmoved, append_assoc], ?_, ?_⟩
    · intro path newPath hmem
      exact hrename path newPath (by simpa using hmem)
    · intro newPath uid gid hmem
      obtain ⟨path, hpath⟩ := howner newPath uid gid (by simpa using hmem)
      exact ⟨path, mem_append_left _ hpath⟩
  · exact ⟨moved, hmoved, hrename, howner⟩

theorem keptText_eq_self {path : Text} (hzero : 0 ∉ path) (hshort : path.length < 2 ^ 16) :
    keptText path = path := by
  rw [keptText, cString_of_notMem hzero, Nat.mod_eq_of_lt hshort, take_length]

/-- A request whose argument comes from its own uploads has nothing else to hand over. -/
theorem arg_mem_stagedFiles {request : HttpRequestData} {client : Client}
    (hfield : hasField (parseRequest request.clear client).request = false)
    (hshort : ShortPaths (parseRequest request.clear client))
    (harg : hasArg (parseRequest request.clear client).request fileArgument = true) :
    arg (parseRequest request.clear client).request fileArgument ∈
      stagedFiles (parseRequest request.clear client) := by
  have hentries := parseRequest_entries request client
  generalize parseRequest request.clear client = parsed at *
  rw [hasField] at hfield
  have hfound : (parsed.request.queries ++ parsed.request.formdata).find?
      (·.isKeyMatch fileArgument) = none := by
    rw [find?_eq_none]
    rwa [any_eq_false] at hfield
  rw [hasArg, HttpRequestData.arguments, any_append, hfield, Bool.false_or, any_eq_true] at harg
  obtain ⟨entry, hentry, hkey⟩ := harg
  have hsome : (parsed.request.files.find? (·.isKeyMatch fileArgument)).isSome = true :=
    find?_isSome.mpr ⟨entry, hentry, hkey⟩
  obtain ⟨first, hfirst⟩ := Option.isSome_iff_exists.mp hsome
  obtain ⟨path, hpath, hzero, hvalue⟩ := hentries first (mem_of_find?_eq_some hfirst)
  rw [arg, HttpRequestData.arguments, find?_append, hfound, Option.none_or, hfirst,
    Option.bind_some, hvalue, keptText_eq_self hzero (hshort path hpath)]
  exact hpath

end Route

open Access in
/-- The portal over two file systems in memory, behind the dispatcher. -/
def sharedServices : Services SampleWorld :=
  { servicesOn default basename with
    fs := fun caller =>
      { (default : FileSystem SampleWorld) with
        isFileExist := sampleDispatcher.isFileExist
        isDirectory := sampleDispatcher.isDirectory
        rename := fun oldPath newPath world =>
          match sampleDispatcher.rename caller oldPath newPath world with
          | (.ok, world) => (.ok 0, world)
          | (code, world) => (.error code, world) }
    privilegedFs :=
      { (default : FileSystem SampleWorld) with
        setFileOwner := { sampleDispatcher with privDepth := 1 }.setFileOwner sampleCaller } }

/-- The user's session, and a file of root that the user may not read. -/
def userPortal : Portal Access.SampleWorld where
  sessions := [{ WebSessions.WebSession.clear with
    occupied := true, username := text "user", uid := 1000, gid := 1000 }]
  failures := WebSessions.clearLoginFailures
  world := Access.sampleWorld
  changes := []

end PdiStack.UploadRoute
