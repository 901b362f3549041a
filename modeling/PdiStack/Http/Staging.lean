import PdiStack.Http.Multipart

/-!
# Which files a request touches

`parseRequest` stages uploads before any handler or session check runs, under a
path that it joins from the temporary directory and the file name of the request.
`staged_children_iff` says exactly when every file it creates, appends to or
deletes is an entry of the temporary directory: when every file name it gets to,
cut to the length limit and taken as a C string, is the name of an entry.  The
parser does not look whether it is.
-/

namespace PdiStack.Staging

open StringOperations IOInterface FileSystemInterface HttpRequest Multipart List Option

def IsEntryName (name : Text) : Prop :=
  name ≠ [] ∧ pathSeparator ∉ name ∧ name ≠ text "." ∧ name ≠ text ".."

instance (name : Text) : Decidable (IsEntryName name) :=
  inferInstanceAs (Decidable (name ≠ [] ∧ pathSeparator ∉ name ∧ name ≠ text "." ∧ name ≠ text ".."))

def DirectChild (directory path : Text) : Prop :=
  ∃ name, path = directory ++ name ∧ IsEntryName name

def fileOf : StorageAction → Option Text
  | .ensureDirectory _ => none
  | .clearFile path => some path
  | .appendFile path _ => some path
  | .deleteFile path => some path

def touchedBy {σ : Type} (fs : FileSystem σ) (world : σ) : StorageAction → Option Text
  | .ensureDirectory _ => none
  | .clearFile path => if fs.isFileExist path world then some path else none
  | .appendFile path _ => some path
  | .deleteFile path => some path

def touchedFiles {σ : Type} (fs : FileSystem σ) : List StorageAction → σ → List Text
  | [], _ => []
  | action :: rest, world =>
    (touchedBy fs world action).toList ++ touchedFiles fs rest (action.perform fs world)

variable {actions : List StorageAction} {path : Text} {allowed : Text → Prop} {σ : Type}
  (boundary : Text)

theorem fileOf_of_touchedBy {fs : FileSystem σ} {world : σ} {action : StorageAction}
    (htouched : path ∈ touchedBy fs world action) : path ∈ fileOf action := by
  cases action with
  | clearFile other =>
    rw [touchedBy] at htouched
    split at htouched
    · exact htouched
    · cases htouched
  | _ => exact htouched

theorem fileOf_of_mem_touchedFiles {fs : FileSystem σ} {world : σ}
    (htouched : path ∈ touchedFiles fs actions world) :
    path ∈ actions.filterMap fileOf := by
  induction actions generalizing world with
  | nil => cases htouched
  | cons action rest ih =>
    rw [touchedFiles, mem_append, mem_toList] at htouched
    rw [mem_filterMap]
    rcases htouched with hhere | hlater
    · exact ⟨action, mem_cons_self, fileOf_of_touchedBy hhere⟩
    · obtain ⟨other, hother, hfile⟩ := mem_filterMap.mp (ih hlater)
      exact ⟨other, mem_cons_of_mem _ hother, hfile⟩

theorem touchedFiles_of_exist {fs : FileSystem σ}
    (hexist : ∀ path world, fs.isFileExist path world = true) (actions : List StorageAction)
    (world : σ) : touchedFiles fs actions world = actions.filterMap fileOf := by
  induction actions generalizing world with
  | nil => rfl
  | cons action rest ih =>
    rw [touchedFiles, ih]
    cases action with
    | clearFile path => simp [touchedBy, fileOf, hexist]
    | _ => simp [touchedBy, fileOf, filterMap_cons]

/-- What holds of the files of a list of actions holds of the files they touch in
every storage, and conversely. -/
theorem forall_touchedFiles_iff :
    (∀ (σ : Type) (fs : FileSystem σ) (world : σ),
      ∀ path ∈ touchedFiles fs actions world, allowed path) ↔
      ∀ path ∈ actions.filterMap fileOf, allowed path := by
  constructor
  · intro hall path hpath
    refine hall Unit { (default : FileSystem Unit) with isFileExist := fun _ _ => true } () path ?_
    rw [touchedFiles_of_exist fun _ _ => rfl]
    exact hpath
  · intro hall σ fs world path hpath
    exact hall path (fileOf_of_mem_touchedFiles hpath)

def AllAbout (path : Text) (actions : List StorageAction) : Prop :=
  ∀ action ∈ actions, fileOf action = some path

theorem allAbout_append {left right : List StorageAction} :
    AllAbout path (left ++ right) ↔ AllAbout path left ∧ AllAbout path right :=
  forall_mem_append

theorem allAbout_writesOf {path held lastRead : Text} :
    AllAbout path (writesOf path held lastRead) := by
  refine allAbout_append.mpr ⟨?_, ?_⟩
  · split
    · exact forall_mem_singleton.mpr rfl
    · exact forall_mem_nil _
  · split
    · exact forall_mem_singleton.mpr rfl
    · exact forall_mem_nil _

theorem allAbout_flush {cut : Cut} {upload : Upload} (habout : AllAbout path upload.actions) :
    AllAbout path (upload.flush path cut).actions := by
  unfold Upload.flush
  split
  · exact allAbout_append.mpr ⟨habout, allAbout_writesOf⟩
  · exact habout

/-- A pass of the upload loop adds actions on the staged file only. -/
theorem allAbout_uploadPass {boundary : Text} {upload : Upload}
    (habout : AllAbout path upload.actions) :
    (∀ next, uploadPass boundary path upload = .again next → AllAbout path next.actions) ∧
      ∀ received, uploadPass boundary path upload = .done received →
        AllAbout path received.actions := by
  dsimp only [uploadPass, takeBlock]
  split
  · refine ⟨nofun, fun received hdone => ?_⟩
    cases hdone
    exact habout
  split
  · refine ⟨nofun, fun received hdone => ?_⟩
    cases hdone
    exact allAbout_flush habout
  · refine ⟨fun next hagain => ?_, nofun⟩
    cases hagain
    exact allAbout_flush habout

theorem allAbout_receiveContent (path : Text) (client : Client) :
    AllAbout path (receiveContent boundary path client).actions := by
  refine Loop.run_induction (uploadPass_variant boundary path)
    (motive := fun upload received =>
      AllAbout path upload.actions → AllAbout path received.actions) ?_ ?_ _ (forall_mem_nil _)
  · intro upload next received hpass hrest habout
    exact hrest ((allAbout_uploadPass habout).1 next hpass)
  · intro upload received hpass habout
    exact (allAbout_uploadPass habout).2 received hpass

theorem forall_filterMap_of_allAbout (habout : AllAbout path actions) (hnonempty : actions ≠ []) :
    (∀ file ∈ actions.filterMap fileOf, allowed file) ↔ allowed path := by
  constructor
  · intro hall
    obtain ⟨action, haction⟩ := exists_mem_of_ne_nil actions hnonempty
    exact hall path (mem_filterMap.mpr ⟨action, haction, habout action haction⟩)
  · intro hpath file hfile
    obtain ⟨action, haction, hfileOf⟩ := mem_filterMap.mp hfile
    rw [habout action haction, some.injEq] at hfileOf
    exact hfileOf ▸ hpath

/-- An upload is about its staged file, whatever becomes of it. -/
theorem forall_afterUpload_iff (name path : Text) (parts : Parts) :
    (∀ file ∈ (parts.afterUpload name path
        (receiveContent boundary path parts.client)).actions.filterMap fileOf, allowed file) ↔
      (∀ file ∈ parts.actions.filterMap fileOf, allowed file) ∧ allowed path := by
  generalize hreceived : receiveContent boundary path parts.client = received
  have habout : AllAbout path
      (.clearFile path :: received.actions ++ if received.aborted then [.deleteFile path] else []) := by
    refine allAbout_append.mpr ⟨forall_mem_cons.mpr ⟨rfl, ?_⟩, ?_⟩
    · exact hreceived ▸ allAbout_receiveContent boundary path parts.client
    · split
      · exact forall_mem_singleton.mpr rfl
      · exact forall_mem_nil _
  have hactions : (parts.afterUpload name path received).actions =
      parts.actions ++ .ensureDirectory getTempDirectory ::
        (.clearFile path :: received.actions ++
          if received.aborted then [.deleteFile path] else []) := by
    simp [Parts.afterUpload]
  rw [hactions, filterMap_append, forall_mem_append,
    filterMap_cons_none (by rfl), forall_filterMap_of_allAbout habout (cons_ne_nil _ _)]

def uploadName (boundary : Text) (parts : Parts) : Option Text :=
  let line := readLine 0 parts.client
  let lined := parts.withLine line
  if line.1 = [] ∧ line.2.stalled then none
  else if lined.foundEnd ∨ lined.part = endBoundary boundary then none
  else if contains lined.part boundary then none
  else if contains lined.part (text "Content-Disposition") ∧ argFilename lined.part ≠ [] then
    some (argFilename lined.part)
  else none

theorem receiveFile_state (name filename : Text) (parts : Parts) :
    (receiveFile boundary name filename parts).state =
      parts.afterUpload name (tempFilePath filename)
        (receiveContent boundary (tempFilePath filename) parts.client) := by
  dsimp only [receiveFile]
  split <;> rfl

/-- However a pass ends, the files it adds are those of its upload. -/
theorem forall_partPass_iff (allowed : Text → Prop) (boundary : Text) (parts : Parts) :
    (∀ file ∈ (partPass boundary parts).state.actions.filterMap fileOf, allowed file) ↔
      (∀ file ∈ parts.actions.filterMap fileOf, allowed file) ∧
        ∀ name ∈ uploadName boundary parts, allowed (tempFilePath name) := by
  have hkept : (∀ file ∈ parts.actions.filterMap fileOf, allowed file) ↔
      (∀ file ∈ parts.actions.filterMap fileOf, allowed file) ∧
        ∀ name ∈ (none : Option Text), allowed (tempFilePath name) := by
    rw [and_iff_left nofun]
  dsimp only [partPass, takePart, uploadName]
  split
  · exact hkept
  split
  · exact hkept
  split
  · exact hkept
  split
  case isFalse hother =>
    rw [if_neg fun hupload => hother hupload.1]
    exact hkept
  case isTrue hdisposition =>
    split
    case isTrue hfield =>
      rw [if_neg fun hupload => hupload.2 hfield]
      exact hkept
    case isFalse hfile =>
      rw [if_pos ⟨hdisposition, hfile⟩, receiveFile_state, forall_afterUpload_iff]
      refine and_congr_right fun _ => ⟨fun hallowed name hname => ?_, fun hall => hall _ rfl⟩
      exact some.inj hname ▸ hallowed

/-- The files of a run of the loop over the parts are those of the uploads it gets
to. -/
theorem forall_readParts_iff (parts : Parts) :
    (∀ file ∈ (readParts boundary parts).actions.filterMap fileOf, allowed file) ↔
      (∀ file ∈ parts.actions.filterMap fileOf, allowed file) ∧
        ∀ reached, Loop.Reaches (partPass boundary) parts reached →
          ∀ name ∈ uploadName boundary reached, allowed (tempFilePath name) := by
  refine Loop.run_induction (partPass_variant boundary)
    (motive := fun parts result =>
      (∀ file ∈ result.actions.filterMap fileOf, allowed file) ↔
        (∀ file ∈ parts.actions.filterMap fileOf, allowed file) ∧
          ∀ reached, Loop.Reaches (partPass boundary) parts reached →
            ∀ name ∈ uploadName boundary reached, allowed (tempFilePath name)) ?_ ?_ parts
  · intro parts next result hpass hrest
    have hstep := forall_partPass_iff allowed boundary parts
    rw [hpass, Loop.Pass.state] at hstep
    rw [hrest]
    simp only [Loop.reaches_again hpass, hstep, or_imp, forall_and, forall_eq, and_assoc]
  · intro parts result hpass
    have hstep := forall_partPass_iff allowed boundary parts
    rw [hpass, Loop.Pass.state] at hstep
    simp only [Loop.reaches_done hpass, forall_eq, hstep]

theorem tempFilePath_eq (filename : Text) :
    tempFilePath filename = getTempDirectory ++ cString filename := by
  rw [tempFilePath, cString, takeWhile_append_of_pos (all_eq_true.mp (by decide)), cString]

theorem directChild_tempFilePath_iff (filename : Text) :
    DirectChild getTempDirectory (tempFilePath filename) ↔ IsEntryName (cString filename) := by
  rw [tempFilePath_eq]
  constructor
  · rintro ⟨name, hpath, hname⟩
    rwa [append_cancel_left hpath]
  · intro hname
    exact ⟨cString filename, rfl, hname⟩

/-- Every file name that a request gets to stage is the name of an entry: in every
pass of the loop over its parts, the file name of the upload it starts. -/
def NamesEntries (request : HttpRequestData) (client : Client) : Prop :=
  match readHead request client with
  | .form boundaryStr request client =>
    ∀ reached, Loop.Reaches (partPass (boundaryFrom boundaryStr)) (Parts.start request client) reached →
      ∀ name ∈ uploadName (boundaryFrom boundaryStr) reached, IsEntryName (cString name)
  | _ => True

/-- The files that a request touches are entries of the temporary directory, in
every storage and every state of it, if and only if the names of its uploads are
names of entries. -/
theorem staged_children_iff (request : HttpRequestData) (client : Client) :
    (∀ (σ : Type) (fs : FileSystem σ) (world : σ),
      ∀ path ∈ touchedFiles fs (parseRequest request client).actions world,
        DirectChild getTempDirectory path) ↔ NamesEntries request client := by
  rw [forall_touchedFiles_iff, parseRequest, NamesEntries]
  cases hhead : readHead request client with
  | refused | complete => exact iff_of_true (forall_mem_nil _) trivial
  | form boundaryStr request client =>
    have hstart : ∀ path ∈ (Parts.start request client).actions.filterMap fileOf,
        DirectChild getTempDirectory path := forall_mem_nil _
    rw [forall_readParts_iff, and_iff_right hstart]
    simp [directChild_tempFilePath_iff]

def uploadRequest (filename content : String) : Text :=
  text ("POST /upload HTTP/1.1\r\nContent-Type: multipart/form-data; boundary=x\r\n\r\n--x\r\n" ++
    "Content-Disposition: form-data; name=\"f\"; filename=\"" ++ filename ++ "\"\r\n\r\n" ++
    content ++ "\r\n--x--\r\n")

/-- A server between two requests, with no header to collect. -/
def idleRequest : HttpRequestData := ⟨[], [], [], [], [], [], [], []⟩

/-- A file name that climbs out of the temporary directory: the request writes the
user table beside it. -/
theorem upload_leaves_temp :
    touchedFiles (default : FileSystem Unit)
        (parseRequest idleRequest
          (Client.ofText (uploadRequest "../etc/passwd" "root::0"))).actions () =
      [text "/temp/../etc/passwd"] ∧
    ¬ DirectChild getTempDirectory (text "/temp/../etc/passwd") := by
  refine ⟨by decide +kernel, ?_⟩
  have hpath : text "/temp/../etc/passwd" = tempFilePath (text "../etc/passwd") := by decide
  rw [hpath, directChild_tempFilePath_iff]
  decide

end PdiStack.Staging
