import Mathlib
import PdiStack.Http.Staging
import PdiStack.Http.UploadExact

/-!
# Uploaded files

What a file part leaves behind: the staged file, its entry among the files of the
request, and the state from which the loop goes on with the next part.
`upload_stored_iff` is exact for every boundary, content and spread of the bytes
over time, on a storage whose writes succeed.
-/

namespace PdiStack.UploadStored

open StringOperations IOInterface FileSystemInterface HttpRequest Multipart Staging UploadBlocks
  UploadStop UploadExact List Option

/-- `view` reads a storage at the paths in use, where every call takes effect: it changes
the file it names, which may be the `same` as that of another path, and no other.  An
append of nothing creates no file: the root backend returns before it opens one. -/
structure StagingStore {σ : Type} (fs : FileSystem σ) (view : σ → Text → Option Text)
    (same : Text → Text → Prop) (paths : Text → Prop) : Prop where
  exist : ∀ path world, paths path → fs.isFileExist path world = (view world path).isSome
  createDirectory : ∀ directory path world, paths path →
    view (fs.createDirectory directory world).2 path = view world path
  deleteFile : ∀ path world, paths path → view (fs.deleteFile path world).2 path = none
  append : ∀ path content world, paths path → content ≠ [] →
    view (fs.writeFile path content true world).2 path = some ((view world path).getD [] ++ content)
  appendNothing : ∀ path world, paths path →
    view (fs.writeFile path [] true world).2 path = view world path
  deleteOther : ∀ path other world, paths path → paths other → ¬ same path other →
    view (fs.deleteFile path world).2 other = view world other
  appendOther : ∀ path content other world, paths path → paths other → ¬ same path other →
    view (fs.writeFile path content true world).2 other = view world other
  alike : ∀ path other world, paths path → paths other → same path other →
    view world path = view world other

section Store

variable {σ : Type} {fs : FileSystem σ} {view : σ → Text → Option Text}
  {same : Text → Text → Prop} {paths : Text → Prop}

theorem performAll_append (left right : List StorageAction) (world : σ) :
    performAll fs (left ++ right) world = performAll fs right (performAll fs left world) :=
  foldl_append

variable {actions : List StorageAction} {path : Text}

section

variable (hstore : StagingStore fs view same paths) (hpath : paths path)
include hstore hpath

theorem view_performAll_appends {bytes : Text} (happends : Appends path bytes actions) (world : σ) :
    view (performAll fs actions world) path =
      if bytes = [] then view world path else some ((view world path).getD [] ++ bytes) := by
  induction actions generalizing bytes world with
  | nil => rw [← happends.2, flatMap_nil, if_pos rfl, performAll, foldl_nil]
  | cons action rest ih =>
    obtain ⟨hall, hbytes⟩ := happends
    obtain ⟨⟨content, rfl⟩, hrest⟩ := forall_mem_cons.mp hall
    rw [flatMap_cons, appendedBy] at hbytes
    refine (ih ⟨hrest, rfl⟩ _).trans ?_
    rw [StorageAction.perform, ← hbytes]
    by_cases hcontent : content = []
    · rw [hcontent, hstore.appendNothing path world hpath, nil_append]
    · rw [hstore.append path content world hpath hcontent, getD_some, append_assoc,
        if_neg (append_ne_nil_of_left_ne_nil hcontent _)]
      split
      case isTrue hempty => rw [hempty, append_nil]
      case isFalse => rfl

theorem view_performAll_other
    (hother : ∀ file ∈ actions.filterMap fileOf, paths file ∧ ¬ same file path) (world : σ) :
    view (performAll fs actions world) path = view world path := by
  induction actions generalizing world with
  | nil => rfl
  | cons action rest ih =>
    refine (ih ?_ _).trans ?_
    · intro file hfile
      obtain ⟨member, hmember, hfileOf⟩ := mem_filterMap.mp hfile
      exact hother file (mem_filterMap.mpr ⟨member, mem_cons_of_mem _ hmember, hfileOf⟩)
    have hhere : ∀ file, fileOf action = some file → paths file ∧ ¬ same file path :=
      fun file hfile => hother file (mem_filterMap.mpr ⟨action, mem_cons_self, hfile⟩)
    cases action with
    | ensureDirectory directory =>
      rw [StorageAction.perform]
      split
      · rfl
      · exact hstore.createDirectory directory path world hpath
    | clearFile file =>
      obtain ⟨hfile, hapart⟩ := hhere file rfl
      rw [StorageAction.perform]
      split
      · exact hstore.deleteOther file path world hfile hpath hapart
      · rfl
    | appendFile file content =>
      obtain ⟨hfile, hapart⟩ := hhere file rfl
      exact hstore.appendOther file content path world hfile hpath hapart
    | deleteFile file =>
      obtain ⟨hfile, hapart⟩ := hhere file rfl
      exact hstore.deleteOther file path world hfile hpath hapart

theorem view_clearFile (world : σ) :
    view (StorageAction.perform fs world (.clearFile path)) path = none := by
  rw [StorageAction.perform]
  split
  case isTrue => exact hstore.deleteFile path world hpath
  case isFalse habsent =>
    rw [hstore.exist path world hpath, Bool.not_eq_true, isSome_eq_false_iff, isNone_iff_eq_none]
      at habsent
    exact habsent

/-- A staged file holds what its upload has appended since it was cleared. -/
theorem view_staged {bytes : Text} {earlier : List StorageAction}
    (happends : Appends path bytes actions) (world : σ) : view (performAll fs
        (earlier ++ [.ensureDirectory getTempDirectory, .clearFile path] ++ actions) world) path =
      if bytes = [] then none else some bytes := by
  have hcleared : ∀ world, view (performAll fs
      (earlier ++ [.ensureDirectory getTempDirectory, .clearFile path]) world) path = none := by
    intro world
    rw [performAll_append]
    exact view_clearFile hstore hpath _
  rw [performAll_append, view_performAll_appends hstore hpath happends, hcleared]
  rfl

end

end Store

/-- A state of the loop over the parts behind what an earlier one has collected. -/
def collectedAfter (earlier parts : Parts) : Parts :=
  { parts with
    formdata := earlier.formdata ++ parts.formdata
    files := earlier.files ++ parts.files
    actions := earlier.actions ++ parts.actions }

variable {other : Parts} (earlier : Parts)

theorem receiveField_collectedAfter (name : Text) (parts : Parts) :
    receiveField name (collectedAfter earlier parts) =
      collectedAfter earlier (receiveField name parts) := by
  simp [receiveField, collectedAfter]

theorem afterUpload_collectedAfter (name path : Text) (received : Received) (parts : Parts) :
    (collectedAfter earlier parts).afterUpload name path received =
      collectedAfter earlier (parts.afterUpload name path received) := by
  dsimp only [Parts.afterUpload, collectedAfter]
  split <;> simp

variable (boundary : Text)

theorem receiveFile_collectedAfter (name filename : Text) (earlier parts : Parts) :
    receiveFile boundary name filename (collectedAfter earlier parts) =
      (receiveFile boundary name filename parts).map (collectedAfter earlier) := by
  dsimp only [receiveFile]
  rw [afterUpload_collectedAfter]
  simp only [apply_ite (Loop.Pass.map (collectedAfter earlier))]
  rfl

/-- What has been collected before does not change how a line is taken. -/
theorem takePart_collectedAfter (earlier parts : Parts) :
    takePart boundary (collectedAfter earlier parts) =
      (takePart boundary parts).map (collectedAfter earlier) := by
  have hopened : ({ collectedAfter earlier parts with
      client := skipHeaders (collectedAfter earlier parts).client } : Parts) =
      collectedAfter earlier { parts with client := skipHeaders parts.client } := rfl
  dsimp only [takePart]
  rw [hopened, receiveField_collectedAfter, receiveFile_collectedAfter]
  simp only [apply_ite (Loop.Pass.map (collectedAfter earlier))]
  rfl

def leftover (parts : Parts) : Text := if parts.partHasLastRead then parts.part else []

theorem withLine_eq (line : Text × Client) (parts : Parts) :
    parts.withLine line =
      { parts with client := line.2, part := leftover parts ++ line.1, partHasLastRead := false } := by
  rw [Parts.withLine, leftover]
  split <;> rfl

/-- Two states that read on alike, the first behind what `earlier` has collected. -/
structure ReadsAlike (earlier parts other : Parts) : Prop where
  client : parts.client = other.client
  foundEnd : parts.foundEnd = other.foundEnd
  leftover : leftover parts = leftover other
  formdata : parts.formdata = earlier.formdata ++ other.formdata
  files : parts.files = earlier.files ++ other.files
  actions : parts.actions = earlier.actions ++ other.actions

theorem readsAlike_collectedAfter {parts : Parts} :
    ReadsAlike earlier (collectedAfter earlier parts) parts :=
  ⟨rfl, rfl, rfl, rfl, rfl, rfl⟩

section

variable {earlier parts : Parts} (halike : ReadsAlike earlier parts other)

include halike

theorem withLine_of_readsAlike (line : Text × Client) :
    parts.withLine line = collectedAfter earlier (other.withLine line) := by
  rw [withLine_eq, withLine_eq, halike.leftover, halike.foundEnd, halike.formdata, halike.files,
    halike.actions]
  rfl

theorem partPass_of_readsAlike {boundary : Text} :
    (∀ next, partPass boundary other = .again next →
      ∃ same, partPass boundary parts = .again same ∧ ReadsAlike earlier same next) ∧
    ∀ result, partPass boundary other = .done result →
      ∃ same, partPass boundary parts = .done same ∧ ReadsAlike earlier same result := by
  dsimp only [partPass]
  rw [halike.client, withLine_of_readsAlike halike, takePart_collectedAfter]
  split
  case isTrue =>
    refine ⟨nofun, fun result hdone => ?_⟩
    cases hdone
    exact ⟨_, rfl, rfl, halike.foundEnd, halike.leftover, halike.formdata, halike.files,
      halike.actions⟩
  case isFalse =>
    cases takePart boundary (other.withLine (readLine 0 other.client)) with
    | again next =>
      refine ⟨fun same hsame => ?_, nofun⟩
      cases hsame
      exact ⟨_, rfl, readsAlike_collectedAfter earlier⟩
    | done result =>
      refine ⟨nofun, fun same hsame => ?_⟩
      cases hsame
      exact ⟨_, rfl, readsAlike_collectedAfter earlier⟩

theorem readsAlike_readParts :
    ReadsAlike earlier (readParts boundary parts) (readParts boundary other) := by
  refine Loop.run_induction (partPass_variant boundary)
    (motive := fun other result => ∀ parts, ReadsAlike earlier parts other →
      ReadsAlike earlier (readParts boundary parts) result) ?_ ?_ other parts halike
  · intro other next result hpass hrest parts halike
    obtain ⟨same, hsame, hnext⟩ := (partPass_of_readsAlike halike).1 next hpass
    rw [readParts, Loop.run_again _ hsame]
    exact hrest same hnext
  · intro other result hpass parts halike
    obtain ⟨same, hsame, hresult⟩ := (partPass_of_readsAlike halike).2 result hpass
    rw [readParts, Loop.run_done _ hsame]
    exact hresult

end

/-- Once the end boundary has been met, the next pass collects nothing and ends the
loop. -/
theorem readParts_of_foundEnd {parts : Parts} (hend : parts.foundEnd = true) :
    (readParts boundary parts).formdata = parts.formdata ∧
      (readParts boundary parts).files = parts.files ∧
      (readParts boundary parts).actions = parts.actions := by
  have hdone : ∃ result, partPass boundary parts = .done result ∧
      result.formdata = parts.formdata ∧ result.files = parts.files ∧
        result.actions = parts.actions := by
    dsimp only [partPass]
    split
    · exact ⟨_, rfl, rfl, rfl, rfl⟩
    · rw [takePart, if_pos (.inl hend)]
      exact ⟨_, rfl, rfl, rfl, rfl⟩
  obtain ⟨result, hpass, hsame⟩ := hdone
  rw [readParts, Loop.run_done _ hpass]
  exact hsame

/-- The loop behind a boundary line that stands in the place of a file part. -/
def behindBoundary (next : Parts) : Parts :=
  { client := next.client
    part := boundary
    partHasLastRead := false
    foundEnd := next.foundEnd
    formdata := []
    files := []
    actions := [] }

/-- From `next` on the loop collects what it collects behind a plain boundary
line. -/
structure CollectsBehind (boundary : Text) (next : Parts) : Prop where
  formdata : (readParts boundary next).formdata =
    next.formdata ++ (readParts boundary (behindBoundary boundary next)).formdata
  files : (readParts boundary next).files =
    next.files ++ (readParts boundary (behindBoundary boundary next)).files
  actions : (readParts boundary next).actions =
    next.actions ++ (readParts boundary (behindBoundary boundary next)).actions

/-- The file is staged as the client has sent it and listed under the name of its
part, its delimiter has been read, and the loop collects from here what it collects
behind a plain boundary line. -/
structure StoredExactly {σ : Type} (fs : FileSystem σ) (view : σ → Text → Option Text) (world : σ)
    (boundary content name filename : Text) (parts next : Parts) : Prop where
  listed : next.files = parts.files ++ [HttpParam.fill name (tempFilePath filename)]
  staged : view (performAll fs next.actions world) (tempFilePath filename) = some content
  behind : ∃ taken, parts.client.bytes = content ++ crlf ++ boundary ++ taken ++ next.client.bytes
  later : CollectsBehind boundary next

section FilePart

variable {σ : Type} {fs : FileSystem σ} {view : σ → Text → Option Text}
  {same : Text → Text → Prop} {paths : Text → Prop} {boundary content tail : Text} {client : Client} {pass : ℕ}

variable {received : Received} {path : Text}

theorem exists_meetsAt (hgoing : (receiveContent boundary path client).aborted = false) :
    ∃ pass, MeetsAt boundary client pass := by
  classical
  have hmet : ∃ pass, boundary <:+: windowAt client pass := by
    by_contra hnever
    rw [receiveContent_aborted fun pass hinfix => hnever ⟨pass, hinfix⟩] at hgoing
    cases hgoing
  exact ⟨Nat.find hmet, Nat.find_spec hmet, fun earlier hearlier => Nat.find_min hmet hearlier⟩

/-- What an upload that meets its boundary leaves in the staged file. -/
theorem view_afterUpload (hstore : StagingStore fs view same paths) (hpath : paths path)
    {world : σ} {name : Text} {parts : Parts} (hstops : StopsAt boundary path client pass received) :
    view (performAll fs (parts.afterUpload name path received).actions world) path =
      if storedBytes boundary client pass = [] then none
      else some (storedBytes boundary client pass) := by
  have hactions : (parts.afterUpload name path received).actions =
      parts.actions ++ [.ensureDirectory getTempDirectory, .clearFile path] ++
        received.actions := by
    rw [Parts.afterUpload, hstops.going]
    exact append_nil _
  rw [hactions, view_staged hstore hpath hstops.stores]

/-- What the upload has taken starts with the content and its delimiter. -/
theorem prefix_takenBefore (hbytes : client.bytes = content ++ crlf ++ boundary ++ tail)
    (hboundary : boundary ≠ []) (hmet : boundary <:+: windowAt client pass)
    (hplace : readTo client (pass - 1) +
      stopPlace boundary (windowAt client pass) (pass % 2) = content.length + 2) :
    content ++ crlf ++ boundary <+: takenBefore client (pass + 1) := by
  have hfits := stopPlace_add_length_le hboundary hmet
  refine prefix_of_prefix_length_le ?_ (takenBefore_isPrefix_bytes client (pass + 1)) ?_
  · rw [hbytes]
    exact prefix_append _ _
  · rw [length_append, length_append, length_takenBefore, readTo_succ]
    show content.length + 2 + boundary.length ≤ _
    omega

/-- The loop goes on as behind a plain boundary line. -/
theorem readsAlike_afterUpload (boundary name path : Text) (parts : Parts)
    (hleft : received.foundBoundary = true ∧ received.part = []) :
    ReadsAlike (parts.afterUpload name path received) (parts.afterUpload name path received)
      (behindBoundary boundary (parts.afterUpload name path received)) where
  client := rfl
  foundEnd := rfl
  leftover := by
    exact (if_pos hleft.1).trans hleft.2
  formdata := (append_nil _).symm
  files := (append_nil _).symm
  actions := (append_nil _).symm

theorem collectsBehind_of_foundEnd {next : Parts} (hend : next.foundEnd = true) :
    CollectsBehind boundary next := by
  obtain ⟨hformdata, hfiles, hactions⟩ := readParts_of_foundEnd boundary hend
  have hbehind : (behindBoundary boundary next).foundEnd = true := hend
  obtain ⟨hformdata', hfiles', hactions'⟩ := readParts_of_foundEnd boundary hbehind
  refine ⟨?_, ?_, ?_⟩
  · rw [hformdata, hformdata']
    exact (append_nil _).symm
  · rw [hfiles, hfiles']
    exact (append_nil _).symm
  · rw [hactions, hactions']
    exact (append_nil _).symm

theorem collectsBehind_afterUpload {name : Text} {parts : Parts}
    (hbytes : parts.client.bytes = content ++ crlf ++ boundary ++ tail)
    (htail : crlf <+: tail ∨ text "--" <+: tail) (hboundary : boundary ≠ [])
    (hmeets : MeetsAt boundary parts.client pass)
    (hstops : StopsAt boundary path parts.client pass received)
    (hplace : readTo parts.client (pass - 1) +
      stopPlace boundary (windowAt parts.client pass) (pass % 2) = content.length + 2) :
    CollectsBehind boundary (parts.afterUpload name path received) := by
  by_cases hended : endBoundary boundary <:+: windowAt parts.client pass
  · exact collectsBehind_of_foundEnd (hstops.ended.mpr hended)
  · obtain ⟨hfound, hpart⟩ := hstops.resumes hended
    have hnew := lt_add_length_of_meetsAt hboundary hmeets (prefix_stopPlace (pass % 2) hmeets.1)
    have hshort := (length_windowAt_le_or hbytes htail hplace hnew).resolve_right fun hend =>
      hended (Occurrence.infix_of_prefix_drop hend)
    rw [drop_eq_nil_of_le hshort] at hpart
    have halike := readsAlike_readParts boundary
      (readsAlike_afterUpload boundary name path parts ⟨hfound, hpart⟩)
    exact ⟨halike.formdata, halike.files, halike.actions⟩

end FilePart

/-- A file part is taken exactly as it was sent if and only if it is not empty and the
reads end where the loop then finds its delimiter and drops the line end of it. -/
theorem upload_stored_iff {σ : Type} {fs : FileSystem σ} {view : σ → Text → Option Text}
    {same : Text → Text → Prop} {paths : Text → Prop} (hstore : StagingStore fs view same paths)
    (world : σ) {boundaryStr content tail : Text} (name : Text) {filename : Text}
    (hpath : paths (tempFilePath filename)) {parts : Parts} (hfree : LineEndFree boundaryStr)
    (hsteady : parts.client.Steady)
    (hbytes : parts.client.bytes = content ++ crlf ++ boundaryFrom boundaryStr ++ tail)
    (htail : crlf <+: tail ∨ text "--" <+: tail) :
    (∃ next, receiveFile (boundaryFrom boundaryStr) name filename parts = .again next ∧
      StoredExactly fs view world (boundaryFrom boundaryStr) content name filename parts next) ↔
      content ≠ [] ∧
        ∃ pass, ReadsDelimiter (boundaryFrom boundaryStr) content parts.client pass := by
  have hboundary : boundaryFrom boundaryStr ≠ [] := cons_ne_nil _ _
  have hdash : (boundaryFrom boundaryStr)[0]? = some dash := rfl
  have hline := lineEndFree_boundaryFrom hfree
  have hstopsAt : ∀ pass, MeetsAt (boundaryFrom boundaryStr) parts.client pass →
      StopsAt (boundaryFrom boundaryStr) (tempFilePath filename) parts.client pass
        (receiveContent (boundaryFrom boundaryStr) (tempFilePath filename) parts.client) :=
    fun pass => receiveContent_of_meetsAt (tempFilePath filename) hsteady hboundary
  constructor
  · rintro ⟨next, hnext, hstored⟩
    obtain ⟨hgoing, rfl⟩ := receiveFile_again hnext
    obtain ⟨pass, hmeets⟩ := exists_meetsAt hgoing
    have hview := hstored.staged
    rw [view_afterUpload hstore hpath (hstopsAt pass hmeets)] at hview
    split at hview
    case isTrue => cases hview
    case isFalse hnonempty =>
      have hsame := some.inj hview
      refine ⟨hsame ▸ hnonempty, pass, ?_⟩
      refine readsDelimiter_of_dropsLineEnd hbytes hdash hline hboundary hmeets ?_
      refine dropsLineEnd_of_storedBytes hbytes htail hdash hline hmeets ?_ hsame
      obtain ⟨taken, htaken⟩ := hstored.behind
      have hlength := congrArg List.length
        (htaken.symm.trans (bytes_eq_takenBefore_append parts.client (pass + 1)))
      rw [Parts.afterUpload, (hstopsAt pass hmeets).reader] at hlength
      simp only [length_append, length_takenBefore] at hlength
      have htwo : crlf.length = 2 := rfl
      omega
  · rintro ⟨hnonempty, pass, hreads⟩
    have hmeets := meetsAt_of_readsDelimiter hboundary hreads
    have hdrops := dropsLineEnd_of_readsDelimiter hbytes htail hboundary hreads
    have hstops := hstopsAt pass hmeets
    have hsame := storedBytes_eq_of_dropsLineEnd hbytes hboundary hmeets.1 hdrops
    refine ⟨_, if_neg (Bool.eq_false_iff.mp hstops.going), ?_, ?_, ?_, ?_⟩
    · rw [Parts.afterUpload, hstops.going]
      rfl
    · rw [view_afterUpload hstore hpath hstops, hsame, if_neg hnonempty]
    · obtain ⟨taken, htaken⟩ := prefix_takenBefore hbytes hboundary hmeets.1 hdrops.1
      refine ⟨taken, ?_⟩
      rw [htaken, Parts.afterUpload, hstops.reader]
      exact bytes_eq_takenBefore_append parts.client (pass + 1)
    · exact collectsBehind_afterUpload hbytes htail hboundary hmeets hstops hdrops.1

end PdiStack.UploadStored
