import PdiStack.Http.UploadStored

/-!
# Uploads of a whole request

The file part of `UploadStored` inside the request it came with.  The parts behind
it touch the staged file exactly if one of them is staged in the same file.
`request_stored_iff` puts the two together for `parseRequest`.
-/

namespace PdiStack.UploadRequest

open StringOperations IOInterface FileSystemInterface HttpRequest Multipart Staging UploadBlocks
  UploadExact UploadStored List Option

variable {parts : Parts} {boundary : Text}

theorem allAbout_afterUpload {name path : Text} {received : Received}
    (habout : AllAbout path received.actions) :
    ∃ added, (parts.afterUpload name path received).actions = parts.actions ++ added ∧
      (∀ file ∈ added.filterMap fileOf, file = path) ∧ .clearFile path ∈ added := by
  refine ⟨[.ensureDirectory getTempDirectory, .clearFile path] ++ received.actions ++
    if received.aborted then [.deleteFile path] else [], ?_, ?_, ?_⟩
  · simp [Parts.afterUpload, append_assoc]
  · intro file hfile
    obtain ⟨action, haction, hfileOf⟩ := mem_filterMap.mp hfile
    rcases mem_append.mp haction with hhere | hhere
    · rcases mem_append.mp hhere with hhere | hhere
      · rcases mem_pair.mp hhere with rfl | rfl
        · cases hfileOf
        · exact (some.inj hfileOf).symm
      · exact some.inj (hfileOf.symm.trans (habout action hhere))
    · split at hhere
      · cases mem_singleton.mp hhere
        exact (some.inj hfileOf).symm
      · exact absurd hhere not_mem_nil
  · exact mem_append_left _ (mem_append_left _
      (mem_cons_of_mem _ (mem_singleton.mpr rfl)))

/-- What a pass adds is about the file it stages, which it clears. -/
theorem actions_partPass {boundary : Text} {parts : Parts} :
    ∃ added, (partPass boundary parts).state.actions = parts.actions ++ added ∧
      (∀ file ∈ added.filterMap fileOf,
        ∃ name ∈ uploadName boundary parts, tempFilePath name = file) ∧
      ∀ name ∈ uploadName boundary parts, .clearFile (tempFilePath name) ∈ added := by
  have hnothing : ∃ added, parts.actions = parts.actions ++ added ∧
      (∀ file ∈ added.filterMap fileOf,
        ∃ name ∈ (none : Option Text), tempFilePath name = file) ∧
      ∀ name ∈ (none : Option Text), .clearFile (tempFilePath name) ∈ added :=
    ⟨[], (append_nil _).symm, forall_mem_nil _, nofun⟩
  dsimp only [partPass, takePart, uploadName]
  split
  · exact hnothing
  split
  · exact hnothing
  split
  · exact hnothing
  split
  case isFalse hother =>
    rw [if_neg fun hupload => hother hupload.1]
    exact hnothing
  case isTrue hdisposition =>
    split
    case isTrue hfield =>
      rw [if_neg fun hupload => hupload.2 hfield]
      exact hnothing
    case isFalse hfile =>
      rw [if_pos ⟨hdisposition, hfile⟩, receiveFile_state]
      obtain ⟨added, hactions, habout, hclears⟩ :=
        allAbout_afterUpload (allAbout_receiveContent boundary _ _)
      refine ⟨added, hactions, fun file hmem => ⟨_, rfl, (habout file hmem).symm⟩, ?_⟩
      intro name hname
      cases hname
      exact hclears

/-- What a run has added is about the files that it gets to stage, and clears each of them. -/
def Clears (boundary : Text) (parts result : Parts) : Prop :=
  ∃ added, result.actions = parts.actions ++ added ∧
    (∀ file ∈ added.filterMap fileOf,
      ∃ later, Loop.Reaches (partPass boundary) parts later ∧
        ∃ name ∈ uploadName boundary later, tempFilePath name = file) ∧
    ∀ later, Loop.Reaches (partPass boundary) parts later →
      ∀ name ∈ uploadName boundary later, .clearFile (tempFilePath name) ∈ added

theorem clears_readParts {boundary : Text} {parts : Parts} :
    Clears boundary parts (readParts boundary parts) := by
  refine Loop.run_induction (partPass_variant boundary) (motive := Clears boundary) ?_ ?_ parts
  · rintro parts next result hpass ⟨more, hmore, htouched, hcleared⟩
    obtain ⟨added, hadded, habout, hclears⟩ := actions_partPass
    rw [hpass, Loop.Pass.state] at hadded
    refine ⟨added ++ more, by rw [hmore, hadded, append_assoc], ?_, ?_⟩
    · rw [filterMap_append, forall_mem_append]
      refine ⟨fun file hfile => ⟨parts, .refl, habout file hfile⟩, fun file hfile => ?_⟩
      obtain ⟨later, hlater, hname⟩ := htouched file hfile
      exact ⟨later, (Loop.reaches_again hpass later).mpr (.inr hlater), hname⟩
    · intro later hlater name hname
      rcases (Loop.reaches_again hpass later).mp hlater with rfl | hlater
      · exact mem_append_left _ (hclears name hname)
      · exact mem_append_right _ (hcleared later hlater name hname)
  · intro parts result hpass
    obtain ⟨added, hadded, habout, hclears⟩ := actions_partPass
    rw [hpass] at hadded
    refine ⟨added, hadded, fun file hfile => ⟨parts, .refl, habout file hfile⟩, ?_⟩
    intro later hlater name hname
    rw [(Loop.reaches_done hpass later).mp hlater] at hname
    exact hclears name hname

section Kept

variable {σ : Type} {fs : FileSystem σ} {view : σ → Text → Option Text}
  {same : Text → Text → Prop} {paths : Text → Prop} (hstore : StagingStore fs view same paths)
include hstore

/-- A file that is cleared somewhere in a list of actions is gone at that point. -/
theorem view_of_clearFile {path : Text} (hpath : paths path) {actions : List StorageAction}
    (hclears : .clearFile path ∈ actions) {world : σ} :
    ∃ earlier, earlier <+: actions ∧ view (performAll fs earlier world) path = none := by
  obtain ⟨before, behind, rfl⟩ := append_of_mem hclears
  refine ⟨before ++ [.clearFile path], ⟨behind, by simp⟩, ?_⟩
  rw [performAll_append]
  exact view_clearFile hstore hpath _

/-- A file stays as it is through a list of actions exactly if none of them is about the
same file, where every action comes with clearing its file. -/
theorem view_kept_iff {path content : Text} (hpath : paths path) {actions : List StorageAction}
    {world : σ} (hview : view world path = some content)
    (hfiles : ∀ file ∈ actions.filterMap fileOf, paths file ∧ .clearFile file ∈ actions) :
    (∀ earlier, earlier <+: actions → view (performAll fs earlier world) path = some content) ↔
      ∀ file ∈ actions.filterMap fileOf, ¬ same file path := by
  constructor
  · intro hkept file hfile hsame
    obtain ⟨hused, hclears⟩ := hfiles file hfile
    obtain ⟨earlier, hearlier, hgone⟩ := view_of_clearFile hstore hused hclears
    rw [hstore.alike file path _ hused hpath hsame, hkept earlier hearlier] at hgone
    cases hgone
  · intro hapart earlier hearlier
    rw [view_performAll_other hstore hpath ?_ world, hview]
    intro file hfile
    have hmem := (hearlier.filterMap fileOf).subset hfile
    exact ⟨(hfiles file hmem).1, hapart file hmem⟩

end Kept

/-- The state in which a pass starts on the content of its upload: behind the headers
of the part. -/
def openedAt (parts : Parts) : Parts :=
  let lined := parts.withLine (readLine 0 parts.client)
  { lined with client := skipHeaders lined.client }

def uploadField (parts : Parts) : Text := argName (parts.withLine (readLine 0 parts.client)).part

theorem partPass_of_uploadName {filename : Text}
    (hname : uploadName boundary parts = some filename) :
    partPass boundary parts =
      receiveFile boundary (uploadField parts) filename (openedAt parts) := by
  dsimp only [uploadName] at hname
  split at hname
  · cases hname
  case isFalse hopen =>
    split at hname
    · cases hname
    case isFalse hgoing =>
      split at hname
      · cases hname
      case isFalse hpart =>
        split at hname
        case isFalse => cases hname
        case isTrue hupload =>
          cases hname
          dsimp only [partPass, takePart]
          rw [if_neg hopen, if_neg hgoing, if_neg hpart, if_pos hupload.1, if_neg hupload.2]
          rfl

/-- A request whose loop over the parts gets to `reached`, where the next part is a
file with the given name and content.  The content ends at a line end and the
boundary, behind which the line or the body ends. -/
structure SendsFile (request : HttpRequestData) (client : Client) (boundaryStr filename content : Text)
    (reached : Parts) : Prop where
  arrived : ∃ head rest, readHead request client = .form boundaryStr head rest ∧
    Loop.Reaches (partPass (boundaryFrom boundaryStr)) (Parts.start head rest) reached
  named : uploadName (boundaryFrom boundaryStr) reached = some filename
  sent : ∃ tail, (openedAt reached).client.bytes =
    content ++ crlf ++ boundaryFrom boundaryStr ++ tail ∧ (crlf <+: tail ∨ text "--" <+: tail)

/-- The file is listed and staged as it was sent, from the end of its part to the
end of the request, and the rest of the request is parsed as behind a plain boundary
line. -/
structure KeepsFile {σ : Type} (fs : FileSystem σ) (view : σ → Text → Option Text) (world : σ)
    (request : HttpRequestData) (client : Client) (boundary filename content : Text)
    (reached next : Parts) : Prop where
  taken : partPass boundary reached = .again next
  behind : ∃ taken, (openedAt reached).client.bytes =
    content ++ crlf ++ boundary ++ taken ++ next.client.bytes
  formdata : (parseRequest request client).request.formdata =
    (openedAt reached).formdata ++ (readParts boundary (behindBoundary boundary next)).formdata
  files : (parseRequest request client).request.files =
    (openedAt reached).files ++ [HttpParam.fill (uploadField reached) (tempFilePath filename)] ++
      (readParts boundary (behindBoundary boundary next)).files
  actions : (parseRequest request client).actions =
    next.actions ++ (readParts boundary (behindBoundary boundary next)).actions
  staged : ∀ later, later <+: (readParts boundary (behindBoundary boundary next)).actions →
    view (performAll fs (next.actions ++ later) world) (tempFilePath filename) = some content

/-- A part behind the one that is read next is staged in the same file. -/
def StagedAgain (same : Text → Text → Prop) (boundary filename : Text) (reached : Parts) : Prop :=
  ∃ next later, partPass boundary reached = .again next ∧
    Loop.Reaches (partPass boundary) next later ∧
      ∃ name ∈ uploadName boundary later, same (tempFilePath name) (tempFilePath filename)

/-- What `parseRequest` leaves is what the loop leaves from any state it gets to. -/
theorem parseRequest_of_reaches {request head : HttpRequestData} {client rest : Client}
    {boundaryStr : Text} {reached : Parts}
    (hhead : readHead request client = .form boundaryStr head rest)
    (hreached : Loop.Reaches (partPass (boundaryFrom boundaryStr)) (Parts.start head rest) reached) :
    (parseRequest request client).request.formdata =
        (readParts (boundaryFrom boundaryStr) reached).formdata ∧
      (parseRequest request client).request.files =
        (readParts (boundaryFrom boundaryStr) reached).files ∧
      (parseRequest request client).actions =
        (readParts (boundaryFrom boundaryStr) reached).actions := by
  have hrun : readParts (boundaryFrom boundaryStr) (Parts.start head rest) =
      readParts (boundaryFrom boundaryStr) reached := Loop.run_of_reaches _ hreached
  rw [parseRequest, hhead]
  dsimp only
  rw [hrun]
  exact ⟨rfl, rfl, rfl⟩

section Request

variable {σ : Type} {fs : FileSystem σ} {view : σ → Text → Option Text} {world : σ}
  {same : Text → Text → Prop} {paths : Text → Prop} {request : HttpRequestData} {client : Client} {boundaryStr filename content : Text}
  {reached next : Parts}

/-- What the request makes of the file part, put together from the part itself and
from the parts behind it. -/
theorem keepsFile_iff (hsends : SendsFile request client boundaryStr filename content reached)
    (hnext : partPass (boundaryFrom boundaryStr) reached = .again next) :
    KeepsFile fs view world request client (boundaryFrom boundaryStr) filename content reached
        next ↔
      StoredExactly fs view world (boundaryFrom boundaryStr) content (uploadField reached) filename
          (openedAt reached) next ∧
        ∀ later, later <+:
            (readParts (boundaryFrom boundaryStr)
              (behindBoundary (boundaryFrom boundaryStr) next)).actions →
          view (performAll fs (next.actions ++ later) world) (tempFilePath filename) =
            some content := by
  obtain ⟨head, rest, hhead, hreached⟩ := hsends.arrived
  obtain ⟨hformdata, hfiles, hactions⟩ := parseRequest_of_reaches hhead (hreached.tail hnext)
  have hupload := (partPass_of_uploadName hsends.named).symm.trans hnext
  obtain ⟨hgoing, hstate⟩ := receiveFile_again hupload
  have hkept : next.formdata = (openedAt reached).formdata := by
    rw [hstate]
    rfl
  have hlisted : next.files = (openedAt reached).files ++
      [HttpParam.fill (uploadField reached) (tempFilePath filename)] := by
    rw [hstate, Parts.afterUpload, hgoing]
    rfl
  constructor
  · intro hkeeps
    refine ⟨⟨hlisted, ?_, hkeeps.behind, ?_, ?_, ?_⟩, hkeeps.staged⟩
    · have hnothing := hkeeps.staged [] nil_prefix
      rwa [append_nil] at hnothing
    · rw [← hformdata, hkeeps.formdata, hkept]
    · rw [← hfiles, hkeeps.files, hlisted]
    · rw [← hactions, hkeeps.actions]
  · rintro ⟨hstored, hstaged⟩
    refine ⟨hnext, hstored.behind, ?_, ?_, ?_, hstaged⟩
    · rw [hformdata, hstored.later.formdata, hkept]
    · rw [hfiles, hstored.later.files, hlisted]
    · rw [hactions, hstored.later.actions]

/-- The staged file is left alone exactly if no later part is staged in it. -/
theorem kept_iff_not_stagedAgain (hstore : StagingStore fs view same paths)
    (hpath : paths (tempFilePath filename))
    (hnext : partPass boundary reached = .again next) (hlater : CollectsBehind boundary next)
    (hpaths : ∀ file ∈ (readParts boundary next).actions.filterMap fileOf, paths file)
    (hstaged : view (performAll fs next.actions world) (tempFilePath filename) = some content) :
    (∀ later, later <+: (readParts boundary (behindBoundary boundary next)).actions →
        view (performAll fs (next.actions ++ later) world) (tempFilePath filename) = some content) ↔
      ¬ StagedAgain same boundary filename reached := by
  obtain ⟨added, hadded, htouched, hcleared⟩ := clears_readParts
  have hbehind : (readParts boundary (behindBoundary boundary next)).actions = added :=
    append_cancel_left (hlater.actions.symm.trans hadded)
  rw [hadded, filterMap_append, forall_mem_append] at hpaths
  have hfiles : ∀ file ∈ added.filterMap fileOf, paths file ∧ .clearFile file ∈ added := by
    intro file hfile
    obtain ⟨later, hreaches, name, hname, hsame⟩ := htouched file hfile
    exact ⟨hpaths.2 file hfile, hsame ▸ hcleared later hreaches name hname⟩
  have hagain : StagedAgain same boundary filename reached ↔
      ∃ file ∈ added.filterMap fileOf, same file (tempFilePath filename) := by
    constructor
    · rintro ⟨other, later, hother, hreaches, name, hname, hsame⟩
      rw [hnext] at hother
      cases hother
      exact ⟨_, mem_filterMap.mpr ⟨_, hcleared later hreaches name hname, rfl⟩, hsame⟩
    · rintro ⟨file, hfile, hsame⟩
      obtain ⟨later, hreaches, name, hname, rfl⟩ := htouched file hfile
      exact ⟨next, later, hnext, hreaches, name, hname, hsame⟩
  rw [hagain, hbehind]
  simp only [performAll_append, not_exists, not_and]
  exact view_kept_iff hstore hpath hstaged hfiles

end Request

def textFiles : FileSystem (Text → Option Text) :=
  { (default : FileSystem (Text → Option Text)) with
    writeFile := fun path content _ world =>
      (.ok content.length, fun other =>
        if other = path ∧ content ≠ [] then some ((world path).getD [] ++ content)
        else world other)
    createDirectory := fun _ world => (.ok 0, world)
    deleteFile := fun path world =>
      (.ok 0, fun other => if other = path then none else world other)
    isFileExist := fun path world => (world path).isSome }

theorem stagingStore_textFiles : StagingStore textFiles id Eq fun _ => True where
  exist _ _ _ := rfl
  createDirectory _ _ _ _ := rfl
  deleteFile _ _ _ := if_pos rfl
  append _ _ _ _ hcontent := if_pos ⟨rfl, hcontent⟩
  appendNothing _ _ _ := if_neg fun hwrite => hwrite.2 rfl
  deleteOther _ _ _ _ _ hapart := if_neg fun hsame => hapart hsame.symm
  appendOther _ _ _ _ _ _ hapart := if_neg fun hwrite => hapart hwrite.1.symm
  alike _ _ world _ _ hsame := congrArg world hsame

/-- A client whose bytes come at once up to the last few, and these after two polls
that found nothing. -/
def pausedClient (bytes : Text) (last : ℕ) : Client :=
  { arrivals := (bytes.take (bytes.length - last)).map (fun byte => ⟨some byte, false⟩) ++
      ([⟨none, false⟩, ⟨none, false⟩] ++
        (bytes.drop (bytes.length - last)).map fun byte => ⟨some byte, false⟩)
    stalled := false }

def uploadBody (filename content : String) : Text :=
  text ("--x\r\nContent-Disposition: form-data; name=\"f\"; filename=\"" ++ filename ++
    "\"\r\n\r\n" ++ content ++ "\r\n--x--\r\n")

def atFirstPart : Parts :=
  { client := Client.ofText ((uploadBody "f.txt" "ab").drop 5)
    part := text "--x"
    partHasLastRead := false
    foundEnd := false
    formdata := []
    files := []
    actions := [] }

theorem sendsFile_atFirstPart :
    SendsFile idleRequest (Client.ofText (uploadRequest "f.txt" "ab")) (text "x") (text "f.txt")
      (text "ab") atFirstPart where
  arrived := by
    refine ⟨{ idleRequest with
        method := text "POST", uri := text "/upload", version := text "HTTP/1.1" },
      Client.ofText (uploadBody "f.txt" "ab"), by decide +kernel, .single ?_⟩
    decide +kernel
  named := by decide +kernel
  sent := ⟨text "--\r\n", by decide +kernel, .inr (by decide)⟩

theorem not_stagedAgain_atFirstPart :
    ¬ StagedAgain Eq (boundaryFrom (text "x")) (text "f.txt") atFirstPart := by
  rintro ⟨next, later, hnext, hreaches, name, hname, -⟩
  have hstate : next = (partPass (boundaryFrom (text "x")) atFirstPart).state := by
    rw [hnext]
    rfl
  have hdone : partPass (boundaryFrom (text "x")) next =
      .done (partPass (boundaryFrom (text "x")) next).state := by
    rw [hstate]
    decide +kernel
  have hnone : uploadName (boundaryFrom (text "x")) next = none := by
    rw [hstate]
    decide +kernel
  rw [(Loop.reaches_done hdone later).mp hreaches, hnone] at hname
  cases hname

end PdiStack.UploadRequest
