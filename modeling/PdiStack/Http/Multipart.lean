import PdiStack.Http.HttpRequest
import PdiStack.Storage.FileSystemInterface

/-!
# Multipart bodies

The multipart loop of `parseRequest` takes a form field as one line and an uploaded file
as everything up to the next boundary, and stages the file while it arrives.  The parser
does not depend on storage, so it returns the storage actions it takes in their order.

The upload loop reads blocks that end at a line end, at a size limit or where nothing
has arrived yet.  It searches the boundary in two neighbouring blocks at a time and
writes every second pass, holding back the last two bytes.
-/

namespace PdiStack.Multipart

open StringOperations IOInterface FileSystemInterface HttpRequest

/-- What the parser does to storage. -/
inductive StorageAction where
  /-- Creates a directory unless it exists. -/
  | ensureDirectory (path : Text)
  /-- Deletes a file if it exists. -/
  | clearFile (path : Text)
  | appendFile (path content : Text)
  | deleteFile (path : Text)
deriving DecidableEq, Repr

/-- The storage world after an action.  The parser ignores what the calls return. -/
def StorageAction.perform {σ : Type} (fs : FileSystem σ) (world : σ) : StorageAction → σ
  | .ensureDirectory path =>
    if fs.isDirExist path world then world else (fs.createDirectory path world).2
  | .clearFile path => if fs.isFileExist path world then (fs.deleteFile path world).2 else world
  | .appendFile path content => (fs.writeFile path content true world).2
  | .deleteFile path => (fs.deleteFile path world).2

def performAll {σ : Type} (fs : FileSystem σ) (actions : List StorageAction) (world : σ) : σ :=
  actions.foldl (StorageAction.perform fs) world

def httpUploadReadBlockSize : ℕ := 2048

def quote : UInt8 := 0x22

variable (boundary : Text) (client : Client)

def endBoundary : Text := boundary ++ text "--"

def readBlock : Text × Client :=
  let line := readStringUntil carriageReturn true httpUploadReadBlockSize client
  let rest := readStringUntil lineFeed true httpUploadReadBlockSize line.2
  (line.1 ++ rest.1, rest.2)

/-- What a search for a boundary leaves. -/
structure Cut where
  lastRead : Text
  fileWriteCounter : ℕ
  place : Option ℕ
deriving DecidableEq, Repr

/-- Cuts the text at a boundary.  A boundary that ends the upload on a pass that
would not write, more than a block behind the start, also drops the first block
and makes the pass write. -/
def cutAt (pattern lastRead : Text) (fileWriteCounter : ℕ) : Cut :=
  match find lastRead pattern 0 with
  | none => ⟨lastRead, fileWriteCounter, none⟩
  | some place =>
    if fileWriteCounter = 0 ∧ httpUploadReadBlockSize < place then
      ⟨(lastRead.take place).drop httpUploadReadBlockSize, 1, some place⟩
    else
      ⟨lastRead.take place, fileWriteCounter, some place⟩

/-- What a pass writes when the counter comes round: the bytes held back by the
last write, then the text but for its last two bytes. -/
def writesOf (path held lastRead : Text) : List StorageAction :=
  (if held ≠ [] then [.appendFile path held] else []) ++
    if 2 ≤ lastRead.length then
      [.appendFile path (lastRead.take (lastRead.length - 2))]
    else
      []

def heldBack (lastRead : Text) : Text := lastRead.drop (lastRead.length - 2)

/-- The locals of the upload loop. -/
structure Upload where
  client : Client
  lastRead : Text
  held : Text
  fileWriteCounter : ℕ
  actions : List StorageAction

/-- How the upload loop ends. -/
structure Received where
  client : Client
  part : Text
  foundBoundary : Bool
  foundEnd : Bool
  aborted : Bool
  actions : List StorageAction

def Upload.flush (path : Text) (cut : Cut) (upload : Upload) : Upload :=
  if cut.fileWriteCounter + 1 = 2 then
    { upload with
      held := heldBack cut.lastRead
      fileWriteCounter := 0
      actions := upload.actions ++ writesOf path upload.held cut.lastRead }
  else
    { upload with fileWriteCounter := cut.fileWriteCounter + 1 }

def takeBlock (path : Text) (block : Text) (upload : Upload) : Loop.Pass Upload Received :=
  let ended := cutAt (endBoundary boundary) (upload.lastRead ++ block) upload.fileWriteCounter
  let cut := cutAt boundary ended.lastRead ended.fileWriteCounter
  let flushed := upload.flush path cut
  if ended.place.isSome ∨ cut.place.isSome then
    .done
      { client := flushed.client
        part := match cut.place with
          | some place => ended.lastRead.drop (place + boundary.length + 2)
          | none => block
        foundBoundary := cut.place.isSome
        foundEnd := ended.place.isSome
        aborted := false
        actions := flushed.actions }
  else
    .again { flushed with lastRead := block }

/-- A pass of the upload loop.  A pass that reads nothing gives up when the client
has stalled. -/
def uploadPass (path : Text) (upload : Upload) : Loop.Pass Upload Received :=
  let block := readBlock upload.client
  if block.1 = [] ∧ block.2.stalled then
    .done
      { client := block.2
        part := []
        foundBoundary := false
        foundEnd := false
        aborted := true
        actions := upload.actions }
  else
    takeBlock boundary path block.1 { upload with client := block.2 }

@[simp]
theorem flush_client (path : Text) (cut : Cut) (upload : Upload) :
    (upload.flush path cut).client = upload.client := by
  unfold Upload.flush
  split <;> rfl

theorem takeBlock_again {boundary path block : Text} {upload next : Upload}
    (hpass : takeBlock boundary path block upload = .again next) : next.client = upload.client := by
  dsimp only [takeBlock] at hpass
  split at hpass
  · cases hpass
  · cases hpass
    exact flush_client path _ upload

/-- Reading a block takes at least one arrival while there is one. -/
theorem length_readBlock_le : (readBlock client).2.arrivals.length ≤ client.arrivals.length - 1 :=
  le_trans (length_readStringUntil_le lineFeed true _ _)
    (le_trans (Nat.sub_le _ _) (length_readStringUntil_le carriageReturn true _ client))

theorem readBlock_of_arrivals_nil {client : Client} (hclosed : client.arrivals = []) :
    readBlock client = ([], ⟨[], true⟩) := by
  have hread : readStringUntil carriageReturn true httpUploadReadBlockSize client =
      ([], ⟨[], true⟩) := readFrom_nil_of_arrivals hclosed
  rw [readBlock, hread]
  rfl

theorem uploadPass_variant (path : Text) :
    Loop.Variant (uploadPass boundary path) (fun upload => upload.client.arrivals.length) := by
  intro upload next hpass
  dsimp only [uploadPass] at hpass
  split at hpass
  case isTrue => cases hpass
  case isFalse hopen =>
    have hnonempty : upload.client.arrivals ≠ [] := by
      intro hclosed
      rw [readBlock_of_arrivals_nil hclosed] at hopen
      exact hopen ⟨rfl, rfl⟩
    have hpos := List.length_pos_iff.mpr hnonempty
    have hless := length_readBlock_le upload.client
    simp only [takeBlock_again hpass]
    omega

def receiveContent (path : Text) (client : Client) : Received :=
  Loop.run (uploadPass boundary path) _ (uploadPass_variant boundary path)
    { client := client, lastRead := [], held := [], fileWriteCounter := 0, actions := [] }

def quotedFrom (part : Text) (start : ℕ) : Text :=
  (part.drop start).take ((find part [quote] start).elim part.length (· - start))

/-- The name in a `Content-Disposition` line: what stands in the first quotes that
follow an `=`. -/
def argName (part : Text) : Text :=
  (find part (text "=\"") 0).elim [] fun nameStart => quotedFrom part (nameStart + 2)

/-- The file name in a `Content-Disposition` line, cut to the length limit.  It is
searched behind the name, and from the start of the line when the quotes of the
name do not close, where `npos + 1` is zero. -/
def argFilename (part : Text) : Text :=
  (find part (text "=\"") 0).elim [] fun nameStart =>
    let nameEnd := find part [quote] (nameStart + 2)
    (find part (text "filename=\"") (nameEnd.elim 0 (· + 1))).elim [] fun filenameStart =>
      applyFileSizeLimit (quotedFrom part (filenameStart + 10)) fileNameMaxSize

/-- `tempFilePath` as storage gets it. -/
def tempFilePath (filename : Text) : Text := cString (getTempDirectory ++ filename)

/-- The locals of the loop over the parts, with the entries it adds. -/
structure Parts where
  client : Client
  part : Text
  partHasLastRead : Bool
  foundEnd : Bool
  formdata : List HttpParam
  files : List HttpParam
  actions : List StorageAction
deriving DecidableEq

def skipPass : Loop.Pass Client Client :=
  let line := readLine 0 client
  if line.1 = [] then .done line.2 else .again line.2

theorem skipPass_variant : Loop.Variant skipPass (fun client => client.arrivals.length) := by
  intro client next hpass
  dsimp only [skipPass] at hpass
  split at hpass
  case isTrue => cases hpass
  case isFalse hline =>
    cases hpass
    exact length_readLine_lt fun hempty => hline hempty.1

def skipHeaders : Client := Loop.run skipPass _ skipPass_variant client

/-- A form field: its value is one line. -/
def receiveField (name : Text) (parts : Parts) : Parts :=
  let value := readLine 128 parts.client
  { parts with
    client := value.2
    part := []
    formdata := parts.formdata ++ [HttpParam.fill name value.1] }

/-- The state that the end of the upload loop leaves to the loop over the parts. -/
def Parts.afterUpload (name path : Text) (received : Received) (parts : Parts) : Parts :=
  { parts with
    client := received.client
    part := received.part
    partHasLastRead := received.foundBoundary
    foundEnd := received.foundEnd
    files := if received.aborted then parts.files else parts.files ++ [HttpParam.fill name path]
    actions := parts.actions ++ [.ensureDirectory getTempDirectory, .clearFile path] ++
      received.actions ++ if received.aborted then [.deleteFile path] else [] }

/-- An uploaded file.  Giving the upload up ends the loop over the parts too. -/
def receiveFile (name filename : Text) (parts : Parts) : Loop.Pass Parts Parts :=
  let path := tempFilePath filename
  let received := receiveContent boundary path parts.client
  if received.aborted then
    .done (parts.afterUpload name path received)
  else
    .again (parts.afterUpload name path received)

def takePart (parts : Parts) : Loop.Pass Parts Parts :=
  if parts.foundEnd ∨ parts.part = endBoundary boundary then
    .done parts
  else if contains parts.part boundary then
    .again parts
  else if contains parts.part (text "Content-Disposition") then
    let opened := { parts with client := skipHeaders parts.client }
    if argFilename parts.part = [] then
      .again (receiveField (argName parts.part) opened)
    else
      receiveFile boundary (argName parts.part) (argFilename parts.part) opened
  else
    .again parts

/-- The state with the next line put behind what an upload has read too far. -/
def Parts.withLine (line : Text × Client) (parts : Parts) : Parts :=
  { parts with
    client := line.2
    part := if parts.partHasLastRead then parts.part ++ line.1 else line.1
    partHasLastRead := false }

def partPass (parts : Parts) : Loop.Pass Parts Parts :=
  let line := readLine 0 parts.client
  if line.1 = [] ∧ line.2.stalled then
    .done { parts with client := line.2 }
  else
    takePart boundary (parts.withLine line)

theorem length_skipHeaders_le : (skipHeaders client).arrivals.length ≤ client.arrivals.length := by
  refine Loop.run_induction skipPass_variant
    (motive := fun client result => result.arrivals.length ≤ client.arrivals.length) ?_ ?_ client
  · intro client next result hpass hrest
    exact le_trans hrest (le_of_lt (skipPass_variant client next hpass))
  · intro client result hpass
    dsimp only [skipPass] at hpass
    split at hpass
    · cases hpass
      exact le_trans (length_readLine_le 0 client) (Nat.sub_le _ _)
    · cases hpass

theorem uploadPass_done_client {boundary path : Text} {upload : Upload} {received : Received}
    (hpass : uploadPass boundary path upload = .done received) :
    received.client = (readBlock upload.client).2 := by
  dsimp only [uploadPass, takeBlock] at hpass
  split at hpass
  · cases hpass
    rfl
  split at hpass
  · cases hpass
    exact flush_client path _ _
  · cases hpass

theorem length_receiveContent_le {path : Text} {client : Client} :
    (receiveContent boundary path client).client.arrivals.length ≤ client.arrivals.length := by
  refine Loop.run_induction (uploadPass_variant boundary path)
    (motive := fun upload received =>
      received.client.arrivals.length ≤ upload.client.arrivals.length) ?_ ?_ _
  · intro upload next received hpass hrest
    exact le_trans hrest (le_of_lt (uploadPass_variant boundary path upload next hpass))
  · intro upload received hpass
    rw [uploadPass_done_client hpass]
    exact le_trans (length_readBlock_le upload.client) (Nat.sub_le _ _)

/-- What a pass that goes round again has done with its line: nothing, taken a
field or taken a file. -/
theorem takePart_again {boundary : Text} {parts next : Parts}
    (hpass : takePart boundary parts = .again next) :
    next = parts ∨
      next = receiveField (argName parts.part)
        { parts with client := skipHeaders parts.client } ∨
      receiveFile boundary (argName parts.part) (argFilename parts.part)
        { parts with client := skipHeaders parts.client } = .again next := by
  dsimp only [takePart] at hpass
  split at hpass
  · cases hpass
  split at hpass
  · cases hpass
    exact .inl rfl
  split at hpass
  · split at hpass
    · cases hpass
      exact .inr (.inl rfl)
    · exact .inr (.inr hpass)
  · cases hpass
    exact .inl rfl

theorem receiveFile_again {boundary name filename : Text} {parts next : Parts}
    (hpass : receiveFile boundary name filename parts = .again next) :
    (receiveContent boundary (tempFilePath filename) parts.client).aborted = false ∧
      next = parts.afterUpload name (tempFilePath filename)
        (receiveContent boundary (tempFilePath filename) parts.client) := by
  dsimp only [receiveFile] at hpass
  split at hpass
  · cases hpass
  case isFalse hgoing =>
    cases hpass
    exact ⟨Bool.eq_false_iff.mpr hgoing, rfl⟩

theorem partPass_variant :
    Loop.Variant (partPass boundary) (fun parts => parts.client.arrivals.length) := by
  intro parts next hpass
  dsimp only [partPass] at hpass
  split at hpass
  case isTrue => cases hpass
  case isFalse hopen =>
    have hline := length_readLine_lt hopen
    have hskip := length_skipHeaders_le (readLine 0 parts.client).2
    rcases takePart_again hpass with rfl | rfl | hfile
    · exact hline
    · have hvalue := length_readLine_le 128 (skipHeaders (readLine 0 parts.client).2)
      show (readLine 128 (skipHeaders (readLine 0 parts.client).2)).2.arrivals.length <
        parts.client.arrivals.length
      omega
    · rw [(receiveFile_again hfile).2]
      exact lt_of_le_of_lt
        (le_trans (length_receiveContent_le boundary) hskip) hline

def readParts (parts : Parts) : Parts :=
  Loop.run (partPass boundary) _ (partPass_variant boundary) parts

def boundaryFrom (boundaryStr : Text) : Text := text "--" ++ boundaryStr

def Parts.start (request : HttpRequestData) (client : Client) : Parts :=
  { client := client
    part := []
    partHasLastRead := false
    foundEnd := false
    formdata := request.formdata
    files := request.files
    actions := [] }

/-- What `parseRequest` leaves behind. -/
structure Parsed where
  request : HttpRequestData
  client : Client
  actions : List StorageAction

def parseRequest (request : HttpRequestData) (client : Client) : Parsed :=
  match readHead request client with
  | .refused request client => ⟨request, client, []⟩
  | .complete request client => ⟨request, client, []⟩
  | .form boundaryStr request client =>
    let parts := readParts (boundaryFrom boundaryStr) (Parts.start request client)
    ⟨{ request with formdata := parts.formdata, files := parts.files }, parts.client,
      parts.actions⟩

end PdiStack.Multipart
