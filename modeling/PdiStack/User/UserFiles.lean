import PdiStack.User.UserStore

/-!
# Files under the user store

What the user store needs to know of the file system is a view of each file as its
content.  `FileLaws` says what a call may do to the view whether or not it
succeeds: a write may be short or refused, a read may break off, a delete or a move
may leave everything as it was.  `SoundFiles` adds that reads, the creation of a file and
appends to it succeed.
-/

namespace PdiStack.UserFiles

open PdiTypes StringOperations FileSystemInterface Loop Lines UserStore List Function Option

variable {σ τ : Type}

/-- The content of every file of a world, or `none` where there is no file. -/
abbrev View (σ : Type) := σ → Text → Option Text

/-- The two files of the user store. -/
def accountFiles : List Text := [passwdPath, shadowPath]

/-- The paths that the user store names: its files and their temporary copies. -/
def storePaths : List Text := accountFiles ++ accountFiles.map tempPath

theorem paths_of_accountFile {filepath : Text} (hfile : filepath ∈ accountFiles) :
    filepath ∈ storePaths ∧ tempPath filepath ∈ storePaths ∧ filepath ≠ tempPath filepath := by
  have hpaths : ∀ path ∈ accountFiles,
      path ∈ storePaths ∧ tempPath path ∈ storePaths ∧ path ≠ tempPath path := by decide
  exact hpaths filepath hfile

/-- What calls on the paths of the store may do, failures included.  The view may leave
every other file out. -/
structure FileLaws (fs : FileSystem σ) (view : View σ) : Prop where
  exists_eq : ∀ path world, path ∈ storePaths →
    fs.isFileExist path world = (view world path).isSome
  size_eq : ∀ path world content, path ∈ storePaths → view world path = some content →
    fs.getFileSize path world = .ok content.length
  read_line : ∀ path world content offset stream, path ∈ storePaths →
    view world path = some content → offset < content.length →
    fs.readFile path 128 offset (text "\n") world = .ok stream → stream.status = .ok →
    stream.chunks.flatten = firstLine newline (content.drop offset)
  create_other : ∀ path content world other, path ∈ storePaths → other ≠ path →
    view (fs.createFile path content world).2 other = view world other
  create_cases : ∀ path world, path ∈ storePaths →
    view (fs.createFile path [] world).2 path = view world path ∨
      view (fs.createFile path [] world).2 path = some []
  append_other : ∀ path content world other, path ∈ storePaths → other ≠ path →
    view (fs.writeFile path content true world).2 other = view world other
  append_cases : ∀ path content world, path ∈ storePaths →
    view (fs.writeFile path content true world).2 path = view world path ∨
      ∃ kept, view (fs.writeFile path content true world).2 path =
        some ((view world path).getD [] ++ content.take kept)
  delete_other : ∀ path world other, path ∈ storePaths → other ≠ path →
    view (fs.deleteFile path world).2 other = view world other
  delete_cases : ∀ path world, path ∈ storePaths →
    view (fs.deleteFile path world).2 path = view world path ∨
      view (fs.deleteFile path world).2 path = none
  move_other : ∀ source target world other, source ∈ storePaths → target ∈ storePaths →
    other ≠ source → other ≠ target →
    view (fs.moveFile source target world).2 other = view world other
  move_cases : ∀ source target world, source ∈ storePaths → target ∈ storePaths →
    source ≠ target →
    (view (fs.moveFile source target world).2 source = view world source ∧
      view (fs.moveFile source target world).2 target = view world target) ∨
    (view (fs.moveFile source target world).2 source = none ∧
      view (fs.moveFile source target world).2 target = view world source)
  permissions_eq : ∀ path perms world, path ∈ storePaths →
    view (fs.setFilePermissions path perms world).2 = view world
  owner_eq : ∀ path uid gid world, path ∈ storePaths →
    view (fs.setFileOwner path uid gid world).2 = view world

/-- Every read of a line inside a file succeeds. -/
def ReadsAlways (fs : FileSystem σ) (view : View σ) : Prop :=
  ∀ path world content offset, path ∈ storePaths → view world path = some content →
    offset < content.length →
    ∃ stream, fs.readFile path 128 offset (text "\n") world = .ok stream ∧ stream.status = .ok

/-- Files on which the calls that add a user succeed. -/
structure SoundFiles (fs : FileSystem σ) (view : View σ) : Prop extends FileLaws fs view where
  read_ok : ReadsAlways fs view
  create_ok : ∀ path world, path ∈ storePaths → view world path = none →
    (fs.createFile path [] world).1.isOk ∧ view (fs.createFile path [] world).2 path = some []
  append_ok : ∀ path content world, path ∈ storePaths → content ≠ [] →
    (fs.writeFile path content true world).1.isOk ∧
      view (fs.writeFile path content true world).2 path =
        some ((view world path).getD [] ++ content)

def contentOf (view : View σ) (path : Text) (world : σ) : Text := (view world path).getD []

def recordIn (accepts : UserRecord → Bool) (linesOfFile : List Text) : Option UserRecord :=
  linesOfFile.findSome? fun line => (parsePasswdLine (popCarriageReturn line)).filter accepts

def passwordIn (username : Text) (linesOfFile : List Text) : Option (Text × Text) :=
  linesOfFile.findSome? fun line => parseShadowLine username (popCarriageReturn line)

/-- A callback that takes every chunk ends with all of them. -/
theorem deliverChunks_collect (status : PdiErr) (chunks : List Text) (done : ℕ)
    (linedata : Text) :
    deliverChunks (fun data linedata => (true, linedata ++ data)) status chunks done linedata =
      (if status = .ok then .ok (done + chunks.flatten.length) else .error status,
        linedata ++ chunks.flatten) := by
  induction chunks generalizing done linedata with
  | nil => simp [deliverChunks]
  | cons chunk rest ih =>
    rw [deliverChunks]
    simp [ih, flatten_cons, length_append, append_assoc, add_assoc]

section Laws

variable {fs : FileSystem σ} {view : View σ}

variable {content filepath other path temppath : Text}

section Reads

variable (hlaws : FileLaws fs view) (hpath : path ∈ storePaths)
include hlaws hpath

/-- A read that succeeds returns the line at the offset and its length. -/
theorem readLine_of_ok {offset bytes : ℕ} {world : σ} {linedata : Text}
    (hcontent : view world path = some content) (hoffset : offset < content.length)
    (hread : readLine fs path offset world = (.ok bytes, linedata)) :
    linedata = firstLine newline (content.drop offset) ∧ bytes = linedata.length := by
  unfold readLine at hread
  cases hfile : fs.readFile path 128 offset (text "\n") world with
  | error error => rw [hfile] at hread; cases hread
  | ok stream =>
    rw [hfile] at hread
    dsimp only at hread
    rw [ReadStream.deliver, deliverChunks_collect, Prod.mk.injEq] at hread
    obtain ⟨hcount, hdata⟩ := hread
    split at hcount
    case isFalse => cases hcount
    case isTrue hstatus =>
      have hline := hlaws.read_line path world content offset stream hpath hcontent hoffset hfile
        hstatus
      rw [nil_append] at hdata
      cases hcount
      exact ⟨hdata ▸ hline, by rw [← hdata, zero_add]⟩

/-- Where reads succeed, one returns the line at the offset. -/
theorem readLine_eq (hreads : ReadsAlways fs view) {offset : ℕ} {world : σ}
    (hcontent : view world path = some content) (hoffset : offset < content.length) :
    readLine fs path offset world =
      (.ok (firstLine newline (content.drop offset)).length,
        firstLine newline (content.drop offset)) := by
  obtain ⟨stream, hfile, hstatus⟩ := hreads path world content offset hpath hcontent hoffset
  have hline := hlaws.read_line path world content offset stream hpath hcontent hoffset hfile
    hstatus
  rw [readLine, hfile]
  dsimp only
  rw [ReadStream.deliver, deliverChunks_collect, if_pos hstatus, hline, nil_append, zero_add]

/-- The loop goes through the lines of the file in order, and breaks off early only
where a read fails.  The file stays as it is as long as `keeps` holds. -/
theorem readLines_eq {worldOf : τ → σ} {stop : τ → Bool}
    {body : Text → τ → τ} {keeps : τ → Prop}
    (hkeeps : ∀ state, keeps state → view (worldOf state) path = some content)
    (hbody : ∀ linedata state, keeps state → keeps (body linedata state)) {state : τ}
    (hstate : keeps state) :
    ∃ seen, seen <+: lines newline content ∧
      readLines fs path content.length worldOf stop body state = foldUntil stop body seen state ∧
      (ReadsAlways fs view → seen = lines newline content) := by
  suffices hrun : ∀ at_ : ℕ × τ, keeps at_.2 → ∃ seen,
      seen <+: lines newline (content.drop at_.1) ∧
      run (linePass fs path content.length worldOf stop body) _
        (linePass_variant fs path content.length worldOf stop body) at_ =
          foldUntil stop body seen at_.2 ∧
      (ReadsAlways fs view → seen = lines newline (content.drop at_.1)) by
    exact hrun (0, state) hstate
  intro at_
  -- the lines behind the offset are what the rest of the run still sees
  refine run_induction (linePass_variant fs path content.length worldOf stop body)
    (motive := fun at_ result => keeps at_.2 → ∃ seen,
      seen <+: lines newline (content.drop at_.1) ∧
      result = foldUntil stop body seen at_.2 ∧
      (ReadsAlways fs view → seen = lines newline (content.drop at_.1))) ?_ ?_ at_
  · rintro ⟨offset, state⟩ next result hpass ih hstate
    unfold linePass at hpass
    split at hpass
    case isFalse => cases hpass
    case isTrue hgoes =>
      obtain ⟨hoffset, hstop⟩ := hgoes
      split at hpass
      case h_1 => cases hpass
      case h_2 bytes linedata hread =>
        obtain ⟨hline, hbytes⟩ := readLine_of_ok hlaws hpath (hkeeps state hstate) hoffset hread
        cases hpass
        obtain ⟨seen, hseen, hresult, hall⟩ := ih (hbody linedata state hstate)
        rw [lines_drop hoffset, ← hline, ← hbytes]
        refine ⟨linedata :: seen, cons_prefix_cons.mpr ⟨rfl, hseen⟩, ?_, fun hreads => ?_⟩
        · rw [foldUntil, if_neg (by simp [hstop]), hresult]
        · rw [hall hreads]
  · rintro ⟨offset, state⟩ result hpass hstate
    unfold linePass at hpass
    split at hpass
    case isTrue hgoes =>
      refine ⟨[], nil_prefix, ?_, fun hreads => ?_⟩
      · split at hpass
        · cases hpass; rfl
        · cases hpass
      · rw [readLine_eq hlaws hpath hreads (hkeeps state hstate) hgoes.1] at hpass
        cases hpass
    case isFalse hends =>
      cases hpass
      by_cases hoffset : offset < content.length
      · have hstop : stop state = true := by
          by_contra hgoes
          exact hends ⟨hoffset, Bool.eq_false_iff.mpr hgoes⟩
        refine ⟨lines newline (content.drop offset), prefix_rfl, ?_, fun _ => rfl⟩
        rw [lines_drop hoffset, foldUntil, if_pos hstop]
      · rw [drop_eq_nil_of_le (Nat.le_of_not_lt hoffset)]
        exact ⟨[], prefix_rfl, rfl, fun _ => rfl⟩

end Reads

/-- A search through a sound file is a search through its lines. -/
theorem scanFile_eq (hsound : SoundFiles fs view) (hpath : path ∈ storePaths)
    (found : Text → Option τ) (world : σ) :
    scanFile fs path found world = (lines newline (contentOf view path world)).findSome?
      fun line => found (popCarriageReturn line) := by
  rw [scanFile, hsound.exists_eq path world hpath, contentOf]
  cases hcontent : view world path with
  | none => simp
  | some content =>
    rw [isSome_some, if_pos rfl, hsound.size_eq path world content hpath hcontent, getD_some]
    dsimp only
    split
    case isTrue hempty =>
      rw [length_eq_zero_iff.mp hempty, lines_nil, findSome?_nil]
    case isFalse =>
      have hkeeps : ∀ _ : Option τ, True → view world path = some content :=
        fun _ _ => hcontent
      obtain ⟨seen, -, hresult, hall⟩ := readLines_eq hsound.toFileLaws hpath hkeeps
        (fun _ _ _ => trivial) trivial
      rw [hresult, hall hsound.read_ok]
      exact foldUntil_findSome? (fun line => found (popCarriageReturn line)) _

theorem matchesUsername_iff {username linedata : Text} :
    matchesUsername username linedata ↔ username ++ [fieldSep] <+: linedata := by
  rw [matchesUsername, decide_eq_true_iff]
  constructor
  · rintro ⟨hlength, htake, hsep⟩
    obtain ⟨hlt, hget⟩ := List.getElem?_eq_some_iff.mp hsep
    refine ⟨linedata.drop (username.length + 1), ?_⟩
    conv_rhs => rw [← take_append_drop username.length linedata, htake,
      drop_eq_getElem_cons hlt, hget]
    rw [append_assoc]
    rfl
  · rintro ⟨rest, rfl⟩
    refine ⟨by simp, by simp, by simp⟩

section Copy

variable (hlaws : FileLaws fs view) (hpath : temppath ∈ storePaths) (hother : other ≠ temppath)
include hlaws hpath hother

theorem view_startCopy {original : Option FileInfo} {world : σ} :
    view (startCopy fs temppath original world) other = view world other := by
  unfold startCopy
  extract_lets cleaned
  have hcleaned : view cleaned other = view world other := by
    dsimp only [cleaned]
    split
    · exact hlaws.delete_other temppath world other hpath hother
    · rfl
  have hcreate := hlaws.create_other temppath [] cleaned other hpath hother
  cases original with
  | none => exact hcleaned
  | some original =>
    dsimp only
    split
    case h_1 error created hcreated =>
      rw [hcreated] at hcreate
      rw [hcreate, hcleaned]
    case h_2 count created hcreated =>
      rw [hcreated] at hcreate
      rw [hlaws.permissions_eq temppath _ _ hpath, hcreate, hcleaned]

theorem view_copyLine (username linedata : Text) (state : Bool × σ) :
    view (copyLine fs temppath username linedata state).2 other = view state.2 other := by
  unfold copyLine
  split
  · rfl
  · split
    · rfl
    · exact hlaws.append_other temppath _ _ other hpath hother

theorem view_foldUntil_copyLine (username : Text) (seen : List Text) (state : Bool × σ) :
    view (foldUntil (fun _ => false) (copyLine fs temppath username) seen state).2 other =
      view state.2 other := by
  induction seen generalizing state with
  | nil => rfl
  | cons line seen ih =>
    rw [foldUntil, if_neg Bool.false_ne_true, ih, view_copyLine hlaws hpath hother]

end Copy

theorem removed_copyLine (fs : FileSystem σ) (temppath username linedata : Text)
    (state : Bool × σ) :
    (copyLine fs temppath username linedata state).1 =
      (state.1 || matchesUsername username linedata) := by
  unfold copyLine
  split
  case isTrue hmatches => rw [hmatches, Bool.or_true]
  case isFalse hmatches =>
    rw [Bool.eq_false_iff.mpr hmatches, Bool.or_false]
    split <;> rfl

theorem removed_foldUntil_copyLine (fs : FileSystem σ) (temppath username : Text)
    (seen : List Text) (state : Bool × σ) :
    (foldUntil (fun _ => false) (copyLine fs temppath username) seen state).1 =
      (state.1 || seen.any (matchesUsername username)) := by
  induction seen generalizing state with
  | nil => rw [foldUntil, any_nil, Bool.or_false]
  | cons line seen ih =>
    rw [foldUntil, if_neg Bool.false_ne_true, ih, removed_copyLine, any_cons, Bool.or_assoc]

section

variable (hlaws : FileLaws fs view)
include hlaws

section Account

variable (hfile : filepath ∈ accountFiles)
include hfile

/-- The copying loop goes through the lines of the original, which it leaves alone. -/
theorem readLines_copyLine {username : Text} {world : σ}
    (hcontent : view world filepath = some content) : ∃ seen, seen <+: lines newline content ∧
      readLines fs filepath content.length Prod.snd (fun _ => false)
          (copyLine fs (tempPath filepath) username) (false, world) =
        foldUntil (fun _ => false) (copyLine fs (tempPath filepath) username) seen
          (false, world) ∧
      (ReadsAlways fs view → seen = lines newline content) := by
  obtain ⟨hpath, hcopy, htemp⟩ := paths_of_accountFile hfile
  exact readLines_eq hlaws hpath (fun _ hstate => hstate)
    (fun linedata state hstate => by rw [view_copyLine hlaws hcopy htemp, hstate]) hcontent

theorem view_finishCopy {temppath : Text} {original : Option FileInfo} {world : σ} :
    view (finishCopy fs filepath temppath original world) =
      view (fs.moveFile temppath filepath (fs.deleteFile filepath world).2).2 := by
  unfold finishCopy
  cases original with
  | none => rfl
  | some original =>
    have hpath := (paths_of_accountFile hfile).1
    rw [hlaws.owner_eq _ _ _ _ hpath, hlaws.permissions_eq _ _ _ hpath]

/-- What removing a user's lines from a file does in any case: only the file and its
copy are touched, and the file only if one of its lines is the user's. -/
theorem removeLineByUsername_spec (username : Text) (world : σ) :
    (∀ other, other ≠ filepath → other ≠ tempPath filepath →
      view (removeLineByUsername fs filepath username world).2 other = view world other) ∧
    (((removeLineByUsername fs filepath username world).1 = false ∧
        view (removeLineByUsername fs filepath username world).2 filepath = view world filepath) ∨
      ∃ line ∈ lines newline (contentOf view filepath world), matchesUsername username line) := by
  obtain ⟨hpath, hcopy, htemp⟩ := paths_of_accountFile hfile
  unfold removeLineByUsername
  split
  case isFalse => exact ⟨fun _ _ _ => rfl, .inl ⟨rfl, rfl⟩⟩
  case isTrue hexists =>
    rw [hlaws.exists_eq filepath world hpath] at hexists
    obtain ⟨content, hcontent⟩ := isSome_iff_exists.mp hexists
    extract_lets original temppath started
    have hstarted : ∀ other, other ≠ temppath → view started other = view world other :=
      fun other hother => view_startCopy hlaws hcopy hother
    have hkept : view started filepath = some content := by rw [hstarted _ htemp, hcontent]
    rw [hlaws.size_eq filepath started content hpath hkept]
    dsimp only
    split
    case isTrue => exact ⟨fun other _ hother => hstarted other hother, .inl ⟨rfl, hstarted _ htemp⟩⟩
    case isFalse =>
      obtain ⟨seen, hseen, hresult, -⟩ := readLines_copyLine hlaws hfile hkept
      rw [hresult]
      have hcopied : ∀ other, other ≠ temppath →
          view (foldUntil (fun _ => false) (copyLine fs temppath username) seen
            (false, started)).2 other = view world other := fun other hother => by
        rw [view_foldUntil_copyLine hlaws hcopy hother, hstarted other hother]
      have hremoved := removed_foldUntil_copyLine fs temppath username seen (false, started)
      generalize foldUntil (fun _ => false) (copyLine fs temppath username) seen
        (false, started) = copied at hcopied hremoved
      obtain ⟨removed, copied⟩ := copied
      cases removed with
      | false =>
        refine ⟨fun other _ hother => ?_, .inl ⟨rfl, ?_⟩⟩
        · exact (hlaws.delete_other temppath copied other hcopy hother).trans (hcopied other hother)
        · exact (hlaws.delete_other temppath copied filepath hcopy htemp).trans (hcopied _ htemp)
      | true =>
        refine ⟨fun other hoff hother => ?_, .inr ?_⟩
        · rw [view_finishCopy hlaws hfile,
            hlaws.move_other temppath filepath _ other hcopy hpath hother hoff,
            hlaws.delete_other filepath copied other hpath hoff]
          exact hcopied other hother
        · obtain ⟨line, hline, hmatches⟩ := any_eq_true.mp hremoved.symm
          rw [contentOf, hcontent]
          exact ⟨line, hseen.subset hline, hmatches⟩

/-- Where reads succeed, a line of the user makes the copy take the place of the file. -/
theorem removeLineByUsername_of_line (hreads : ReadsAlways fs view) {username : Text} {world : σ}
    (hline : ∃ line ∈ lines newline (contentOf view filepath world),
      matchesUsername username line) :
    ∃ copied, (removeLineByUsername fs filepath username world).1 = true ∧
      view (removeLineByUsername fs filepath username world).2 =
        view (fs.moveFile (tempPath filepath) filepath (fs.deleteFile filepath copied).2).2 := by
  obtain ⟨line, hmem, hmatches⟩ := hline
  obtain ⟨hpath, hcopy, htemp⟩ := paths_of_accountFile hfile
  cases hcontent : view world filepath with
  | none =>
    rw [contentOf, hcontent] at hmem
    cases hmem
  | some content =>
    rw [contentOf, hcontent, getD_some] at hmem
    have hsize : content.length ≠ 0 := by
      intro hempty
      rw [length_eq_zero_iff.mp hempty] at hmem
      cases hmem
    rw [removeLineByUsername, hlaws.exists_eq filepath world hpath, hcontent]
    extract_lets original temppath started
    have hkept : view started filepath = some content :=
      (view_startCopy hlaws hcopy htemp).trans hcontent
    obtain ⟨seen, -, hresult, hall⟩ := readLines_copyLine hlaws hfile hkept
    have hremoved := removed_foldUntil_copyLine fs temppath username seen (false, started)
    rw [hall hreads, any_eq_true.mpr ⟨line, hmem, hmatches⟩] at hremoved
    rw [hlaws.size_eq filepath started content hpath hkept]
    dsimp only
    rw [if_neg hsize, hresult, hall hreads]
    generalize foldUntil (fun _ => false) (copyLine fs temppath username)
      (lines newline content) (false, started) = copied at hremoved
    obtain ⟨removed, copied⟩ := copied
    cases hremoved
    exact ⟨copied, rfl, view_finishCopy hlaws hfile⟩

end Account

/-- Setting a password touches the shadow file and its copy alone. -/
theorem setPassword_other (hash salt username : Text) (world : σ) (hshadow : other ≠ shadowPath)
    (htemp : other ≠ tempPath shadowPath) :
    view (setPassword fs hash salt username world).2 other = view world other := by
  unfold setPassword
  split
  · rfl
  extract_lets line removed append
  have hremoved : view removed other = view world other :=
    (removeLineByUsername_spec hlaws (by decide) username world).1 other hshadow htemp
  have hpath : shadowPath ∈ storePaths := by decide
  have happend : ∀ world, view (append world).2 other = view world other := fun world => by
    have hwrite := hlaws.append_other shadowPath line world other hpath hshadow
    dsimp only [append]
    split
    case h_1 error next hnext => rw [hnext] at hwrite; exact hwrite
    case h_2 count next hnext => rw [hnext] at hwrite; exact hwrite
  have hcreate := hlaws.create_other shadowPath [] removed other hpath hshadow
  split
  · rw [happend, hremoved]
  · split
    case h_1 error next hnext =>
      rw [hnext] at hcreate
      rw [hcreate, hremoved]
    case h_2 count next hnext =>
      rw [hnext] at hcreate
      rw [happend, hlaws.permissions_eq shadowPath _ _ hpath, hcreate, hremoved]

end

end Laws

theorem flatten_chunksOf {size : ℕ} (hsize : 0 < size) {steps : ℕ} {content : Text}
    (hsteps : content.length ≤ steps) : (chunksOf size steps content).flatten = content := by
  induction steps generalizing content with
  | zero => rw [length_eq_zero_iff.mp (Nat.le_zero.mp hsteps)]; rfl
  | succ steps ih =>
    cases content with
    | nil => rfl
    | cons first rest =>
      rw [chunksOf, flatten_cons, ih, take_append_drop]
      rw [length_drop]
      omega

theorem take_strstr_newline (rest : Text) :
    rest.take ((strstr rest [newline] 0).getD rest.length) = firstLine newline rest := by
  by_cases hsep : newline ∈ rest
  · obtain ⟨line, more, rfl, hfree⟩ := eq_append_cons_of_mem hsep
    have hfound : strstr (line ++ newline :: more) [newline] 0 = some line.length := by
      rw [strstr_eq_some_iff]
      refine ⟨cons_ne_nil _ _, Nat.zero_le _, ?_, fun earlier _ hearlier hmatch => ?_⟩
      · rw [drop_left]
        exact ⟨more, rfl⟩
      · rw [drop_append_of_le_length (le_of_lt hearlier),
          drop_eq_getElem_cons hearlier, cons_append, cons_prefix_cons] at hmatch
        exact hfree (hmatch.1 ▸ getElem_mem hearlier)
    rw [hfound, getD_some, take_left, firstLine_append hfree]
  · have hmissing : strstr rest [newline] 0 = none := by
      cases hfound : strstr rest [newline] 0 with
      | none => rfl
      | some position =>
        obtain ⟨-, -, hmatch, -⟩ := strstr_eq_some_iff.mp hfound
        exact absurd (mem_of_mem_drop (hmatch.subset mem_cons_self)) hsep
    rw [hmissing, getD_none, take_length, firstLine_of_notMem hsep]

/-- A backend that keeps its content in memory delivers the line at the offset. -/
theorem contentStream_line {content : Text} {size offset : ℕ} (hoffset : offset < content.length) :
    (contentStream content size offset (text "\n")).chunks.flatten =
      firstLine newline (content.drop offset) := by
  rw [contentStream, if_neg (Nat.not_le.mpr hoffset), show text "\n" = [newline] from rfl]
  dsimp only
  rw [take_strstr_newline]
  generalize firstLine newline (content.drop offset) = wanted
  by_cases hwanted : wanted = []
  · rw [hwanted]
    rfl
  · have hlength : 0 < wanted.length := length_pos_of_ne_nil hwanted
    refine flatten_chunksOf ?_ (le_refl _)
    split <;> omega

/-- Files in memory.  Moves may be refused, and a write to a file for which `taken` has
a count breaks off after that many bytes. -/
def memoryFiles (moves : Bool) (taken : Text → Option ℕ) : FileSystem (Text → Option Text) :=
  { (default : FileSystem (Text → Option Text)) with
    createFile := fun path content world => (.ok 0, update world path (some content))
    writeFile := fun path content append world =>
      (if (taken path).isSome then .error .io else .ok content.length,
        update world path (some ((if append then (world path).getD [] else []) ++
          content.take ((taken path).getD content.length))))
    readFile := fun path size offset readUntilMatch world =>
      match world path with
      | none => .error .notFound
      | some content => .ok (contentStream content size offset readUntilMatch)
    deleteFile := fun path world => (.ok 0, update world path none)
    moveFile := fun source target world =>
      if moves then
        (.ok 0, update (update world target (world source)) source none)
      else
        (.error .io, world)
    getFileSize := fun path world =>
      match world path with
      | none => .error .notFound
      | some content => .ok content.length
    isFileExist := fun path world => (world path).isSome
    getFileMeta := fun path world =>
      match world path with
      | none => .error .notFound
      | some content => .ok ⟨.reg, content.length, 0, 0, filePermDefaultFile, 0, 0⟩
    setFilePermissions := fun _ _ world => (.ok 0, world)
    setFileOwner := fun _ _ _ world => (.ok 0, world) }

theorem fileLaws_memoryFiles (moves : Bool) (taken : Text → Option ℕ) :
    FileLaws (memoryFiles moves taken) id where
  exists_eq _ _ _ := rfl
  size_eq path world content _ hcontent := by
    have hcontent' : world path = some content := hcontent
    simp [memoryFiles, hcontent']
  read_line path world content offset stream _ hcontent hoffset hread _ := by
    have hcontent' : world path = some content := hcontent
    simp only [memoryFiles, hcontent', Except.ok.injEq] at hread
    rw [← hread, contentStream_line hoffset]
  create_other path content world other _ hother := update_of_ne hother _ _
  create_cases path world _ := .inr (update_self path _ world)
  append_other path content world other _ hother := update_of_ne hother _ _
  append_cases path content world _ :=
    .inr ⟨(taken path).getD content.length, update_self path _ world⟩
  delete_other path world other _ hother := update_of_ne hother _ _
  delete_cases path world _ := .inr (update_self path _ world)
  move_other source target world other _ _ hsource htarget := by
    dsimp only [memoryFiles, id]
    split
    · dsimp only
      rw [update_of_ne hsource, update_of_ne htarget]
    · rfl
  move_cases source target world _ _ hne := by
    dsimp only [memoryFiles, id]
    split
    · refine .inr ⟨update_self source _ _, ?_⟩
      dsimp only
      rw [update_of_ne (Ne.symm hne), update_self]
    · exact .inl ⟨rfl, rfl⟩
  permissions_eq _ _ _ _ := rfl
  owner_eq _ _ _ _ _ := rfl

theorem readsAlways_memoryFiles (moves : Bool) (taken : Text → Option ℕ) :
    ReadsAlways (memoryFiles moves taken) id := by
  intro path world content offset _ hcontent _
  have hcontent' : world path = some content := hcontent
  refine ⟨contentStream content 128 offset (text "\n"), by simp [memoryFiles, hcontent'], ?_⟩
  rw [contentStream]
  split <;> rfl

theorem soundFiles_memoryFiles : SoundFiles (memoryFiles true fun _ => none) id where
  toFileLaws := fileLaws_memoryFiles true fun _ => none
  read_ok := readsAlways_memoryFiles true fun _ => none
  create_ok path world _ _ := ⟨rfl, update_self path _ world⟩
  append_ok path content world _ _ := by
    refine ⟨rfl, (update_self path _ world).trans ?_⟩
    rw [getD_none, take_length]
    rfl

end PdiStack.UserFiles
