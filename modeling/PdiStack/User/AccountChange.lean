import PdiStack.User.UserFiles

/-!
# Account changes that fail

A change of an account may find any of its file calls failing.  `setPassword` takes the
old line out of the shadow file before it appends the new one, and taking a line out
deletes the file before the copy is moved into its place, with no look at what the calls
returned.  `account_change_iff` says which changes a failure cannot hurt: those of a user
who has no line in either file yet.
-/

namespace PdiStack.AccountChange

open StringOperations DataTypeConversions FileSystemInterface Lines UserStore UserFiles
  List Function Option

structure UserName (username : Text) : Prop where
  nonempty : username ≠ []
  noSeparator : fieldSep ∉ username
  noLineEnd : newline ∉ username

def HasLine (username content : Text) : Prop :=
  ∃ line ∈ lines newline content, matchesUsername username line

/-- What `verifyPassword` says of the lines of a shadow file. -/
def verifiesIn (hashPassword : Text → Text → Text) (username password : Text)
    (linesOfFile : List Text) : Bool :=
  match passwordIn username linesOfFile with
  | none => false
  | some (storedHash, salt) => storedHash = hashPassword password salt

theorem popCarriageReturn_isPrefix {line : Text} : popCarriageReturn line <+: line := by
  rw [popCarriageReturn]
  split
  · exact dropLast_prefix line
  · exact prefix_rfl

variable {content line username : Text} {files : Text → Option Text}

/-- A well formed line of a user starts with their name and a separator, and the name
holds none. -/
theorem parseShadowLine_starts {stored : Text × Text}
    (hparse : parseShadowLine username line = some stored) :
    username ++ [fieldSep] <+: line ∧ fieldSep ∉ username := by
  unfold parseShadowLine at hparse
  split at hparse
  case h_1 => cases hparse
  case h_2 sep1 hfound =>
    rw [find_zero] at hfound
    split at hparse
    case isFalse => cases hparse
    case isTrue hname =>
      obtain ⟨rfl, htake⟩ := hname
      obtain ⟨rest, hrest⟩ := Occurrence.prefix_of_first hfound
      have hline : line = username ++ ([fieldSep] ++ rest) := by
        rw [hrest]
        conv_rhs => rw [← htake, length_take_of_le (Occurrence.first_eq_some_iff.mp hfound).1]
        exact (take_append_drop _ line).symm
      refine ⟨⟨rest, by rw [hline, append_assoc]⟩, fun hsep => ?_⟩
      -- a separator inside the name would be found before the one behind it
      obtain ⟨front, back, hsplit⟩ := append_of_mem hsep
      have hearlier : [fieldSep] <+: line.drop front.length := by
        rw [hline, hsplit, append_assoc, drop_left]
        exact ⟨back ++ ([fieldSep] ++ rest), rfl⟩
      have hle := Occurrence.first_le hfound hearlier
      rw [hsplit, length_append, length_cons] at hle
      omega

theorem matchesUsername_of_parse {stored : Text × Text}
    (hparse : parseShadowLine username (popCarriageReturn line) = some stored) :
    matchesUsername username line :=
  matchesUsername_iff.mpr
    ((parseShadowLine_starts hparse).1.trans (popCarriageReturn_isPrefix))

theorem passwordIn_of_not_hasLine (hnone : ¬ HasLine username content) :
    passwordIn username (lines newline content) = none := by
  rw [passwordIn, findSome?_eq_none_iff]
  intro line hline
  rw [eq_none_iff_forall_ne_some]
  intro stored hparse
  exact hnone ⟨line, hline, matchesUsername_of_parse hparse⟩

/-- No part of a line of one user is a line of another. -/
theorem parseShadowLine_other {other rest : Text} (hname : fieldSep ∉ username)
    (hother : other ≠ username) (hline : line <+: username ++ fieldSep :: rest) :
    parseShadowLine other line = none := by
  rw [eq_none_iff_forall_ne_some]
  intro stored hparse
  obtain ⟨hstarts, hsep⟩ := parseShadowLine_starts hparse
  obtain ⟨more, hmore⟩ := hstarts.trans hline
  rw [append_assoc, singleton_append] at hmore
  apply hother
  rw [← firstLine_append hsep more, hmore, firstLine_append hname]

theorem newline_notMem_bytesToHexString (bytes : Text) : newline ∉ bytesToHexString bytes := by
  have hchars : ∀ value < 256,
      hexChar (UInt8.ofNat value >>> 4) ≠ newline ∧ hexChar (UInt8.ofNat value &&& 0x0F) ≠ newline := by
    decide +kernel
  intro hmem
  obtain ⟨byte, -, hbyte⟩ := mem_flatMap.mp hmem
  obtain ⟨hhigh, hlow⟩ := hchars byte.toNat byte.toNat_lt
  rw [UInt8.ofNat_toNat] at hhigh hlow
  simp only [mem_cons, not_mem_nil, or_false] at hbyte
  rcases hbyte with hsame | hsame
  · exact hhigh hsame.symm
  · exact hlow hsame.symm

theorem newline_notMem_shadowLine (hname : newline ∉ username) (hash salt : Text) :
    newline ∉ shadowLine username hash salt := by
  have hsep : newline ≠ fieldSep := by decide
  simp [shadowLine, hname, hsep, newline_notMem_bytesToHexString]

/-- What a write of a line, or of a part of it, leaves behind the ended lines. -/
theorem passwordIn_append (content : Text) (hline : newline ∉ line) (kept : ℕ) (other : Text) :
    passwordIn other (lines newline (content ++ (line ++ [newline]).take kept)) =
      (passwordIn other (lines newline (ended newline content))).or
        (parseShadowLine other
          (popCarriageReturn (unended newline content ++ line.take kept))) := by
  have hjoined : newline ∉ unended newline content ++ line.take kept := by
    rw [mem_append, not_or]
    exact ⟨notMem_unended content, fun hmem => hline (mem_of_mem_take hmem)⟩
  have hlast : passwordIn other
      (lines newline (unended newline content ++ (line ++ [newline]).take kept)) =
        parseShadowLine other (popCarriageReturn (unended newline content ++ line.take kept)) := by
    rcases lt_or_ge line.length kept with hall | hshort
    · rw [take_of_length_le (le_of_lt hall)] at hjoined ⊢
      rw [take_of_length_le (by rw [length_append]; exact hall), ← append_assoc,
        lines_line_append hjoined, lines_nil, passwordIn, findSome?_singleton]
    · rw [take_append_of_le_length hshort]
      by_cases hempty : unended newline content ++ line.take kept = []
      · rw [hempty]
        rfl
      · rw [lines_of_notMem hjoined hempty, passwordIn, findSome?_singleton]
  rw [lines_append, ← hlast]
  exact findSome?_append

/-- What the lines of a shadow file say, with the line that is not ended. -/
theorem passwordIn_lines (content other : Text) :
    passwordIn other (lines newline content) =
      (passwordIn other (lines newline (ended newline content))).or
        (parseShadowLine other (popCarriageReturn (unended newline content))) := by
  have hnothing := passwordIn_append content (not_mem_nil (a := newline)) 0 other
  rwa [take_zero, append_nil, take_zero, append_nil] at hnothing

/-- No part of the new line makes or breaks a password of another user in the last line
of the shadow file. -/
def AppendsApart (username hash salt content : Text) : Prop :=
  ∀ kept other, other ≠ username → passwordIn other (lines newline (ended newline content)) = none →
    parseShadowLine other (popCarriageReturn
        (unended newline content ++ (shadowLine username hash salt).take kept)) =
      parseShadowLine other (popCarriageReturn (unended newline content))

theorem appendsApart_of_ended (hname : UserName username) {hash salt : Text}
    (hended : unended newline content = []) :
    AppendsApart username hash salt content := by
  intro kept other hother _
  have hpart : popCarriageReturn ((shadowLine username hash salt).take kept) <+:
      shadowLine username hash salt :=
    (popCarriageReturn_isPrefix).trans (List.take_prefix kept _)
  rw [shadowLine, append_assoc, append_assoc, append_assoc] at hpart
  rw [hended, nil_append, shadowLine, append_assoc, append_assoc,
    append_assoc, parseShadowLine_other hname.noSeparator hother hpart]
  rfl

/-- The passwords of others stay whatever part of the new line is written, just then. -/
theorem passwordIn_kept_iff (hname : UserName username) {hash salt : Text} :
    (∀ kept other, other ≠ username →
        passwordIn other
            (lines newline (content ++ (shadowLine username hash salt ++ [newline]).take kept)) =
          passwordIn other (lines newline content)) ↔
      AppendsApart username hash salt content := by
  have hline := newline_notMem_shadowLine hname.noLineEnd hash salt
  refine forall_congr' fun kept => forall_congr' fun other => imp_congr_right fun _ => ?_
  rw [passwordIn_append content hline, passwordIn_lines content]
  cases passwordIn other (lines newline (ended newline content)) with
  | none => simp
  | some stored => simp

section Laws

variable {σ : Type} {fs : FileSystem σ} {view : View σ}

def KeepsOthers (view : View σ) (username : Text) (before after : σ) : Prop :=
  ∀ other, other ≠ username →
    recordIn (fun candidate => candidate.username = other)
        (lines newline (contentOf view passwdPath after)) =
      recordIn (fun candidate => candidate.username = other)
        (lines newline (contentOf view passwdPath before)) ∧
    passwordIn other (lines newline (contentOf view shadowPath after)) =
      passwordIn other (lines newline (contentOf view shadowPath before))

/-- What a change of an account may not lose: the others keep what they have, and
where `setPassword` fails the old password still verifies. -/
structure LosesNothing (fs : FileSystem σ) (view : View σ) (hashPassword : Text → Text → Text)
    (hash salt username : Text) (world : σ) : Prop where
  set_keeps : KeepsOthers view username world (setPassword fs hash salt username world).2
  set_verifies : (setPassword fs hash salt username world).1 = false → ∀ password,
    verifiesIn hashPassword username password
      (lines newline (contentOf view shadowPath world)) →
    verifiesIn hashPassword username password
      (lines newline (contentOf view shadowPath (setPassword fs hash salt username world).2))
  remove_keeps : KeepsOthers view username world (removeUser fs username world).2

variable {username : Text} {world : σ}

section

variable (hlaws : FileLaws fs view)
include hlaws

theorem removeLineByUsername_of_not_hasLine {filepath : Text} (hfile : filepath ∈ accountFiles)
    (hnone : ¬ HasLine username (contentOf view filepath world)) :
    view (removeLineByUsername fs filepath username world).2 filepath = view world filepath := by
  rcases (removeLineByUsername_spec hlaws hfile username world).2 with ⟨-, hsame⟩ | hline
  · exact hsame
  · exact absurd hline hnone

/-- An append leaves some part of its text behind the content. -/
theorem contentOf_append {path : Text} (hpath : path ∈ storePaths) (content : Text) (world : σ) :
    ∃ kept, contentOf view path (fs.writeFile path content true world).2 =
      contentOf view path world ++ content.take kept := by
  rcases hlaws.append_cases path content world hpath with hsame | ⟨kept, hkept⟩
  · exact ⟨0, by rw [contentOf, hsame, take_zero, append_nil]; rfl⟩
  · exact ⟨kept, by rw [contentOf, hkept]; rfl⟩

/-- For a user without a line, `setPassword` does no more to the shadow file than
put some part of the new line behind it. -/
theorem contentOf_setPassword {hash salt : Text} (hname : username ≠ [])
    (hnone : ¬ HasLine username (contentOf view shadowPath world)) :
    ∃ kept, contentOf view shadowPath (setPassword fs hash salt username world).2 =
      contentOf view shadowPath world ++
        (shadowLine username hash salt ++ [newline]).take kept := by
  have hpath : shadowPath ∈ storePaths := by decide
  rw [setPassword, if_neg hname]
  extract_lets line removed append
  have hremoved : contentOf view shadowPath removed = contentOf view shadowPath world := by
    rw [contentOf, contentOf, removeLineByUsername_of_not_hasLine hlaws (by decide) hnone]
  have happend : ∀ before, ∃ kept, contentOf view shadowPath (append before).2 =
      contentOf view shadowPath before ++ line.take kept := by
    intro before
    have hwrite := contentOf_append hlaws hpath line before
    dsimp only [append]
    split
    case h_1 error next hnext => rw [hnext] at hwrite; exact hwrite
    case h_2 count next hnext => rw [hnext] at hwrite; exact hwrite
  split
  case isTrue =>
    rw [← hremoved]
    exact happend removed
  case isFalse hmissing =>
    have hempty : view removed shadowPath = none := by
      rw [hlaws.exists_eq shadowPath removed hpath] at hmissing
      exact not_isSome_iff_eq_none.mp hmissing
    have hcreated : contentOf view shadowPath (fs.createFile shadowPath [] removed).2 =
        contentOf view shadowPath removed := by
      rcases hlaws.create_cases shadowPath removed hpath with hsame | hnew
      · rw [contentOf, hsame]; rfl
      · rw [contentOf, contentOf, hnew, hempty]; rfl
    split
    case h_1 error next hnext =>
      rw [hnext] at hcreated
      exact ⟨0, by rw [hcreated, hremoved, take_zero, append_nil]⟩
    case h_2 count next hnext =>
      rw [hnext] at hcreated
      obtain ⟨kept, hkept⟩ := happend (fs.setFilePermissions shadowPath 0o600 next).2
      refine ⟨kept, ?_⟩
      rw [hkept, contentOf, hlaws.permissions_eq shadowPath _ _ hpath]
      exact congrArg (· ++ line.take kept) (hcreated.trans hremoved)

/-- Nothing can be lost for a user without a line in either file. -/
theorem losesNothing_of_not_hasLine (hname : UserName username) {hashPassword : Text → Text → Text}
    {hash salt : Text} (hapart : AppendsApart username hash salt (contentOf view shadowPath world))
    (hshadow : ¬ HasLine username (contentOf view shadowPath world))
    (hpasswd : ¬ HasLine username (contentOf view passwdPath world)) :
    LosesNothing fs view hashPassword hash salt username world where
  set_keeps other hother := by
    have hsame := setPassword_other hlaws hash salt username world
      (show passwdPath ≠ shadowPath by decide) (show passwdPath ≠ tempPath shadowPath by decide)
    obtain ⟨kept, hkept⟩ := contentOf_setPassword hlaws hname.nonempty hshadow
    refine ⟨by rw [contentOf, hsame]; rfl, ?_⟩
    rw [hkept]
    exact (passwordIn_kept_iff hname).mpr hapart kept other hother
  set_verifies _ password hverifies := by
    rw [verifiesIn, passwordIn_of_not_hasLine hshadow] at hverifies
    cases hverifies
  remove_keeps other hother := by
    rw [removeUser, if_neg hname.nonempty]
    dsimp only
    obtain ⟨hothers, -⟩ := removeLineByUsername_spec hlaws
      (show passwdPath ∈ accountFiles by decide) username world
    have hfirst := removeLineByUsername_of_not_hasLine hlaws
      (show passwdPath ∈ accountFiles by decide) hpasswd
    have hkeptShadow := hothers shadowPath (by decide) (by decide)
    generalize (removeLineByUsername fs passwdPath username world).2 = between
      at hfirst hkeptShadow
    obtain ⟨hlater, -⟩ := removeLineByUsername_spec hlaws
      (show shadowPath ∈ accountFiles by decide) username between
    have hsecond := removeLineByUsername_of_not_hasLine hlaws
      (show shadowPath ∈ accountFiles by decide)
      (show ¬ HasLine username (contentOf view shadowPath between) by
        rw [contentOf, hkeptShadow]; exact hshadow)
    refine ⟨?_, ?_⟩
    · rw [contentOf, hlater passwdPath (by decide) (by decide), hfirst]
      rfl
    · rw [contentOf, hsecond, hkeptShadow]
      rfl

end

end Laws

/-- Files in memory whose moves are refused, and whose appends to the shadow file. -/
def refusingFiles : FileSystem (Text → Option Text) :=
  memoryFiles false fun path => if path = shadowPath then some 0 else none

theorem fileLaws_refusingFiles : FileLaws refusingFiles id := fileLaws_memoryFiles _ _

/-- A file with a line of the user is gone when the move is refused. -/
theorem removeLineByUsername_loses {filepath : Text} (hfile : filepath ∈ accountFiles)
    (hline : HasLine username ((files filepath).getD [])) :
    (removeLineByUsername refusingFiles filepath username files).2 filepath = none := by
  obtain ⟨copied, -, hview⟩ := removeLineByUsername_of_line fileLaws_refusingFiles hfile
    (readsAlways_memoryFiles _ _) hline
  have hafter : (removeLineByUsername refusingFiles filepath username files).2 =
      update copied filepath none := hview
  rw [hafter, update_self]

/-- A password that cannot be appended is lost together with the old one. -/
theorem setPassword_loses {hash salt : Text} (hname : username ≠ [])
    (hline : HasLine username ((files shadowPath).getD [])) :
    (setPassword refusingFiles hash salt username files).1 = false ∧
      (setPassword refusingFiles hash salt username files).2 shadowPath = some [] := by
  rw [setPassword, if_neg hname]
  extract_lets line removed append
  have hgone : removed shadowPath = none := removeLineByUsername_loses (by decide) hline
  have hmissing : refusingFiles.isFileExist shadowPath removed = false := by
    change (removed shadowPath).isSome = false
    rw [hgone]
    rfl
  rw [hmissing]
  refine ⟨rfl, ?_⟩
  change update removed shadowPath (some []) shadowPath = some []
  rw [update_self]

/-- Another user's passwd record is lost when a user is removed. -/
theorem removeUser_loses (hname : username ≠ [])
    (hline : HasLine username ((files passwdPath).getD [])) :
    (removeUser refusingFiles username files).2 passwdPath = none := by
  rw [removeUser, if_neg hname]
  have hkept := (removeLineByUsername_spec fileLaws_refusingFiles
    (show shadowPath ∈ accountFiles by decide) username
    (removeLineByUsername refusingFiles passwdPath username files).2).1 passwdPath
      (by decide) (by decide)
  exact hkept.trans (removeLineByUsername_loses (by decide) hline)

def shortFiles (kept : ℕ) : FileSystem (Text → Option Text) :=
  memoryFiles true fun path => if path = shadowPath then some kept else none

/-- A write that breaks off leaves its first part behind the shadow file. -/
theorem setPassword_short {kept : ℕ} {hash salt : Text} (hname : username ≠ [])
    (hnone : ¬ HasLine username ((files shadowPath).getD [])) :
    ((setPassword (shortFiles kept) hash salt username files).2 shadowPath).getD [] =
      (files shadowPath).getD [] ++ (shadowLine username hash salt ++ [newline]).take kept := by
  rw [setPassword, if_neg hname]
  extract_lets line removed append
  have hremoved : removed shadowPath = files shadowPath :=
    removeLineByUsername_of_not_hasLine (fileLaws_memoryFiles _ _) (by decide) hnone
  have happend : ∀ before : Text → Option Text, ((append before).2 shadowPath).getD [] =
      (before shadowPath).getD [] ++ line.take kept := by
    intro before
    change (update before shadowPath (some ((before shadowPath).getD [] ++
      line.take kept)) shadowPath).getD [] = _
    rw [update_self, getD_some]
  rw [← hremoved]
  split
  case isTrue => exact happend removed
  case isFalse hmissing =>
    have hgone : removed shadowPath = none := not_isSome_iff_eq_none.mp hmissing
    have hcreated := happend (update removed shadowPath (some []))
    rw [hgone]
    exact hcreated

/-- Whatever fails inside a change of an account, nothing is lost, just when the user
has no line in the two files yet and the new line cannot run into another user's.
A user with a line in the shadow file is not without passwords there, their own or
another's, and a user with a line in the passwd file is not alone in it. -/
theorem account_change_iff {username : Text} (hname : UserName username)
    (hashPassword : Text → Text → Text) (hash salt : Text) (files : Text → Option Text)
    (hpasswords : HasLine username ((files shadowPath).getD []) →
      (∃ password, verifiesIn hashPassword username password
        (lines newline ((files shadowPath).getD []))) ∨
      ∃ other, other ≠ username ∧
        (passwordIn other (lines newline ((files shadowPath).getD []))).isSome)
    (hrecords : HasLine username ((files passwdPath).getD []) → ∃ other, other ≠ username ∧
      (recordIn (fun candidate => candidate.username = other)
        (lines newline ((files passwdPath).getD []))).isSome) :
    (∀ (σ : Type) (fs : FileSystem σ) (view : View σ) (world : σ), FileLaws fs view →
        view world = files → LosesNothing fs view hashPassword hash salt username world) ↔
      ¬ HasLine username ((files shadowPath).getD []) ∧
        ¬ HasLine username ((files passwdPath).getD []) ∧
        AppendsApart username hash salt ((files shadowPath).getD []) := by
  constructor
  · intro hsafe
    have hrefused := hsafe _ refusingFiles id files fileLaws_refusingFiles rfl
    have hshadow : ¬ HasLine username ((files shadowPath).getD []) := by
      intro hline
      obtain ⟨hfalse, hempty⟩ := setPassword_loses hname.nonempty hline
      rcases hpasswords hline with ⟨password, hverifies⟩ | ⟨other, hother, hstored⟩
      · have hstill := hrefused.set_verifies hfalse password hverifies
        rw [contentOf, id, hempty] at hstill
        cases hstill
      · have hkept := (hrefused.set_keeps other hother).2
        rw [contentOf, id, hempty] at hkept
        rw [show passwordIn other (lines newline ((files shadowPath).getD [])) = none
          from hkept.symm] at hstored
        cases hstored
    refine ⟨hshadow, fun hline => ?_, (passwordIn_kept_iff hname).mp ?_⟩
    · obtain ⟨other, hother, hrecord⟩ := hrecords hline
      have hkept := (hrefused.remove_keeps other hother).1
      rw [contentOf, id, removeUser_loses hname.nonempty hline] at hkept
      rw [show recordIn (fun candidate => candidate.username = other)
        (lines newline ((files passwdPath).getD [])) = none from hkept.symm] at hrecord
      cases hrecord
    · intro kept other hother
      have hshort := hsafe _ (shortFiles kept) id files (fileLaws_memoryFiles _ _) rfl
      have hkept := (hshort.set_keeps other hother).2
      rw [contentOf, id, setPassword_short hname.nonempty hshadow] at hkept
      exact hkept
  · rintro ⟨hshadow, hpasswd, hapart⟩ σ fs view world hlaws rfl
    exact losesNothing_of_not_hasLine hlaws hname hapart hshadow hpasswd

def plainHash (password salt : Text) : Text := (password ++ salt ++ List.replicate 32 0).take 32

def twoUsers : Text → Option Text := fun path =>
  if path = passwdPath then
    some (text "ann:x:1:1:/:cmd\nbob:x:2:2:/:cmd\n")
  else if path = shadowPath then
    some (shadowLine (text "ann") (plainHash (text "red") (text "saltsalt")) (text "saltsalt") ++
      [newline] ++
      shadowLine (text "bob") (plainHash (text "blue") (text "saltsalt")) (text "saltsalt") ++
      [newline])
  else
    none

instance (username content : Text) : Decidable (HasLine username content) :=
  inferInstanceAs (Decidable (∃ line ∈ lines newline content, matchesUsername username line))

/-- A first password for a user the store does not know yet. -/
theorem account_change_new :
    LosesNothing refusingFiles id plainHash (plainHash (text "green") (text "saltsalt"))
      (text "saltsalt") (text "eve") twoUsers := by
  have hname : UserName (text "eve") := ⟨by decide, by decide, by decide⟩
  have hshadow : ¬ HasLine (text "eve") ((twoUsers shadowPath).getD []) := by decide +kernel
  have hpasswd : ¬ HasLine (text "eve") ((twoUsers passwdPath).getD []) := by decide +kernel
  exact (account_change_iff hname plainHash _ _ twoUsers (fun hline => absurd hline hshadow)
    (fun hline => absurd hline hpasswd)).mpr
      ⟨hshadow, hpasswd, appendsApart_of_ended hname (by decide +kernel)⟩
      _ refusingFiles id twoUsers fileLaws_refusingFiles rfl

/-- A new password for `ann` while the move and the append are refused: the call says
so, and neither `ann` nor `bob` has a password any more. -/
theorem setPassword_loses_everybody :
    FileLaws refusingFiles id ∧
      verifyPassword refusingFiles plainHash (text "ann") (text "red") twoUsers = true ∧
      verifyPassword refusingFiles plainHash (text "bob") (text "blue") twoUsers = true ∧
      (setPassword refusingFiles (plainHash (text "green") (text "saltsalt")) (text "saltsalt")
        (text "ann") twoUsers).1 = false ∧
      verifyPassword refusingFiles plainHash (text "ann") (text "red")
        (setPassword refusingFiles (plainHash (text "green") (text "saltsalt")) (text "saltsalt")
          (text "ann") twoUsers).2 = false ∧
      verifyPassword refusingFiles plainHash (text "bob") (text "blue")
        (setPassword refusingFiles (plainHash (text "green") (text "saltsalt")) (text "saltsalt")
          (text "ann") twoUsers).2 = false := by
  refine ⟨fileLaws_refusingFiles, ?_⟩
  decide +kernel

end PdiStack.AccountChange
