import PdiStack.User.UserFiles

/-!
# Adding a user

`addUser` writes the fields of a record as they come and puts the line behind the
passwd file as it stands.  A colon or a line end in a field moves what follows into
other fields or other lines, a leading `#` makes the line a comment, a carriage
return at its end is dropped, and an unfinished last line of the file swallows the
new one.  `addUser_iff` says exactly when the record comes back as it was added and
every other name keeps what it had.
-/

namespace PdiStack.AddUser

open StringOperations DataTypeConversions FileSystemInterface Lines UserStore UserFiles List Option

variable {content line : Text} {item : UInt8} {record : UserRecord} (accepts : UserRecord → Bool)

/-- A line parses when it has six fields and is no comment. -/
theorem parsePasswdLine_eq_some_iff :
    parsePasswdLine line = some record ↔
      line ≠ [] ∧ line.head? ≠ some lineCommentChar ∧
        ∃ password uid gid rest,
          line.splitOn fieldSep =
            record.username :: password :: uid :: gid :: record.home :: record.shell :: rest ∧
          record.uid = numberField uid ∧ record.gid = numberField gid := by
  unfold parsePasswdLine
  split
  case isTrue hrefused =>
    refine ⟨nofun, ?_⟩
    rintro ⟨hline, hhead, -⟩
    rcases hrefused with hempty | hcomment
    · exact absurd hempty hline
    · exact absurd hcomment hhead
  case isFalse hread =>
    obtain ⟨hline, hhead⟩ := not_or.mp hread
    split
    case h_1 username password uid gid home shell rest hfields =>
      rw [some.injEq]
      constructor
      · rintro rfl
        exact ⟨hline, hhead, password, uid, gid, rest, hfields, rfl, rfl⟩
      · rintro ⟨-, -, password', uid', gid', rest', hfields', huid, hgid⟩
        rw [hfields] at hfields'
        obtain ⟨record_uid, record_gid, name, recordHome, recordShell⟩ := record
        simp only [List.cons.injEq] at hfields' huid hgid
        obtain ⟨rfl, -, rfl, rfl, rfl, rfl, -⟩ := hfields'
        rw [huid, hgid]
    case h_2 hfew =>
      refine ⟨nofun, ?_⟩
      rintro ⟨-, -, password, uid, gid, rest, hfields, -⟩
      exact absurd hfields (hfew _ _ _ _ _ _ _)

def texts (record : UserRecord) : List Text := [record.username, record.home, record.shell]

/-- The texts of a parsed record lie in its line and hold no separator. -/
theorem mem_texts_of_parse {field : Text} (hparse : parsePasswdLine line = some record)
    (hfield : field ∈ texts record) (hitem : item ∈ field) : item ∈ line ∧ item ≠ fieldSep := by
  obtain ⟨-, -, password, uid, gid, rest, hfields, -⟩ := parsePasswdLine_eq_some_iff.mp hparse
  rw [List.splitOn] at hfields
  refine (Occurrence.of_mem_splitOnP (· == fieldSep) line field ?_ item hitem).imp_right
    beq_eq_false_iff_ne.mp
  rw [hfields]
  simp only [texts, mem_cons, not_mem_nil, or_false] at hfield ⊢
  rcases hfield with rfl | rfl | rfl <;> simp

/-- The username of a parsed record starts its line. -/
theorem head?_of_parse (hparse : parsePasswdLine line = some record) :
    record.username.head? ≠ some lineCommentChar := by
  obtain ⟨-, hhead, password, uid, gid, rest, hfields, -⟩ := parsePasswdLine_eq_some_iff.mp hparse
  intro hcomment
  have hline : [fieldSep].intercalate (line.splitOn fieldSep) = line := intercalate_splitOn fieldSep
  rw [hfields, intercalate_cons_cons, append_assoc] at hline
  apply hhead
  rw [← hline, head?_append, hcomment, some_or]

/-- A digit is neither a separator nor a line end. -/
theorem notMem_uint32ToString {value : UInt16} {char : UInt8} (hchar : isDigit char = false) :
    char ∉ uint32ToString value.toUInt32 8 := by
  intro hmem
  rw [(digits_uint32ToString value).1 char hmem] at hchar
  cases hchar

/-- A character other than the separator that no text of a record holds is in no field
of its line, `x` and digits apart. -/
theorem notMem_passwdFields {char : UInt8} (hx : char ∉ text "x") (hdigit : isDigit char = false)
    (htexts : ∀ field ∈ texts record, char ∉ field) :
    ∀ field ∈ passwdFields record, char ∉ field := by
  intro field hfield
  simp only [passwdFields, mem_cons, not_mem_nil, or_false] at hfield
  rcases hfield with rfl | rfl | rfl | rfl | rfl | rfl
  · exact htexts _ (by simp [texts])
  · exact hx
  · exact notMem_uint32ToString hdigit
  · exact notMem_uint32ToString hdigit
  · exact htexts _ (by simp [texts])
  · exact htexts _ (by simp [texts])

theorem splitOn_serializePasswdLine (htexts : ∀ field ∈ texts record, fieldSep ∉ field) :
    (serializePasswdLine record).splitOn fieldSep = passwdFields record :=
  splitOn_intercalate fieldSep
    (notMem_passwdFields (by decide) (by decide) htexts) (cons_ne_nil _ _)

def passwdFront (record : UserRecord) : Text :=
  record.username ++ ([fieldSep] ++ text "x" ++ [fieldSep] ++
    uint32ToString record.uid.toUInt32 8 ++ [fieldSep] ++ uint32ToString record.gid.toUInt32 8 ++
    [fieldSep] ++ record.home) ++ [fieldSep]

theorem serializePasswdLine_eq (record : UserRecord) :
    serializePasswdLine record = passwdFront record ++ record.shell := by
  simp [serializePasswdLine, passwdFront, passwdFields]

theorem getLast?_serializePasswdLine (record : UserRecord) :
    (serializePasswdLine record).getLast? = record.shell.getLast?.or (some fieldSep) := by
  rw [serializePasswdLine_eq, getLast?_append, passwdFront, getLast?_concat]

/-- A record whose texts hold no separator, and that starts no comment, comes back
from its line. -/
theorem parse_serialize (hname : record.username ≠ [])
    (htexts : ∀ field ∈ texts record, fieldSep ∉ field)
    (hcomment : record.username.head? ≠ some lineCommentChar) :
    parsePasswdLine (serializePasswdLine record) = some record := by
  rw [parsePasswdLine_eq_some_iff]
  refine ⟨?_, ?_, _, _, _, [], splitOn_serializePasswdLine htexts,
    (stringToUint32Upto_uint32ToString record.uid).symm,
    (stringToUint32Upto_uint32ToString record.gid).symm⟩
  · simp [serializePasswdLine_eq, passwdFront]
  · obtain ⟨first, rest, hfirst⟩ := exists_cons_of_ne_nil hname
    rw [hfirst] at hcomment
    rw [serializePasswdLine_eq, passwdFront, hfirst]
    exact hcomment

/-- A carriage return at the end of the shell is not part of what is read back. -/
theorem popCarriageReturn_serialize (hreturn : record.shell.getLast? = some carriageReturn) :
    popCarriageReturn (serializePasswdLine record) =
      serializePasswdLine { record with shell := record.shell.dropLast } := by
  have hshell : record.shell ≠ [] := by
    rintro hempty
    rw [hempty] at hreturn
    cases hreturn
  rw [popCarriageReturn, getLast?_serializePasswdLine, hreturn,
    serializePasswdLine_eq, serializePasswdLine_eq, dropLast_append_of_ne_nil hshell]
  rfl

/-- When the line of a record is read back as that record. -/
theorem parse_pop_serialize_iff (hname : record.username ≠ []) :
    parsePasswdLine (popCarriageReturn (serializePasswdLine record)) = some record ↔
      (∀ field ∈ texts record, fieldSep ∉ field) ∧ record.username.head? ≠ some lineCommentChar ∧
        record.shell.getLast? ≠ some carriageReturn := by
  constructor
  · intro hparse
    have htexts : ∀ field ∈ texts record, fieldSep ∉ field := fun field hfield hsep =>
      (mem_texts_of_parse hparse hfield hsep).2 rfl
    have hcomment := head?_of_parse hparse
    refine ⟨htexts, hcomment, fun hreturn => ?_⟩
    rw [popCarriageReturn_serialize hreturn] at hparse
    have hcut : ∀ field ∈ texts { record with shell := record.shell.dropLast },
        fieldSep ∉ field := by
      simp only [texts, forall_mem_cons] at htexts ⊢
      exact ⟨htexts.1, htexts.2.1, fun hsep => htexts.2.2.1 (mem_of_mem_dropLast hsep),
        htexts.2.2.2⟩
    have hback := parse_serialize
      (show { record with shell := record.shell.dropLast }.username ≠ [] from hname) hcut hcomment
    rw [hback, some.injEq] at hparse
    have hlength := congrArg (fun record => record.shell.length) hparse
    simp only [length_dropLast] at hlength
    have hempty : record.shell = [] := length_eq_zero_iff.mp (by omega)
    rw [hempty] at hreturn
    cases hreturn
  · rintro ⟨htexts, hcomment, hreturn⟩
    rw [popCarriageReturn, getLast?_serializePasswdLine, if_neg]
    · exact parse_serialize hname htexts hcomment
    · cases hlast : record.shell.getLast? with
      | none => decide
      | some last =>
        rw [hlast] at hreturn
        exact hreturn

section Sound

variable {σ : Type} {fs : FileSystem σ} {view : View σ}

/-- What a successful `addUser` found and what it leaves in the passwd file. -/
theorem addUser_spec (hsound : SoundFiles fs view) {hashPassword : Text → Text → Text}
    {salt password : Text} {world next : σ}
    (hadd : addUser fs hashPassword salt record password world = (true, next)) :
    record.username ≠ [] ∧ findUserByName fs (cString record.username) world = none ∧
      contentOf view passwdPath next =
        contentOf view passwdPath world ++ (serializePasswdLine record ++ [newline]) := by
  unfold addUser at hadd
  split at hadd
  case isTrue => cases hadd
  case isFalse hname =>
    split at hadd
    case isTrue => cases hadd
    case isFalse hnew =>
      refine ⟨hname, not_isSome_iff_eq_none.mp hnew, ?_⟩
      extract_lets line append at hadd
      have happend : ∀ before, append before = (true, next) →
          contentOf view passwdPath next = contentOf view passwdPath before ++ line := by
        intro before hwritten
        have hwrite := (hsound.append_ok passwdPath line before (by decide) (by simp [line])).2
        dsimp only [append] at hwritten
        split at hwritten
        case h_1 => cases hwritten
        case h_2 count written hnext =>
          rw [hnext] at hwrite
          have hafter : view next passwdPath = view written passwdPath := by
            split at hwritten
            case isTrue => cases hwritten; rfl
            case isFalse =>
              have hother := setPassword_other hsound.toFileLaws (hashPassword password salt) salt
                (cString record.username) written
                (show passwdPath ≠ shadowPath by decide)
                (show passwdPath ≠ tempPath shadowPath by decide)
              split at hwritten
              case h_1 after hset =>
                cases hwritten
                rw [hset] at hother
                exact hother
              case h_2 => cases hwritten
          rw [contentOf, hafter, hwrite]
          rfl
      rw [hsound.exists_eq passwdPath world (by decide)] at hadd
      split at hadd
      case isTrue => exact happend world hadd
      case isFalse hmissing =>
        have hnone : view world passwdPath = none := not_isSome_iff_eq_none.mp hmissing
        have hcreate := (hsound.create_ok passwdPath world (by decide) hnone).2
        split at hadd
        case h_1 => cases hadd
        case h_2 count created hnext =>
          rw [hnext] at hcreate
          rw [happend created hadd, contentOf, contentOf, hcreate, hnone]
          rfl

theorem findUserByName_eq (hsound : SoundFiles fs view) {name : Text} (hname : name ≠ [])
    (world : σ) :
    findUserByName fs name world = recordIn (fun candidate => candidate.username = name)
      (lines newline (contentOf view passwdPath world)) := by
  rw [findUserByName, if_neg hname, scanPasswdFile, scanFile_eq hsound (by decide)]
  rfl

theorem findUserByUid_eq (hsound : SoundFiles fs view) (uid : UInt16) (world : σ) :
    findUserByUid fs uid world = recordIn (fun candidate => candidate.uid = uid)
      (lines newline (contentOf view passwdPath world)) := by
  rw [findUserByUid, scanPasswdFile, scanFile_eq hsound (by decide)]
  rfl

end Sound

theorem recordIn_append (front back : List Text) :
    recordIn accepts (front ++ back) = (recordIn accepts front).or (recordIn accepts back) :=
  findSome?_append

theorem recordIn_singleton (line : Text) :
    recordIn accepts [line] = (parsePasswdLine (popCarriageReturn line)).filter accepts := by
  rw [recordIn, findSome?_singleton]

theorem exists_of_recordIn {accepts : UserRecord → Bool} {linesOfFile : List Text}
    (hfound : recordIn accepts linesOfFile = some record) :
    ∃ line ∈ linesOfFile, parsePasswdLine (popCarriageReturn line) = some record ∧
      accepts record := by
  obtain ⟨line, hline, hparse⟩ := exists_of_findSome?_eq_some hfound
  obtain ⟨hparse, haccepts⟩ := filter_eq_some_iff.mp hparse
  exact ⟨line, hline, hparse, haccepts⟩

theorem mem_of_mem_popCarriageReturn (hitem : item ∈ popCarriageReturn line) : item ∈ line := by
  unfold popCarriageReturn at hitem
  split at hitem
  · exact mem_of_mem_dropLast hitem
  · exact hitem

theorem newline_notMem_serialize (htexts : ∀ field ∈ texts record, newline ∉ field) :
    newline ∉ serializePasswdLine record := by
  have hfields := notMem_passwdFields (by decide) (by decide) htexts
  simp only [passwdFields, forall_mem_cons] at hfields
  obtain ⟨hname, hx, huid, hgid, hhome, hshell, -⟩ := hfields
  have hsep : newline ≠ fieldSep := by decide
  simp [serializePasswdLine_eq, passwdFront, hname, hx, huid, hgid, hhome, hshell, hsep]

/-- The lines of a file behind which a line was written: the last one is joined to
what was not ended. -/
theorem lines_append_line (hline : newline ∉ line) :
    lines newline (content ++ (line ++ [newline])) =
      lines newline (ended newline content) ++ [unended newline content ++ line] := by
  have hjoined : newline ∉ unended newline content ++ line := by
    rw [mem_append, not_or]
    exact ⟨notMem_unended content, hline⟩
  rw [lines_append, ← append_assoc, lines_line_append hjoined, lines_nil]

/-- When a record is found under its name among the lines it was written behind. -/
theorem recordIn_name_iff
    (hfresh : recordIn (fun candidate => candidate.username = record.username)
      (lines newline (ended newline content)) = none) :
    recordIn (fun candidate => candidate.username = record.username)
        (lines newline (content ++ (serializePasswdLine record ++ [newline]))) = some record ↔
      (∀ field ∈ texts record, newline ∉ field) ∧
        parsePasswdLine (popCarriageReturn
          (unended newline content ++ serializePasswdLine record)) = some record := by
  constructor
  · intro hfound
    have htexts : ∀ field ∈ texts record, newline ∉ field := by
      intro field hfield hmem
      obtain ⟨line, hline, hparse, -⟩ := exists_of_recordIn hfound
      exact notMem_of_mem_lines hline
        (mem_of_mem_popCarriageReturn (mem_texts_of_parse hparse hfield hmem).1)
    refine ⟨htexts, ?_⟩
    rw [lines_append_line (newline_notMem_serialize htexts), recordIn_append, hfresh,
      none_or, recordIn_singleton] at hfound
    exact (filter_eq_some_iff.mp hfound).1
  · rintro ⟨htexts, hparse⟩
    rw [lines_append_line (newline_notMem_serialize htexts), recordIn_append, hfresh,
      none_or, recordIn_singleton, hparse, filter_some, if_pos (by simp)]

/-- Nobody whose name a lookup can ask for has their first record in the line that is
not ended. -/
def HidesNobody (content : Text) : Prop :=
  ∀ other, parsePasswdLine (popCarriageReturn (unended newline content)) = some other →
    other.username ≠ [] → 0 ∉ other.username →
    (recordIn (fun candidate => candidate.username = other.username)
      (lines newline (ended newline content))).isSome

theorem hidesNobody_of_ended (hended : unended newline content = []) : HidesNobody content := by
  intro other hparse
  rw [hended] at hparse
  cases hparse

theorem recordIn_lines_unended (content : Text) :
    recordIn accepts (lines newline (unended newline content)) =
      (parsePasswdLine (popCarriageReturn (unended newline content))).filter accepts := by
  by_cases hended : unended newline content = []
  · rw [hended]
    rfl
  · rw [lines_of_notMem (notMem_unended content) hended, recordIn_singleton]

/-- When every other name keeps what it had, for a record that is found itself. -/
theorem recordIn_others_iff
    (hfresh : recordIn (fun candidate => candidate.username = record.username)
      (lines newline content) = none) (htexts : ∀ field ∈ texts record, newline ∉ field)
    (hparse : parsePasswdLine (popCarriageReturn
      (unended newline content ++ serializePasswdLine record)) = some record) :
    (∀ name, name ≠ [] → 0 ∉ name → name ≠ record.username →
        recordIn (fun candidate => candidate.username = name)
            (lines newline (content ++ (serializePasswdLine record ++ [newline]))) =
          recordIn (fun candidate => candidate.username = name) (lines newline content)) ↔
      HidesNobody content := by
  have hafter : ∀ name, name ≠ record.username →
      recordIn (fun candidate => candidate.username = name)
          (lines newline (content ++ (serializePasswdLine record ++ [newline]))) =
        recordIn (fun candidate => candidate.username = name)
          (lines newline (ended newline content)) := by
    intro name hother
    rw [lines_append_line (newline_notMem_serialize htexts), recordIn_append, recordIn_singleton,
      hparse, filter_some, if_neg (by simpa using Ne.symm hother), or_none]
  constructor
  · intro hothers other hlast hname hnul
    by_contra hmissing
    rw [not_isSome_iff_eq_none] at hmissing
    have hfound : recordIn (fun candidate => candidate.username = other.username)
        (lines newline content) = some other := by
      rw [lines_eq_append newline, recordIn_append, hmissing, none_or, recordIn_lines_unended,
        hlast, filter_some, if_pos (by simp)]
    have hother : other.username ≠ record.username := by
      intro hsame
      rw [hsame, hfresh] at hfound
      cases hfound
    have hkept := hothers other.username hname hnul hother
    rw [hafter _ hother, hmissing, hfound] at hkept
    cases hkept
  · intro hhides name hname hnul hother
    rw [hafter name hother, lines_eq_append newline content, recordIn_append, recordIn_lines_unended]
    cases hfront : recordIn (fun candidate => candidate.username = name)
        (lines newline (ended newline content)) with
    | some found => rw [some_or]
    | none =>
      -- a hit in the last line alone would be somebody hidden by the new one
      rw [none_or]
      cases hlast : (parsePasswdLine (popCarriageReturn (unended newline content))).filter
          fun candidate => candidate.username = name with
      | none => rfl
      | some other =>
        obtain ⟨hparsed, hsame⟩ := filter_eq_some_iff.mp hlast
        have hname' : other.username = name := by simpa using hsame
        have hseen := hhides other hparsed (hname' ▸ hname) (hname' ▸ hnul)
        rw [hname', hfront] at hseen
        cases hseen

/-- A record that is written and read back without change. -/
structure PlainRecord (record : UserRecord) : Prop where
  named : 0 ∉ record.username
  noSeparator : ∀ field ∈ texts record, fieldSep ∉ field
  noLineEnd : ∀ field ∈ texts record, newline ∉ field
  noComment : record.username.head? ≠ some lineCommentChar
  noReturn : record.shell.getLast? ≠ some carriageReturn

/-- The last line of the passwd file is not ended, and together with the new line it
happens to read as the added record. -/
structure JoinsLastLine (content : Text) (record : UserRecord) : Prop where
  unfinished : unended newline content ≠ []
  named : 0 ∉ record.username
  noLineEnd : ∀ field ∈ texts record, newline ∉ field
  reads : parsePasswdLine (popCarriageReturn
    (unended newline content ++ serializePasswdLine record)) = some record
  hidesNobody : HidesNobody content

/-- The added user has their record, the uid answers with a record of that uid, and
every other name answers as before. -/
structure GetsItsRecord {σ : Type} (fs : FileSystem σ) (record : UserRecord) (before after : σ) :
    Prop where
  byName : findUserByName fs (cString record.username) after = some record
  byUid : ∃ found, findUserByUid fs record.uid after = some found ∧ found.uid = record.uid
  others : ∀ name, 0 ∉ name → name ≠ cString record.username →
    findUserByName fs name after = findUserByName fs name before

theorem cString_eq_self_iff {string : Text} : cString string = string ↔ 0 ∉ string := by
  refine ⟨fun hself hnul => ?_, cString_of_notMem⟩
  rw [← hself] at hnul
  simpa [cString] using mem_takeWhile_imp hnul

section Added

variable {σ : Type} {fs : FileSystem σ} {view : View σ}

/-- What the three parts come to in the content of the passwd file. -/
theorem getsItsRecord_iff_reads (hsound : SoundFiles fs view) {hashPassword : Text → Text → Text}
    {salt password : Text} {world next : σ}
    (hadd : addUser fs hashPassword salt record password world = (true, next)) :
    GetsItsRecord fs record world next ↔
      0 ∉ record.username ∧ (∀ field ∈ texts record, newline ∉ field) ∧
        parsePasswdLine (popCarriageReturn (unended newline (contentOf view passwdPath world) ++
          serializePasswdLine record)) = some record ∧
        HidesNobody (contentOf view passwdPath world) := by
  obtain ⟨hname, hnew, hcontent⟩ := addUser_spec hsound hadd
  by_cases hnul : 0 ∈ record.username
  · refine iff_of_false (fun hgets => ?_) (fun hreads => hreads.1 hnul)
    -- a name with a terminator inside is never the C string it is looked up by
    have hbyName := hgets.byName
    by_cases hempty : cString record.username = []
    · rw [hempty] at hbyName
      cases hbyName
    · rw [findUserByName_eq hsound hempty] at hbyName
      obtain ⟨-, -, -, hself⟩ := exists_of_recordIn hbyName
      exact cString_eq_self_iff.mp (of_decide_eq_true hself).symm hnul
  · have hself := cString_of_notMem hnul
    rw [hself, findUserByName_eq hsound hname] at hnew
    have hfresh := hnew
    rw [lines_eq_append newline, recordIn_append, or_eq_none_iff] at hfresh
    have hbyName := recordIn_name_iff hfresh.1
    rw [← hcontent, ← findUserByName_eq hsound hname] at hbyName
    constructor
    · intro hgets
      obtain ⟨htexts, hparse⟩ := hbyName.mp (hself ▸ hgets.byName)
      refine ⟨hnul, htexts, hparse, (recordIn_others_iff hnew htexts hparse).mp ?_⟩
      intro name hname' hnul' hother
      have hkept := hgets.others name hnul' (hself.symm ▸ hother)
      rwa [findUserByName_eq hsound hname', findUserByName_eq hsound hname', hcontent] at hkept
    · rintro ⟨-, htexts, hparse, hhides⟩
      refine ⟨hself.symm ▸ hbyName.mpr ⟨htexts, hparse⟩, ?_, fun name hnul' hother => ?_⟩
      · rw [findUserByUid_eq hsound, hcontent,
          lines_append_line (newline_notMem_serialize htexts), recordIn_append,
          recordIn_singleton, hparse, filter_some, if_pos (by simp)]
        cases hfront : recordIn (fun candidate => candidate.uid = record.uid)
            (lines newline (ended newline (contentOf view passwdPath world))) with
        | none => exact ⟨record, none_or, rfl⟩
        | some found =>
          obtain ⟨-, -, -, huid⟩ := exists_of_recordIn hfront
          exact ⟨found, some_or, of_decide_eq_true huid⟩
      · by_cases hname' : name = []
        · rw [hname', findUserByName, findUserByName, if_pos rfl, if_pos rfl]
        · rw [findUserByName_eq hsound hname', findUserByName_eq hsound hname', hcontent]
          exact (recordIn_others_iff hnew htexts hparse).mpr hhides name hname' hnul'
            (hself ▸ hother)

/-- The added user has exactly the record that was added, and nobody else is
affected, just when the file ends with a line end and the texts of the record hold
nothing the format gives a meaning to, or when an unfinished last line happens to
complete the new one. -/
theorem addUser_iff (hsound : SoundFiles fs view) {hashPassword : Text → Text → Text}
    {salt password : Text} {record : UserRecord} {world next : σ}
    (hadd : addUser fs hashPassword salt record password world = (true, next)) :
    GetsItsRecord fs record world next ↔
      (unended newline (contentOf view passwdPath world) = [] ∧ PlainRecord record) ∨
        JoinsLastLine (contentOf view passwdPath world) record := by
  obtain ⟨hname, -, -⟩ := addUser_spec hsound hadd
  rw [getsItsRecord_iff_reads hsound hadd]
  by_cases hended : unended newline (contentOf view passwdPath world) = []
  · rw [hended, nil_append, parse_pop_serialize_iff hname]
    constructor
    · rintro ⟨hnul, htexts, ⟨hsep, hcomment, hreturn⟩, -⟩
      exact .inl ⟨rfl, hnul, hsep, htexts, hcomment, hreturn⟩
    · rintro (⟨-, hplain⟩ | hjoins)
      · exact ⟨hplain.named, hplain.noLineEnd,
          ⟨hplain.noSeparator, hplain.noComment, hplain.noReturn⟩, hidesNobody_of_ended hended⟩
      · exact absurd hended hjoins.unfinished
  · constructor
    · rintro ⟨hnul, htexts, hparse, hhides⟩
      exact .inr ⟨hended, hnul, htexts, hparse, hhides⟩
    · rintro (⟨hended', -⟩ | hjoins)
      · exact absurd hended' hended
      · exact ⟨hjoins.named, hjoins.noLineEnd, hjoins.reads, hjoins.hidesNobody⟩

end Added

def recordFor (username : String) : UserRecord :=
  { uid := 1000, gid := 1000, username := text username, home := text "/home", shell := text "cmd" }

/-- Adding a user without a password to an empty store. -/
def addedTo (username : String) : Bool × (Text → Option Text) :=
  addUser (memoryFiles true fun _ => none) (fun _ _ => []) [] (recordFor username) [] fun _ => none

/-- A plain name in an empty store. -/
theorem addUser_plain :
    GetsItsRecord (memoryFiles true fun _ => none) (recordFor "eve") (fun _ => none)
      (addedTo "eve").2 := by
  have hadd : addedTo "eve" = (true, (addedTo "eve").2) := Prod.ext (by decide +kernel) rfl
  refine (addUser_iff soundFiles_memoryFiles hadd).mpr (.inl ⟨by decide +kernel, ?_⟩)
  exact ⟨by decide +kernel, by decide +kernel, by decide +kernel, by decide +kernel,
    by decide +kernel⟩

/-- A name with colons in it makes an account of another name with the uid of root, and
is not found itself. -/
theorem addUser_takes_root :
    (addedTo "eve:x:0:0:/:s").1 = true ∧
      findUserByName (memoryFiles true fun _ => none) (text "eve") (fun _ => none) = none ∧
      findUserByName (memoryFiles true fun _ => none) (text "eve") (addedTo "eve:x:0:0:/:s").2 =
        some { uid := 0, gid := 0, username := text "eve", home := text "/", shell := text "s" } ∧
      findUserByName (memoryFiles true fun _ => none) (text "eve:x:0:0:/:s")
        (addedTo "eve:x:0:0:/:s").2 = none := by
  decide +kernel

end PdiStack.AddUser
