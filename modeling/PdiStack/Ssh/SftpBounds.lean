import PdiStack.Ssh.Sftp
import PdiStack.Storage.TmpFs

/-!
# What an SFTP request is read from

The handler checks the strings of a request against the end of the data it was called
with, and the offset, the length and the content of a read or a write against nothing.
`readRight_iff` says for which data it reads nothing behind the end of the request, and
answers a read or a write that is cut short as a bad message.
-/

namespace PdiStack.SftpBounds

open StringOperations Message ByteReader Sftp Option

variable (data : Text)

def requestEnd : ℕ := 4 + packetLength data

structure Served (data : Text) : Prop where
  header : 4 ≤ data.length
  arrived : requestEnd data ≤ data.length
  type_id : 9 ≤ requestEnd data
  small : packetLength data < 2 ^ 31

def stringEnd : ℕ := 13 + (wordAt data 9).toNat

def handleBytes : Text := (data.drop 13).take (wordAt data 9).toNat

/-- The offset and the length of a read or a write follow its handle, and the content of a
write follows them. -/
def fieldsEnd : ℕ := stringEnd data + 12

def fileOffset : UInt64 := word64At data (stringEnd data)

def contentLength : ℕ := (wordAt data (stringEnd data + 8)).toNat

def contentEnd : ℕ := fieldsEnd data + contentLength data

def contentBytes : Text := (data.drop (fieldsEnd data)).take (contentLength data)

/-- The request ends before its offset and its length do. -/
def Truncated : Prop := requestEnd data < fieldsEnd data

/-- The request has an offset and a length, and fewer bytes than it says. -/
structure Short (data : Text) : Prop where
  fields : fieldsEnd data ≤ requestEnd data
  content : requestEnd data < contentEnd data

/-- A turn that reads nothing behind the request, refuses a read or a write that is cut
short and leaves the file as it is, and hands the content of a write on as it stands in
the request. -/
structure ReadRight {σ : Type} (env : SftpEnv σ) (data : Text) (request : SubsystemRequest)
    (world : σ) (turn : SftpTurn σ) : Prop where
  reach : turn.reach ≤ requestEnd data
  truncated : Served data → packetType data = some .read ∨ packetType data = some .write →
    Truncated data →
    turn.reply = statusReply (requestIdOf data) .badMessage ∧ turn.world = world
  short : Served data → packetType data = some .write → Short data →
    turn.reply = statusReply (requestIdOf data) .badMessage ∧ turn.world = world
  stored : Served data → packetType data = some .write → contentEnd data ≤ requestEnd data →
    handleBytes data ≠ [] → request.handle = handleBytes data →
    turn.world = (env.fs.editFile (cString request.filepath) (fileOffset data)
      (contentBytes data) world).2

/-! ## Fields inside the request -/

structure StringInside (data : Text) (limit offset : ℕ) : Prop where
  length : offset + 4 ≤ data.length → offset + 4 ≤ limit
  bytes : offset + 4 + (wordAt data offset).toNat ≤ data.length →
    offset + 4 + (wordAt data offset).toNat ≤ limit

/-- The fields of a request do not lead out of it. -/
def FieldsInside : Prop :=
  match packetType data with
  | none | some .init | some .readlink | some .symlink => True
  | some .open =>
    StringInside data (requestEnd data) 9 ∧
      ((afterString data ⟨9, 9⟩).offset + 4 ≤ data.length →
        (afterString data ⟨9, 9⟩).offset + 4 ≤ requestEnd data)
  | some .rename =>
    StringInside data (requestEnd data) 9 ∧
      (stringEnd data ≤ requestEnd data → StringInside data (requestEnd data) (stringEnd data))
  | some .read =>
    StringInside data (requestEnd data) 9 ∧
      (stringEnd data ≤ requestEnd data → handleBytes data ≠ [] → fieldsEnd data ≤ requestEnd data)
  | some .write =>
    StringInside data (requestEnd data) 9 ∧
      (stringEnd data ≤ requestEnd data → handleBytes data ≠ [] → contentEnd data ≤ requestEnd data)
  | some _ => StringInside data (requestEnd data) 9

section Strings

variable {data : Text} {cursor : Cursor} {limit : ℕ}

theorem reach_past_le_iff {count : ℕ} :
    (cursor.past count).reach ≤ limit ↔ cursor.reach ≤ limit ∧ cursor.offset + count ≤ limit :=
  Nat.max_le

/-- A string is read in front of a limit when it lies there as far as it is in the data. -/
theorem reach_afterString_le_iff :
    (afterString data cursor).reach ≤ limit ↔
      cursor.reach ≤ limit ∧ StringInside data limit cursor.offset := by
  unfold afterString
  split
  case isTrue hnone =>
    exact ⟨fun hreach => ⟨hreach, by omega, by omega⟩, And.left⟩
  case isFalse hlength =>
    split
    case isTrue hcut =>
      rw [reach_past_le_iff]
      exact ⟨fun ⟨hreach, hword⟩ => ⟨hreach, fun _ => hword, by omega⟩,
        fun ⟨hreach, hinside⟩ => ⟨hreach, hinside.length (by omega)⟩⟩
    case isFalse hwhole =>
      rw [reach_past_le_iff, reach_past_le_iff]
      constructor
      · rintro ⟨⟨hreach, hword⟩, hbytes⟩
        exact ⟨hreach, fun _ => hword, fun _ => hbytes⟩
      · rintro ⟨hreach, hinside⟩
        exact ⟨⟨hreach, hinside.length (by omega)⟩, hinside.bytes (by omega)⟩

theorem reach_afterString_nine_le_iff :
    (afterString data ⟨9, 9⟩).reach ≤ limit ↔ 9 ≤ limit ∧ StringInside data limit 9 :=
  @reach_afterString_le_iff data ⟨9, 9⟩ limit

theorem readSshString_nine (data : Text) :
    readSshString data 9 =
      if data.length < stringEnd data then none else some (handleBytes data, stringEnd data) := by
  have hend : stringEnd data = 13 + (wordAt data 9).toNat := rfl
  rw [readSshString]
  by_cases hbytes : data.length < stringEnd data
  · rw [if_pos hbytes, ite_eq_left_iff]
    intro hlength
    rw [if_pos (by omega)]
  · rw [if_neg (by omega), if_neg (by omega), if_neg hbytes]
    rfl

theorem afterString_nine (hwhole : stringEnd data ≤ data.length) :
    afterString data ⟨9, 9⟩ = ⟨stringEnd data, stringEnd data⟩ := by
  have hend : stringEnd data = 13 + (wordAt data 9).toNat := rfl
  rw [afterString, if_neg (by dsimp only; omega), if_neg (by dsimp only; omega)]
  unfold Cursor.past
  dsimp only
  congr 1
  omega

end Strings

/-! ## Branches -/

section Branches

variable {σ : Type} {env : SftpEnv σ} {requestId : UInt32} {request : SubsystemRequest} {world : σ}
  {data : Text} {limit : ℕ}

theorem within_onString {served : Text → SftpOutcome σ} :
    Reader.Within limit (onString request world served) data ⟨9, 9⟩ ↔
      9 ≤ limit ∧ StringInside data limit 9 := by
  have hrun : ∃ outcome, (onString request world served).run data ⟨9, 9⟩ =
      some (outcome, afterString data ⟨9, 9⟩) := by
    rw [onString, Reader.run_bind, run_takeSshString]
    cases readSshString data 9 with
    | none | some string => exact ⟨_, rfl⟩
  obtain ⟨outcome, hrun⟩ := hrun
  rw [Reader.within_of_run hrun, reach_afterString_nine_le_iff]

theorem within_sftpStat :
    Reader.Within limit (sftpStat env requestId request world) data ⟨9, 9⟩ ↔
      9 ≤ limit ∧ StringInside data limit 9 := by
  have hrun : ∃ outcome, (sftpStat env requestId request world).run data ⟨9, 9⟩ =
      some (outcome, afterString data ⟨9, 9⟩) := by
    rw [sftpStat, Reader.run_bind, run_takeSshString]
    dsimp only [bind_some]
    split
    · exact ⟨_, rfl⟩
    · exact ⟨_, rfl⟩
  obtain ⟨outcome, hrun⟩ := hrun
  rw [Reader.within_of_run hrun, reach_afterString_nine_le_iff]

/-- The flags of an open request are read when there are four more bytes in the data. -/
theorem within_sftpOpen :
    Reader.Within limit (sftpOpen env requestId request world) data ⟨9, 9⟩ ↔
      (9 ≤ limit ∧ StringInside data limit 9) ∧
        ((afterString data ⟨9, 9⟩).offset + 4 ≤ data.length →
          (afterString data ⟨9, 9⟩).offset + 4 ≤ limit) := by
  have hrun : ∃ outcome, (sftpOpen env requestId request world).run data ⟨9, 9⟩ =
      some (outcome,
        if (afterString data ⟨9, 9⟩).offset + 4 ≤ data.length then (afterString data ⟨9, 9⟩).past 4
        else afterString data ⟨9, 9⟩) := by
    rw [sftpOpen, Reader.run_bind, run_takeSshString]
    dsimp only [bind_some]
    rw [Reader.run_bind, Reader.run_fits]
    dsimp only [bind_some]
    by_cases hflags : (afterString data ⟨9, 9⟩).offset + 4 ≤ data.length
    · rw [if_pos hflags, if_pos (decide_eq_true hflags), Reader.run_bind, run_takeWord hflags]
      exact ⟨_, rfl⟩
    · rw [if_neg hflags, if_neg (by rw [decide_eq_true_eq]; exact hflags)]
      exact ⟨_, rfl⟩
  obtain ⟨outcome, hrun⟩ := hrun
  rw [Reader.within_of_run hrun, ← reach_afterString_nine_le_iff]
  split
  case isTrue hflags =>
    rw [reach_past_le_iff]
    exact ⟨fun ⟨hreach, hend⟩ => ⟨hreach, fun _ => hend⟩,
      fun ⟨hreach, hend⟩ => ⟨hreach, hend hflags⟩⟩
  case isFalse hflags =>
    exact ⟨fun hreach => ⟨hreach, fun hthere => absurd hthere hflags⟩, And.left⟩

/-- The second path of a rename is read once the first one is there. -/
theorem within_sftpRename (harrived : limit ≤ data.length) :
    Reader.Within limit (sftpRename env request world) data ⟨9, 9⟩ ↔
      (9 ≤ limit ∧ StringInside data limit 9) ∧
        (stringEnd data ≤ limit → StringInside data limit (stringEnd data)) := by
  rw [← reach_afterString_nine_le_iff]
  by_cases hcut : data.length < stringEnd data
  · have hrun : (sftpRename env request world).run data ⟨9, 9⟩ =
        some (status request world .badMessage, afterString data ⟨9, 9⟩) := by
      rw [sftpRename, Reader.run_bind, run_takeSshString, readSshString_nine, if_pos hcut]
      rfl
    rw [Reader.within_of_run hrun]
    exact ⟨fun hreach => ⟨hreach, by omega⟩, And.left⟩
  · have hrun : ∃ outcome, (sftpRename env request world).run data ⟨9, 9⟩ =
        some (outcome, afterString data ⟨stringEnd data, stringEnd data⟩) := by
      rw [sftpRename, Reader.run_bind, run_takeSshString, readSshString_nine, if_neg hcut,
        afterString_nine (Nat.not_lt.mp hcut)]
      dsimp only [bind_some, map_some]
      rw [Reader.run_bind, run_takeSshString]
      dsimp only [bind_some]
      cases readSshString data (stringEnd data) with
      | none => exact ⟨_, rfl⟩
      | some string =>
        dsimp only [map_some]
        split
        · exact ⟨_, rfl⟩
        split
        · exact ⟨_, rfl⟩
        split
        · exact ⟨_, rfl⟩
        · exact ⟨_, rfl⟩
    obtain ⟨outcome, hrun⟩ := hrun
    rw [Reader.within_of_run hrun, reach_afterString_le_iff, afterString_nine (Nat.not_lt.mp hcut)]
    exact ⟨fun ⟨hreach, hinside⟩ => ⟨hreach, fun _ => hinside⟩,
      fun ⟨hreach, hinside⟩ => ⟨hreach, hinside hreach⟩⟩

theorem run_onOpenHandle_none (served : Reader UInt8 (SftpOutcome σ))
    (hnone : data.length < stringEnd data ∨ handleBytes data = []) :
    (onOpenHandle request world served).run data ⟨9, 9⟩ =
      some (status request world .badMessage, afterString data ⟨9, 9⟩) := by
  rw [onOpenHandle, Reader.run_bind, run_takeSshString, readSshString_nine]
  by_cases hcut : data.length < stringEnd data
  · rw [if_pos hcut]
    rfl
  · rw [if_neg hcut]
    dsimp only [bind_some, map_some]
    rw [if_pos (hnone.resolve_left hcut)]
    rfl

theorem run_onOpenHandle_some (served : Reader UInt8 (SftpOutcome σ))
    (hwhole : stringEnd data ≤ data.length) (hhandle : handleBytes data ≠ []) :
    (onOpenHandle request world served).run data ⟨9, 9⟩ =
      if request.handle = handleBytes data then
        served.run data ⟨stringEnd data, stringEnd data⟩
      else
        some (status request world .invalidHandle, ⟨stringEnd data, stringEnd data⟩) := by
  rw [onOpenHandle, Reader.run_bind, run_takeSshString, readSshString_nine,
    if_neg (Nat.not_lt.mpr hwhole), afterString_nine hwhole]
  dsimp only [bind_some, map_some]
  rw [if_neg hhandle]
  split
  · rfl
  · rfl

theorem within_onOpenHandle_pure {outcome : SftpOutcome σ} :
    Reader.Within limit (onOpenHandle request world (pure outcome)) data ⟨9, 9⟩ ↔
      9 ≤ limit ∧ StringInside data limit 9 := by
  rw [← reach_afterString_nine_le_iff]
  by_cases hnone : data.length < stringEnd data ∨ handleBytes data = []
  · exact Reader.within_of_run (run_onOpenHandle_none (pure outcome) hnone)
  · rw [not_or, not_lt] at hnone
    have hrun := @run_onOpenHandle_some σ request world data (pure outcome) hnone.1 hnone.2
    rw [← afterString_nine hnone.1] at hrun
    split at hrun
    · exact Reader.within_of_run hrun
    · exact Reader.within_of_run hrun

/-- The offset and the length behind the handle are read without a check. -/
theorem run_fields {α : Type} (rest : UInt64 → UInt32 → Reader UInt8 α) :
    Reader.run (do
      let fileoffset ← takeWord64
      let length ← takeWord
      rest fileoffset length) data ⟨stringEnd data, stringEnd data⟩ =
      if data.length < fieldsEnd data then none
      else (rest (fileOffset data) (wordAt data (stringEnd data + 8))).run data
        ⟨fieldsEnd data, fieldsEnd data⟩ := by
  have hfields : fieldsEnd data = stringEnd data + 12 := rfl
  have hpast : Cursor.past ⟨stringEnd data, stringEnd data⟩ 8 =
      ⟨stringEnd data + 8, stringEnd data + 8⟩ := by
    rw [Cursor.past, max_eq_right (Nat.le_add_right _ _)]
  have hpast' : Cursor.past ⟨stringEnd data + 8, stringEnd data + 8⟩ 4 =
      ⟨fieldsEnd data, fieldsEnd data⟩ := by
    rw [Cursor.past, max_eq_right (Nat.le_add_right _ _)]
    rfl
  rw [Reader.run_bind]
  by_cases hoffset : data.length < stringEnd data + 8
  · rw [run_takeWord64_of_lt hoffset, if_pos (by omega)]
    rfl
  rw [run_takeWord64 (Nat.not_lt.mp hoffset), hpast]
  dsimp only [bind_some]
  rw [Reader.run_bind]
  by_cases hlength : data.length < fieldsEnd data
  · rw [run_takeWord_of_lt hlength, if_pos hlength]
    rfl
  · rw [run_takeWord (Nat.not_lt.mp hlength), hpast', if_neg hlength]
    rfl

end Branches

/-! ## Turns -/

section Turns

variable {σ : Type} {env : SftpEnv σ} {request : SubsystemRequest} {world : σ} {data : Text}
  {expectReply : Bool}

theorem handle_of_served (hsftp : isSftp request = true) (hserved : Served data) :
    handleChannelSubsystemSftpRequest env data expectReply request world =
      ((branchOf env (requestIdOf data) request world (packetType data)).run data ⟨9, 9⟩).map
        (turnOf (requestIdOf data) expectReply) := by
  obtain ⟨hheader, harrived, htype, hsmall⟩ := hserved
  unfold requestEnd at harrived htype
  rw [handleChannelSubsystemSftpRequest, if_neg (not_not_intro hsftp), if_neg (by omega),
    if_neg (by omega), if_pos ⟨by omega, hsmall⟩]

/-- Other data is passed over, or ends the session. -/
theorem handle_of_not_served (hserved : isSftp request = true → ¬ Served data) :
    ∃ turn, handleChannelSubsystemSftpRequest env data expectReply request world = some turn ∧
      turn.reach ≤ requestEnd data ∧ turn.reply = [] ∧ turn.sent = [] ∧ turn.world = world := by
  rw [handleChannelSubsystemSftpRequest]
  by_cases hsftp : isSftp request = true
  case neg =>
    rw [if_pos hsftp]
    exact ⟨_, rfl, Nat.zero_le _, rfl, rfl, rfl⟩
  rw [if_neg (not_not_intro hsftp)]
  by_cases hheader : data.length < 4
  · rw [if_pos hheader]
    exact ⟨_, rfl, Nat.zero_le _, rfl, rfl, rfl⟩
  rw [if_neg hheader]
  by_cases harrived : data.length - 4 < packetLength data
  · rw [if_pos harrived]
    exact ⟨_, rfl, Nat.le_add_right _ _, rfl, rfl, rfl⟩
  rw [if_neg harrived, if_neg]
  · exact ⟨_, rfl, Nat.le_add_right _ _, rfl, rfl, rfl⟩
  · rintro ⟨htype, hsmall⟩
    exact hserved hsftp ⟨Nat.not_lt.mp hheader, by unfold requestEnd; omega,
      by unfold requestEnd; omega, hsmall⟩

/-- Requests other than a read and a write are only asked how far they are read. -/
theorem readRight_iff_reach {turn : SftpTurn σ} (hread : packetType data ≠ some .read)
    (hwrite : packetType data ≠ some .write) :
    ReadRight env data request world turn ↔ turn.reach ≤ requestEnd data :=
  ⟨ReadRight.reach, fun hreach => ⟨hreach,
    fun _ htype => absurd htype (not_or.mpr ⟨hread, hwrite⟩),
    fun _ htype => absurd htype hwrite, fun _ htype => absurd htype hwrite⟩⟩

/-- The turn on a request is made of what its branch makes of it. -/
theorem exists_turn_iff (hsftp : isSftp request = true) (hserved : Served data)
    (right : SftpTurn σ → Prop) :
    (∃ turn, handleChannelSubsystemSftpRequest env data expectReply request world = some turn ∧
      right turn) ↔
      ∃ result, (branchOf env (requestIdOf data) request world (packetType data)).run data ⟨9, 9⟩ =
        some result ∧ right (turnOf (requestIdOf data) expectReply result) := by
  rw [handle_of_served hsftp hserved]
  constructor
  · rintro ⟨_, hsome, hright⟩
    obtain ⟨result, hrun, rfl⟩ := map_eq_some_iff.mp hsome
    exact ⟨result, hrun, hright⟩
  · rintro ⟨result, hrun, hright⟩
    rw [hrun]
    exact ⟨_, rfl, hright⟩

/-- The requests of one string, and those of none. -/
theorem within_branchOf_iff (hserved : Served data) (hread : packetType data ≠ some .read)
    (hwrite : packetType data ≠ some .write) :
    Reader.Within (requestEnd data)
        (branchOf env (requestIdOf data) request world (packetType data)) data ⟨9, 9⟩ ↔
      FieldsInside data := by
  have hnone : ∀ outcome : SftpOutcome σ, Reader.Within (requestEnd data) (pure outcome) data
      ⟨9, 9⟩ ↔ True := fun outcome =>
    iff_of_true ⟨outcome, ⟨9, 9⟩, rfl, hserved.type_id⟩ trivial
  have hone : 9 ≤ requestEnd data ∧ StringInside data (requestEnd data) 9 ↔
      StringInside data (requestEnd data) 9 := and_iff_right hserved.type_id
  unfold FieldsInside
  cases htype : packetType data with
  | none => exact hnone _
  | some type =>
    cases type with
    | init | readlink | symlink => exact hnone _
    | read => exact absurd htype hread
    | write => exact absurd htype hwrite
    | «open» => exact within_sftpOpen.trans (and_congr hone Iff.rfl)
    | rename => exact (within_sftpRename hserved.arrived).trans (and_congr hone Iff.rfl)
    | stat | lstat => exact within_sftpStat.trans hone
    | fstat | fsetstat | close => exact (within_onOpenHandle_pure).trans hone
    | realpath | opendir | readdir | mkdir | setstat | remove | rmdir =>
      exact (within_onString).trans hone

/-- A read or a write without a handle is refused as a bad message. -/
theorem readRight_noHandle (hserved : Served data) {after : Cursor}
    (hnone : data.length < stringEnd data ∨ handleBytes data = []) :
    ReadRight env data request world
        (turnOf (requestIdOf data) expectReply (status request world .badMessage, after)) ↔
      after.reach ≤ requestEnd data := by
  refine ⟨ReadRight.reach, fun hreach => ⟨hreach, fun _ _ _ => ⟨rfl, rfl⟩,
    fun _ _ _ => ⟨rfl, rfl⟩, ?_⟩⟩
  intro _ _ hcontent hhandle
  have hwhole : stringEnd data ≤ data.length := by
    have harrived := hserved.arrived
    unfold contentEnd fieldsEnd at hcontent
    omega
  exact absurd hnone (not_or.mpr ⟨Nat.not_lt.mpr hwhole, hhandle⟩)

theorem statusReply_invalidHandle_ne {requestId : UInt32} :
    statusReply requestId .invalidHandle ≠ statusReply requestId .badMessage := fun hsame =>
  absurd (List.append_cancel_left hsame) (by decide)

/-- A handle that is not the open one is answered as such, whatever is cut off behind
it. -/
theorem readRight_otherHandle (hserved : Served data)
    (hother : request.handle ≠ handleBytes data)
    (htype : packetType data = some .read ∨ packetType data = some .write) :
    ReadRight env data request world
        (turnOf (requestIdOf data) expectReply
          (status request world .invalidHandle, ⟨stringEnd data, stringEnd data⟩)) ↔
      fieldsEnd data ≤ requestEnd data ∧
        (packetType data = some .write → contentEnd data ≤ requestEnd data) := by
  have hrefused : (turnOf (requestIdOf data) expectReply
      (status request world .invalidHandle, ⟨stringEnd data, stringEnd data⟩)).reply ≠
        statusReply (requestIdOf data) .badMessage := statusReply_invalidHandle_ne
  constructor
  · intro hright
    have hfields : fieldsEnd data ≤ requestEnd data := by
      by_contra hcut
      exact hrefused (hright.truncated hserved htype (Nat.not_le.mp hcut)).1
    refine ⟨hfields, fun hwrite => ?_⟩
    by_contra hcut
    exact hrefused (hright.short hserved hwrite ⟨hfields, Nat.not_le.mp hcut⟩).1
  · rintro ⟨hfields, hcontent⟩
    refine ⟨Nat.le_of_add_right_le hfields, ?_, ?_, ?_⟩
    · exact fun _ _ hcut => absurd hfields (Nat.not_le.mpr hcut)
    · exact fun _ hwrite hcut => absurd (hcontent hwrite) (Nat.not_le.mpr hcut.content)
    · exact fun _ _ _ _ hopen => absurd hopen hother

theorem reach_of_served (hserved : Served data) :
    (afterString data ⟨9, 9⟩).reach ≤ requestEnd data ↔ StringInside data (requestEnd data) 9 :=
  reach_afterString_nine_le_iff.trans (and_iff_right hserved.type_id)

section

variable (hsftp : isSftp request = true)
include hsftp

/-- The requests that have an open handle as their first field, by what they read behind
it. -/
theorem readRight_onOpenHandle_iff (hserved : Served data) {served : Reader UInt8 (SftpOutcome σ)}
    (hbranch : branchOf env (requestIdOf data) request world (packetType data) =
      onOpenHandle request world served)
    (htype : packetType data = some .read ∨ packetType data = some .write) {inside : Prop}
    (hinside : inside ↔ fieldsEnd data ≤ requestEnd data ∧
      (packetType data = some .write → contentEnd data ≤ requestEnd data))
    (hopen : request.handle = handleBytes data → handleBytes data ≠ [] →
      ((∃ result, served.run data ⟨stringEnd data, stringEnd data⟩ = some result ∧
        ReadRight env data request world (turnOf (requestIdOf data) expectReply result)) ↔
          inside)) :
    (∃ turn, handleChannelSubsystemSftpRequest env data expectReply request world = some turn ∧
        ReadRight env data request world turn) ↔
      StringInside data (requestEnd data) 9 ∧
        (stringEnd data ≤ requestEnd data → handleBytes data ≠ [] → inside) := by
  rw [exists_turn_iff hsftp hserved, hbranch]
  by_cases hnone : data.length < stringEnd data ∨ handleBytes data = []
  · rw [run_onOpenHandle_none served hnone]
    have hvacuous : stringEnd data ≤ requestEnd data → handleBytes data ≠ [] → inside := by
      intro hend hhandle
      have harrived := hserved.arrived
      exact absurd hnone (not_or.mpr ⟨by omega, hhandle⟩)
    rw [and_iff_left hvacuous, ← reach_of_served hserved, ← readRight_noHandle hserved hnone]
    simp only [some.injEq, exists_eq_left']
    exact Iff.rfl
  rw [not_or, not_lt] at hnone
  obtain ⟨hwhole, hhandle⟩ := hnone
  have hends : inside → stringEnd data ≤ requestEnd data := fun h =>
    Nat.le_of_add_right_le (hinside.mp h).1
  have hright : StringInside data (requestEnd data) 9 ∧
      (stringEnd data ≤ requestEnd data → handleBytes data ≠ [] → inside) ↔ inside := by
    rw [← reach_of_served hserved, afterString_nine hwhole]
    exact ⟨fun ⟨hend, hrest⟩ => hrest hend hhandle, fun h => ⟨hends h, fun _ _ => h⟩⟩
  rw [run_onOpenHandle_some served hwhole hhandle, hright]
  by_cases hsame : request.handle = handleBytes data
  · rw [if_pos hsame]
    exact hopen hsame hhandle
  · rw [if_neg hsame, hinside, ← readRight_otherHandle hserved hsame htype]
    simp only [some.injEq, exists_eq_left']
    exact Iff.rfl

theorem readRight_read_iff (hserved : Served data) (htype : packetType data = some .read) :
    (∃ turn, handleChannelSubsystemSftpRequest env data expectReply request world = some turn ∧
        ReadRight env data request world turn) ↔ FieldsInside data := by
  have hwrite : packetType data ≠ some .write := by
    rw [htype]
    nofun
  rw [FieldsInside, htype]
  refine readRight_onOpenHandle_iff hsftp hserved (by rw [htype]; rfl) (.inl htype) ?_ ?_
  · exact (and_iff_left fun h => absurd h hwrite).symm
  intro _ _
  rw [run_fields]
  by_cases hcut : data.length < fieldsEnd data
  · rw [if_pos hcut]
    have harrived := hserved.arrived
    exact iff_of_false (by rintro ⟨_, hsome, -⟩; cases hsome) (by omega)
  rw [if_neg hcut]
  constructor
  · rintro ⟨_, hsome, hright⟩
    cases hsome
    exact hright.reach
  · exact fun hfields => ⟨_, rfl, hfields, fun _ _ hcut => absurd hfields (Nat.not_le.mpr hcut),
      fun _ h => absurd h hwrite, fun _ h => absurd h hwrite⟩

theorem readRight_write_iff (hserved : Served data) (htype : packetType data = some .write) :
    (∃ turn, handleChannelSubsystemSftpRequest env data expectReply request world = some turn ∧
        ReadRight env data request world turn) ↔ FieldsInside data := by
  have hfieldsEnd : contentEnd data ≤ requestEnd data → fieldsEnd data ≤ requestEnd data :=
    Nat.le_of_add_right_le
  rw [FieldsInside, htype]
  refine readRight_onOpenHandle_iff hsftp hserved (by rw [htype]; rfl) (.inr htype) ?_ ?_
  · exact ⟨fun hcontent => ⟨hfieldsEnd hcontent, fun _ => hcontent⟩, fun h => h.2 htype⟩
  intro _ _
  rw [run_fields]
  have harrived := hserved.arrived
  by_cases hcut : data.length < fieldsEnd data
  · rw [if_pos hcut]
    exact iff_of_false (by rintro ⟨_, hsome, -⟩; cases hsome)
      (fun hcontent => by have := hfieldsEnd hcontent; omega)
  rw [if_neg hcut, Reader.run_bind]
  by_cases hshort : data.length < contentEnd data
  · rw [Reader.run_next_of_lt hshort]
    exact iff_of_false (by rintro ⟨_, hsome, -⟩; cases hsome) (by omega)
  rw [Reader.run_next_of_le (Nat.not_lt.mp hshort)]
  constructor
  · rintro ⟨_, hsome, hright⟩
    cases hsome
    exact (reach_past_le_iff.mp hright.reach).2
  · intro hcontent
    refine ⟨_, rfl, reach_past_le_iff.mpr ⟨hfieldsEnd hcontent, hcontent⟩, ?_, ?_, ?_⟩
    · exact fun _ _ hcut => absurd (hfieldsEnd hcontent) (Nat.not_le.mpr hcut)
    · exact fun _ _ hcut => absurd hcontent (Nat.not_le.mpr hcut.content)
    · exact fun _ _ _ _ _ => world_performed request _

end

end Turns

/-! ## Requests and their fields -/

/-- A request is read within itself, a read or a write that is cut short is refused, and a
write stores what the request carries, for the data whose fields do not lead out of the
request. -/
theorem readRight_iff {σ : Type} (env : SftpEnv σ) (data : Text) (expectReply : Bool)
    (request : SubsystemRequest) (world : σ) (hsftp : isSftp request = true) :
    (∃ turn, handleChannelSubsystemSftpRequest env data expectReply request world = some turn ∧
        ReadRight env data request world turn) ↔ (Served data → FieldsInside data) := by
  by_cases hserved : Served data
  case neg =>
    obtain ⟨turn, hturn, hreach, -⟩ := @handle_of_not_served σ env request world data expectReply
      fun _ => hserved
    exact iff_of_true ⟨turn, hturn, hreach, fun h => absurd h hserved, fun h => absurd h hserved,
      fun h => absurd h hserved⟩ fun h => absurd h hserved
  rw [forall_prop_of_true hserved]
  by_cases hread : packetType data = some .read
  · exact readRight_read_iff hsftp hserved hread
  by_cases hwrite : packetType data = some .write
  · exact readRight_write_iff hsftp hserved hwrite
  · simp only [readRight_iff_reach hread hwrite]
    rw [exists_turn_iff hsftp hserved, Prod.exists]
    exact within_branchOf_iff hserved hread hwrite

/-! ## A write that is whole, and one that is not -/

def sampleEnv : SftpEnv TmpFs.TmpfsNodes where
  fs := TmpFs.fileSystem id (fun nodes _ => nodes) { uid := 0, gid := 0, umask := 0 } 0
  pwd := text "/"
  random := id
  dateOf := fun _ => []

def sampleNodes : TmpFs.TmpfsNodes :=
  (sampleEnv.fs.createFile (text "/a") (text "old") []).2

def sampleSession : SubsystemRequest where
  subsystem := text "sftp"
  filepath := text "/a"
  handle := text "ABC"
  isDir := false
  readdirOffset := 0
  dirEntries := []
  bolusCallback := true

def samplePacket (type : UInt8) (fields : Text) : Text :=
  bytesOfWord (5 + fields.length).toUInt32 ++ [type] ++ bytesOfWord 7 ++ fields

def sampleWrite (length : UInt32) (content : Text) : Text :=
  samplePacket 6 (sshString (text "ABC") ++ bytesOfWord64 0 ++ bytesOfWord length ++ content)

theorem whole_write_read_right :
    ∃ turn, handleChannelSubsystemSftpRequest sampleEnv (sampleWrite 3 (text "new")) true
        sampleSession sampleNodes = some turn ∧
      ReadRight sampleEnv (sampleWrite 3 (text "new")) sampleSession sampleNodes turn := by
  refine (readRight_iff sampleEnv (sampleWrite 3 (text "new")) true sampleSession sampleNodes
    (by decide)).mpr fun _ => ?_
  exact ⟨⟨fun _ => by decide, fun _ => by decide⟩, fun _ _ => by decide⟩

theorem short_write_reads_outside :
    (handleChannelSubsystemSftpRequest sampleEnv (sampleWrite 100 (text "new")) true
        sampleSession sampleNodes).isNone = true ∧
      ¬ ∃ turn, handleChannelSubsystemSftpRequest sampleEnv (sampleWrite 100 (text "new")) true
          sampleSession sampleNodes = some turn ∧
        ReadRight sampleEnv (sampleWrite 100 (text "new")) sampleSession sampleNodes turn := by
  have hnone : (handleChannelSubsystemSftpRequest sampleEnv (sampleWrite 100 (text "new")) true
      sampleSession sampleNodes).isNone = true := by decide +kernel
  refine ⟨hnone, ?_⟩
  rintro ⟨turn, hturn, -⟩
  rw [hturn] at hnone
  cases hnone

end PdiStack.SftpBounds
