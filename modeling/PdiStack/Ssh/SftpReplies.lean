import PdiStack.Ssh.SftpBounds

/-!
# What an SFTP request is answered with

A request is answered by one packet, which carries the id of the request, or the version
for the first one.  There are two ways to leave none: a type without a branch, and a read
of no bytes of an empty file.

A read is answered with what is left of the chunk of 1024 bytes that its offset lies in,
`windowLength` bytes, whatever length it asks for.
-/

namespace PdiStack.SftpReplies

open StringOperations Message ByteReader FileSystemInterface Sftp SftpBounds List Option

/-- A packet that states its own length and carries this id. -/
structure Proper (requestId : UInt32) (reply : Text) : Prop where
  long : 9 ≤ reply.length
  framed : wordAt reply 0 = (reply.length - 4).toUInt32
  answers : wordAt reply 5 = requestId

theorem Proper.ne_nil {requestId : UInt32} {reply : Text} (hproper : Proper requestId reply) :
    reply ≠ [] := by
  rintro rfl
  exact absurd hproper.long (by decide)

section Packets

variable {requestId : UInt32}

theorem length_sftpPacket {replyLen : ℕ} {type : UInt8} {body : Text} :
    (sftpPacket replyLen type requestId body).length = 9 + body.length := by
  simp [sftpPacket, bytesOfWord]
  omega

theorem proper_sftpPacket {replyLen : ℕ} (type : UInt8) {body : Text}
    (hlength : replyLen = 5 + body.length) :
    Proper requestId (sftpPacket replyLen type requestId body) where
  long := by
    rw [length_sftpPacket]
    exact Nat.le_add_right _ _
  framed := by
    have hword := wordAt_bytesOfWord [] ([type] ++ bytesOfWord requestId ++ body) replyLen.toUInt32
    rw [length_sftpPacket, show 9 + body.length - 4 = replyLen by omega]
    exact hword
  answers := by
    have hword := wordAt_bytesOfWord (bytesOfWord replyLen.toUInt32 ++ [type]) body requestId
    exact hword

theorem proper_statusReply {code : SftpStatus} : Proper requestId (statusReply requestId code) :=
  proper_sftpPacket sshFxpStatus rfl

theorem proper_handleReply {handle : Text} (hhandle : handle.length = handleSize) :
    Proper requestId (handleReply requestId handle) := by
  apply proper_sftpPacket
  rw [length_append, hhandle]
  rfl

theorem proper_dataReply {data : Text} : Proper requestId (dataReply requestId data) := by
  apply proper_sftpPacket
  rw [length_append, show (bytesOfWord _).length = 4 from rfl]
  omega

theorem proper_nameReply {canonical : Text} : Proper requestId (nameReply requestId canonical) := by
  apply proper_sftpPacket
  simp only [length_append, length_sshString, show ∀ word, (bytesOfWord word).length = 4
    from fun _ => rfl]
  omega

theorem length_bytes {attrs : FileAttrs} : attrs.bytes.length = 32 := rfl

theorem proper_attrsReply {attrs : FileAttrs} : Proper requestId (attrsReply requestId attrs) :=
  proper_sftpPacket sshFxpAttrs rfl

/-- The sum over the entries is the length of what is written for them. -/
theorem proper_readdirReply {dateOf : UInt32 → Text} {batch : List SftpEntry} :
    Proper requestId (readdirReply dateOf requestId batch) := by
  apply proper_sftpPacket
  rw [length_append, show (bytesOfWord _).length = 4 from rfl]
  have hsum : ∀ (entries : List SftpEntry) (sum : ℕ),
      entries.foldl (fun replyLen entry =>
        replyLen + (4 + entry.name.length) + (4 + (longname dateOf entry).length) +
          (4 + 8 + 8 + 4 + 8)) sum =
        sum + (entries.flatMap (entryBytes dateOf)).length := by
    intro entries
    induction entries with
    | nil => exact fun _ => rfl
    | cons entry entries ih =>
      intro sum
      rw [foldl_cons, ih, flatMap_cons, length_append, entryBytes,
        length_append, length_append, length_sshString, length_sshString, length_bytes]
      omega
  rw [hsum]
  omega

end Packets

/-! ## Branches -/

/-- The branch is over with a code, or with a packet for this id. -/
def Answers {σ : Type} (requestId : UInt32) (outcome : SftpOutcome σ) : Prop :=
  Proper requestId (outcome.finish requestId)

section Branches

variable {σ : Type} {env : SftpEnv σ} {requestId : UInt32} {request : SubsystemRequest} {world : σ}

theorem answers_status {code : SftpStatus} :
    Answers requestId (status request world code : SftpOutcome σ) :=
  proper_statusReply

theorem answers_performed {result : Reply × σ} : Answers requestId (performed request result) := by
  obtain ⟨_ | _, world⟩ := result
  · exact answers_status
  · exact answers_status

theorem yields_onString {served : Text → SftpOutcome σ}
    (hserved : ∀ string, Answers requestId (served string)) :
    Reader.Yields (Answers requestId) (onString request world served) := by
  refine Reader.yields_bind _ fun string => ?_
  cases string with
  | none => exact Reader.yields_pure answers_status
  | some string => exact Reader.yields_pure (hserved string)

theorem yields_onOpenHandle {served : Reader UInt8 (SftpOutcome σ)}
    (hserved : Reader.Yields (Answers requestId) served) :
    Reader.Yields (Answers requestId) (onOpenHandle request world served) := by
  refine Reader.yields_bind _ fun handle => ?_
  cases handle with
  | none => exact Reader.yields_pure answers_status
  | some handle =>
    dsimp only
    split
    · exact Reader.yields_pure answers_status
    split
    · exact hserved
    · exact Reader.yields_pure answers_status

theorem yields_sftpStat :
    Reader.Yields (Answers requestId) (sftpStat env requestId request world) := by
  refine Reader.yields_bind _ fun filename => ?_
  split
  · exact Reader.yields_pure answers_status
  · apply Reader.yields_pure
    cases filename with
    | none => exact proper_statusReply
    | some filename => exact proper_attrsReply

theorem yields_sftpOpen :
    Reader.Yields (Answers requestId) (sftpOpen env requestId request world) := by
  have hopened : ∀ name (result : Option SftpStatus × SubsystemRequest × σ),
      Answers requestId (opened env requestId name result) := by
    rintro name ⟨_ | code, request, world⟩
    · exact proper_handleReply (Base64.length_genUniqueKey _ _)
    · exact answers_status
  refine Reader.yields_bind _ fun filename => Reader.yields_bind _ fun fits => ?_
  cases fits with
  | true => exact Reader.yields_bind takeWord fun _ => Reader.yields_pure (hopened _ _)
  | false => exact Reader.yields_bind (pure 0) fun _ => Reader.yields_pure (hopened _ _)

theorem yields_sftpRename : Reader.Yields (Answers requestId) (sftpRename env request world) := by
  have hstatus : ∀ code, Reader.Yields (Answers requestId)
      (pure (status request world code) : Reader UInt8 (SftpOutcome σ)) := fun code =>
    Reader.yields_pure answers_status
  refine Reader.yields_bind _ fun oldpath => ?_
  cases oldpath with
  | none => exact hstatus _
  | some oldpath =>
    refine Reader.yields_bind _ fun newpath => ?_
    cases newpath with
    | none => exact hstatus _
    | some newpath =>
      dsimp only
      split
      · exact hstatus _
      split
      · exact hstatus _
      split
      · exact hstatus _
      · exact Reader.yields_pure answers_performed

/-- Every branch but that of a read answers, once it is over. -/
theorem yields_branchOf {type : PacketType} (hinit : type ≠ .init) (hread : type ≠ .read) :
    Reader.Yields (Answers requestId) (branchOf env requestId request world (some type)) := by
  cases type with
  | init => exact absurd rfl hinit
  | read => exact absurd rfl hread
  | readlink | symlink => exact Reader.yields_pure answers_status
  | «open» => exact yields_sftpOpen
  | stat | lstat => exact yields_sftpStat
  | rename => exact yields_sftpRename
  | realpath =>
    exact yields_onString fun _ => proper_nameReply
  | mkdir =>
    refine yields_onString fun _ => ?_
    dsimp only
    split
    · exact answers_status
    · exact answers_performed
  | setstat =>
    refine yields_onString fun _ => ?_
    split
    · exact answers_status
    · exact answers_status
  | remove | rmdir =>
    refine yields_onString fun _ => ?_
    dsimp only
    split
    · exact answers_status
    · exact answers_performed
  | opendir =>
    refine yields_onString fun _ => ?_
    dsimp only
    split
    · exact answers_status
    split
    · exact answers_status
    · exact proper_handleReply (Base64.length_genUniqueKey _ _)
  | readdir =>
    refine yields_onString fun _ => ?_
    split
    · exact answers_status
    split
    · exact answers_status
    split
    · exact answers_status
    · exact proper_readdirReply
  | fstat =>
    exact yields_onOpenHandle
      (Reader.yields_pure (proper_attrsReply))
  | fsetstat | close =>
    exact yields_onOpenHandle
      (Reader.yields_pure answers_status)
  | write =>
    refine yields_onOpenHandle (Reader.yields_bind _ fun _ =>
      Reader.yields_bind _ fun _ => Reader.yields_bind _ fun _ => Reader.yields_pure ?_)
    exact answers_performed

end Branches

/-! ## Reading a file -/

/-- The file system holds this content at a path, and hands it out in chunks.  Every
backend counts the bytes of a file in 32 bits. -/
structure FileHolds {σ : Type} (fs : FileSystem σ) (path : Text) (world : σ) (content : Text) :
    Prop where
  isFile : fs.isFileExist path world = true
  size_eq : fs.getFileSize path world = .ok content.length
  stream_eq : fs.readFile path readChunk 0 [] world = .ok (contentStream content readChunk 0 [])
  size_lt : content.length < 2 ^ 32

/-- How many bytes a read at `offset` is answered with in a file of `size` bytes: up to the
end of the chunk, or of the file. -/
def windowLength (offset size : ℕ) : ℕ := min (readChunk - offset % readChunk) (size - offset)

theorem windowLength_pos {offset size : ℕ} (hoffset : offset < size) :
    0 < windowLength offset size := by
  have hmod : offset % readChunk < readChunk := Nat.mod_lt _ (by decide)
  unfold windowLength
  omega

theorem windowLength_le (offset size : ℕ) : windowLength offset size ≤ size - offset :=
  min_le_right _ _

section Reading

variable {requestId : UInt32} {fileoffset : UInt64}

/-- The callback passes over the chunks in front of the offset, `left` bytes from here on,
and answers with the rest of the chunk that the offset lies in. -/
theorem deliver_window {size : ℕ} (hsize : 0 < size) {steps : ℕ} {rest : Text} {left : ℕ}
    {done : ℕ} {totalskip : UInt64} (hsteps : rest.length ≤ steps) (hleft : left < rest.length)
    (hsmall : left < 2 ^ 32) (hoffset : fileoffset.toNat = totalskip.toNat + left) :
    ∃ count progress,
      deliverChunks (readback requestId fileoffset) .ok (chunksOf size steps rest) done
          ⟨false, totalskip, []⟩ = (.ok count, progress) ∧
        progress.reply = dataReply requestId
          ((rest.drop left).take (min (size - left % size) (rest.length - left))) := by
  induction steps generalizing rest left done totalskip with
  | zero => omega
  | succ steps ih =>
    obtain ⟨first, more, hrest⟩ := exists_cons_of_length_pos (Nat.zero_lt_of_lt hleft)
    have hchunks : chunksOf size (steps + 1) rest =
        rest.take size :: chunksOf size steps (rest.drop size) := by
      rw [hrest]
      rfl
    have htake : (rest.take size).length = min size rest.length := length_take
    rw [hchunks, deliverChunks]
    by_cases hhere : left = 0
    · -- The offset is where this chunk starts.
      have hstart : (⟨false, totalskip, []⟩ : ReadProgress).startsending = true ∨
          fileoffset = 0 ∨ fileoffset ≤ totalskip :=
        .inr (.inr (UInt64.le_iff_toNat_le.mpr (by omega)))
      rw [readback, if_pos hstart]
      refine ⟨done, _, rfl, ?_⟩
      rw [hhere, drop_zero, Nat.zero_mod, Nat.sub_zero, Nat.sub_zero]
      rw [nil_append, ← take_take, take_length]
    have hskip : ((fileoffset - totalskip).toUInt32).toNat = left := by
      have hle : totalskip ≤ fileoffset := UInt64.le_iff_toNat_le.mpr (by omega)
      rw [UInt64.toNat_toUInt32, UInt64.toNat_sub_of_le _ _ hle, hoffset, Nat.add_sub_cancel_left,
        Nat.mod_eq_of_lt hsmall]
    have hlater : ¬ ((⟨false, totalskip, []⟩ : ReadProgress).startsending = true ∨
        fileoffset = 0 ∨ fileoffset ≤ totalskip) := by
      rintro (hstarted | hzero | hle)
      · cases hstarted
      · rw [hzero] at hoffset
        have : (0 : UInt64).toNat = 0 := rfl
        omega
      · have := UInt64.le_iff_toNat_le.mp hle
        omega
    rw [readback, if_neg hlater]
    dsimp only
    rw [hskip]
    by_cases hpass : (rest.take size).length ≤ left
    · -- The offset lies behind this chunk.
      rw [if_pos hpass]
      have hwhole : (rest.take size).length = size := by omega
      have htotal : fileoffset.toNat =
          (totalskip + (rest.take size).length.toUInt64).toNat + (left - size) := by
        have hfile := fileoffset.toNat_lt
        rw [UInt64.toNat_add, UInt64.toNat_ofNat']
        omega
      obtain ⟨count, progress, hdeliver, hreply⟩ := @ih (rest.drop size) (left - size)
        (done + (rest.take size).length) _ (by rw [length_drop]; omega)
        (by rw [length_drop]; omega) (by omega) htotal
      refine ⟨count, progress, hdeliver, ?_⟩
      rw [hreply, drop_drop, length_drop, Nat.mod_eq_sub_mod (by omega : left ≥ size),
        show size + (left - size) = left by omega,
        show rest.length - size - (left - size) = rest.length - left by omega]
    · -- It lies inside.
      rw [if_neg hpass]
      refine ⟨done, _, rfl, ?_⟩
      rw [nil_append, drop_take, Nat.mod_eq_of_lt (by omega : left < size), ← take_take]
      rw [← length_drop, take_length]

/-- The stream of a content that is not empty delivers the window at an offset inside
it. -/
theorem deliver_contentStream {content : Text} (hinside : fileoffset.toNat < content.length)
    (hsmall : content.length < 2 ^ 32) :
    ∃ count progress,
      (contentStream content readChunk 0 []).deliver (readback requestId fileoffset) ⟨false, 0, []⟩ =
          (.ok count, progress) ∧
        progress.reply = dataReply requestId
          ((content.drop fileoffset.toNat).take
            (windowLength fileoffset.toNat content.length)) := by
  have hfound : strstr content [] 0 = none := by
    rw [strstr, if_pos (.inl rfl)]
  rw [contentStream, if_neg (by omega)]
  dsimp only
  rw [drop_zero, hfound, getD_none, take_length]
  have hchunk : 0 < if 0 < readChunk ∧ readChunk < content.length then readChunk
      else content.length := by
    split
    · decide
    · omega
  obtain ⟨count, progress, hdeliver, hreply⟩ := @deliver_window requestId fileoffset _ hchunk
    content.length content fileoffset.toNat 0 0 (le_refl _) hinside (by omega)
    (zero_add _).symm
  refine ⟨count, progress, hdeliver, hreply.trans ?_⟩
  rw [windowLength]
  congr 2
  split
  · rfl
  · -- All of the content is one chunk.
    have hone : content.length ≤ readChunk := by
      have : 0 < readChunk := by decide
      omega
    rw [Nat.mod_eq_of_lt hinside, min_self, Nat.mod_eq_of_lt (by omega), min_eq_right (by omega)]

variable {σ : Type} {env : SftpEnv σ} {request : SubsystemRequest} {world : σ} {content : Text}

theorem readOpenFile_of_holds {length : UInt32}
    (hholds : FileHolds env.fs (cString request.filepath) world content) :
    readOpenFile env requestId request world fileoffset length =
      if fileoffset.toNat < content.length ∧ length ≠ 0 then
        answer request world (dataReply requestId ((content.drop fileoffset.toNat).take
          (windowLength fileoffset.toNat content.length)))
      else if content = [] ∧ length = 0 then answer request world []
      else status request world .eof := by
  obtain ⟨hfile, hsize, hstream, hsmall⟩ := hholds
  have hword : (sizeWord (.ok content.length)).toNat = content.length :=
    UInt64.toNat_ofNat_of_lt' (lt_trans hsmall (by decide))
  have hpos : 0 < length ↔ length ≠ 0 := UInt32.pos_iff_ne_zero
  have hbehind : sizeWord (.ok content.length) ≤ fileoffset ↔
      content.length ≤ fileoffset.toNat := by
    rw [UInt64.le_iff_toNat_le, hword]
  have hfull : 0 < sizeWord (.ok content.length) ↔ content ≠ [] := by
    rw [UInt64.lt_iff_toNat_lt, hword]
    exact length_pos_iff
  unfold readOpenFile
  rw [if_pos hfile, hsize, hstream]
  by_cases hinside : fileoffset.toNat < content.length ∧ length ≠ 0
  · obtain ⟨count, progress, hdeliver, hreply⟩ := @deliver_contentStream requestId fileoffset
      content hinside.1 hsmall
    rw [if_pos hinside, if_neg fun h => Nat.not_le.mpr hinside.1 (hbehind.mp h.1),
      if_neg fun h => hinside.2 h.2]
    dsimp only
    rw [hdeliver, ← hreply]
  rw [if_neg hinside]
  by_cases hempty : content = [] ∧ length = 0
  · rw [if_pos hempty, if_neg fun h => hpos.mp h.2 hempty.2, hempty.1]
    rfl
  rw [if_neg hempty]
  by_cases hlength : length = 0
  · rw [if_neg fun h => hpos.mp h.2 hlength,
      if_pos ⟨hfull.mpr fun hnil => hempty ⟨hnil, hlength⟩, hlength⟩]
  · rw [if_pos ⟨hbehind.mpr (Nat.not_lt.mp fun h => hinside ⟨h, hlength⟩), hpos.mpr hlength⟩]

/-- Where there is no content to hand out, a read ends with a code. -/
theorem answers_readOpenFile {fileoffset : UInt64} {length : UInt32}
    (hnone : env.fs.isFileExist (cString request.filepath) world = true →
      ∃ code, env.fs.readFile (cString request.filepath) readChunk 0 [] world = .error code) :
    ∃ code, readOpenFile env requestId request world fileoffset length =
      status request world code := by
  unfold readOpenFile
  dsimp only
  split
  case isFalse => exact ⟨_, rfl⟩
  case isTrue hfile =>
    obtain ⟨code, hcode⟩ := hnone hfile
    rw [hcode]
    split
    · exact ⟨_, rfl⟩
    split
    · exact ⟨_, rfl⟩
    · exact ⟨_, rfl⟩

end Reading

/-! ## Requests and their replies -/

def HasFields (data : Text) : Prop :=
  match packetType data with
  | none | some .init | some .readlink | some .symlink => True
  | some .open => stringEnd data + 4 ≤ data.length
  | some .rename =>
    stringEnd data + 4 + (wordAt data (stringEnd data)).toNat ≤ data.length
  | some .read => fieldsEnd data ≤ data.length
  | some .write => contentEnd data ≤ data.length
  | some _ => stringEnd data ≤ data.length

/-- One request and nothing else. -/
structure WellFormed (data : Text) : Prop where
  served : Served data
  whole : data.length = requestEnd data
  fields : HasFields data

/-- A file that is there can be read to its end, or reading it is refused. -/
def Backed {σ : Type} (fs : FileSystem σ) (path : Text) (world : σ) : Prop :=
  fs.isFileExist path world = true →
    (∃ content, FileHolds fs path world content) ∨
      ∃ code, fs.readFile path readChunk 0 [] world = .error code

structure ReadsOpenFile {σ : Type} (env : SftpEnv σ) (data : Text) (request : SubsystemRequest)
    (world : σ) (content : Text) : Prop where
  type_eq : packetType data = some .read
  handle_ne : handleBytes data ≠ []
  handle_eq : request.handle = handleBytes data
  holds : FileHolds env.fs (cString request.filepath) world content

def AsksForBytes (data content : Text) : Prop :=
  (fileOffset data).toNat < content.length ∧ contentLength data ≠ 0

/-- The packets answer a read of this content: with some of the bytes at the offset, and no
more than it asks for, or with a code where there are none or it asks for none. -/
structure ReadAnswered (data content : Text) (sent : List Text) : Prop where
  bytes : AsksForBytes data content → ∃ count, 0 < count ∧ count ≤ contentLength data ∧
    (fileOffset data).toNat + count ≤ content.length ∧
    sent = [dataReply (requestIdOf data) ((content.drop (fileOffset data).toNat).take count)]
  code : ¬ AsksForBytes data content → ∃ code, sent = [statusReply (requestIdOf data) code]

structure OneRightReply {σ : Type} (env : SftpEnv σ) (data : Text) (request : SubsystemRequest)
    (world : σ) (turn : SftpTurn σ) : Prop where
  version : packetType data = some .init → turn.sent = [versionReply]
  one : packetType data ≠ some .init →
    ∃ reply, turn.sent = [reply] ∧ Proper (requestIdOf data) reply
  read : ∀ content, ReadsOpenFile env data request world content →
    ReadAnswered data content turn.sent

/-- The requests that get one right reply: those of a type that has a branch, apart from
reads of no bytes of an empty file and reads of fewer bytes than are left in the chunk. -/
structure Answerable {σ : Type} (env : SftpEnv σ) (data : Text) (request : SubsystemRequest)
    (world : σ) : Prop where
  type_ne : packetType data ≠ none
  read : ∀ content, ReadsOpenFile env data request world content →
    ¬ (content = [] ∧ contentLength data = 0) ∧
      (AsksForBytes data content →
        windowLength (fileOffset data).toNat content.length ≤ contentLength data)

section Replies

variable {σ : Type} {env : SftpEnv σ} {request : SubsystemRequest} {world : σ} {data : Text}

theorem sent_turnOf {outcome : SftpOutcome σ} {cursor : Cursor} {requestId : UInt32}
    (hanswers : Answers requestId outcome) :
    (turnOf requestId true (outcome, cursor)).sent = [outcome.finish requestId] :=
  if_pos ⟨hanswers.ne_nil, rfl⟩

/-- The fields of a request that is all of the data do not lead out of it. -/
theorem run_of_wellFormed (hformed : WellFormed data) :
    ∃ result, (branchOf env (requestIdOf data) request world (packetType data)).run data ⟨9, 9⟩ =
      some result := by
  have hwhole := hformed.whole
  have hinside : ∀ offset, StringInside data (requestEnd data) offset := fun offset => by
    rw [← hwhole]
    exact ⟨id, id⟩
  have hhandle : ∀ served : Reader UInt8 (SftpOutcome σ),
      (∃ result, served.run data ⟨stringEnd data, stringEnd data⟩ = some result) →
      ∃ result, (onOpenHandle request world served).run data ⟨9, 9⟩ = some result := by
    intro served hserved
    by_cases hnone : data.length < stringEnd data ∨ handleBytes data = []
    · exact ⟨_, run_onOpenHandle_none served hnone⟩
    · rw [not_or, not_lt] at hnone
      rw [run_onOpenHandle_some served hnone.1 hnone.2]
      split
      · exact hserved
      · exact ⟨_, rfl⟩
  have hfields := hformed.fields
  by_cases hread : packetType data = some .read
  · rw [HasFields, hread] at hfields
    rw [hread]
    apply hhandle
    rw [run_fields, if_neg (Nat.not_lt.mpr hfields)]
    exact ⟨_, rfl⟩
  by_cases hwrite : packetType data = some .write
  · rw [HasFields, hwrite] at hfields
    rw [hwrite]
    apply hhandle
    rw [run_fields, if_neg (Nat.not_lt.mpr (Nat.le_of_add_right_le hfields)), Reader.run_bind,
      Reader.run_next_of_le hfields]
    exact ⟨_, rfl⟩
  · have hwithin : FieldsInside data := by
      unfold FieldsInside
      split
      · trivial
      · trivial
      · trivial
      · trivial
      · exact ⟨hinside 9, fun h => hwhole ▸ h⟩
      · exact ⟨hinside 9, fun _ => hinside _⟩
      · exact absurd ‹_› hread
      · exact absurd ‹_› hwrite
      · exact hinside 9
    obtain ⟨value, after, hrun, -⟩ := (@within_branchOf_iff σ env request world data hformed.served
      hread hwrite).mpr hwithin
    exact ⟨_, hrun⟩

theorem oneRightReply_iff_of_ne (hsftp : isSftp request = true) (hformed : WellFormed data)
    (hread : packetType data ≠ some .read) :
    (∃ turn, handleChannelSubsystemSftpRequest env data true request world = some turn ∧
        OneRightReply env data request world turn) ↔ packetType data ≠ none := by
  rw [exists_turn_iff hsftp hformed.served]
  obtain ⟨⟨outcome, cursor⟩, hrun⟩ := @run_of_wellFormed σ env request world data hformed
  simp only [hrun, some.injEq, exists_eq_left']
  have hnoRead : ∀ content, ¬ ReadsOpenFile env data request world content := fun content h =>
    hread h.type_eq
  cases htype : packetType data with
  | none =>
    rw [htype] at hrun
    cases hrun
    refine iff_of_false (fun hright => ?_) fun h => h rfl
    obtain ⟨reply, hsent, -⟩ := hright.one (by rw [htype]; nofun)
    cases hsent
  | some type =>
    refine iff_of_true ?_ (by nofun)
    by_cases hinit : type = .init
    · rw [htype, hinit] at hrun
      cases hrun
      exact ⟨fun _ => rfl, fun h => absurd (hinit ▸ htype) h,
        fun content h => absurd h (hnoRead content)⟩
    · have hanswers : Answers (requestIdOf data) outcome := by
        rw [htype] at hrun
        exact yields_branchOf hinit
          (fun h => hread (h ▸ htype)) data ⟨9, 9⟩ outcome cursor hrun
      refine ⟨fun h => ?_, fun _ => ⟨_, sent_turnOf hanswers, hanswers⟩,
        fun content h => absurd h (hnoRead content)⟩
      rw [htype, some.injEq] at h
      exact absurd h hinit

theorem length_dataReply {requestId : UInt32} {bytes : Text} :
    (dataReply requestId bytes).length = 13 + bytes.length := by
  rw [dataReply, length_sftpPacket, length_append, show (bytesOfWord _).length = 4 from rfl]
  omega

/-- How a read of a file that is there is answered. -/
theorem readAnswered_iff {content : Text} {cursor : Cursor}
    (hholds : FileHolds env.fs (cString request.filepath) world content) :
    ReadAnswered data content
        (turnOf (requestIdOf data) true (readOpenFile env (requestIdOf data) request world
          (fileOffset data) (wordAt data (stringEnd data + 8)), cursor)).sent ↔
      ¬ (content = [] ∧ contentLength data = 0) ∧
        (AsksForBytes data content →
          windowLength (fileOffset data).toNat content.length ≤ contentLength data) := by
  have hzero : wordAt data (stringEnd data + 8) = 0 ↔ contentLength data = 0 :=
    UInt32.toNat_inj.symm
  rw [readOpenFile_of_holds hholds]
  have hasks : (fileOffset data).toNat < content.length ∧ wordAt data (stringEnd data + 8) ≠ 0 ↔
      AsksForBytes data content := and_congr Iff.rfl (not_congr hzero)
  by_cases hbytes : AsksForBytes data content
  · rw [if_pos (hasks.mpr hbytes)]
    have hsome : ¬ (content = [] ∧ contentLength data = 0) := fun h => hbytes.2 h.2
    rw [and_iff_right hsome, forall_prop_of_true hbytes]
    have hwindow := windowLength_le (fileOffset data).toNat content.length
    have hinside := hbytes.1
    constructor
    · intro hanswered
      obtain ⟨count, -, hcount, hend, hsent⟩ := hanswered.bytes hbytes
      have hlength := congrArg List.length (List.cons.inj hsent).1
      change (dataReply _ _).length = _ at hlength
      rw [length_dataReply, length_dataReply, length_take, length_take, length_drop] at hlength
      omega
    · intro hle
      exact ⟨fun _ => ⟨_, windowLength_pos hinside, hle, by omega, rfl⟩,
        fun hnot => absurd hbytes hnot⟩
  rw [if_neg (mt hasks.mp hbytes)]
  by_cases hempty : content = [] ∧ contentLength data = 0
  · rw [if_pos ⟨hempty.1, hzero.mpr hempty.2⟩]
    refine iff_of_false (fun hanswered => ?_) fun h => h.1 hempty
    obtain ⟨code, hsent⟩ := hanswered.code hbytes
    cases hsent
  · rw [if_neg fun h => hempty ⟨h.1, hzero.mp h.2⟩]
    exact iff_of_true ⟨fun h => absurd h hbytes, fun _ => ⟨_, rfl⟩⟩
      ⟨hempty, fun h => absurd h hbytes⟩

/-- A read is over with the code, or goes on with the file behind the handle. -/
theorem run_read (hformed : WellFormed data) (htype : packetType data = some .read) :
    (∃ code cursor, (∀ content, ¬ ReadsOpenFile env data request world content) ∧
      (branchOf env (requestIdOf data) request world (packetType data)).run data ⟨9, 9⟩ =
        some (status request world code, cursor)) ∨
      ∃ cursor, handleBytes data ≠ [] ∧ request.handle = handleBytes data ∧
        (branchOf env (requestIdOf data) request world (packetType data)).run data ⟨9, 9⟩ =
          some (readOpenFile env (requestIdOf data) request world (fileOffset data)
            (wordAt data (stringEnd data + 8)), cursor) := by
  have hfields := hformed.fields
  rw [HasFields, htype] at hfields
  rw [htype]
  by_cases hnone : handleBytes data = []
  · exact .inl ⟨_, _, fun _ h => h.handle_ne hnone, run_onOpenHandle_none _ (.inr hnone)⟩
  have hrun := @run_onOpenHandle_some σ request world data (do
    let fileoffset ← takeWord64
    let length ← takeWord
    return readOpenFile env (requestIdOf data) request world fileoffset length)
    (Nat.le_of_add_right_le hfields) hnone
  by_cases hopen : request.handle = handleBytes data
  · rw [if_pos hopen, run_fields, if_neg (Nat.not_lt.mpr hfields)] at hrun
    exact .inr ⟨_, hnone, hopen, hrun⟩
  · rw [if_neg hopen] at hrun
    exact .inl ⟨_, _, fun _ h => hopen h.handle_eq, hrun⟩

theorem oneRightReply_read_iff (hsftp : isSftp request = true) (hformed : WellFormed data)
    (hbacked : Backed env.fs (cString request.filepath) world)
    (htype : packetType data = some .read) :
    (∃ turn, handleChannelSubsystemSftpRequest env data true request world = some turn ∧
        OneRightReply env data request world turn) ↔
      ∀ content, ReadsOpenFile env data request world content →
        ¬ (content = [] ∧ contentLength data = 0) ∧
          (AsksForBytes data content →
            windowLength (fileOffset data).toNat content.length ≤ contentLength data) := by
  have hinit : packetType data ≠ some .init := by
    rw [htype]
    nofun
  rw [exists_turn_iff hsftp hformed.served]
  -- With a code the reply is right, as long as there is no file to read.
  have hcode : ∀ {outcome : SftpOutcome σ} {cursor : Cursor} {code : SftpStatus},
      outcome = status request world code →
      (∀ content, ¬ ReadsOpenFile env data request world content) →
      (branchOf env (requestIdOf data) request world (packetType data)).run data ⟨9, 9⟩ =
        some (outcome, cursor) →
      ∃ result, (branchOf env (requestIdOf data) request world (packetType data)).run data
          ⟨9, 9⟩ = some result ∧
        OneRightReply env data request world (turnOf (requestIdOf data) true result) := by
    rintro _ cursor code rfl hnone hrun
    have hanswers := @answers_status σ (requestIdOf data) request world code
    rw [hrun]
    exact ⟨_, rfl, fun h => absurd h hinit, fun _ => ⟨_, sent_turnOf hanswers, hanswers⟩,
      fun content h => absurd h (hnone content)⟩
  obtain ⟨code, cursor, hnone, hrun⟩ | ⟨cursor, hhandle, hopen, hrun⟩ :=
    @run_read σ env request world data hformed htype
  · exact iff_of_true (hcode rfl hnone hrun) fun content h => absurd h (hnone content)
  have hreads : ∀ content, ReadsOpenFile env data request world content ↔
      FileHolds env.fs (cString request.filepath) world content := fun content =>
    ⟨ReadsOpenFile.holds, fun hholds => ⟨htype, hhandle, hopen, hholds⟩⟩
  by_cases hholds : ∃ content, FileHolds env.fs (cString request.filepath) world content
  · obtain ⟨held, hheld⟩ := hholds
    rw [hrun]
    constructor
    · rintro ⟨_, hsome, hright⟩ content hcontent
      cases hsome
      exact (readAnswered_iff hcontent.holds).mp (hright.read content hcontent)
    · intro hanswerable
      have hanswered : ∀ content, ReadsOpenFile env data request world content → _ :=
        fun content hcontent =>
          (@readAnswered_iff σ env request world data content cursor hcontent.holds).mpr
            (hanswerable content hcontent)
      refine ⟨_, rfl, fun h => absurd h hinit, fun _ => ?_, hanswered⟩
      have hfirst := hanswered held ((hreads held).mpr hheld)
      by_cases hbytes : AsksForBytes data held
      · obtain ⟨count, -, -, -, hsent⟩ := hfirst.bytes hbytes
        exact ⟨_, hsent, proper_dataReply⟩
      · obtain ⟨code, hsent⟩ := hfirst.code hbytes
        exact ⟨_, hsent, proper_statusReply⟩
  · have hnone : ∀ content, ¬ ReadsOpenFile env data request world content := fun content h =>
      hholds ⟨content, h.holds⟩
    obtain ⟨code, heq⟩ := @answers_readOpenFile (requestIdOf data) σ env request world
      (fileOffset data) (wordAt data (stringEnd data + 8)) fun hfile =>
        (hbacked hfile).resolve_left hholds
    exact iff_of_true (hcode heq hnone hrun) fun content h => absurd h (hnone content)

end Replies

/-- A well-formed request gets one reply, and the right one, when its type has a branch
and it is not a read of no bytes of an empty file or of fewer bytes than are left in the
chunk. -/
theorem oneRightReply_iff {σ : Type} (env : SftpEnv σ) (data : Text) (request : SubsystemRequest)
    (world : σ) (hsftp : isSftp request = true) (hformed : WellFormed data)
    (hbacked : Backed env.fs (cString request.filepath) world) :
    (∃ turn, handleChannelSubsystemSftpRequest env data true request world = some turn ∧
        OneRightReply env data request world turn) ↔ Answerable env data request world := by
  by_cases htype : packetType data = some .read
  · rw [oneRightReply_read_iff hsftp hformed hbacked htype]
    exact ⟨fun hread => ⟨by rw [htype]; nofun, hread⟩, Answerable.read⟩
  · rw [oneRightReply_iff_of_ne hsftp hformed htype]
    exact ⟨fun hsome => ⟨hsome, fun _ h => absurd h.type_eq htype⟩, Answerable.type_ne⟩

/-! ## Files in memory -/

/-- The memory backend holds the data of its nodes. -/
theorem backed_tmpFs {σ : Type} {get : σ → TmpFs.TmpfsNodes} {put : TmpFs.TmpfsNodes → σ → σ}
    {caller : Caller} {now : UInt32} {path : Text} {world : σ}
    (hsmall : ∀ node ∈ get world, node.data.length < 2 ^ 32) :
    Backed (TmpFs.fileSystem get put caller now) path world := by
  intro hfile
  obtain ⟨node, hfound, htype⟩ := any_eq_true _ _ |>.mp hfile
  have hreg : node.type = .reg := of_decide_eq_true htype
  refine .inl ⟨node.data, hfile, ?_, ?_, hsmall node (mem_of_find?_eq_some hfound)⟩
  · change TmpFs.getFileSize path (get world) = _
    rw [TmpFs.getFileSize, hfound]
    simp [hreg]
  · change TmpFs.readFile path readChunk 0 [] (get world) = _
    rw [TmpFs.readFile, hfound]
    simp [hreg]

def sampleRead (length : UInt32) : Text :=
  samplePacket 5 (sshString (text "ABC") ++ bytesOfWord64 0 ++ bytesOfWord length)

theorem chunk_read_answered :
    ∃ turn, handleChannelSubsystemSftpRequest sampleEnv (sampleRead 1024) true sampleSession
        sampleNodes = some turn ∧
      OneRightReply sampleEnv (sampleRead 1024) sampleSession sampleNodes turn := by
  have hformed : WellFormed (sampleRead 1024) :=
    ⟨⟨by decide, by decide, by decide, by decide⟩, by decide,
      show fieldsEnd (sampleRead 1024) ≤ (sampleRead 1024).length by decide⟩
  refine (oneRightReply_iff sampleEnv (sampleRead 1024) sampleSession sampleNodes (by decide)
    hformed (backed_tmpFs (by decide))).mpr ⟨by decide, ?_⟩
  intro content _
  exact ⟨fun h => absurd h.2 (by decide),
    fun _ => le_trans (min_le_left _ _) (Nat.sub_le _ _)⟩

/-- A read of one byte gets three, and an extended request gets nothing. -/
theorem short_read_gets_more :
    (handleChannelSubsystemSftpRequest sampleEnv (sampleRead 1) true sampleSession
        sampleNodes).map SftpTurn.sent = some [dataReply 7 (text "old")] ∧
      (handleChannelSubsystemSftpRequest sampleEnv (samplePacket 200 (sshString (text "x"))) true
        sampleSession sampleNodes).map SftpTurn.sent = some [] ∧
      ¬ ∃ turn, handleChannelSubsystemSftpRequest sampleEnv (sampleRead 1) true sampleSession
          sampleNodes = some turn ∧
        OneRightReply sampleEnv (sampleRead 1) sampleSession sampleNodes turn := by
  have hsent : (handleChannelSubsystemSftpRequest sampleEnv (sampleRead 1) true sampleSession
      sampleNodes).map SftpTurn.sent = some [dataReply 7 (text "old")] := by decide +kernel
  refine ⟨hsent, by decide +kernel, ?_⟩
  rintro ⟨turn, hturn, hright⟩
  rw [hturn, map_some, some.injEq] at hsent
  have hreads : ReadsOpenFile sampleEnv (sampleRead 1) sampleSession sampleNodes (text "old") :=
    ⟨by decide, by decide, by decide, by decide, by decide, by decide, by decide⟩
  obtain ⟨count, -, hcount, -, hbytes⟩ := (hright.read _ hreads).bytes ⟨by decide, by decide⟩
  have hlength := congrArg (fun sent => (sent.headD []).length) (hsent.symm.trans hbytes)
  have hone : contentLength (sampleRead 1) = 1 := by decide
  change (dataReply 7 (text "old")).length = (dataReply _ _).length at hlength
  rw [length_dataReply, length_dataReply, length_take] at hlength
  have hthree : (text "old").length = 3 := by decide
  omega

end PdiStack.SftpReplies
