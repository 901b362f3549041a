import PdiStack.Http.UploadStop

/-!
# When an upload is stored byte for byte

The content of an upload ends at the first line end that its boundary follows.
The loop searches the boundary alone, two blocks at a time, and takes the two
bytes before it for the line end wherever it is found.  What it stores is the
content exactly when it stops at the delimiter of the content and the two bytes it
drops are those of the line end (`storedBytes_eq_of_dropsLineEnd` and
`dropsLineEnd_of_storedBytes`).
-/

namespace PdiStack.UploadExact

open StringOperations IOInterface HttpRequest Multipart UploadBlocks UploadStop Occurrence List

section Delimiter

variable {client : Client} {boundary content tail : Text}
  (hbytes : client.bytes = content ++ crlf ++ boundary ++ tail)

include hbytes

theorem carriageReturn_at : client.bytes[content.length]? = some carriageReturn := by
  rw [hbytes]
  simp [crlf]

theorem lineFeed_at : client.bytes[content.length + 1]? = some lineFeed := by
  rw [hbytes]
  simp [crlf]

theorem drop_delimiter : client.bytes.drop (content.length + 2) = boundary ++ tail := by
  have hlength : (content ++ crlf).length = content.length + 2 := length_append
  rw [hbytes, append_assoc, ← hlength, drop_left]

theorem tail_at (index : ℕ) :
    client.bytes[content.length + 2 + boundary.length + index]? = tail[index]? := by
  have hlength : (content ++ crlf ++ boundary).length = content.length + 2 + boundary.length := by
    rw [length_append, length_append]
    rfl
  rw [hbytes, ← hlength, getElem?_append_right (Nat.le_add_right _ _), Nat.add_sub_cancel_left]

end Delimiter

section Places

variable (client : Client) (pass : ℕ)

theorem readTo_eq_add :
    readTo client pass = readTo client (pass - 1) + (lastReadAt client pass).length := by
  rw [readTo, ← takenBefore_append_lastReadAt, length_append, length_takenBefore]

theorem readTo_succ :
    readTo client (pass + 1) = readTo client (pass - 1) + (windowAt client pass).length := by
  rw [readTo, takenBefore_succ, length_append, length_takenBefore]

theorem readTo_mono : Monotone (readTo client) :=
  monotone_nat_of_le_succ fun reads => (prefix_append (takenBefore client reads) _).length_le

theorem window_at {index : ℕ} (hindex : index < (windowAt client pass).length) :
    (windowAt client pass)[index]? =
      client.bytes[readTo client (pass - 1) + index]? := by
  rw [bytes_eq_window client pass, append_assoc, readTo,
    getElem?_append_right (Nat.le_add_right _ _), Nat.add_sub_cancel_left,
    getElem?_append_left hindex]

theorem block_at {index : ℕ} (hindex : index < (blockAt client pass).length) :
    (blockAt client pass)[index]? = client.bytes[readTo client pass + index]? := by
  have htaken : client.bytes = takenBefore client pass ++ (blockAt client pass ++
      (clientAt client (pass + 1)).bytes) := by
    rw [← append_assoc]
    exact bytes_eq_takenBefore_append client (pass + 1)
  rw [htaken, readTo, getElem?_append_right (Nat.le_add_right _ _), Nat.add_sub_cancel_left,
    getElem?_append_left hindex]

/-- A line end that starts in a block ends it. -/
theorem readTo_of_crlf {place : ℕ}
    (hstart : readTo client pass ≤ place)
    (hinside : place + 1 < readTo client (pass + 1))
    (hreturn : client.bytes[place]? = some carriageReturn)
    (hfeed : client.bytes[place + 1]? = some lineFeed) :
    readTo client (pass + 1) = place + 2 := by
  have hsucc : readTo client (pass + 1) =
      readTo client pass + (blockAt client pass).length := length_append
  obtain ⟨index, rfl⟩ := Nat.exists_eq_add_of_le hstart
  rw [← block_at client pass (by omega)] at hreturn
  rw [add_assoc, ← block_at client pass (by omega)] at hfeed
  have hend : (blockAt client pass).length = index + 2 := length_of_crlf_readBlock hreturn hfeed
  omega

end Places

/-- The boundary stands at a place in the bytes of the client and inside the block that
a pass reads, together with the block before it. -/
def InReads (boundary : Text) (client : Client) (place pass : ℕ) : Prop :=
  boundary <+: client.bytes.drop place ∧ readTo client (pass - 1) ≤ place ∧
    place + boundary.length ≤ readTo client (pass + 1)

instance (boundary : Text) (client : Client) (place pass : ℕ) :
    Decidable (InReads boundary client place pass) :=
  inferInstanceAs (Decidable (_ ∧ _))

/-- The delimiter of a content is the first boundary that stands in two blocks, and the
bytes that the upload then drops are its line end.  A pass that writes drops the two
bytes in front of the boundary, which have to lie in its two blocks.  A pass in between
drops the bytes held back at the last write, the end of the two blocks before it: the
line end has to be there, and the boundary not so far behind that a block is dropped. -/
def ReadsDelimiter (boundary content : Text) (client : Client) (pass : ℕ) : Prop :=
  InReads boundary client (content.length + 2) pass ∧
    (∀ earlier ≤ pass, ∀ place ≤ content.length + 2, InReads boundary client place earlier →
      earlier = pass ∧ place = content.length + 2) ∧
    if pass % 2 = 1 then
      readTo client (pass - 1) ≤ content.length
    else
      readTo client pass = content.length + min 2 (readTo client pass - readTo client (pass - 2)) ∧
        content.length + 2 ≤ readTo client (pass - 1) + httpUploadReadBlockSize

instance (boundary content : Text) (client : Client) (pass : ℕ) :
    Decidable (ReadsDelimiter boundary content client pass) :=
  inferInstanceAs (Decidable (_ ∧ _))

section InReads

variable {boundary : Text} {client : Client} {pass : ℕ} (hboundary : boundary ≠ [])
include hboundary

theorem prefix_window_iff {index : ℕ} :
    boundary <+: (windowAt client pass).drop index ↔
      InReads boundary client (readTo client (pass - 1) + index) pass := by
  have hpos := length_pos_iff.mpr hboundary
  have hend := readTo_succ client pass
  have hdrop : client.bytes.drop (readTo client (pass - 1) + index) =
      (windowAt client pass ++ (clientAt client (pass + 1)).bytes).drop index := by
    rw [bytes_eq_window client pass, append_assoc, ← drop_drop, readTo, drop_left]
  constructor
  · intro hthere
    have hlength := hthere.length_le
    rw [length_drop] at hlength
    refine ⟨?_, Nat.le_add_right _ _, by omega⟩
    rw [hdrop, drop_append_of_le_length (by omega)]
    exact hthere.trans (prefix_append _ _)
  · rintro ⟨hthere, -, hinside⟩
    rw [hdrop, drop_append_of_le_length (by omega)] at hthere
    refine prefix_of_prefix_length_le hthere (prefix_append _ _) ?_
    rw [length_drop]
    omega

theorem infix_window_iff :
    boundary <:+: windowAt client pass ↔ ∃ place, InReads boundary client place pass := by
  constructor
  · intro hmet
    obtain ⟨index, hfirst⟩ := Option.isSome_iff_exists.mp (first_isSome_iff.mpr hmet)
    exact ⟨_, (prefix_window_iff hboundary).mp (prefix_of_first hfirst)⟩
  · rintro ⟨place, hreads⟩
    obtain ⟨index, rfl⟩ := Nat.exists_eq_add_of_le hreads.2.1
    exact infix_of_prefix_drop ((prefix_window_iff hboundary).mpr hreads)

end InReads

section Stored

variable {boundary : Text} {client : Client} {pass : ℕ}

theorem stopPlace_add_length_le (hboundary : boundary ≠ [])
    (hmet : boundary <:+: windowAt client pass) :
    stopPlace boundary (windowAt client pass) (pass % 2) + boundary.length ≤
      (windowAt client pass).length := by
  have hthere := (prefix_stopPlace (pass % 2) hmet).length_le
  have hpos := length_pos_iff.mpr hboundary
  rw [length_drop] at hthere
  omega

/-- A pass that writes stores everything in front of the place where it stops, but
for the two bytes before it. -/
theorem storedBytes_of_odd (hodd : pass % 2 = 1) (hboundary : boundary ≠ [])
    (hmet : boundary <:+: windowAt client pass) :
    storedBytes boundary client pass = takenBefore client (pass - 1) ++
      (windowAt client pass).take (stopPlace boundary (windowAt client pass) (pass % 2) - 2) := by
  have hkept : ¬ SkipsBlock boundary (windowAt client pass) (pass % 2) := by
    intro hskips
    have := hskips.1
    omega
  have hplace := stopPlace_add_length_le hboundary hmet
  rw [storedBytes, if_pos (.inl hodd), stopText, if_neg hkept, drop_zero,
    length_take_of_le (by omega), take_take, Nat.min_eq_left (Nat.sub_le _ _),
    ← append_assoc, writtenAt_append_heldAt, hodd]

/-- A pass that drops a block has stored the blocks before it, and more. -/
theorem storedBytes_of_skips (hskips : SkipsBlock boundary (windowAt client pass) (pass % 2)) :
    takenBefore client pass <+: storedBytes boundary client pass := by
  have heven : pass - pass % 2 = pass := by
    have := hskips.1
    omega
  rw [storedBytes, if_pos (.inr hskips), ← append_assoc, writtenAt_append_heldAt, heven]
  exact prefix_append _ _

/-- Any other pass has stored the blocks before it but for the bytes held back. -/
theorem storedBytes_of_kept (heven : pass % 2 = 0)
    (hkept : ¬ SkipsBlock boundary (windowAt client pass) (pass % 2)) :
    storedBytes boundary client pass ++ heldAt client pass = takenBefore client pass := by
  rw [storedBytes, if_neg (not_or.mpr ⟨by omega, hkept⟩), writtenAt_append_heldAt, heven,
    Nat.sub_zero]

/-- The upload stops at the delimiter of a content, and the bytes it does not store
are the line end of the delimiter. -/
def DropsLineEnd (boundary content : Text) (client : Client) (pass : ℕ) : Prop :=
  readTo client (pass - 1) + stopPlace boundary (windowAt client pass) (pass % 2) =
      content.length + 2 ∧
    if pass % 2 = 1 then
      2 ≤ stopPlace boundary (windowAt client pass) (pass % 2)
    else
      ¬ SkipsBlock boundary (windowAt client pass) (pass % 2) ∧
        stopPlace boundary (windowAt client pass) (pass % 2) + (heldAt client pass).length =
          (lastReadAt client pass).length + 2

instance (boundary content : Text) (client : Client) (pass : ℕ) :
    Decidable (DropsLineEnd boundary content client pass) :=
  inferInstanceAs (Decidable (_ ∧ _))

theorem takenBefore_isPrefix_bytes (client : Client) (pass : ℕ) :
    takenBefore client pass <+: client.bytes := by
  rw [bytes_eq_takenBefore_append client pass]
  exact prefix_append _ _

/-- Then it stores the content. -/
theorem storedBytes_eq_of_dropsLineEnd {content tail : Text}
    (hbytes : client.bytes = content ++ crlf ++ boundary ++ tail) (hboundary : boundary ≠ [])
    (hmet : boundary <:+: windowAt client pass)
    (hdrops : DropsLineEnd boundary content client pass) :
    storedBytes boundary client pass = content := by
  have hcontent : content <+: client.bytes := by
    rw [hbytes, append_assoc, append_assoc]
    exact prefix_append _ _
  have hsame : ∀ stored : Text, stored <+: client.bytes → stored.length = content.length →
      stored = content := fun stored hstored hlength =>
    (prefix_of_prefix_length_le hstored hcontent (Nat.le_of_eq hlength)).eq_of_length hlength
  obtain ⟨hplace, hkind⟩ := hdrops
  have hfits := stopPlace_add_length_le hboundary hmet
  by_cases hodd : pass % 2 = 1
  · rw [if_pos hodd] at hkind
    refine hsame _ ?_ ?_
    · rw [storedBytes_of_odd hodd hboundary hmet]
      refine List.IsPrefix.trans ?_ (takenBefore_isPrefix_bytes client (pass + 1))
      rw [takenBefore_succ, prefix_append_right_inj]
      exact take_prefix _ _
    · rw [storedBytes_of_odd hodd hboundary hmet, length_append, length_takenBefore,
        length_take_of_le (by omega)]
      omega
  · rw [if_neg hodd] at hkind
    have hkept := storedBytes_of_kept (by omega) hkind.1
    have hlength := congrArg length hkept
    rw [length_append, length_takenBefore, readTo_eq_add] at hlength
    refine hsame _ ?_ (by omega)
    refine List.IsPrefix.trans ?_ (takenBefore_isPrefix_bytes client pass)
    rw [← hkept]
    exact prefix_append _ _

end Stored

def LineEndFree (string : Text) : Prop :=
  ∀ index, string[index]? = some carriageReturn → string[index + 1]? ≠ some lineFeed

def dash : UInt8 := 0x2D

/-- A text as `readLine` returns it: no carriage return in a first part and no line
feed in the rest. -/
def LineText (string : Text) : Prop :=
  ∃ line rest, string = line ++ rest ∧ carriageReturn ∉ line ∧ lineFeed ∉ rest

theorem lineText_nil : LineText [] := ⟨[], [], rfl, not_mem_nil, not_mem_nil⟩

theorem lineText_readLine {maxlen : ℕ} {client : Client} : LineText (readLine maxlen client).1 :=
  ⟨_, _, rfl, delimiter_notMem_readFrom _ _ _ _, delimiter_notMem_readFrom _ _ _ _⟩

theorem lineText_sublist {string shorter : Text} (hline : LineText string)
    (hshorter : shorter.Sublist string) : LineText shorter := by
  obtain ⟨line, rest, rfl, hreturn, hfeed⟩ := hline
  obtain ⟨first, second, rfl, hfirst, hsecond⟩ := sublist_append_iff.mp hshorter
  exact ⟨first, second, rfl, fun hmem => hreturn (hfirst.subset hmem),
    fun hmem => hfeed (hsecond.subset hmem)⟩

theorem lineEndFree_of_lineText {string : Text} (hline : LineText string) : LineEndFree string := by
  obtain ⟨line, rest, rfl, hreturn, hfeed⟩ := hline
  intro index hfirst hsecond
  by_cases hinside : index < line.length
  · rw [getElem?_append_left hinside] at hfirst
    exact hreturn (mem_of_getElem? hfirst)
  · rw [getElem?_append_right (by omega)] at hsecond
    exact hfeed (mem_of_getElem? hsecond)

theorem lineText_boundaryOf {value : Text} (hvalue : LineText value) :
    LineText (boundaryOf value) :=
  lineText_sublist hvalue (filter_sublist.trans (drop_sublist _ _))

theorem lineText_readHeaderLine {line : Text} {state : HeaderState} (hline : LineText line)
    (hstate : LineText state.body.boundaryStr) :
    LineText (readHeaderLine line state).body.boundaryStr := by
  unfold readHeaderLine
  split
  · exact hstate
  case h_2 colon _ =>
    have hvalue : LineText ((line.drop (colon + 1)).dropWhile (· = 0x20)) :=
      lineText_sublist hline ((dropWhile_sublist _).trans (drop_sublist _ _))
    dsimp only [readBodyHeader]
    split
    · split
      · exact hstate
      split
      · exact lineText_boundaryOf hvalue
      · exact hstate
    split
    · exact hstate
    · exact hstate

theorem lineText_readHeaders {headers : List HttpParam} {client : Client} :
    LineText (readHeaders headers client).body.boundaryStr := by
  refine Loop.run_invariant (motive := fun state => LineText state.body.boundaryStr)
    (fun state hstate => ?_) headerPass_variant ?_
  · dsimp only [headerPass]
    split
    · exact hstate
    · exact lineText_readHeaderLine (lineText_readLine) hstate
  · exact lineText_nil

/-- The boundary of a multipart request holds no line end. -/
theorem lineEndFree_of_readHead {request head : HttpRequestData} {client rest : Client}
    {boundaryStr : Text} (hhead : readHead request client = .form boundaryStr head rest) :
    LineEndFree boundaryStr := by
  rw [(form_of_readHead hhead).2.1]
  exact lineEndFree_of_lineText (lineText_readHeaders)

theorem lineEndFree_boundaryFrom {boundaryStr : Text} (hfree : LineEndFree boundaryStr) :
    LineEndFree (boundaryFrom boundaryStr) := by
  intro index hreturn hfeed
  match index with
  | 0 => cases hreturn
  | 1 => cases hreturn
  | index + 2 => exact hfree index hreturn hfeed

section Necessary

variable {client : Client} {boundary content tail : Text} {pass : ℕ}

section

variable (hbytes : client.bytes = content ++ crlf ++ boundary ++ tail)
include hbytes

/-- A delimiter cannot lie in one block together with its line end. -/
theorem lt_readTo (hboundary : boundary ≠ [])
    (hconsumed : content.length + 2 + boundary.length ≤ readTo client (pass + 1)) :
    content.length < readTo client pass := by
  have hpos := length_pos_iff.mpr hboundary
  refine Nat.lt_of_not_le fun hstart => ?_
  have hend := readTo_of_crlf client pass hstart (by omega)
    (carriageReturn_at hbytes) (lineFeed_at hbytes)
  omega

/-- Nothing behind the line of the delimiter has been read, unless it is the end
boundary: a line end behind the boundary ends the block. -/
theorem length_windowAt_le_or (htail : crlf <+: tail ∨ text "--" <+: tail) {place : ℕ}
    (hplace : readTo client (pass - 1) + place = content.length + 2)
    (hnew : (lastReadAt client pass).length < place + boundary.length) :
    (windowAt client pass).length ≤ place + boundary.length + 2 ∨
      endBoundary boundary <+: (windowAt client pass).drop place := by
  have htaken := readTo_eq_add client pass
  have hsucc := readTo_succ client pass
  refine or_iff_not_imp_left.mpr fun hlong => ?_
  rcases htail with ⟨rest, rfl⟩ | hdashes
  · have hend := readTo_of_crlf client pass
      (show readTo client pass ≤ content.length + 2 + boundary.length by omega) (by omega)
      (tail_at hbytes 0) (tail_at hbytes 1)
    omega
  · have hlength : (endBoundary boundary).length = boundary.length + 2 := length_append
    refine (prefix_window_iff (length_pos_iff.mp (by omega))).mpr ⟨?_, by omega, by omega⟩
    rw [hplace, drop_delimiter hbytes]
    exact (prefix_append_right_inj boundary).mpr hdashes

/-- So no end boundary starts behind the delimiter. -/
theorem first_endBoundary_le (htail : crlf <+: tail ∨ text "--" <+: tail) {place last : ℕ}
    (hplace : readTo client (pass - 1) + place = content.length + 2)
    (hnew : (lastReadAt client pass).length < place + boundary.length)
    (hlast : Occurrence.first (endBoundary boundary) (windowAt client pass) = some last) :
    last ≤ place := by
  rcases length_windowAt_le_or hbytes htail hplace hnew with hshort | hended
  · have hfits := add_length_le_of_first hlast
    rw [endBoundary, length_append] at hfits
    have htwo : (text "--").length = 2 := rfl
    omega
  · exact first_le hlast hended

/-- A boundary in the window that reaches up to the delimiter does not start before
it: it would run into the line end in front of it. -/
theorem le_of_prefix_window (hdash : boundary[0]? = some dash) (hfree : LineEndFree boundary)
    {place found : ℕ} (hplace : readTo client (pass - 1) + place = content.length + 2)
    (hfound : boundary <+: (windowAt client pass).drop found)
    (hnew : found + 2 < place → place ≤ found + boundary.length) : place ≤ found := by
  have hthere := prefix_drop_iff.mp hfound
  obtain ⟨hpos, -⟩ := List.getElem?_eq_some_iff.mp hdash
  have hfits := hfound.length_le
  rw [length_drop] at hfits
  have hat : ∀ index < boundary.length,
      client.bytes[readTo client (pass - 1) + (found + index)]? =
        boundary[index]? := by
    intro index hindex
    rw [← window_at client pass (by omega)]
    exact hthere index hindex
  have hstart := hat 0 hpos
  rw [hdash] at hstart
  refine Nat.le_of_not_lt fun hearlier => ?_
  by_cases hfeed : found + 1 = place
  · have hbyte := lineFeed_at hbytes
    rw [show content.length + 1 = readTo client (pass - 1) + (found + 0) by omega,
      hstart] at hbyte
    exact absurd hbyte (by decide)
  by_cases hreturn : found + 2 = place
  · have hbyte := carriageReturn_at hbytes
    rw [show content.length = readTo client (pass - 1) + (found + 0) by omega,
      hstart] at hbyte
    exact absurd hbyte (by decide)
  · obtain ⟨index, hindex⟩ : ∃ index, found + index + 2 = place := ⟨place - found - 2, by omega⟩
    refine hfree index ?_ ?_
    · rw [← hat index (by omega), ← carriageReturn_at hbytes]
      congr 1
      omega
    · rw [← hat (index + 1) (by omega), ← lineFeed_at hbytes]
      congr 1
      omega

end

/-- A boundary in the window that meets it first reaches into the last block. -/
theorem lt_add_length_of_meetsAt (hboundary : boundary ≠ []) (hmeets : MeetsAt boundary client pass)
    {place : ℕ} (hthere : boundary <+: (windowAt client pass).drop place) :
    (lastReadAt client pass).length < place + boundary.length := by
  refine Nat.lt_of_not_le fun hinside => not_infix_lastReadAt hboundary hmeets ?_
  have hbefore : boundary <+: (lastReadAt client pass).drop place := by
    rw [prefix_drop_iff] at hthere ⊢
    intro index hindex
    rw [← hthere index hindex]
    exact (getElem?_append_left (by omega)).symm
  exact infix_of_prefix_drop hbefore

/-- An upload that stores the content, and has read its delimiter, stops at the
delimiter and drops its line end. -/
theorem dropsLineEnd_of_storedBytes (hbytes : client.bytes = content ++ crlf ++ boundary ++ tail)
    (htail : crlf <+: tail ∨ text "--" <+: tail) (hdash : boundary[0]? = some dash)
    (hfree : LineEndFree boundary) (hmeets : MeetsAt boundary client pass)
    (hconsumed : content.length + 2 + boundary.length ≤ readTo client (pass + 1))
    (hstored : storedBytes boundary client pass = content) :
    DropsLineEnd boundary content client pass := by
  have hboundary : boundary ≠ [] := by
    rintro rfl
    cases hdash
  have hfound := prefix_stopPlace (pass % 2) hmeets.1
  have hfits := stopPlace_add_length_le hboundary hmeets.1
  have hlength := congrArg length hstored
  by_cases hodd : pass % 2 = 1
  · rw [storedBytes_of_odd hodd hboundary hmeets.1, length_append, length_takenBefore,
      length_take_of_le (by omega)] at hlength
    have htwo : 2 ≤ stopPlace boundary (windowAt client pass) (pass % 2) := by
      refine Nat.le_of_not_lt fun hshort => Nat.not_le_of_lt hshort ?_
      exact le_of_prefix_window hbytes hdash hfree (by omega) hfound (by omega)
    exact ⟨by omega, by rw [if_pos hodd]; exact htwo⟩
  · have hread := lt_readTo hbytes hboundary hconsumed
    by_cases hskips : SkipsBlock boundary (windowAt client pass) (pass % 2)
    · have hlong := (storedBytes_of_skips hskips).length_le
      rw [length_takenBefore] at hlong
      omega
    have hkept := congrArg length (storedBytes_of_kept (by omega) hskips)
    have hheld := length_heldAt_le client pass
    have hnew := lt_add_length_of_meetsAt hboundary hmeets hfound
    have htaken := readTo_eq_add client pass
    rw [length_append, length_takenBefore] at hkept
    obtain ⟨place, hplace⟩ :
        ∃ place, place + (heldAt client pass).length = (lastReadAt client pass).length + 2 :=
      ⟨(lastReadAt client pass).length + 2 - (heldAt client pass).length, by omega⟩
    have hdelimiter : readTo client (pass - 1) + place = content.length + 2 := by
      omega
    have hthere : boundary <+: (windowAt client pass).drop place := by
      refine (prefix_window_iff hboundary).mpr ⟨?_, by omega, by omega⟩
      rw [hdelimiter, drop_delimiter hbytes]
      exact prefix_append _ _
    have hreaches := lt_add_length_of_meetsAt hboundary hmeets hthere
    have hnotLater := stopPlace_le hmeets.1 hskips hthere fun last hlast hless =>
      absurd (first_endBoundary_le hbytes htail hdelimiter hreaches hlast) (Nat.not_le_of_lt hless)
    have hnotEarlier := le_of_prefix_window hbytes hdash hfree hdelimiter hfound (by omega)
    refine ⟨by omega, ?_⟩
    rw [if_neg hodd]
    exact ⟨hskips, by omega⟩

/-- Where the bytes that a pass holds back without writing stand. -/
theorem length_heldAt_of_even (client : Client) (heven : pass % 2 = 0) :
    (heldAt client pass).length = min 2 (readTo client pass - readTo client (pass - 2)) := by
  cases pass with
  | zero => rfl
  | succ pass =>
    have hsucc := readTo_succ client pass
    rw [heldAt, if_pos (by omega), length_heldBack, Nat.add_sub_add_right pass 1 1]
    omega

/-- The places where the reads end say which pass stops at the delimiter. -/
theorem meetsAt_of_readsDelimiter (hboundary : boundary ≠ [])
    (hreads : ReadsDelimiter boundary content client pass) : MeetsAt boundary client pass := by
  obtain ⟨hthere, hfirst, -⟩ := hreads
  refine ⟨(infix_window_iff hboundary).mpr ⟨_, hthere⟩, fun earlier hearlier hmet => ?_⟩
  obtain ⟨place, hplace⟩ := (infix_window_iff hboundary).mp hmet
  by_cases hbefore : place ≤ content.length + 2
  · exact hearlier.ne (hfirst earlier hearlier.le place hbefore hplace).1
  · -- An earlier pass that reads on past the delimiter has it in its blocks too.
    have hstart := readTo_mono client (Nat.sub_le_sub_right hearlier.le 1)
    have hend := hplace.2.2
    have hearly : InReads boundary client (content.length + 2) earlier :=
      ⟨hthere.1, hstart.trans hthere.2.1, by omega⟩
    exact hearlier.ne (hfirst earlier hearlier.le _ le_rfl hearly).1

section

variable (hbytes : client.bytes = content ++ crlf ++ boundary ++ tail)
include hbytes

theorem dropsLineEnd_of_readsDelimiter (htail : crlf <+: tail ∨ text "--" <+: tail)
    (hboundary : boundary ≠ []) (hreads : ReadsDelimiter boundary content client pass) :
    DropsLineEnd boundary content client pass := by
  have hmeets := meetsAt_of_readsDelimiter hboundary hreads
  obtain ⟨hthere, hfirst, hkind⟩ := hreads
  have htaken := readTo_eq_add client pass
  obtain ⟨place, hplace⟩ := Nat.exists_eq_add_of_le hthere.2.1
  rw [hplace, ← prefix_window_iff hboundary] at hthere
  have hlast (last : ℕ)
      (hend : Occurrence.first (endBoundary boundary) (windowAt client pass) = some last) :
      last ≤ place :=
    first_endBoundary_le hbytes htail hplace.symm
      (lt_add_length_of_meetsAt hboundary hmeets hthere) hend
  have hkept : ¬ SkipsBlock boundary (windowAt client pass) (pass % 2) := by
    rintro ⟨heven, hfar⟩
    rw [if_neg (by omega)] at hkind
    have hmet := metPlace_le hthere hlast
    omega
  have hstop : stopPlace boundary (windowAt client pass) (pass % 2) = place := by
    have hnotLater := stopPlace_le hmeets.1 hkept hthere fun last hend hless =>
      absurd (hlast last hend) (Nat.not_le_of_lt hless)
    have hat := (prefix_window_iff hboundary).mp (prefix_stopPlace (pass % 2) hmeets.1)
    have hsame := (hfirst pass le_rfl _ (by omega) hat).2
    omega
  rw [DropsLineEnd, hstop]
  refine ⟨hplace.symm, ?_⟩
  split
  case isTrue hodd =>
    rw [if_pos hodd] at hkind
    omega
  case isFalse heven =>
    rw [if_neg heven] at hkind
    refine ⟨hkept, ?_⟩
    rw [length_heldAt_of_even client (by omega)]
    omega

theorem readsDelimiter_of_dropsLineEnd (hdash : boundary[0]? = some dash)
    (hfree : LineEndFree boundary) (hboundary : boundary ≠ [])
    (hmeets : MeetsAt boundary client pass) (hdrops : DropsLineEnd boundary content client pass) :
    ReadsDelimiter boundary content client pass := by
  obtain ⟨hplace, hkind⟩ := hdrops
  have htaken := readTo_eq_add client pass
  have hkept : ¬ SkipsBlock boundary (windowAt client pass) (pass % 2) := by
    intro hskips
    rw [if_neg (by have := hskips.1; omega)] at hkind
    exact hkind.1 hskips
  refine ⟨hplace ▸ (prefix_window_iff hboundary).mp (prefix_stopPlace (pass % 2) hmeets.1), ?_, ?_⟩
  · intro earlier hearlier place hbefore hthere
    have hsame : earlier = pass := by
      refine hearlier.eq_or_lt.resolve_right fun hless => hmeets.2 earlier hless ?_
      exact (infix_window_iff hboundary).mpr ⟨place, hthere⟩
    subst hsame
    obtain ⟨index, rfl⟩ := Nat.exists_eq_add_of_le hthere.2.1
    rw [← prefix_window_iff hboundary] at hthere
    -- It ends in front of the place where the upload stops, or runs into the line end there.
    have hnotEarlier :
        stopPlace boundary (windowAt client earlier) (earlier % 2) ≤ index := by
      by_cases hapart : index + boundary.length <
          stopPlace boundary (windowAt client earlier) (earlier % 2)
      · refine stopPlace_le hmeets.1 hkept hthere fun last hend _ => ?_
        exact hapart.le.trans (stopPlace_le_end hmeets.1 hkept hend)
      · exact le_of_prefix_window hbytes hdash hfree hplace hthere fun _ => by omega
    exact ⟨rfl, by omega⟩
  · split
    case isTrue hodd =>
      rw [if_pos hodd] at hkind
      omega
    case isFalse heven =>
      rw [if_neg heven, length_heldAt_of_even client (by omega)] at hkind
      have hstop := stopPlace_le_metPlace hmeets.1 hkept
      have hnear : metPlace boundary (windowAt client pass) ≤ httpUploadReadBlockSize :=
        Nat.le_of_not_lt fun hfar => hkept ⟨by omega, hfar⟩
      exact ⟨by omega, by omega⟩

end

end Necessary

end PdiStack.UploadExact
