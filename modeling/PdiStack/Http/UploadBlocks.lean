import PdiStack.Http.Multipart

/-!
# The blocks of an upload

The upload loop reads block after block.  This module numbers its passes from
zero and says, for a client that nobody gives up on, what the loop holds at the
top of every pass up to the first whose window, the last two blocks, holds the
boundary: the bytes it has written, those it holds back and the write counter.
Every second pass has written, so the written and the held bytes together are the
blocks up to the last even pass.
-/

namespace PdiStack.UploadBlocks

open StringOperations IOInterface Multipart List

theorem bytes_readBlock {client : Client} :
    client.bytes = (readBlock client).1 ++ (readBlock client).2.bytes := by
  have hline := bytes_readFrom carriageReturn httpUploadReadBlockSize 0 client.arrivals
  have hrest := bytes_readFrom lineFeed httpUploadReadBlockSize 0
    (readStringUntil carriageReturn true httpUploadReadBlockSize client).2.arrivals
  rw [Client.bytes, hline, readBlock, append_assoc]
  exact congrArg _ hrest

variable {client : Client} {boundary : Text} (path : Text)

theorem steady_readBlock (hsteady : client.Steady) :
    (readBlock client).2.Steady ∧
      ((readBlock client).2.stalled = true → (readBlock client).2.arrivals = []) :=
  steady_readFrom lineFeed true _ 0
    (steady_readFrom carriageReturn true httpUploadReadBlockSize 0 hsteady).1

theorem succ_eq_length_of_notMem_dropLast {α : Type*} {list : List α} {element : α} {index : ℕ}
    (hlast : element ∉ list.dropLast) (hthere : list[index]? = some element) :
    index + 1 = list.length := by
  obtain ⟨hindex, -⟩ := List.getElem?_eq_some_iff.mp hthere
  refine Nat.le_antisymm hindex (Nat.le_of_not_lt fun hless => hlast ?_)
  rw [mem_iff_getElem?]
  refine ⟨index, ?_⟩
  rw [getElem?_dropLast, if_pos (by omega), hthere]

/-- A line end inside a block is the end of the block. -/
theorem length_of_crlf_readBlock {index : ℕ}
    (hreturn : (readBlock client).1[index]? = some carriageReturn)
    (hfeed : (readBlock client).1[index + 1]? = some lineFeed) :
    (readBlock client).1.length = index + 2 := by
  rw [readBlock] at hreturn hfeed ⊢
  rw [length_append]
  have hline : carriageReturn ∉
      (readStringUntil carriageReturn true httpUploadReadBlockSize client).1.dropLast :=
    delimiter_notMem_dropLast carriageReturn httpUploadReadBlockSize 0 client.arrivals
  generalize readStringUntil carriageReturn true httpUploadReadBlockSize client = line at *
  have hrest :
      lineFeed ∉ (readStringUntil lineFeed true httpUploadReadBlockSize line.2).1.dropLast :=
    delimiter_notMem_dropLast lineFeed httpUploadReadBlockSize 0 line.2.arrivals
  by_cases hinside : index + 1 < line.1.length
  · rw [getElem?_append_left (by omega)] at hreturn
    have hend := succ_eq_length_of_notMem_dropLast hline hreturn
    omega
  · rw [getElem?_append_right (by omega)] at hfeed
    have hend := succ_eq_length_of_notMem_dropLast hrest hfeed
    omega

def clientAt (client : Client) : ℕ → Client
  | 0 => client
  | pass + 1 => (readBlock (clientAt client pass)).2

def blockAt (client : Client) (pass : ℕ) : Text := (readBlock (clientAt client pass)).1

def lastReadAt (client : Client) : ℕ → Text
  | 0 => []
  | pass + 1 => blockAt client pass

def windowAt (client : Client) (pass : ℕ) : Text := lastReadAt client pass ++ blockAt client pass

/-- Everything read before a pass. -/
def takenBefore (client : Client) : ℕ → Text
  | 0 => []
  | pass + 1 => takenBefore client pass ++ blockAt client pass

/-- How many bytes the first reads take together.  A read goes on to a carriage return
and then to a line feed, a block at most either time, or to where nothing has arrived. -/
def readTo (client : Client) (reads : ℕ) : ℕ := (takenBefore client reads).length

theorem length_takenBefore (client : Client) (reads : ℕ) :
    (takenBefore client reads).length = readTo client reads := rfl

theorem bytes_eq_takenBefore_append (client : Client) (pass : ℕ) :
    client.bytes = takenBefore client pass ++ (clientAt client pass).bytes := by
  induction pass with
  | zero => rfl
  | succ pass ih =>
    rw [ih, bytes_readBlock, takenBefore, append_assoc]
    rfl

theorem takenBefore_append_lastReadAt (client : Client) (pass : ℕ) :
    takenBefore client (pass - 1) ++ lastReadAt client pass = takenBefore client pass := by
  cases pass with
  | zero => rfl
  | succ pass => rfl

/-- The window of a pass is the end of what has been read after it. -/
theorem takenBefore_succ (client : Client) (pass : ℕ) :
    takenBefore client (pass + 1) = takenBefore client (pass - 1) ++ windowAt client pass := by
  rw [takenBefore, windowAt, ← append_assoc, takenBefore_append_lastReadAt]

theorem bytes_eq_window (client : Client) (pass : ℕ) :
    client.bytes = takenBefore client (pass - 1) ++ windowAt client pass ++
      (clientAt client (pass + 1)).bytes := by
  rw [← takenBefore_succ]
  exact bytes_eq_takenBefore_append client (pass + 1)

theorem steady_clientAt (hsteady : client.Steady) {pass : ℕ} : (clientAt client pass).Steady := by
  induction pass with
  | zero => exact hsteady
  | succ pass ih => exact (steady_readBlock ih).1

/-- A client that is done has nothing to say in any later pass. -/
theorem blockAt_of_arrivals_nil {pass more : ℕ} (hdone : (clientAt client pass).arrivals = []) :
    blockAt client (pass + more) = [] := by
  have hstays : (clientAt client (pass + more)).arrivals = [] := by
    induction more with
    | zero => exact hdone
    | succ more ih =>
      rw [← add_assoc, clientAt, readBlock_of_arrivals_nil ih]
  rw [blockAt, readBlock_of_arrivals_nil hstays]

def heldAt (client : Client) : ℕ → Text
  | 0 => []
  | pass + 1 => if pass % 2 = 1 then heldBack (windowAt client pass) else heldAt client pass

def writtenAt (client : Client) : ℕ → Text
  | 0 => []
  | pass + 1 =>
    if pass % 2 = 1 then
      writtenAt client pass ++ heldAt client pass ++
        (windowAt client pass).take ((windowAt client pass).length - 2)
    else
      writtenAt client pass

/-- Together they are the blocks before the last even pass. -/
theorem writtenAt_append_heldAt (client : Client) (pass : ℕ) :
    writtenAt client pass ++ heldAt client pass = takenBefore client (pass - pass % 2) := by
  induction pass with
  | zero => rfl
  | succ pass ih =>
    rw [writtenAt, heldAt]
    split
    case isTrue hodd =>
      have heven : pass + 1 - (pass + 1) % 2 = pass + 1 := by omega
      rw [heldBack, append_assoc, take_append_drop, ih, heven, hodd, takenBefore_succ]
    case isFalse heven =>
      have hsame : pass + 1 - (pass + 1) % 2 = pass - pass % 2 := by omega
      rw [ih, hsame]

theorem length_heldBack (lastRead : Text) : (heldBack lastRead).length = min 2 lastRead.length := by
  rw [heldBack, length_drop]
  omega

theorem length_heldAt_le (client : Client) (pass : ℕ) : (heldAt client pass).length ≤ 2 := by
  induction pass with
  | zero => exact Nat.zero_le _
  | succ pass ih =>
    rw [heldAt]
    split
    · rw [length_heldBack]
      exact min_le_left _ _
    · exact ih

def appendedBy : StorageAction → Text
  | .appendFile _ content => content
  | _ => []

/-- The actions are appends to one file, of the given bytes in all. -/
def Appends (path bytes : Text) (actions : List StorageAction) : Prop :=
  (∀ action ∈ actions, ∃ content, action = .appendFile path content) ∧
    actions.flatMap appendedBy = bytes

theorem appends_nil : Appends path [] [] := ⟨forall_mem_nil _, rfl⟩

theorem appends_append {path left right : Text} {leftActions rightActions : List StorageAction}
    (hleft : Appends path left leftActions) (hright : Appends path right rightActions) :
    Appends path (left ++ right) (leftActions ++ rightActions) := by
  refine ⟨forall_mem_append.mpr ⟨hleft.1, hright.1⟩, ?_⟩
  rw [flatMap_append, hleft.2, hright.2]

theorem appends_singleton {content : Text} : Appends path content [.appendFile path content] := by
  refine ⟨forall_mem_singleton.mpr ⟨content, rfl⟩, ?_⟩
  simp [appendedBy]

/-- A write appends the held bytes and the text but for its last two bytes. -/
theorem appends_writesOf (held lastRead : Text) :
    Appends path (held ++ lastRead.take (lastRead.length - 2)) (writesOf path held lastRead) := by
  refine appends_append ?_ ?_
  · split
    · exact appends_singleton path
    case isFalse hempty =>
      rw [not_not.mp hempty]
      exact appends_nil path
  · split
    · exact appends_singleton path
    case isFalse hshort =>
      rw [Nat.sub_eq_zero_of_le (by omega)]
      exact appends_nil path

/-- What the upload loop holds at the top of a pass. -/
structure AtPass (path : Text) (client : Client) (pass : ℕ) (upload : Upload) : Prop where
  reader : upload.client = clientAt client pass
  lastRead : upload.lastRead = lastReadAt client pass
  held : upload.held = heldAt client pass
  counter : upload.fileWriteCounter = pass % 2
  writes : Appends path (writtenAt client pass) upload.actions

theorem atPass_zero {client : Client} :
    AtPass path client 0
      { client := client, lastRead := [], held := [], fileWriteCounter := 0, actions := [] } :=
  ⟨rfl, rfl, rfl, rfl, appends_nil path⟩

theorem cutAt_of_absent {pattern lastRead : Text} (fileWriteCounter : ℕ)
    (habsent : ¬ pattern <:+: lastRead) :
    cutAt pattern lastRead fileWriteCounter = ⟨lastRead, fileWriteCounter, none⟩ := by
  rw [cutAt, find_zero, Occurrence.first_eq_none_iff.mpr habsent]

theorem infix_of_endBoundary {lastRead : Text} (hend : endBoundary boundary <:+: lastRead) :
    boundary <:+: lastRead :=
  (prefix_append boundary _).isInfix.trans hend

/-- A pass that neither meets the boundary nor gives up goes round again. -/
theorem atPass_succ {path : Text} {pass : ℕ} {upload : Upload}
    (hpass : AtPass path client pass upload) (habsent : ¬ boundary <:+: windowAt client pass)
    (hgoing : ¬ (blockAt client pass = [] ∧ (clientAt client (pass + 1)).stalled = true)) :
    ∃ next, uploadPass boundary path upload = .again next ∧ AtPass path client (pass + 1) next := by
  have hblock : readBlock upload.client = (blockAt client pass, clientAt client (pass + 1)) := by
    rw [hpass.reader]
    rfl
  have hended := cutAt_of_absent upload.fileWriteCounter
    fun hend => habsent (infix_of_endBoundary hend)
  have hcut := cutAt_of_absent upload.fileWriteCounter habsent
  rw [windowAt, ← hpass.lastRead] at hended hcut
  dsimp only [uploadPass, takeBlock]
  rw [hblock, if_neg hgoing, hended, hcut]
  refine ⟨_, rfl, ?_⟩
  dsimp only [Upload.flush]
  rw [hpass.counter]
  by_cases hodd : pass % 2 = 1
  · rw [if_pos (by omega)]
    refine ⟨rfl, rfl, ?_, by dsimp only; omega, ?_⟩
    · rw [heldAt, if_pos hodd, windowAt, ← hpass.lastRead]
    · rw [writtenAt, if_pos hodd, append_assoc, windowAt, ← hpass.lastRead, ← hpass.held]
      exact appends_append hpass.writes (appends_writesOf path _ _)
  · rw [if_neg (by omega)]
    refine ⟨rfl, rfl, ?_, by dsimp only; omega, ?_⟩
    · rw [heldAt, if_neg hodd]
      exact hpass.held
    · rw [writtenAt, if_neg hodd]
      exact hpass.writes

theorem uploadPass_of_stalled {boundary : Text} {path : Text} {pass : ℕ} {upload : Upload}
    (hpass : AtPass path client pass upload)
    (hstalled : blockAt client pass = [] ∧ (clientAt client (pass + 1)).stalled = true) :
    ∃ received, uploadPass boundary path upload = .done received ∧ received.aborted = true := by
  have hblock : readBlock upload.client = (blockAt client pass, clientAt client (pass + 1)) := by
    rw [hpass.reader]
    rfl
  dsimp only [uploadPass]
  rw [hblock, if_pos hstalled]
  exact ⟨_, rfl, rfl⟩

/-- An upload whose boundary never comes is given up. -/
theorem receiveContent_aborted {path : Text}
    (hnever : ∀ pass, ¬ boundary <:+: windowAt client pass) :
    (receiveContent boundary path client).aborted = true := by
  refine Loop.run_induction (uploadPass_variant boundary path)
    (motive := fun upload received =>
      (∃ pass, AtPass path client pass upload) → received.aborted = true) ?_ ?_ _
    ⟨0, atPass_zero path⟩
  · rintro upload next received hagain hrest ⟨pass, hpass⟩
    by_cases hstalled : blockAt client pass = [] ∧ (clientAt client (pass + 1)).stalled = true
    · obtain ⟨other, hdone, -⟩ := uploadPass_of_stalled hpass hstalled
      rw [hdone] at hagain
      cases hagain
    · obtain ⟨other, hother, hnext⟩ := atPass_succ hpass (hnever pass) hstalled
      rw [hother] at hagain
      cases hagain
      exact hrest ⟨pass + 1, hnext⟩
  · rintro upload received hdone ⟨pass, hpass⟩
    by_cases hstalled : blockAt client pass = [] ∧ (clientAt client (pass + 1)).stalled = true
    · obtain ⟨other, hother, haborted⟩ := uploadPass_of_stalled hpass hstalled
      rw [hother] at hdone
      cases hdone
      exact haborted
    · obtain ⟨other, hother, -⟩ := atPass_succ hpass (hnever pass) hstalled
      rw [hother] at hdone
      cases hdone

def MeetsAt (boundary : Text) (client : Client) (pass : ℕ) : Prop :=
  boundary <:+: windowAt client pass ∧ ∀ earlier < pass, ¬ boundary <:+: windowAt client earlier

instance (boundary : Text) (client : Client) (pass : ℕ) :
    Decidable (MeetsAt boundary client pass) :=
  inferInstanceAs (Decidable (_ ∧ _))

/-- The block a pass reads cannot hold the boundary alone before it is met. -/
theorem not_infix_lastReadAt {pass : ℕ} (hboundary : boundary ≠ [])
    (hmeets : MeetsAt boundary client pass) :
    ¬ boundary <:+: lastReadAt client pass := by
  cases pass with
  | zero =>
    intro hthere
    exact hboundary (infix_nil.mp hthere)
  | succ pass =>
    intro hthere
    exact hmeets.2 pass (Nat.lt_succ_self pass)
      (hthere.trans (suffix_append (lastReadAt client pass) _).isInfix)

/-- A client that nobody gives up on keeps the loop going up to the boundary. -/
theorem not_stalled_of_meetsAt {pass : ℕ} (hsteady : client.Steady) (hboundary : boundary ≠ [])
    (hmeets : MeetsAt boundary client pass) {earlier : ℕ} (hearlier : earlier ≤ pass) :
    ¬ (blockAt client earlier = [] ∧ (clientAt client (earlier + 1)).stalled = true) := by
  rintro ⟨hempty, hstalled⟩
  have hdone : (clientAt client (earlier + 1)).arrivals = [] :=
    (steady_readBlock (steady_clientAt hsteady)).2 hstalled
  have hblock : ∀ later, earlier ≤ later → blockAt client later = [] := by
    intro later hlater
    rcases eq_or_lt_of_le hlater with rfl | hless
    · exact hempty
    · obtain ⟨more, rfl⟩ := Nat.exists_eq_add_of_lt hless
      rw [add_right_comm]
      exact blockAt_of_arrivals_nil hdone
  refine not_infix_lastReadAt hboundary hmeets ?_
  have hmet := hmeets.1
  rwa [windowAt, hblock pass hearlier, append_nil] at hmet

/-- The loop gets to the pass that meets the boundary. -/
theorem receiveContent_eq_run {pass : ℕ} (hsteady : client.Steady) (hboundary : boundary ≠ [])
    (hmeets : MeetsAt boundary client pass) :
    ∃ upload, AtPass path client pass upload ∧
      receiveContent boundary path client =
        Loop.run (uploadPass boundary path) _ (uploadPass_variant boundary path) upload := by
  have hreach : ∀ earlier ≤ pass, ∃ upload, AtPass path client earlier upload ∧
      receiveContent boundary path client =
        Loop.run (uploadPass boundary path) _ (uploadPass_variant boundary path) upload := by
    intro earlier
    induction earlier with
    | zero => exact fun _ => ⟨_, atPass_zero path, rfl⟩
    | succ earlier ih =>
      intro hless
      obtain ⟨upload, hpass, hrun⟩ := ih (Nat.le_of_succ_le hless)
      obtain ⟨next, hagain, hnext⟩ := atPass_succ hpass (hmeets.2 earlier hless)
        (not_stalled_of_meetsAt hsteady hboundary hmeets (Nat.le_of_succ_le hless))
      exact ⟨next, hnext, hrun.trans (Loop.run_again _ hagain)⟩
  exact hreach pass (le_refl pass)

end PdiStack.UploadBlocks
