import PdiStack.Http.UploadBlocks

/-!
# Where an upload stops

The pass that meets the boundary searches its window twice, first for the end
boundary and then, in what is left, for the plain one, and either search may drop
the first block of the window.  `stopPlace` and `SkipsBlock` say what comes of
both, and `receiveContent_of_meetsAt` what the upload loop has stored by then.
-/

namespace PdiStack.UploadStop

open StringOperations IOInterface Multipart UploadBlocks Occurrence List Option

def metPlace (boundary window : Text) : ℕ :=
  ((Occurrence.first (endBoundary boundary) window).or (Occurrence.first boundary window)).getD 0

/-- The pass was not going to write, and the boundary lies more than a block behind
the start of the window: the first block of it is dropped. -/
def SkipsBlock (boundary window : Text) (fileWriteCounter : ℕ) : Prop :=
  fileWriteCounter = 0 ∧ httpUploadReadBlockSize < metPlace boundary window

instance (boundary window : Text) (fileWriteCounter : ℕ) :
    Decidable (SkipsBlock boundary window fileWriteCounter) :=
  inferInstanceAs (Decidable (_ ∧ _))

def stopPlace (boundary window : Text) (fileWriteCounter : ℕ) : ℕ :=
  match Occurrence.first (endBoundary boundary) window with
  | none => metPlace boundary window
  | some place =>
    if SkipsBlock boundary window fileWriteCounter then
      httpUploadReadBlockSize +
        (Occurrence.first boundary ((window.take place).drop httpUploadReadBlockSize)).getD
          (place - httpUploadReadBlockSize)
    else
      (Occurrence.first boundary (window.take place)).getD place

def stopText (boundary window : Text) (fileWriteCounter : ℕ) : Text :=
  (window.take (stopPlace boundary window fileWriteCounter)).drop
    (if SkipsBlock boundary window fileWriteCounter then httpUploadReadBlockSize else 0)

variable {boundary window : Text}

theorem cutAt_of_first {pattern lastRead : Text} {place : ℕ} {fileWriteCounter : ℕ}
    (hfound : Occurrence.first pattern lastRead = some place) :
    cutAt pattern lastRead fileWriteCounter =
      if fileWriteCounter = 0 ∧ httpUploadReadBlockSize < place then
        ⟨(lastRead.take place).drop httpUploadReadBlockSize, 1, some place⟩
      else
        ⟨lastRead.take place, fileWriteCounter, some place⟩ := by
  rw [cutAt, find_zero, hfound]

theorem metPlace_of_end {place : ℕ}
    (hend : Occurrence.first (endBoundary boundary) window = some place) :
    metPlace boundary window = place := by
  rw [metPlace, hend]
  rfl

theorem metPlace_of_plain {place : ℕ}
    (hend : Occurrence.first (endBoundary boundary) window = none)
    (hplain : Occurrence.first boundary window = some place) :
    metPlace boundary window = place := by
  rw [metPlace, hend, hplain]
  rfl

/-- A search in the text in front of a place, from `start` on, where it drops no block. -/
theorem cutAt_inner {fileWriteCounter start place : ℕ} (hstart : start ≤ place)
    (hkept : fileWriteCounter = 0 → place - start ≤ httpUploadReadBlockSize) :
    (cutAt boundary ((window.take place).drop start) fileWriteCounter).lastRead =
        (window.take (start + (Occurrence.first boundary ((window.take place).drop start)).getD
          (place - start))).drop start ∧
      (cutAt boundary ((window.take place).drop start) fileWriteCounter).fileWriteCounter =
        fileWriteCounter := by
  cases hplain : Occurrence.first boundary ((window.take place).drop start) with
  | none =>
    rw [cutAt_of_absent _ (first_eq_none_iff.mp hplain), getD_none, Nat.add_sub_cancel' hstart]
    exact ⟨rfl, rfl⟩
  | some inner =>
    have hfits := add_length_le_of_first hplain
    rw [length_drop, length_take] at hfits
    rw [cutAt_of_first hplain, if_neg (by omega), getD_some, take_drop, take_take,
      min_eq_left (by omega)]
    exact ⟨rfl, rfl⟩

/-- What the second search leaves, in each case of the first. -/
theorem lastRead_cutAt (fileWriteCounter : ℕ) (hmet : boundary <:+: window) :
    (cutAt boundary (cutAt (endBoundary boundary) window fileWriteCounter).lastRead
        (cutAt (endBoundary boundary) window fileWriteCounter).fileWriteCounter).lastRead =
      stopText boundary window fileWriteCounter ∧
    (cutAt boundary (cutAt (endBoundary boundary) window fileWriteCounter).lastRead
        (cutAt (endBoundary boundary) window fileWriteCounter).fileWriteCounter).fileWriteCounter =
      if SkipsBlock boundary window fileWriteCounter then 1 else fileWriteCounter := by
  have hskips {place : ℕ} (hplace : metPlace boundary window = place) :
      SkipsBlock boundary window fileWriteCounter ↔
        fileWriteCounter = 0 ∧ httpUploadReadBlockSize < place := by
    rw [SkipsBlock, hplace]
  cases hend : Occurrence.first (endBoundary boundary) window with
  | none =>
    obtain ⟨place, hplain⟩ := isSome_iff_exists.mp (first_isSome_iff.mpr hmet)
    have hplace := metPlace_of_plain hend hplain
    rw [cutAt_of_absent _ (first_eq_none_iff.mp hend)]
    rw [cutAt_of_first hplain, stopText, stopPlace, hend, hplace]
    simp only [hskips hplace]
    split <;> exact ⟨rfl, rfl⟩
  | some place =>
    rw [cutAt_of_first hend, stopText, stopPlace, hend]
    simp only [hskips (metPlace_of_end hend)]
    split
    case isTrue hskipped => exact cutAt_inner hskipped.2.le fun hzero => absurd hzero one_ne_zero
    case isFalse hkept =>
      have hinner := @cutAt_inner boundary window fileWriteCounter 0 place (Nat.zero_le _)
        fun hzero => Nat.le_of_not_lt fun hless => hkept ⟨hzero, hless⟩
      rwa [drop_zero, zero_add] at hinner

theorem prefix_stopPlace (fileWriteCounter : ℕ) (hmet : boundary <:+: window) :
    boundary <+: window.drop (stopPlace boundary window fileWriteCounter) := by
  rw [stopPlace]
  split
  case h_1 hend =>
    obtain ⟨place, hplain⟩ := isSome_iff_exists.mp (first_isSome_iff.mpr hmet)
    rw [metPlace_of_plain hend hplain]
    exact prefix_of_first hplain
  case h_2 place hend =>
    have hthere : boundary <+: window.drop place :=
      (prefix_append boundary _).trans (prefix_of_first hend)
    have hinner : ∀ start inner, boundary <+: ((window.take place).drop start).drop inner →
        boundary <+: window.drop (start + inner) := by
      intro start inner hfound
      rw [drop_drop] at hfound
      exact hfound.trans ((List.take_prefix place window).drop _)
    split
    case isTrue hskips =>
      cases hplain : Occurrence.first boundary
          ((window.take place).drop httpUploadReadBlockSize) with
      | none =>
        have hless := hskips.2
        rw [metPlace_of_end hend] at hless
        have hsame : httpUploadReadBlockSize + (place - httpUploadReadBlockSize) = place := by
          omega
        rw [getD_none, hsame]
        exact hthere
      | some inner => exact hinner _ _ (prefix_of_first hplain)
    case isFalse hkept =>
      cases hplain : Occurrence.first boundary (window.take place) with
      | none => exact hthere
      | some inner =>
        have hfound := hinner 0 inner (prefix_of_first hplain)
        rwa [zero_add] at hfound

/-- Without a dropped block the upload ends no later than at a boundary that an
end boundary does not run into. -/
theorem stopPlace_le {fileWriteCounter place : ℕ} (hmet : boundary <:+: window)
    (hkept : ¬ SkipsBlock boundary window fileWriteCounter)
    (hthere : boundary <+: window.drop place)
    (hclear : ∀ last, Occurrence.first (endBoundary boundary) window = some last →
      place < last → place + boundary.length ≤ last) :
    stopPlace boundary window fileWriteCounter ≤ place := by
  rw [stopPlace]
  split
  case h_1 hend =>
    obtain ⟨found, hplain⟩ := isSome_iff_exists.mp (first_isSome_iff.mpr hmet)
    rw [metPlace_of_plain hend hplain]
    exact first_le hplain hthere
  case h_2 last hend =>
    rw [if_neg hkept]
    have hbefore : ∀ inner, Occurrence.first boundary (window.take last) = some inner →
        inner ≤ last := by
      intro inner hinner
      have hfits := add_length_le_of_first hinner
      rw [length_take] at hfits
      omega
    by_cases hless : place < last
    · have hinside : boundary <+: (window.take last).drop place := by
        rw [prefix_drop_iff] at hthere ⊢
        intro index hindex
        have hlast := hclear last hend hless
        rw [getElem?_take_of_lt (by omega)]
        exact hthere index hindex
      obtain ⟨inner, hinner⟩ := isSome_iff_exists.mp
        (first_isSome_iff.mpr (infix_of_prefix_drop hinside))
      rw [hinner]
      exact first_le hinner hinside
    · cases hinner : Occurrence.first boundary (window.take last) with
      | none =>
        rw [getD_none]
        omega
      | some inner =>
        have hle := hbefore inner hinner
        rw [getD_some]
        omega

theorem stopPlace_le_end {fileWriteCounter last : ℕ} (hmet : boundary <:+: window)
    (hkept : ¬ SkipsBlock boundary window fileWriteCounter)
    (hend : Occurrence.first (endBoundary boundary) window = some last) :
    stopPlace boundary window fileWriteCounter ≤ last :=
  stopPlace_le hmet hkept ((prefix_append boundary _).trans (prefix_of_first hend))
    fun _ hother hless => absurd (some.inj (hend.symm.trans hother)) hless.ne

theorem stopPlace_le_metPlace {fileWriteCounter : ℕ} (hmet : boundary <:+: window)
    (hkept : ¬ SkipsBlock boundary window fileWriteCounter) :
    stopPlace boundary window fileWriteCounter ≤ metPlace boundary window := by
  cases hend : Occurrence.first (endBoundary boundary) window with
  | none => rw [stopPlace, hend]
  | some last =>
    rw [metPlace_of_end hend]
    exact stopPlace_le_end hmet hkept hend

theorem metPlace_le {place : ℕ} (hthere : boundary <+: window.drop place)
    (hend : ∀ last, Occurrence.first (endBoundary boundary) window = some last → last ≤ place) :
    metPlace boundary window ≤ place := by
  cases hlast : Occurrence.first (endBoundary boundary) window with
  | none =>
    obtain ⟨found, hplain⟩ := isSome_iff_exists.mp
      (first_isSome_iff.mpr (infix_of_prefix_drop hthere))
    rw [metPlace_of_plain hlast hplain]
    exact first_le hplain hthere
  | some last =>
    rw [metPlace_of_end hlast]
    exact hend last hlast

def storedBytes (boundary : Text) (client : Client) (pass : ℕ) : Text :=
  if pass % 2 = 1 ∨ SkipsBlock boundary (windowAt client pass) (pass % 2) then
    writtenAt client pass ++ (heldAt client pass ++
      (stopText boundary (windowAt client pass) (pass % 2)).take
        ((stopText boundary (windowAt client pass) (pass % 2)).length - 2))
  else
    writtenAt client pass

theorem place_cutAt (pattern lastRead : Text) (fileWriteCounter : ℕ) :
    (cutAt pattern lastRead fileWriteCounter).place = Occurrence.first pattern lastRead := by
  rw [cutAt, find_zero]
  split
  case h_1 hnone => exact hnone.symm
  case h_2 place hfound =>
    rw [hfound]
    split <;> rfl

theorem takeBlock_of_met (path : Text) {block : Text} (upload : Upload)
    (hwindow : upload.lastRead ++ block = window) (hmet : boundary <:+: window) :
    ∃ received, takeBlock boundary path block upload = .done received ∧
      received.aborted = false ∧ received.client = upload.client ∧
      received.actions = upload.actions ++
        (if upload.fileWriteCounter = 1 ∨ SkipsBlock boundary window upload.fileWriteCounter then
          writesOf path upload.held (stopText boundary window upload.fileWriteCounter)
        else []) ∧
      (received.foundEnd = true ↔ endBoundary boundary <:+: window) ∧
      (¬ endBoundary boundary <:+: window → received.foundBoundary = true ∧
        received.part = window.drop
          (stopPlace boundary window upload.fileWriteCounter + boundary.length + 2)) := by
  obtain ⟨hlast, hcount⟩ := lastRead_cutAt upload.fileWriteCounter hmet
  have hended := place_cutAt (endBoundary boundary) window upload.fileWriteCounter
  have hplain : ¬ endBoundary boundary <:+: window →
      (cutAt (endBoundary boundary) window upload.fileWriteCounter).lastRead = window := by
    intro hno
    rw [cutAt_of_absent _ hno]
  dsimp only [takeBlock]
  rw [hwindow]
  generalize cutAt (endBoundary boundary) window upload.fileWriteCounter = ended at *
  have hcut := place_cutAt boundary ended.lastRead ended.fileWriteCounter
  generalize cutAt boundary ended.lastRead ended.fileWriteCounter = cut at *
  have hfound : ended.place.isSome = true ∨ cut.place.isSome = true := by
    rw [hended, hcut, first_isSome_iff, first_isSome_iff]
    by_cases hend : endBoundary boundary <:+: window
    · exact .inl hend
    · rw [hplain hend]
      exact .inr hmet
  rw [if_pos hfound]
  refine ⟨_, rfl, rfl, flush_client path cut upload, ?_, ?_, ?_⟩
  · dsimp only [Upload.flush]
    rw [hcount, hlast]
    by_cases hskips : SkipsBlock boundary window upload.fileWriteCounter
    · rw [if_pos hskips, if_pos rfl, if_pos (.inr hskips)]
    · rw [if_neg hskips]
      by_cases hone : upload.fileWriteCounter = 1
      · rw [if_pos (by omega), if_pos (.inl hone)]
      · rw [if_neg (by omega), if_neg (not_or.mpr ⟨hone, hskips⟩), append_nil]
  · rw [hended, first_isSome_iff]
  · intro hno
    have hnone := first_eq_none_iff.mpr hno
    obtain ⟨place, hplace⟩ := isSome_iff_exists.mp (first_isSome_iff.mpr hmet)
    rw [hplain hno, hplace] at hcut
    rw [hcut, hplain hno, stopPlace, hnone, metPlace_of_plain hnone hplace]
    exact ⟨rfl, rfl⟩

/-- How an upload ends at its boundary. -/
structure StopsAt (boundary path : Text) (client : Client) (pass : ℕ) (received : Received) :
    Prop where
  going : received.aborted = false
  reader : received.client = clientAt client (pass + 1)
  stores : Appends path (storedBytes boundary client pass) received.actions
  ended : received.foundEnd = true ↔ endBoundary boundary <:+: windowAt client pass
  resumes : ¬ endBoundary boundary <:+: windowAt client pass →
    received.foundBoundary = true ∧
      received.part = (windowAt client pass).drop
        (stopPlace boundary (windowAt client pass) (pass % 2) + boundary.length + 2)

theorem receiveContent_of_meetsAt (path : Text) {client : Client} {pass : ℕ}
    (hsteady : client.Steady) (hboundary : boundary ≠ []) (hmeets : MeetsAt boundary client pass) :
    StopsAt boundary path client pass (receiveContent boundary path client) := by
  obtain ⟨upload, hpass, hrun⟩ := receiveContent_eq_run path hsteady hboundary hmeets
  have hblock : readBlock upload.client = (blockAt client pass, clientAt client (pass + 1)) := by
    rw [hpass.reader]
    rfl
  have hgoing := not_stalled_of_meetsAt hsteady hboundary hmeets (le_refl pass)
  have hwindow : upload.lastRead ++ blockAt client pass = windowAt client pass := by
    rw [hpass.lastRead]
    rfl
  obtain ⟨received, hdone, haborted, hreader, hactions, hend, hresumes⟩ :=
    takeBlock_of_met path { upload with client := clientAt client (pass + 1) } hwindow hmeets.1
  have hlast : uploadPass boundary path upload = .done received := by
    dsimp only [uploadPass]
    rw [hblock, if_neg hgoing]
    exact hdone
  rw [hrun, Loop.run_done _ hlast]
  rw [hpass.counter] at hactions hresumes
  refine ⟨haborted, hreader, ?_, hend, hresumes⟩
  rw [hactions, storedBytes]
  split
  · refine appends_append hpass.writes ?_
    rw [hpass.held]
    exact appends_writesOf path _ _
  · rw [append_nil]
    exact hpass.writes

end PdiStack.UploadStop
