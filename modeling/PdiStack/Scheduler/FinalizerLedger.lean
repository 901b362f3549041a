import PdiStack.Scheduler.TaskTable

/-!
# The ledger of finalizers

A ledger lists the live tasks with the finalizer each of them carries, from the notices
of a run alone.  It admits a finalizer that runs only as the one its task carries, which
is then carried no more, and the release of a task only once it carries none.  A run
from a fresh scheduler keeps the ids in order whatever is called, and its notices are
admitted exactly when no finalizer leaves a finalizer behind in the slot it runs for.
-/

namespace PdiStack.FinalizerLedger

open StateMachine TaskScheduler KilledTask Reentrancy TaskTable Function List Option

/-- The live ids are in range and different, every task is run in the turn itself, and
a free slot carries nothing. -/
structure Sound (table : Table) : Prop where
  inRange : ∀ place, 0 ≤ (table place).id → InRange (table place).id
  distinct : ∀ place other, 0 ≤ (table place).id → (table place).id = (table other).id →
    place = other
  inline : ∀ place, (table place).mode = .inline
  free : ∀ place, (table place).id < 0 → table place = freeView

variable {input : Input} {busy opened : List ℕ} {machine : Machine} {next table : Table} {index : ℕ}

section

variable (hsound : Sound table)
include hsound

theorem Sound.update (index : ℕ) {view : View} (hmode : view.mode = .inline)
    (hfree : view.id < 0 → view = freeView)
    (hlive : 0 ≤ view.id → InRange view.id ∧ ∀ place, place ≠ index → (table place).id ≠ view.id) :
    Sound (update table index view) where
  inRange place hplace := by
    rw [update_apply] at hplace ⊢
    split at hplace <;> rename_i hindex
    · rw [if_pos hindex]
      exact (hlive hplace).1
    · rw [if_neg hindex]
      exact hsound.inRange place hplace
  distinct place other hplace hsame := by
    rw [update_apply] at hplace hsame
    rw [update_apply] at hsame
    by_cases hindex : place = index
    · rw [if_pos hindex] at hplace hsame
      by_cases hother : other = index
      · exact hindex.trans hother.symm
      · rw [if_neg hother] at hsame
        exact absurd hsame.symm ((hlive hplace).2 other hother)
    · rw [if_neg hindex] at hplace hsame
      by_cases hother : other = index
      · rw [if_pos hother] at hsame
        exact absurd hsame ((hlive (hsame ▸ hplace)).2 place hindex)
      · rw [if_neg hother] at hsame
        exact hsound.distinct place other hplace hsame
  inline place := by
    rw [update_apply]
    split
    · exact hmode
    · exact hsound.inline place
  free place hplace := by
    rw [update_apply] at hplace ⊢
    split at hplace <;> rename_i hindex
    · rw [if_pos hindex]
      exact hfree hplace
    · rw [if_neg hindex]
      exact hsound.free place hplace

theorem Sound.cleared (index : ℕ) : Sound (Function.update table index freeView) :=
  hsound.update index rfl (fun _ => rfl) fun hlive => absurd hlive (by decide)

/-- The finalizer of a live slot rewritten. -/
theorem Sound.refinalized (hlive : 0 ≤ (table index).id) (finalizer : Option Routine) :
    Sound (Function.update table index { table index with finalizer := finalizer }) :=
  hsound.update index (hsound.inline index) (fun hfree => absurd hlive (Int.not_le.mpr hfree))
    fun _ => ⟨hsound.inRange index hlive, fun place hplace hsame =>
      hplace (hsound.distinct index place hlive hsame.symm).symm⟩

theorem Sound.move {notice : Notice} (hmove : Move table notice opened next) : Sound next := by
  cases hmove with
  | register index id hfree hid hfresh =>
    exact hsound.update index (hsound.inline index)
      (fun hnegative => absurd hid.1 (by have : id < 0 := hnegative; omega))
      fun _ => ⟨hid, fun place _ => hfresh place⟩
  | set index finalizer hlive => exact hsound.refinalized hlive finalizer
  | invoke id routine => exact hsound
  | finalize index finalizer hlive hheld => exact hsound.refinalized hlive none
  | release index hlive hbare => exact hsound.cleared index

theorem Sound.path {notices : List Notice} (hpath : Path table notices opened next) :
    Sound next := by
  induction hpath with
  | refl => exact hsound
  | move hmove _ ih => exact ih (hsound.move hmove)

end

/-! ## Ledgers -/

/-- A live task: the finalizer it carries, and whether one was run for it. -/
structure Holding where
  finalizer : Option Routine
  leaving : Bool
deriving DecidableEq

abbrev Ledger := ℤ → Option Holding

variable (ledger : Ledger)

def Ledger.note : Notice → Ledger
  | .registered id => update ledger id (some { finalizer := none, leaving := false })
  | .finalizerSet id finalizer =>
    update ledger id
      ((ledger id).map fun holding => { holding with finalizer := finalizer })
  | .invoked _ _ => ledger
  | .finalized id _ =>
    update ledger id ((ledger id).map fun _ => { finalizer := none, leaving := true })
  | .released id => update ledger id none

/-- The notices that a ledger admits: a new id, a finalizer for a live task, the
finalizer that a live task carries being run, and the release of a live task that
carries none. -/
def Ledger.Admits : Notice → Prop
  | .registered id => ledger id = none
  | .finalizerSet id _ => ledger id ≠ none
  | .invoked _ _ => True
  | .finalized id finalizer => (ledger id).map Holding.finalizer = some (some finalizer)
  | .released id => (ledger id).map Holding.finalizer = some none

instance (ledger : Ledger) : ∀ notice, Decidable (ledger.Admits notice)
  | .registered id => inferInstanceAs (Decidable (ledger id = none))
  | .finalizerSet id _ => inferInstanceAs (Decidable (ledger id ≠ none))
  | .invoked _ _ => .isTrue trivial
  | .finalized id finalizer =>
    inferInstanceAs (Decidable ((ledger id).map Holding.finalizer = some (some finalizer)))
  | .released id => inferInstanceAs (Decidable ((ledger id).map Holding.finalizer = some none))

def Ledger.read (notice : Notice) : Unit × Ledger := ((), ledger.note notice)

def Ledger.AdmitsAll (notices : List Notice) : Prop :=
  Allowed Ledger.read Ledger.Admits notices ledger

def Ledger.noteAll (notices : List Notice) : Ledger := (run Ledger.read notices ledger).2

/-- The ledger of a fresh scheduler. -/
def blank : Ledger := fun _ => none

/-- A ledger lists the live tasks of a table, and a finalizer was run only for tasks
whose slot is being released. -/
structure Records (table : Table) (busy : List ℕ) (ledger : Ledger) : Prop where
  listed : ∀ place, 0 ≤ (table place).id → ∃ leaving,
    ledger (table place).id = some { finalizer := (table place).finalizer, leaving := leaving } ∧
      (leaving = true → place ∈ busy)
  known : ∀ id, ledger id ≠ none → ∃ place, 0 ≤ (table place).id ∧ (table place).id = id

variable {ledger : Ledger}

theorem Records.mono {more : List ℕ} (hrecords : Records table busy ledger)
    (hmore : ∀ place ∈ busy, place ∈ more) :
    Records table more ledger where
  listed place hlive := by
    obtain ⟨leaving, hledger, hbusy⟩ := hrecords.listed place hlive
    exact ⟨leaving, hledger, fun hleaving => hmore place (hbusy hleaving)⟩
  known := hrecords.known

section

variable (hsound : Sound table)
include hsound

/-- The finalizer of a live slot rewritten in the table and in the ledger. -/
theorem Records.refinalized {more : List ℕ} (hrecords : Records table busy ledger)
    (hlive : 0 ≤ (table index).id) (finalizer : Option Routine) (leaving : Bool)
    (hmore : ∀ place ∈ busy, place ∈ more) (hleaving : leaving = true → index ∈ more) :
    Records (update table index { table index with finalizer := finalizer }) more
      (update ledger (table index).id
        (some { finalizer := finalizer, leaving := leaving })) where
  listed place hplace := by
    by_cases hindex : place = index
    · subst hindex
      refine ⟨leaving, ?_, hleaving⟩
      rw [update_self, update_self]
    · rw [update_of_ne hindex] at hplace ⊢
      have hother : (table place).id ≠ (table index).id := fun hsame =>
        hindex (hsound.distinct place index hplace hsame)
      rw [update_of_ne hother]
      exact (hrecords.mono hmore).listed place hplace
  known id hid := by
    have hsame : ∀ place, (update table index
        { table index with finalizer := finalizer } place).id = (table place).id := by
      intro place
      rw [update_apply]
      split
      case isTrue hindex => rw [hindex]
      case isFalse => rfl
    simp only [hsame]
    by_cases hindex : id = (table index).id
    · exact ⟨index, hlive, hindex.symm⟩
    · rw [update_of_ne hindex] at hid
      exact hrecords.known id hid

theorem Records.registered (hrecords : Records table busy ledger) {id : ℤ}
    (hfree : (table index).id < 0) (hid : InRange id) (hfresh : ∀ place, (table place).id ≠ id) :
    Records (update table index { table index with id := id }) busy
      (update ledger id (some { finalizer := none, leaving := false })) where
  listed place hplace := by
    by_cases hindex : place = index
    · subst hindex
      refine ⟨false, ?_, nofun⟩
      rw [update_self, update_self, hsound.free place hfree]
      rfl
    · rw [update_of_ne hindex] at hplace ⊢
      rw [update_of_ne (hfresh place)]
      exact hrecords.listed place hplace
  known other hother := by
    by_cases hsame : other = id
    · refine ⟨index, ?_, ?_⟩
      · rw [update_self]
        exact Int.le_trans (by decide) hid.1
      · rw [update_self]
        exact hsame.symm
    · rw [update_of_ne hsame] at hother
      obtain ⟨place, hlive, hplace⟩ := hrecords.known other hother
      have hindex : place ≠ index := by
        rintro rfl
        omega
      exact ⟨place, by rw [update_of_ne hindex]; exact ⟨hlive, hplace⟩⟩

theorem Records.cleared (hrecords : Records table (index :: busy) ledger)
    (hlive : 0 ≤ (table index).id) : Records (update table index freeView) busy
      (update ledger (table index).id none) where
  listed place hplace := by
    by_cases hindex : place = index
    · subst hindex
      rw [update_self] at hplace
      exact absurd hplace (by decide)
    · rw [update_of_ne hindex] at hplace ⊢
      have hother : (table place).id ≠ (table index).id := fun hsame =>
        hindex (hsound.distinct place index hplace hsame)
      rw [update_of_ne hother]
      obtain ⟨leaving, hledger, hbusy⟩ := hrecords.listed place hplace
      exact ⟨leaving, hledger, fun hleaving =>
        (mem_cons.mp (hbusy hleaving)).resolve_left hindex⟩
  known id hid := by
    by_cases hsame : id = (table index).id
    · rw [hsame, update_self] at hid
      exact absurd rfl hid
    · rw [update_of_ne hsame] at hid
      obtain ⟨place, hplace, hplaceId⟩ := hrecords.known id hid
      have hindex : place ≠ index := by
        rintro rfl
        exact hsame hplaceId.symm
      exact ⟨place, by rw [update_of_ne hindex]; exact ⟨hplace, hplaceId⟩⟩

/-- The notice of a move is admitted, and the ledger keeps up with the table. -/
theorem Records.move (hrecords : Records table busy ledger) {notice : Notice}
    (hmove : Move table notice opened next) :
    ledger.Admits notice ∧ Records next (opened ++ busy) (ledger.note notice) := by
  cases hmove with
  | register index id hfree hid hfresh =>
    refine ⟨?_, hrecords.registered hsound hfree hid hfresh⟩
    by_contra hknown
    obtain ⟨place, -, hplace⟩ := hrecords.known id hknown
    exact hfresh place hplace
  | set index finalizer hlive =>
    obtain ⟨leaving, hledger, hbusy⟩ := hrecords.listed index hlive
    refine ⟨fun hnone => some_ne_none _ (hledger.symm.trans hnone), ?_⟩
    rw [Ledger.note, hledger]
    exact hrecords.refinalized hsound hlive finalizer leaving (fun _ hplace => hplace) hbusy
  | invoke id routine => exact ⟨trivial, hrecords⟩
  | finalize index finalizer hlive hheld =>
    obtain ⟨leaving, hledger, -⟩ := hrecords.listed index hlive
    refine ⟨by rw [Ledger.Admits, hledger, hheld]; rfl, ?_⟩
    rw [Ledger.note, hledger]
    exact hrecords.refinalized hsound hlive none true
      (fun _ hplace => mem_cons_of_mem _ hplace) fun _ => mem_cons_self
  | release index hlive hbare =>
    obtain ⟨leaving, hledger, -⟩ := hrecords.listed index hlive
    refine ⟨by rw [Ledger.Admits, hledger, hbare]; rfl, ?_⟩
    exact Records.cleared hsound (hrecords.mono fun _ hplace => mem_cons_of_mem _ hplace)
      hlive

theorem Records.path (hrecords : Records table busy ledger) {notices : List Notice}
    (hpath : Path table notices opened next) :
    ledger.AdmitsAll notices ∧ Records next (opened ++ busy) (ledger.noteAll notices) := by
  induction hpath generalizing busy ledger with
  | refl => exact ⟨trivial, hrecords⟩
  | move hmove _ ih =>
    obtain ⟨hadmits, hnext⟩ := hrecords.move hsound hmove
    obtain ⟨hall, hlast⟩ := ih (hsound.move hmove) hnext
    refine ⟨⟨hadmits, hall⟩, hlast.mono fun place hplace => ?_⟩
    simp only [mem_append] at hplace ⊢
    tauto

end

/-! ## The machine -/

/-- A machine that was started fresh. -/
structure Good (machine : Machine) : Prop where
  limits : Limits machine.scheduler
  sound : Sound (view machine.scheduler)

def InputKeepsLimit : Input → Prop
  | .call call => KeepsLimit call
  | _ => True

/-- A finalizer that returns leaves its slot without a finalizer. -/
def ReturnsBare (machine : Machine) : Input → Prop
  | .finish =>
    match machine.frames with
    | .releasing index _ :: _ => (machine.scheduler.slot index).finalizer = none
    | _ => True
  | _ => True

/-- An input that takes the table along a path and adds the slots of the finalizers it
runs to the busy ones. -/
def Paced (machine : Machine) (result : List Notice × Machine) : Prop :=
  ∃ opened, Follows machine.scheduler result.1 opened result.2.scheduler ∧
    busyOf result.2.frames = opened ++ busyOf machine.frames

theorem paced_settle {frames : List Frame} {halt : Halt}
    (hframes : busyOf frames = busyOf machine.frames)
    (hfollows : FollowsHalt machine.scheduler halt) : Paced machine (settle frames halt) := by
  refine ⟨_, hfollows, ?_⟩
  rw [settle, busyOf, flatMap_append, ← hframes]
  rfl

/-- Every input is such a step, the return of a finalizer apart. -/
theorem take_cases (hgood : Good machine) (hkeeps : InputKeepsLimit input) :
    (Paced machine (machine.take input) ∧ ReturnsBare machine input) ∨
      ∃ index rest frames, input = .finish ∧ machine.frames = .releasing index rest :: frames := by
  have hinline : AllInline machine.scheduler := hgood.sound.inline
  cases input with
  | call call => exact .inl ⟨⟨[], follows_perform hgood.limits hkeeps, rfl⟩, trivial⟩
  | handleTasks readings =>
    exact .inl ⟨paced_settle rfl (followsHalt_beginTurn readings hinline hgood.limits), trivial⟩
  | removeExpiredTasks =>
    exact .inl ⟨paced_settle rfl (followsHalt_releaseFrom _ hgood.limits), trivial⟩
  | finish =>
    rw [Machine.take, ReturnsBare]
    cases hframes : machine.frames with
    | nil =>
      refine .inl ⟨⟨[], Quiet.follows (quiet_refl _) hgood.limits, rfl⟩, trivial⟩
    | cons frame frames =>
      cases frame with
      | callback readings place index rest =>
        refine .inl ⟨paced_settle ?_
          (followsHalt_callback readings place index rest hinline hgood.limits), trivial⟩
        rw [hframes]
        rfl
      | reaping readings place rest =>
        refine .inl ⟨paced_settle ?_
          (followsHalt_slotsFrom readings rest (place + 1) hinline hgood.limits), trivial⟩
        rw [hframes]
        rfl
      | releasing index rest => exact .inr ⟨index, rest, frames, rfl, rfl⟩

theorem view_cleared (scheduler : Scheduler) (index : ℕ) :
    view (scheduler.modifySlot index Task.clear) = update (view scheduler) index freeView := by
  by_cases hinside : index < scheduler.tasks.length
  · exact view_modifySlot hinside Task.clear
  · have hfree : scheduler.slot index = {} := getD_eq_default _ _ (Nat.le_of_not_lt hinside)
    rw [view_modifySlot_same scheduler index (by rw [hfree]; rfl)]
    refine (update_eq_self_iff.mpr ?_).symm
    rw [view, hfree]
    rfl

/-- The return of a finalizer clears its slot and goes on with the release. -/
theorem take_releasing {rest : List ℕ} {frames : List Frame}
    (hframes : machine.frames = .releasing index rest :: frames) :
    machine.take .finish =
      settle frames ((releaseFrom rest (clearSlot index machine.scheduler).2).after
        (clearSlot index machine.scheduler).1) := by
  rw [Machine.take, hframes]
  rfl

theorem good_take (hgood : Good machine) (hkeeps : InputKeepsLimit input) :
    Good (machine.take input).2 := by
  rcases take_cases hgood hkeeps with
    ⟨⟨opened, hfollows, -⟩, -⟩ | ⟨index, rest, frames, rfl, hframes⟩
  · exact ⟨hfollows.limits, hgood.sound.path hfollows.path⟩
  · rw [take_releasing hframes]
    have hfollows := followsHalt_releaseFrom rest
      (limits_modifySlot hgood.limits index Task.clear)
    refine ⟨hfollows.limits, Sound.path ?_ hfollows.path⟩
    rw [view_cleared]
    exact hgood.sound.cleared index

/-- A slot that a finalizer has returned to is cleared in the ledger too, if it carries no
finalizer. -/
theorem admitsAll_clearSlot {scheduler : Scheduler} (hsound : Sound (view scheduler))
    (hrecords : Records (view scheduler) (index :: busy) ledger) :
    (ledger.AdmitsAll (clearSlot index scheduler).1 ↔ (scheduler.slot index).finalizer = none) ∧
      Records (view (clearSlot index scheduler).2) busy
        (ledger.noteAll (clearSlot index scheduler).1) := by
  unfold clearSlot
  rw [view_cleared]
  split
  case isTrue hlive =>
    obtain ⟨leaving, hledger, -⟩ := hrecords.listed index hlive
    refine ⟨?_, Records.cleared hsound hrecords hlive⟩
    have hcarried : (ledger (scheduler.slot index).taskId).map Holding.finalizer =
        some (scheduler.slot index).finalizer := congrArg _ hledger
    rw [Ledger.AdmitsAll, Allowed, Ledger.Admits, hcarried, some_inj]
    exact and_iff_left trivial
  case isFalse hfree =>
    have hview : view scheduler index = freeView := hsound.free index (Int.not_le.mp hfree)
    have hbare : (scheduler.slot index).finalizer = none := congrArg View.finalizer hview
    refine ⟨iff_of_true trivial hbare, ?_⟩
    rw [update_eq_self_iff.mpr hview.symm]
    refine ⟨fun place hplace => ?_, hrecords.known⟩
    obtain ⟨leaving, hledger, hbusy⟩ := hrecords.listed place hplace
    refine ⟨leaving, hledger, fun hleaving => ?_⟩
    refine (mem_cons.mp (hbusy hleaving)).resolve_left ?_
    rintro rfl
    exact hfree hplace

theorem admitsAll_append (ledger : Ledger) (first second : List Notice) :
    ledger.AdmitsAll (first ++ second) ↔
      ledger.AdmitsAll first ∧ (ledger.noteAll first).AdmitsAll second :=
  allowed_append first second ledger

theorem noteAll_append (ledger : Ledger) (first second : List Notice) :
    ledger.noteAll (first ++ second) = (ledger.noteAll first).noteAll second :=
  run_append_state first second ledger

def Kept (machine : Machine) (ledger : Ledger) : Prop :=
  Records (view machine.scheduler) (busyOf machine.frames) ledger

/-- One input: its notices are admitted exactly if it is not the return of a finalizer
that leaves one behind, and the ledger keeps up either way. -/
theorem kept_take (hgood : Good machine) (hkept : Kept machine ledger)
    (hkeeps : InputKeepsLimit input) :
    (ledger.AdmitsAll (machine.take input).1 ↔ ReturnsBare machine input) ∧
      Kept (machine.take input).2 (ledger.noteAll (machine.take input).1) := by
  rcases take_cases hgood hkeeps with
    ⟨⟨opened, hfollows, hbusy⟩, hbare⟩ | ⟨index, rest, frames, rfl, hframes⟩
  · obtain ⟨hadmits, hrecords⟩ := Records.path hgood.sound hkept hfollows.path
    refine ⟨iff_of_true hadmits hbare, ?_⟩
    rw [Kept, hbusy]
    exact hrecords
  · rw [Kept, hframes] at hkept
    obtain ⟨hiff, hcleared⟩ := admitsAll_clearSlot hgood.sound hkept
    have hsound : Sound (view (clearSlot index machine.scheduler).2) := by
      rw [clearSlot, view_cleared]
      exact hgood.sound.cleared index
    have hfollows := followsHalt_releaseFrom rest
      (limits_modifySlot hgood.limits index Task.clear)
    obtain ⟨hadmits, hrecords⟩ := Records.path hsound hcleared hfollows.path
    rw [take_releasing hframes, ReturnsBare, hframes]
    dsimp only [settle, Halt.after]
    rw [admitsAll_append, noteAll_append, Kept, busyOf, flatMap_append]
    exact ⟨by rw [hiff]; exact and_iff_left hadmits, hrecords⟩

theorem kept_run {inputs : List Input} (hgood : Good machine) (hkept : Kept machine ledger)
    (hkeeps : ∀ input ∈ inputs, InputKeepsLimit input) :
    (ledger.AdmitsAll (notices inputs machine) ↔ Allowed Machine.take ReturnsBare inputs machine) ∧
      Good (run Machine.take inputs machine).2 ∧
      Kept (run Machine.take inputs machine).2 (ledger.noteAll (notices inputs machine)) := by
  induction inputs generalizing machine ledger with
  | nil => exact ⟨iff_of_true trivial trivial, hgood, hkept⟩
  | cons input inputs ih =>
    have hinput := hkeeps input mem_cons_self
    obtain ⟨hadmits, hnext⟩ := kept_take hgood hkept hinput
    obtain ⟨hiff, hlast, hlastKept⟩ := ih (good_take hgood hinput) hnext
      fun other hother => hkeeps other (mem_cons_of_mem _ hother)
    rw [notices_cons, admitsAll_append, noteAll_append, hadmits, hiff]
    exact ⟨Iff.rfl, hlast, hlastKept⟩

/-! ## Runs from a fresh scheduler -/

theorem view_fresh {place : ℕ} : view fresh place = freeView := by
  have hfree : fresh.slot place = {} := by
    rw [Scheduler.slot, fresh, getD_eq_getElem?_getD, getElem?_replicate]
    split <;> rfl
  rw [view, hfree]
  rfl

theorem good_start : Good start where
  limits := ⟨length_replicate, rfl, by decide, by decide⟩
  sound :=
    { inRange := fun place hlive => absurd (view_fresh ▸ hlive) (by decide)
      distinct := fun place _ hlive => absurd (view_fresh ▸ hlive) (by decide)
      inline := fun place => congrArg View.mode (view_fresh)
      free := fun place _ => view_fresh }

theorem kept_start : Kept start blank where
  listed place hlive := absurd (view_fresh ▸ hlive) (by decide)
  known _ hknown := absurd rfl hknown

def reached (inputs : List Input) : Machine := (run Machine.take inputs start).2

def ledgerOf (inputs : List Input) : Ledger := blank.noteAll (notices inputs start)

/-- What a client may rely on after some inputs to a fresh scheduler. -/
structure Consistent (inputs : List Input) : Prop where
  inRange : ∀ task ∈ (reached inputs).scheduler.tasks, 0 ≤ task.taskId → InRange task.taskId
  distinct : Distinct (reached inputs).scheduler
  fresh : ∀ registration, 0 ≤ (registerTask (reached inputs).scheduler registration).1 →
    ∀ task ∈ (reached inputs).scheduler.tasks,
      task.taskId ≠ (registerTask (reached inputs).scheduler registration).1
  full : ∀ registration, (registerTask (reached inputs).scheduler registration).1 < 0 →
    ∀ task ∈ (reached inputs).scheduler.tasks, 0 ≤ task.taskId
  finalizers : blank.AdmitsAll (notices inputs start)
  released : (reached inputs).frames = [] →
    ∀ id holding, ledgerOf inputs id = some holding → holding.leaving = false

theorem exists_slot_of_mem {scheduler : Scheduler} {task : Task} (htask : task ∈ scheduler.tasks) :
    ∃ place, scheduler.slot place = task := by
  obtain ⟨place, hinside, rfl⟩ := getElem_of_mem htask
  exact ⟨place, getD_eq_getElem _ _ hinside⟩

/-- No live task has had its finalizer run when no slot is being released. -/
theorem Records.not_leaving (hrecords : Records table [] ledger) {id : ℤ} {holding : Holding}
    (hledger : ledger id = some holding) :
    holding.leaving = false := by
  obtain ⟨place, hlive, rfl⟩ := hrecords.known id (by rw [hledger]; nofun)
  obtain ⟨leaving, hlisted, hbusy⟩ := hrecords.listed place hlive
  obtain rfl := some_inj.mp (hledger.symm.trans hlisted)
  by_contra hleaving
  exact not_mem_nil (hbusy (eq_true_of_ne_false hleaving))

/-- A run of calls, turns and returns from a fresh scheduler with the default limit is
consistent exactly when every finalizer, whatever it calls, returns to a slot without
a finalizer. -/
theorem taskTable_consistent_iff (inputs : List Input)
    (hkeeps : ∀ input ∈ inputs, InputKeepsLimit input) :
    Consistent inputs ↔ Allowed Machine.take ReturnsBare inputs start := by
  obtain ⟨hiff, hgood, hkept⟩ := kept_run good_start kept_start hkeeps
  constructor
  · exact fun hconsistent => hiff.mp hconsistent.finalizers
  intro hbare
  have hlimits : Limits (reached inputs).scheduler := hgood.limits
  refine
    { inRange := fun task htask hlive => ?_
      distinct := hgood.sound.distinct
      fresh := fun registration hid task htask => ?_
      full := fun registration hid => ?_
      finalizers := hiff.mpr hbare
      released := fun hidle id holding hledger => ?_ }
  · obtain ⟨place, rfl⟩ := exists_slot_of_mem htask
    exact hgood.sound.inRange place hlive
  · obtain ⟨place, rfl⟩ := exists_slot_of_mem htask
    rcases registerTask_cases hlimits registration with
      ⟨hfailed, -⟩ | ⟨index, id, next, hdone, -, -, -, -, hnew⟩
    · rw [hfailed] at hid
      exact absurd hid (by decide : ¬ (0 : ℤ) ≤ -1)
    · rw [hdone]
      exact hnew place
  · rcases registerTask_cases hlimits registration with
      ⟨-, hall⟩ | ⟨index, id, next, hdone, -, -, -, hrange, -⟩
    · exact hall
    · rw [hdone] at hid
      exact absurd hid (Int.not_lt.mpr (Int.le_trans (by decide) hrange.1))
  · have hrecords : Records (view (reached inputs).scheduler) (busyOf (reached inputs).frames)
        (ledgerOf inputs) := hkept
    rw [hidle] at hrecords
    exact hrecords.not_leaving hledger

def once : Registration :=
  { task := 7, duration := 10, priority := 0, lastMillis := 5, maxAttempts := 1, name := none,
    owner := 0 }

/-- A task whose callback registers another one, and whose finalizer removes that one. -/
def carefulRun : List Input :=
  [.call (.registerTask once), .call (.setTaskFinalizer 1 (some 11)),
    .handleTasks (readingsOf (turnAt 100)),
    .call (.registerTask once), .call (.setTaskFinalizer 2 (some 12)), .finish,
    .call (.removeTask 2), .finish, .finish]

/-- Both finalizers run, each when its own task is released. -/
theorem carefulRun_consistent :
    Consistent carefulRun ∧
      notices carefulRun start =
        [.registered 1, .finalizerSet 1 (some 11), .invoked 1 7, .registered 2,
          .finalizerSet 2 (some 12), .finalized 1 11, .released 1, .finalized 2 12, .released 2] := by
  refine ⟨(taskTable_consistent_iff carefulRun ?_).mpr ?_, by decide +kernel⟩
  · simp [carefulRun, InputKeepsLimit, KeepsLimit]
  · refine ⟨trivial, trivial, trivial, trivial, trivial, trivial, trivial, ?_, ?_, trivial⟩
    · change (Scheduler.slot _ 0).finalizer = none
      decide +kernel
    · change (Scheduler.slot _ 1).finalizer = none
      decide +kernel

/-- A finalizer that runs a turn, which releases its slot, and then registers a task
with a finalizer of its own. -/
def hastyRun : List Input :=
  [.call (.registerTask once), .call (.setTaskFinalizer 1 (some 11)), .call (.removeTask 1),
    .handleTasks (readingsOf (turnAt 100)), .handleTasks (readingsOf (turnAt 100)),
    .call (.registerTask once), .call (.setTaskFinalizer 2 (some 12)), .finish]

/-- The new task is in the slot that is cleared when the finalizer returns, and goes with
its finalizer. -/
theorem hastyRun_loses_finalizer :
    notices hastyRun start =
        [.registered 1, .finalizerSet 1 (some 11), .finalized 1 11, .released 1, .registered 2,
          .finalizerSet 2 (some 12), .released 2] ∧
      ¬ Consistent hastyRun := by
  have hnotices : notices hastyRun start =
      [.registered 1, .finalizerSet 1 (some 11), .finalized 1 11, .released 1, .registered 2,
        .finalizerSet 2 (some 12), .released 2] := by decide +kernel
  refine ⟨hnotices, fun hconsistent => ?_⟩
  have hadmits := hconsistent.finalizers
  rw [hnotices] at hadmits
  revert hadmits
  unfold Ledger.AdmitsAll
  decide

end PdiStack.FinalizerLedger
