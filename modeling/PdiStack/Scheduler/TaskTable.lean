import Mathlib
import PdiStack.Scheduler.KilledTask
import PdiStack.Scheduler.Reentrancy

/-!
# The task table

What a client can tell of the task table is which ids are live and which finalizer each
task carries.  Every call and every piece of a turn is a path of five kinds of move of
it.  From the moves follow the ids and the accounts of finalizers: a finalizer is run
once, when its task is released, unless the finalizer that runs while a slot is released
has left it behind in that slot.
-/

namespace PdiStack.TaskTable

open TaskScheduler Turns KilledTask Reentrancy List Function

/-- The ids of tasks. -/
def InRange (id : ℤ) : Prop := 1 ≤ id ∧ id ≤ maxTaskId

/-- The id tried after another one. -/
def idAfter (id : ℤ) : ℤ := if maxTaskId ≤ id then 1 else id + 1

variable {opened : List ℕ} {notice : Notice} {next scheduler : Scheduler} {change : Task → Task}
  {id : ℤ} (readings : Readings)

theorem inRange_idAfter (hid : InRange id) : InRange (idAfter id) := by
  unfold InRange idAfter maxTaskId at *
  split <;> omega

theorem iterate_idAfter (hid : InRange id) {tries : ℕ} :
    idAfter^[tries] id = (id - 1 + tries) % maxTaskId + 1 := by
  induction tries with
  | zero =>
    unfold InRange maxTaskId at *
    rw [iterate_zero, id_eq]
    omega
  | succ tries ih =>
    rw [iterate_succ_apply', ih]
    unfold idAfter maxTaskId
    split <;> omega

/-- The ids tried one after the other are different until all were tried. -/
theorem iterate_idAfter_injective (hid : InRange id) {first second : ℕ} (hfirst : first < maxTaskId)
    (hsecond : second < maxTaskId) (hsame : idAfter^[first] id = idAfter^[second] id) :
    first = second := by
  rw [iterate_idAfter hid, iterate_idAfter hid] at hsame
  unfold maxTaskId at *
  omega

/-- The search for an id takes one that no slot has, or has found a slot for every id
it tried. -/
theorem uniqueTaskId_cases {attempts : ℕ} (hnext : InRange scheduler.nextTaskId) :
    ∃ id next, uniqueTaskId attempts scheduler = (id, { scheduler with nextTaskId := next }) ∧
      InRange next ∧
      ((InRange id ∧ ∀ task ∈ scheduler.tasks, task.taskId ≠ id) ∨
        id = -1 ∧ ∀ tries < attempts, ∃ task ∈ scheduler.tasks,
          task.taskId = idAfter^[tries] scheduler.nextTaskId) := by
  induction attempts generalizing scheduler with
  | zero => exact ⟨-1, scheduler.nextTaskId, rfl, hnext, .inr ⟨rfl, fun _ htries => by omega⟩⟩
  | succ attempts ih =>
    unfold uniqueTaskId
    dsimp only
    split
    case isFalse hunused =>
      refine ⟨_, idAfter scheduler.nextTaskId, rfl, inRange_idAfter hnext, .inl ⟨hnext, ?_⟩⟩
      intro task htask hsame
      exact hunused (any_eq_true.mpr ⟨task, htask, decide_eq_true hsame⟩)
    case isTrue hused =>
      obtain ⟨id, next, hsearch, hrange, hcases⟩ :=
        @ih { scheduler with nextTaskId := idAfter scheduler.nextTaskId } (inRange_idAfter hnext)
      refine ⟨id, next, hsearch, hrange, hcases.imp_right fun hnone => ⟨hnone.1, ?_⟩⟩
      intro tries htries
      cases tries with
      | zero =>
        obtain ⟨task, htask, hid⟩ := any_eq_true.mp hused
        exact ⟨task, htask, of_decide_eq_true hid⟩
      | succ tries =>
        exact hnone.2 tries (by omega)

/-- With more tries than slots there is an id. -/
theorem uniqueTaskId_found {attempts : ℕ} {scheduler : Scheduler}
    (hnext : InRange scheduler.nextTaskId) (hmore : scheduler.tasks.length < attempts)
    (hfew : attempts ≤ maxTaskId) :
    ∃ id next, uniqueTaskId attempts scheduler = (id, { scheduler with nextTaskId := next }) ∧
      InRange next ∧ InRange id ∧ ∀ task ∈ scheduler.tasks, task.taskId ≠ id := by
  obtain ⟨id, next, hsearch, hrange, hfound | ⟨-, hall⟩⟩ := uniqueTaskId_cases hnext
  · exact ⟨id, next, hsearch, hrange, hfound⟩
  -- the ids that were tried would all be in a table with fewer slots
  have hdistinct : ((List.range attempts).map fun tries =>
      idAfter^[tries] scheduler.nextTaskId).Nodup := by
    refine List.Nodup.map_on ?_ nodup_range
    intro first hfirst second hsecond hsame
    have hinside := mem_range.mp hfirst
    have hinside' := mem_range.mp hsecond
    exact iterate_idAfter_injective hnext (by omega) (by omega) hsame
  have hsubset : ((List.range attempts).map fun tries => idAfter^[tries] scheduler.nextTaskId) ⊆
      scheduler.tasks.map Task.taskId := by
    intro tried htried
    obtain ⟨tries, htries, rfl⟩ := mem_map.mp htried
    obtain ⟨task, htask, hid⟩ := hall tries (mem_range.mp htries)
    exact mem_map.mpr ⟨task, htask, hid⟩
  have hlength := (hdistinct.subperm hsubset).length_le
  rw [length_map, length_map, length_range] at hlength
  omega

/-- What counts of a slot.  The id is negative when it is free. -/
structure View where
  id : ℤ
  finalizer : Option Routine
  mode : TaskMode

def viewTask (task : Task) : View :=
  { id := task.taskId, finalizer := task.finalizer, mode := task.taskMode }

/-- The slots by their index. -/
abbrev Table := ℕ → View

def view (scheduler : Scheduler) : Table := fun place => viewTask (scheduler.slot place)

def freeView : View := { id := -1, finalizer := none, mode := .inline }

theorem view_modifySlot {index : ℕ} (hinside : index < scheduler.tasks.length)
    (change : Task → Task) :
    view (scheduler.modifySlot index change) =
      update (view scheduler) index (viewTask (change (scheduler.slot index))) := by
  funext place
  rw [view, slot_modifySlot, update_apply]
  by_cases hplace : place = index
  · subst hplace
    rw [if_pos ⟨rfl, hinside⟩, if_pos rfl]
  · rw [if_neg fun h => hplace h.1, if_neg hplace]
    rfl

theorem view_modifySlot_same (scheduler : Scheduler) (index : ℕ)
    (hchange : viewTask (change (scheduler.slot index)) = viewTask (scheduler.slot index)) :
    view (scheduler.modifySlot index change) = view scheduler := by
  funext place
  rw [view, slot_modifySlot]
  split
  case isTrue hplace =>
    rw [hplace.1]
    exact hchange
  case isFalse => rfl

theorem view_map (hfree : change {} = {})
    (hchange : ∀ task, viewTask (change task) = viewTask task) :
    view { scheduler with tasks := scheduler.tasks.map change } = view scheduler := by
  funext place
  rw [view, slot_map hfree]
  exact hchange _

/-- The slots and the limit of a scheduler that nobody has set a limit of, and the id
that is tried next. -/
structure Limits (scheduler : Scheduler) : Prop where
  slots : scheduler.tasks.length = maxSchedulableTasks
  limit : scheduler.maxTasks = maxSchedulableTasks
  next : InRange scheduler.nextTaskId

/-- A change of the scheduler that leaves the table of tasks as it was. -/
structure Quiet (scheduler next : Scheduler) : Prop where
  table : view next = view scheduler
  limits : Limits scheduler → Limits next

theorem quiet_modifySlot (scheduler : Scheduler) (index : ℕ) {change : Task → Task}
    (hchange : viewTask (change (scheduler.slot index)) = viewTask (scheduler.slot index)) :
    Quiet scheduler (scheduler.modifySlot index change) where
  table := view_modifySlot_same scheduler index hchange
  limits hlimits := ⟨(length_modify ..).trans hlimits.slots, hlimits.limit, hlimits.next⟩

theorem Quiet.trans {first second third : Scheduler} (hfirst : Quiet first second)
    (hsecond : Quiet second third) : Quiet first third where
  table := hsecond.table.trans hfirst.table
  limits hlimits := hsecond.limits (hfirst.limits hlimits)

theorem quiet_refl (scheduler : Scheduler) : Quiet scheduler scheduler := ⟨rfl, id⟩

theorem quiet_outside (scheduler : Scheduler) (rebase : Bool) (vruntime : UInt64) :
    Quiet scheduler
      { scheduler with rebaseStartPriotask := rebase, minVruntime := vruntime } :=
  ⟨rfl, fun hlimits => ⟨hlimits.slots, hlimits.limit, hlimits.next⟩⟩

theorem quiet_changeTask {scheduler : Scheduler} {id : ℤ}
    (hchange : ∀ task, viewTask (change task) = viewTask task) :
    Quiet scheduler (changeTask scheduler id change).2 := by
  unfold changeTask
  split
  · exact quiet_refl scheduler
  · exact quiet_modifySlot scheduler _ (hchange _)

theorem quiet_map (hfree : change {} = {})
    (hchange : ∀ task, viewTask (change task) = viewTask task) :
    Quiet scheduler { scheduler with tasks := scheduler.tasks.map change } where
  table := view_map hfree hchange
  limits hlimits := ⟨(length_map ..).trans hlimits.slots, hlimits.limit, hlimits.next⟩

/-- One move of the table, with its notice and the slot whose finalizer it runs. -/
inductive Move (table : Table) : Notice → List ℕ → Table → Prop where
  | register (index : ℕ) (id : ℤ) (hfree : (table index).id < 0) (hid : InRange id)
      (hfresh : ∀ place, (table place).id ≠ id) :
      Move table (.registered id) [] (update table index { table index with id := id })
  | set (index : ℕ) (finalizer : Option Routine) (hlive : 0 ≤ (table index).id) :
      Move table (.finalizerSet (table index).id finalizer) []
        (update table index { table index with finalizer := finalizer })
  | invoke (id : ℤ) (routine : Routine) : Move table (.invoked id routine) [] table
  | finalize (index : ℕ) (finalizer : Routine) (hlive : 0 ≤ (table index).id)
      (hheld : (table index).finalizer = some finalizer) :
      Move table (.finalized (table index).id finalizer) [index]
        (update table index { table index with finalizer := none })
  | release (index : ℕ) (hlive : 0 ≤ (table index).id) (hbare : (table index).finalizer = none) :
      Move table (.released (table index).id) [] (update table index freeView)

/-- Moves one after the other, with their notices and the slots whose finalizers they
run. -/
inductive Path : Table → List Notice → List ℕ → Table → Prop where
  | refl (table : Table) : Path table [] [] table
  | move {table middle last : Table} {notice : Notice} {notices : List Notice}
      {opened later : List ℕ} (hmove : Move table notice opened middle)
      (hrest : Path middle notices later last) :
      Path table (notice :: notices) (opened ++ later) last

theorem Move.path {table next : Table} (hmove : Move table notice opened next) :
    Path table [notice] opened next := by
  have hpath := Path.move hmove (.refl next)
  rwa [append_nil] at hpath

/-- The scheduler has gone along a path of its table and kept its limits. -/
structure Follows (scheduler : Scheduler) (notices : List Notice) (opened : List ℕ)
    (next : Scheduler) : Prop where
  path : Path (view scheduler) notices opened (view next)
  limits : Limits next

theorem Quiet.follows (hquiet : Quiet scheduler next) (hlimits : Limits scheduler) :
    Follows scheduler [] [] next where
  path := hquiet.table ▸ .refl (view scheduler)
  limits := hquiet.limits hlimits

theorem Follows.of_quiet {last : Scheduler} {notices : List Notice} (hquiet : Quiet scheduler next)
    (hfollows : Follows next notices opened last) :
    Follows scheduler notices opened last :=
  ⟨hquiet.table ▸ hfollows.path, hfollows.limits⟩

theorem Follows.of_move {last : Scheduler} {notices : List Notice} {later : List ℕ}
    (hmove : Move (view scheduler) notice opened (view next))
    (hfollows : Follows next notices later last) :
    Follows scheduler (notice :: notices) (opened ++ later) last :=
  ⟨.move hmove hfollows.path, hfollows.limits⟩

theorem Follows.of_last_move (hmove : Move (view scheduler) notice opened (view next))
    (hlimits : Limits next) :
    Follows scheduler [notice] opened next := ⟨hmove.path, hlimits⟩

section

variable (hlimits : Limits scheduler)

include hlimits

theorem limits_modifySlot (index : ℕ) (change : Task → Task) :
    Limits (scheduler.modifySlot index change) :=
  ⟨(length_modify ..).trans hlimits.slots, hlimits.limit, hlimits.next⟩

/-- A registration fails when no slot is free, and takes a free slot and a new id
otherwise. -/
theorem registerTask_cases (registration : Registration) :
    (registerTask scheduler registration = (-1, scheduler) ∧
        ∀ task ∈ scheduler.tasks, 0 ≤ task.taskId) ∨
      ∃ index id next,
        registerTask scheduler registration =
            (id, Scheduler.modifySlot { scheduler with nextTaskId := next } index
              (registration.record id scheduler.minVruntime)) ∧
          index < scheduler.tasks.length ∧ (scheduler.slot index).taskId < 0 ∧ InRange next ∧
          InRange id ∧ ∀ place, (scheduler.slot place).taskId ≠ id := by
  have hwhole : scheduler.tasks.take scheduler.maxTasks = scheduler.tasks :=
    take_of_length_le (le_of_eq (hlimits.slots.trans hlimits.limit.symm))
  unfold registerTask
  rw [hwhole]
  split
  case h_1 hnone =>
    refine .inl ⟨rfl, fun task htask => ?_⟩
    have hlive := findIdx?_eq_none_iff.mp hnone task htask
    exact Int.not_lt.mp (of_decide_eq_false hlive)
  case h_2 index hindex =>
    obtain ⟨hinside, hfree, -⟩ := findIdx?_eq_some_iff_getElem.mp hindex
    obtain ⟨id, next, hsearch, hnext, hid, hfresh⟩ := @uniqueTaskId_found (scheduler.maxTasks + 1)
      scheduler hlimits.next (by rw [hlimits.slots, hlimits.limit]; decide)
      (by rw [hlimits.limit]; decide)
    rw [hsearch]
    dsimp only
    rw [if_neg (by have := hid.1; omega)]
    refine .inr ⟨index, id, next, rfl, hinside, ?_, hnext, hid, fun place hplace => ?_⟩
    · rw [Scheduler.slot, getD_eq_getElem _ _ hinside]
      exact of_decide_eq_true hfree
    · have hlive : place < scheduler.tasks.length := inside_of_live (by have := hid.1; omega)
      rw [Scheduler.slot, getD_eq_getElem _ _ hlive] at hplace
      exact hfresh _ (getElem_mem hlive) hplace

theorem follows_registerTask {registration : Registration} :
    Follows scheduler (registrationNotices (registerTask scheduler registration).1) []
      (registerTask scheduler registration).2 := by
  rcases registerTask_cases hlimits registration with
    ⟨hregister, -⟩ | ⟨index, id, next, hregister, hinside, hfree, hnext, hid, hfresh⟩
  · rw [hregister]
    exact (quiet_refl scheduler).follows hlimits
  · rw [hregister, registrationNotices, if_neg (by have := hid.1; omega)]
    have hadvanced : Limits { scheduler with nextTaskId := next } :=
      ⟨hlimits.slots, hlimits.limit, hnext⟩
    refine .of_last_move ?_ (limits_modifySlot hadvanced index _)
    rw [view_modifySlot (by exact hinside)]
    exact .register index id hfree hid hfresh

/-- The calls that leave the limit of the table alone. -/
def KeepsLimit : Call → Prop
  | .setMaxTasksLimit _ => False
  | _ => True

theorem follows_setTaskFinalizer {id : ℤ} {finalizer : Option Routine} :
    Follows scheduler (callNotices scheduler (.setTaskFinalizer id finalizer)) []
      (Call.perform scheduler (.setTaskFinalizer id finalizer)) := by
  dsimp only [callNotices, Call.perform, changeTask]
  cases hindex : isRegisteredTask scheduler id with
  | none => exact Quiet.follows (quiet_refl scheduler) hlimits
  | some index =>
    have hid := taskId_of_isRegisteredTask hindex
    have hlive : 0 ≤ (scheduler.slot index).taskId := by
      by_contra hnegative
      rw [isRegisteredTask, if_pos (by omega)] at hindex
      cases hindex
    refine .of_last_move ?_ (limits_modifySlot hlimits index _)
    rw [view_modifySlot (inside_of_live hlive), ← hid]
    exact .set index finalizer hlive

theorem follows_perform {call : Call} (hkeeps : KeepsLimit call) :
    Follows scheduler (callNotices scheduler call) [] (call.perform scheduler) := by
  cases call with
  | registerTask registration => exact follows_registerTask hlimits
  | updateInterval id registration =>
    dsimp only [callNotices, Call.perform, updateInterval]
    cases isRegisteredTask scheduler id with
    | none => exact follows_registerTask hlimits
    | some index => exact Quiet.follows (quiet_modifySlot scheduler index rfl) hlimits
  | removeTask id =>
    dsimp only [callNotices, Call.perform, removeTask]
    split
    · exact Quiet.follows (quiet_refl scheduler) hlimits
    · refine Quiet.follows (quiet_map (if_neg fun hfree : (-1 : ℤ) = id => by omega) ?_) hlimits
      intro task
      split <;> rfl
  | setTaskName id name | setTaskOwner id owner | setTaskNice id nice | setTaskPolicy id policy
  | setTaskPriority id priority =>
    exact Quiet.follows (quiet_changeTask fun _ => rfl) hlimits
  | setTaskFinalizer id finalizer => exact follows_setTaskFinalizer hlimits
  | sendSignal id signal => exact Quiet.follows (quiet_changeTask fun _ => rfl) hlimits
  | sendSignalByName name signal requester isRoot =>
    dsimp only [callNotices, Call.perform, sendSignalByName]
    split
    · exact Quiet.follows (quiet_refl scheduler) hlimits
    · refine Quiet.follows (quiet_map (if_neg (by simp [reachedByName])) fun task => ?_) hlimits
      split <;> rfl
  | setMaxTasksLimit maxTasks => exact hkeeps.elim
  | rebaseAndRestartPrioTasks =>
    exact Quiet.follows (quiet_outside scheduler true scheduler.minVruntime) hlimits

end

def Frame.busy : Frame → List ℕ
  | .releasing index _ => [index]
  | _ => []

def busyOf (frames : List Frame) : List ℕ := frames.flatMap Frame.busy

/-- A turn has gone along a path to where it stopped. -/
def FollowsHalt (scheduler : Scheduler) (halt : Halt) : Prop :=
  Follows scheduler halt.notices (busyOf halt.frame.toList) halt.scheduler

def AllInline (scheduler : Scheduler) : Prop := ∀ place, (view scheduler place).mode = .inline

theorem Quiet.allInline (hquiet : Quiet scheduler next) (hinline : AllInline scheduler) :
    AllInline next := by
  rw [AllInline, hquiet.table]
  exact hinline

theorem followsHalt_releaseFrom (indices : List ℕ) (hlimits : Limits scheduler) :
    FollowsHalt scheduler (releaseFrom indices scheduler) := by
  induction indices generalizing scheduler with
  | nil => exact Quiet.follows (quiet_refl scheduler) hlimits
  | cons index rest ih =>
    unfold releaseFrom
    dsimp only
    split
    case isFalse => exact ih hlimits
    case isTrue hexpired =>
      have hinside := inside_of_live hexpired.1
      cases hheld : (scheduler.slot index).finalizer with
      | none =>
        have hmove : Move (view scheduler) (.released (scheduler.slot index).taskId) []
            (view (scheduler.modifySlot index Task.clear)) := by
          rw [view_modifySlot hinside]
          exact .release index hexpired.1 hheld
        exact Follows.of_move hmove (ih (limits_modifySlot hlimits index Task.clear))
      | some finalizer =>
        refine Follows.of_last_move ?_ (limits_modifySlot hlimits index _)
        rw [view_modifySlot hinside]
        exact .finalize index finalizer hexpired.1 hheld

theorem viewTask_consumeSignal (task : Task) : viewTask task.consumeSignal = viewTask task := by
  unfold Task.consumeSignal
  split <;> rfl

/-- What the loop makes of a slot leaves the table as it was. -/
theorem beginSlot_cases (hinline : AllInline scheduler) {readings : Readings} {place index : ℕ}
    {rest : List ℕ} :
    (∃ next, beginSlot readings place index rest scheduler = .skipped next ∧ Quiet scheduler next) ∨
      (∃ next, beginSlot readings place index rest scheduler = .looked next ∧
        Quiet scheduler next) ∨
      ∃ id routine next,
        beginSlot readings place index rest scheduler =
            .entered (.invoked id routine) next (.callback readings place index rest) ∧
          Quiet scheduler next := by
  unfold beginSlot beginInline
  have hmode : (scheduler.slot index).taskMode = .inline := hinline index
  rw [if_neg (not_not_intro hmode)]
  have hconsumed := quiet_modifySlot scheduler index (viewTask_consumeSignal _)
  dsimp only
  split
  case isTrue => exact .inl ⟨_, rfl, hconsumed⟩
  case isFalse =>
    split
    case isTrue => exact .inl ⟨_, rfl, hconsumed⟩
    case isFalse =>
      have hclamped := hconsumed.trans
        (@quiet_modifySlot _ index (Task.clampLast (readings.startedAt place)) rfl)
      split
      case isFalse => exact .inr (.inl ⟨_, rfl, hclamped⟩)
      case isTrue =>
        unfold beginInvoke
        dsimp only
        split
        case h_1 => exact .inr (.inl ⟨_, rfl, hclamped.trans (quiet_modifySlot _ index rfl)⟩)
        case h_2 routine hroutine =>
          refine .inr (.inr ⟨_, routine, _, rfl, hclamped.trans ?_⟩)
          exact (quiet_outside _ _ _).trans (quiet_modifySlot _ index rfl)

theorem followsHalt_slotsFrom (indices : List ℕ) (place : ℕ) (hinline : AllInline scheduler)
    (hlimits : Limits scheduler) :
    FollowsHalt scheduler (slotsFrom readings place indices scheduler) := by
  induction indices generalizing place scheduler with
  | nil => exact followsHalt_releaseFrom _ hlimits
  | cons index rest ih =>
    unfold slotsFrom
    rcases beginSlot_cases hinline with
      ⟨next, hbegun, hquiet⟩ | ⟨next, hbegun, hquiet⟩ | ⟨id, routine, next, hbegun, hquiet⟩
    · rw [hbegun]
      exact .of_quiet hquiet (ih (place + 1) (hquiet.allInline hinline) (hquiet.limits hlimits))
    · rw [hbegun]
      dsimp only
      split
      · have hoff := hquiet.trans (quiet_outside next false next.minVruntime)
        exact .of_quiet hoff (followsHalt_releaseFrom _ (hoff.limits hlimits))
      · exact .of_quiet hquiet (ih (place + 1) (hquiet.allInline hinline) (hquiet.limits hlimits))
    · rw [hbegun]
      exact .of_quiet hquiet (.of_last_move (.invoke id routine) (hquiet.limits hlimits))

theorem followsHalt_goOn {place : ℕ} {rest : List ℕ} (hinline : AllInline scheduler)
    (hlimits : Limits scheduler) :
    FollowsHalt scheduler (goOn readings place rest scheduler) := by
  unfold goOn
  split
  · have hoff := quiet_outside scheduler false scheduler.minVruntime
    exact .of_quiet hoff (followsHalt_releaseFrom _ (hoff.limits hlimits))
  · exact followsHalt_slotsFrom readings rest (place + 1) hinline hlimits

theorem followsHalt_beginTurn (hinline : AllInline scheduler) (hlimits : Limits scheduler) :
    FollowsHalt scheduler (beginTurn readings scheduler) := by
  have hon := quiet_outside scheduler true scheduler.minVruntime
  exact .of_quiet hon
    (followsHalt_slotsFrom readings _ 0 (hon.allInline hinline) (hon.limits hlimits))

theorem followsHalt_callback (place index : ℕ) (rest : List ℕ) (hinline : AllInline scheduler)
    (hlimits : Limits scheduler) :
    FollowsHalt scheduler ((Frame.callback readings place index rest).resume scheduler) := by
  have hcharged := @quiet_modifySlot scheduler index (Task.charge (readings.execUs place)) rfl
  have hadvanced := hcharged.trans
    (@quiet_modifySlot _ index (Task.advance (readings.startedAt place)) rfl)
  exact .of_quiet hadvanced
    (followsHalt_goOn readings (hadvanced.allInline hinline) (hadvanced.limits hlimits))

end PdiStack.TaskTable
