import PdiStack.Core.StateMachine
import PdiStack.Scheduler.Turns

/-!
# A killed task

A signal waits in the one pending slot of its task, and the next signal takes its
place.  As long as no other signal replaces a kill that is still waiting, the task it
was sent to is never run again, whatever else is called and whatever the other tasks
do in their turns.
-/

namespace PdiStack.KilledTask

open StateMachine TaskScheduler Turns List

variable {scheduler : Scheduler} {change : Task → Task} {id : ℤ}

theorem inside_of_live {place : ℕ} (hlive : 0 ≤ (scheduler.slot place).taskId) :
    place < scheduler.tasks.length := by
  by_contra houtside
  rw [Scheduler.slot, getD_eq_default _ _ (by omega)] at hlive
  exact absurd hlive (by decide)

theorem taskId_of_isRegisteredTask {index : ℕ}
    (hindex : isRegisteredTask scheduler id = some index) :
    (scheduler.slot index).taskId = id := by
  rw [isRegisteredTask] at hindex
  split at hindex
  case isTrue => cases hindex
  case isFalse =>
    obtain ⟨hinside, hid, -⟩ := findIdx?_eq_some_iff_getElem.mp hindex
    rw [Scheduler.slot, getD_eq_getElem _ _ hinside]
    exact of_decide_eq_true hid

/-- What holds of every slot holds after a change of the record of one task, if the
change keeps it there. -/
theorem forall_slot_changeTask {holds : Task → Prop}
    (hslots : ∀ place, holds (scheduler.slot place))
    (hchange : ∀ place, (scheduler.slot place).taskId = id → holds (scheduler.slot place) →
      holds (change (scheduler.slot place))) (place : ℕ) :
    holds ((changeTask scheduler id change).2.slot place) := by
  unfold changeTask
  split
  case h_1 => exact hslots place
  case h_2 index hindex =>
    exact forall_slot_modifySlot hslots (hchange index (taskId_of_isRegisteredTask hindex)) place

theorem slot_map (hfree : change {} = {}) (place : ℕ) :
    Scheduler.slot { scheduler with tasks := scheduler.tasks.map change } place =
      change (scheduler.slot place) := by
  have hmap : (scheduler.tasks.map change).getD place (change {}) =
      change (scheduler.tasks.getD place {}) := getD_map ..
  rwa [hfree] at hmap

theorem forall_slot_map {holds : Task → Prop} (hfree : change {} = {})
    (hslots : ∀ place, holds (change (scheduler.slot place))) (place : ℕ) :
    holds (Scheduler.slot { scheduler with tasks := scheduler.tasks.map change } place) := by
  rw [slot_map hfree]
  exact hslots place

/-- The id a registration takes is not in the table. -/
theorem uniqueTaskId_fresh (attempts : ℕ) (scheduler : Scheduler) :
    (uniqueTaskId attempts scheduler).2.tasks = scheduler.tasks ∧
      (0 ≤ (uniqueTaskId attempts scheduler).1 →
        ∀ task ∈ scheduler.tasks, task.taskId ≠ (uniqueTaskId attempts scheduler).1) := by
  induction attempts generalizing scheduler with
  | zero => exact ⟨rfl, fun hid => absurd hid (by decide : ¬ (0 : ℤ) ≤ -1)⟩
  | succ attempts ih =>
    unfold uniqueTaskId
    extract_lets id advanced
    split
    case isTrue => exact ih advanced
    case isFalse hunused =>
      refine ⟨rfl, fun _ task htask hsame => hunused ?_⟩
      exact any_eq_true.mpr ⟨task, htask, decide_eq_true hsame⟩

/-- A task that has nothing to run and no attempts left. -/
def Task.Dead (task : Task) : Prop := task.task = none ∧ task.maxAttempts = 0

/-- If a slot is that of the task, a kill is waiting there or has been carried out. -/
def DoomedSlot (id : ℤ) (task : Task) : Prop :=
  task.taskId = id → task.taskMode = .inline ∧ (task.pendingSig.lethal ∨ Task.Dead task)

def Doomed (id : ℤ) (scheduler : Scheduler) : Prop := ∀ place, DoomedSlot id (scheduler.slot place)

/-- A kill is waiting and has not been carried out yet. -/
def AwaitsKill (id : ℤ) (scheduler : Scheduler) : Prop :=
  ∃ place, (scheduler.slot place).taskId = id ∧ (scheduler.slot place).pendingSig.lethal ∧
    ¬ Task.Dead (scheduler.slot place)

def SendsOther (id : ℤ) (scheduler : Scheduler) : Call → Prop
  | .sendSignal target signal => target = id ∧ signal.lethal = false
  | .sendSignalByName name signal requester isRoot =>
    signal.lethal = false ∧ name ≠ [] ∧ ∃ place, (scheduler.slot place).taskId = id ∧
      reachedByName name signal requester isRoot (scheduler.slot place)
  | _ => False

/-- A call updates the task or registers a new one under its id. -/
def Registers (id : ℤ) (scheduler : Scheduler) : Call → Prop
  | .registerTask registration => (registerTask scheduler registration).1 = id
  | .updateInterval target registration =>
    target = id ∨ (updateInterval scheduler target registration).1 = id
  | _ => False

/-- A call that neither updates the task nor registers another one under its id, and that
does not put another signal in the place of a kill that is waiting. -/
def Spares (id : ℤ) (scheduler : Scheduler) (call : Call) : Prop :=
  ¬ Registers id scheduler call ∧ (AwaitsKill id scheduler → ¬ SendsOther id scheduler call)

/-- All calls of a list do, each in the scheduler it finds. -/
def SparesAll (id : ℤ) : Scheduler → List Call → Prop
  | _, [] => True
  | scheduler, call :: calls =>
    Spares id scheduler call ∧ SparesAll id (call.perform scheduler) calls

/-- A step whose calls do, those of callbacks and finalizers included. -/
def StepSpares (id : ℤ) (scheduler : Scheduler) : Step → Prop
  | .call made => Spares id scheduler made
  | .turn given => (∀ routine found, SparesAll id found (given.calls routine found)) ∧
      ∀ routine found, SparesAll id found (given.finalizerCalls routine found)

/-- A change that touches neither the signal nor the callback nor the attempts. -/
theorem doomedSlot_of_same {task next : Task} (hdoomed : DoomedSlot id task)
    (hid : next.taskId = task.taskId) (hmode : next.taskMode = task.taskMode)
    (hsignal : next.pendingSig = task.pendingSig) (htask : next.task = task.task)
    (hattempts : next.maxAttempts = task.maxAttempts) : DoomedSlot id next := by
  intro hnext
  obtain ⟨hinline, hfate⟩ := hdoomed (hid.symm.trans hnext)
  refine ⟨hmode.trans hinline, ?_⟩
  rwa [hsignal, Task.Dead, htask, hattempts]

theorem doomedSlot_clear (hid : 0 ≤ id) {task : Task} : DoomedSlot id task.clear := by
  intro hclear
  have hfree : task.clear.taskId = -1 := rfl
  omega

/-- A signal in the pending slot of a doomed task leaves it doomed, unless it replaces a
kill that is waiting. -/
theorem doomedSlot_signal {task : Task} (hdoomed : DoomedSlot id task) {signal : Signal}
    (hspares : task.taskId = id → signal.lethal = false → task.pendingSig.lethal → Task.Dead task) :
    DoomedSlot id { task with pendingSig := signal } := by
  intro hid
  obtain ⟨hinline, hfate⟩ := hdoomed hid
  refine ⟨hinline, ?_⟩
  cases hsignal : signal.lethal with
  | true => exact .inl rfl
  | false =>
    refine .inr ?_
    rcases hfate with hwaiting | hdead
    · exact hspares hid hsignal hwaiting
    · exact hdead

theorem doomed_registerTask (hdoomed : Doomed id scheduler) {registration : Registration}
    (hother : (registerTask scheduler registration).1 ≠ id) :
    Doomed id (registerTask scheduler registration).2 := by
  revert hother
  unfold registerTask
  split
  case h_1 => exact fun _ => hdoomed
  case h_2 slot hslot =>
    have htasks := (uniqueTaskId_fresh (scheduler.maxTasks + 1) scheduler).1
    generalize uniqueTaskId (scheduler.maxTasks + 1) scheduler = taken at htasks
    obtain ⟨given, next⟩ := taken
    dsimp only at htasks ⊢
    have hnext : Doomed id next := by
      intro place
      rw [Scheduler.slot, htasks]
      exact hdoomed place
    split
    case isTrue => exact fun _ => hnext
    case isFalse => exact fun hother => forall_slot_modifySlot hnext fun _ hsame => absurd hsame hother

theorem doomed_perform (hdoomed : Doomed id scheduler) {call : Call}
    (hspares : Spares id scheduler call) :
    Doomed id (call.perform scheduler) := by
  have hkept : ∀ place, (scheduler.slot place).taskId = id → SendsOther id scheduler call →
      (scheduler.slot place).pendingSig.lethal → Task.Dead (scheduler.slot place) := by
    intro place hplace hother hwaiting
    by_contra halive
    exact hspares.2 ⟨place, hplace, hwaiting, halive⟩ hother
  cases call with
  | registerTask registration => exact doomed_registerTask hdoomed hspares.1
  | updateInterval target registration =>
    obtain ⟨htarget, hregisters⟩ := not_or.mp hspares.1
    revert hregisters
    dsimp only [Call.perform, updateInterval]
    split
    case h_1 index hindex =>
      intro _
      refine forall_slot_modifySlot hdoomed fun _ hsame => absurd ?_ htarget
      exact (taskId_of_isRegisteredTask hindex).symm.trans hsame
    case h_2 => exact doomed_registerTask hdoomed
  | removeTask target =>
    dsimp only [Call.perform, removeTask]
    split
    · exact hdoomed
    · refine forall_slot_map (if_neg fun hfree : (-1 : ℤ) = target => by omega) fun place => ?_
      split
      · intro hplace
        exact ⟨(hdoomed place hplace).1, .inr ⟨rfl, rfl⟩⟩
      · exact hdoomed place
  | setTaskName target name | setTaskOwner target owner | setTaskNice target nice
  | setTaskPolicy target policy | setTaskPriority target priority
  | setTaskFinalizer target finalizer =>
    exact forall_slot_changeTask hdoomed fun _ _ hslot =>
      doomedSlot_of_same hslot rfl rfl rfl rfl rfl
  | sendSignal target signal =>
    refine forall_slot_changeTask hdoomed fun place hplace hslot => doomedSlot_signal hslot ?_
    intro hsame hsignal hwaiting
    exact hkept place hsame ⟨hplace.symm.trans hsame, hsignal⟩ hwaiting
  | sendSignalByName name signal requester isRoot =>
    dsimp only [Call.perform, sendSignalByName]
    split
    · exact hdoomed
    case isFalse hname =>
      refine forall_slot_map (if_neg (by simp [reachedByName])) fun place => ?_
      split
      case isTrue hreached =>
        refine doomedSlot_signal (hdoomed place) fun hsame hsignal hwaiting => ?_
        exact hkept place hsame ⟨hsignal, hname, place, hsame, hreached⟩ hwaiting
      case isFalse => exact hdoomed place
  | setMaxTasksLimit maxTasks | rebaseAndRestartPrioTasks => exact hdoomed

theorem doomed_performAll {calls : List Call} (hdoomed : Doomed id scheduler)
    (hspares : SparesAll id scheduler calls) :
    Doomed id (performAll scheduler calls) := by
  induction calls generalizing scheduler with
  | nil => exact hdoomed
  | cons call calls ih => exact ih (doomed_perform hdoomed hspares.1) hspares.2

/-- A doomed task stays so through a turn, which does not run it. -/
theorem keeps_doomed (hid : 0 ≤ id) {turn : Turn}
    (hcalls : ∀ routine found, SparesAll id found (turn.calls routine found))
    (hfinalizers : ∀ routine found, SparesAll id found (turn.finalizerCalls routine found)) :
    Keeps turn (Doomed id) fun event => ∀ routine, event ≠ .invoked id routine where
  outside _ _ _ hdoomed := hdoomed
  consume scheduler index _ hdoomed := forall_slot_modifySlot hdoomed fun hslot hsame => by
    have hunchanged : (scheduler.slot index).consumeSignal.taskId = (scheduler.slot index).taskId ∧
        (scheduler.slot index).consumeSignal.taskMode = (scheduler.slot index).taskMode := by
      unfold Task.consumeSignal
      split <;> exact ⟨rfl, rfl⟩
    obtain ⟨hinline, hfate⟩ := hslot (hunchanged.1.symm.trans hsame)
    refine ⟨hunchanged.2.trans hinline, .inr ?_⟩
    unfold Task.consumeSignal
    split
    case h_1 => exact ⟨rfl, rfl⟩
    case h_2 => exact ⟨rfl, rfl⟩
    all_goals
      rename_i hsignal
      rw [hsignal] at hfate
      exact hfate.resolve_left (by decide)
  pass scheduler index hmode hdoomed := forall_slot_modifySlot hdoomed fun hslot hsame => by
    have hunchanged : (scheduler.slot index).passSignal.taskId = (scheduler.slot index).taskId := by
      unfold Task.passSignal
      split <;> rfl
    exact absurd (hslot (hunchanged.symm.trans hsame)).1 hmode
  clamp _ _ _ hdoomed := forall_slot_modifySlot hdoomed fun hslot =>
    doomedSlot_of_same hslot rfl rfl rfl rfl rfl
  invoke scheduler index routine hdoomed hroutine _ hsignal := by
    refine ⟨fun other hevent => ?_, forall_slot_modifySlot hdoomed fun hslot =>
      doomedSlot_of_same hslot rfl rfl rfl rfl rfl⟩
    obtain ⟨hsame, -⟩ := Event.invoked.inj hevent
    obtain ⟨-, hwaiting | hdead⟩ := hdoomed index hsame
    · rw [hsignal] at hwaiting
      cases hwaiting
    · rw [hdead.1] at hroutine
      cases hroutine
  calls scheduler routine hdoomed := doomed_performAll hdoomed (hcalls routine scheduler)
  charge _ _ _ hdoomed := forall_slot_modifySlot hdoomed fun hslot =>
    doomedSlot_of_same hslot rfl rfl rfl rfl rfl
  advance scheduler index start hdoomed := forall_slot_modifySlot hdoomed fun hslot hsame => by
    obtain ⟨hinline, hfate⟩ := hslot hsame
    refine ⟨hinline, hfate.imp_right fun hdead => ⟨hdead.1, ?_⟩⟩
    dsimp only [Task.advance]
    rw [hdead.2]
    rfl
  finalize _ _ _ hdoomed _ := ⟨forall_slot_modifySlot hdoomed fun hslot =>
    doomedSlot_of_same hslot rfl rfl rfl rfl rfl, nofun⟩
  finalizerCalls scheduler routine hdoomed :=
    doomed_performAll hdoomed (hfinalizers routine scheduler)
  clear _ _ hdoomed := forall_slot_modifySlot hdoomed fun _ => doomedSlot_clear hid

def Distinct (scheduler : Scheduler) : Prop :=
  ∀ place other, 0 ≤ (scheduler.slot place).taskId →
    (scheduler.slot place).taskId = (scheduler.slot other).taskId → place = other

section

variable (hdistinct : Distinct scheduler)
include hdistinct

/-- A change that keeps the id of every slot or frees the slot. -/
theorem distinct_of_ids {next : Scheduler}
    (hids : ∀ place, (next.slot place).taskId = (scheduler.slot place).taskId ∨
      (next.slot place).taskId < 0) :
    Distinct next := by
  intro place other hlive hsame
  have hplace := (hids place).resolve_right (by omega)
  have hother := (hids other).resolve_right (by omega)
  rw [hplace] at hlive hsame
  rw [hother] at hsame
  exact hdistinct place other hlive hsame

theorem distinct_modifySlot {index : ℕ}
    (hid : (change (scheduler.slot index)).taskId = (scheduler.slot index).taskId ∨
      (change (scheduler.slot index)).taskId < 0) :
    Distinct (scheduler.modifySlot index change) := by
  refine distinct_of_ids hdistinct fun place => ?_
  rw [slot_modifySlot]
  split
  case isTrue hhere =>
    rw [hhere.1]
    exact hid
  case isFalse => exact .inl rfl

theorem distinct_changeTask (hid : ∀ task, (change task).taskId = task.taskId) :
    Distinct (changeTask scheduler id change).2 := by
  unfold changeTask
  split
  case h_1 => exact hdistinct
  case h_2 index hindex => exact distinct_modifySlot hdistinct (.inl (hid _))

theorem distinct_map (hfree : change {} = {}) (hid : ∀ task, (change task).taskId = task.taskId) :
    Distinct { scheduler with tasks := scheduler.tasks.map change } := by
  refine distinct_of_ids hdistinct fun place => .inl ?_
  rw [slot_map hfree]
  exact hid _

theorem distinct_registerTask {registration : Registration} :
    Distinct (registerTask scheduler registration).2 := by
  unfold registerTask
  split
  case h_1 => exact hdistinct
  case h_2 slot hslot =>
    obtain ⟨htasks, hunused⟩ := uniqueTaskId_fresh (scheduler.maxTasks + 1) scheduler
    generalize uniqueTaskId (scheduler.maxTasks + 1) scheduler = taken at htasks hunused
    obtain ⟨id, next⟩ := taken
    dsimp only at htasks hunused ⊢
    have hnext : Distinct next := distinct_of_ids hdistinct fun place => .inl (by
      rw [Scheduler.slot, Scheduler.slot, htasks])
    split
    case isTrue => exact hnext
    case isFalse hid =>
      -- the new id is nowhere else in the table
      have hother : ∀ place, (next.slot place).taskId ≠ id := by
        intro place hsame
        rw [Scheduler.slot, htasks] at hsame
        have hinside : place < scheduler.tasks.length :=
          inside_of_live (show 0 ≤ (scheduler.slot place).taskId by rw [Scheduler.slot]; omega)
        rw [getD_eq_getElem _ _ hinside] at hsame
        exact hunused (by omega) _ (getElem_mem hinside) hsame
      intro place other hlive hsame
      rw [slot_modifySlot, slot_modifySlot] at hsame
      rw [slot_modifySlot] at hlive
      split at hsame <;> split at hsame
      case isTrue.isTrue hplace hother => exact hplace.1.trans hother.1.symm
      case isTrue.isFalse => exact absurd hsame.symm (hother other)
      case isFalse.isTrue => exact absurd hsame (hother place)
      case isFalse.isFalse hplace _ =>
        rw [if_neg hplace] at hlive
        exact hnext place other hlive hsame

theorem distinct_perform {call : Call} : Distinct (call.perform scheduler) := by
  cases call with
  | registerTask registration => exact distinct_registerTask hdistinct
  | updateInterval target registration =>
    dsimp only [Call.perform, updateInterval]
    split
    · exact distinct_modifySlot hdistinct (.inl rfl)
    · exact distinct_registerTask hdistinct
  | removeTask target =>
    dsimp only [Call.perform, removeTask]
    split
    · exact hdistinct
    · refine distinct_map hdistinct (if_neg fun hfree : (-1 : ℤ) = target => by omega) ?_
      intro task
      split <;> rfl
  | setTaskName target name | setTaskOwner target owner | setTaskNice target nice
  | setTaskPolicy target policy | setTaskPriority target priority
  | setTaskFinalizer target finalizer | sendSignal target signal =>
    exact distinct_changeTask hdistinct fun _ => rfl
  | sendSignalByName name signal requester isRoot =>
    dsimp only [Call.perform, sendSignalByName]
    split
    · exact hdistinct
    · refine distinct_map hdistinct (if_neg (by simp [reachedByName])) fun task => ?_
      split <;> rfl
  | setMaxTasksLimit maxTasks | rebaseAndRestartPrioTasks => exact hdistinct

theorem distinct_performAll {calls : List Call} : Distinct (performAll scheduler calls) := by
  induction calls generalizing scheduler with
  | nil => exact hdistinct
  | cons call calls ih => exact ih (distinct_perform hdistinct)

end

theorem keeps_distinct {turn : Turn} : Keeps turn Distinct fun _ => True where
  outside _ _ _ hdistinct := hdistinct
  consume _ _ _ hdistinct := distinct_modifySlot hdistinct (.inl (by
    unfold Task.consumeSignal
    split <;> rfl))
  pass _ _ _ hdistinct := distinct_modifySlot hdistinct (.inl (by
    unfold Task.passSignal
    split <;> rfl))
  clamp _ _ _ hdistinct := distinct_modifySlot hdistinct (.inl rfl)
  invoke _ _ _ hdistinct _ _ _ := ⟨trivial, distinct_modifySlot hdistinct (.inl rfl)⟩
  calls _ _ hdistinct := distinct_performAll hdistinct
  charge _ _ _ hdistinct := distinct_modifySlot hdistinct (.inl rfl)
  advance _ _ _ hdistinct := distinct_modifySlot hdistinct (.inl rfl)
  finalize _ _ _ hdistinct _ := ⟨distinct_modifySlot hdistinct (.inl rfl), trivial⟩
  finalizerCalls _ _ hdistinct := distinct_performAll hdistinct
  clear _ _ hdistinct := distinct_modifySlot hdistinct (.inr (by decide : (-1 : ℤ) < 0))

def Reachable (scheduler : Scheduler) : Prop := ∃ steps, (run Step.take steps fresh).2 = scheduler

theorem distinct_fresh : Distinct fresh := by
  intro place other hlive
  have hfree : fresh.slot place = {} := by
    rw [Scheduler.slot, fresh, getD_eq_getElem?_getD, getElem?_replicate]
    split <;> rfl
  rw [hfree] at hlive
  exact absurd hlive (by decide)

theorem distinct_of_reachable (hreachable : Reachable scheduler) : Distinct scheduler := by
  obtain ⟨steps, rfl⟩ := hreachable
  refine (run_invariant_of_allowed Distinct (fun _ => True) ?_ steps
    (allowed_of_forall (fun _ _ => trivial) steps fresh) distinct_fresh).1
  intro scheduler step _ hdistinct
  cases step with
  | call made => exact ⟨distinct_perform hdistinct, trivial⟩
  | turn given => exact ⟨(good_handleTasks (keeps_distinct) hdistinct).1, trivial⟩

/-- A kill that is sent to an inline task dooms it. -/
theorem doomed_of_sendSignal {next : Scheduler} (hdistinct : Distinct scheduler)
    (hinline : ∀ place, (scheduler.slot place).taskId = id →
      (scheduler.slot place).taskMode = .inline) {signal : Signal} (hlethal : signal.lethal)
    (hsent : sendSignal scheduler id signal = (true, next)) : 0 ≤ id ∧ Doomed id next := by
  rw [sendSignal, changeTask] at hsent
  split at hsent
  case h_1 => cases hsent
  case h_2 index hindex =>
    obtain ⟨-, rfl⟩ := Prod.mk.inj hsent
    have hid : 0 ≤ id := by
      rw [isRegisteredTask] at hindex
      split at hindex
      case isTrue => cases hindex
      case isFalse hid => omega
    have hslot := taskId_of_isRegisteredTask hindex
    refine ⟨hid, fun place => ?_⟩
    rw [slot_modifySlot]
    split
    case isTrue hhere => exact fun hsame => ⟨hinline place hsame, .inl hlethal⟩
    case isFalse hother =>
      intro hsame
      have hlive : 0 ≤ (scheduler.slot place).taskId := hsame ▸ hid
      have hplace : place = index := hdistinct place index hlive (hsame.trans hslot.symm)
      exact absurd ⟨hplace, inside_of_live hlive⟩ hother

/-- A call or a turn that spares the task leaves it doomed and does not run it. -/
theorem doomed_take (hid : 0 ≤ id) {step : Step} (hspares : StepSpares id scheduler step)
    (hdoomed : Doomed id scheduler) :
    Doomed id (step.take scheduler).2 ∧
      ∀ event ∈ (step.take scheduler).1, ∀ routine, event ≠ .invoked id routine := by
  cases step with
  | call made => exact ⟨doomed_perform hdoomed hspares, nofun⟩
  | turn given => exact good_handleTasks (keeps_doomed hid hspares.1 hspares.2) hdoomed

/-- Once a kill was sent to an inline task, its callback is not invoked again in any run
in which no other signal replaces the kill while it is waiting. -/
theorem killed_task_rests {scheduler next : Scheduler} (hreachable : Reachable scheduler) {id : ℤ}
    (hinline : ∀ place, (scheduler.slot place).taskId = id →
      (scheduler.slot place).taskMode = .inline)
    {signal : Signal} (hlethal : signal.lethal)
    (hsent : sendSignal scheduler id signal = (true, next)) {steps : List Step}
    (hspares : Allowed Step.take (StepSpares id) steps next) :
    ∀ entry ∈ (run Step.take steps next).1, ∀ routine, Event.invoked id routine ∉ entry.2 := by
  obtain ⟨hid, hdoomed⟩ :=
    doomed_of_sendSignal (distinct_of_reachable hreachable) hinline hlethal hsent
  intro entry hentry routine hevent
  refine (run_invariant_of_allowed (Doomed id)
    (fun events => ∀ event ∈ events, ∀ routine, event ≠ .invoked id routine) ?_
    steps hspares hdoomed).2 entry hentry _ hevent routine rfl
  exact fun _ _ hstep hstate => doomed_take hid hstep hstate

def blinking : Scheduler :=
  (registerTask fresh
    { task := 7, duration := 10, priority := 0, lastMillis := 5, maxAttempts := -1, name := none,
      owner := 0 }).2

def turnAt (now : UInt64) : Turn :=
  { score := fun _ _ => 0
    sortedAt := now
    startedAt := fun _ => now
    execUs := fun _ => 1
    finished := fun _ => false
    calls := fun _ _ => []
    finalizerCalls := fun _ _ => [] }

theorem stepSpares_turnAt {id : ℤ} {scheduler : Scheduler} {now : UInt64} :
    StepSpares id scheduler (.turn (turnAt now)) :=
  ⟨fun _ _ => trivial, fun _ _ => trivial⟩

/-- A task that was killed and then sent a second kill does not run. -/
theorem blinking_rests :
    (sendSignal blinking 1 .kill).1 = true ∧
      ∀ entry ∈ (run Step.take
          [.call (.sendSignal 1 .term), .turn (turnAt 100), .turn (turnAt 200)]
          (sendSignal blinking 1 .kill).2).1,
        ∀ routine, Event.invoked 1 routine ∉ entry.2 := by
  have hreachable : Reachable blinking := ⟨[.call (.registerTask _)], rfl⟩
  refine ⟨by decide, killed_task_rests hreachable ?_ (by decide) (Prod.ext (by decide) rfl)
    ⟨⟨nofun, fun _ hother => absurd hother.2 (by decide)⟩, stepSpares_turnAt,
      stepSpares_turnAt, trivial⟩⟩
  intro place hplace
  have hinline : ∀ task ∈ blinking.tasks, task.taskMode = .inline := by decide
  have hinside : place < blinking.tasks.length := inside_of_live (by omega)
  rw [Scheduler.slot, getD_eq_getElem _ _ hinside]
  exact hinline _ (getElem_mem hinside)

/-- A task to which a kill was sent runs again when it is told to continue before its
next turn. -/
theorem kill_is_replaced :
    (sendSignal blinking 1 .kill).1 = true ∧
      (run Step.take [.call (.sendSignal 1 .cont), .turn (turnAt 100)]
        (sendSignal blinking 1 .kill).2).1.flatMap Prod.snd = [.invoked 1 7] := by
  decide +kernel

end PdiStack.KilledTask
