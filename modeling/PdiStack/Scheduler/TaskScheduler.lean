import Mathlib
import PdiStack.Utility.StringOperations

/-!
# The task scheduler

`TaskScheduler` keeps its tasks in a table of fixed size.  A turn of `handle_tasks`
sorts the live slots, goes through them until one was looked at in full, and then
releases the slots whose attempts are used up.

A callback is known by a number, and what it does to the scheduler is the list of
calls it makes.  The clock readings and the calls of one turn are given with the turn,
and so is the floating point score that breaks ties of the virtual runtime.
-/

namespace PdiStack.TaskScheduler

open StringOperations

/-- A callable the table holds. -/
abbrev Routine := ℕ

inductive TaskMode where
  | inline
  | cooperative
  | preemptive
deriving DecidableEq, Repr

inductive TaskPolicy where
  | fifo
  | roundRobin
  | deadline
  | fairShare
deriving DecidableEq, Repr

inductive TaskState where
  | ready
  | running
  | sleeping
  | stopped
  | zombie
deriving DecidableEq, Repr

inductive Signal where
  | none
  | hup
  | kill
  | term
  | cont
  | stop
deriving DecidableEq, Repr

def Signal.lethal (signal : Signal) : Bool := signal = .kill ∨ signal = .term

def maxSchedulableTasks : ℕ := 25

def maxTaskId : ℤ := 32000

def maxTaskPriority : ℕ := 99

def taskWeightNominal : ℕ := 1024
def taskWeightLevels : ℕ := maxTaskPriority + 1
def taskWeightSpan : ℕ := 9
def taskWeightDeadlineBoost : ℕ := 4

/-- `task_t`, with what `clear` leaves as its defaults.  A slot with a negative id is
free. -/
structure Task where
  taskId : ℤ := -1
  maxAttempts : ℤ := 0
  duration : UInt64 := 0
  lastMillis : UInt64 := 0
  task : Option Routine := none
  taskPriority : ℕ := 0
  taskExecUs : UInt32 := 0
  taskMode : TaskMode := .inline
  taskPolicy : TaskPolicy := .fifo
  name : Option Text := none
  owner : UInt8 := 0
  state : TaskState := .ready
  nice : ℤ := 0
  vruntime : UInt64 := 0
  weight : UInt32 := 1
  pendingSig : Signal := .none
  stoppable : Bool := true
  finalizer : Option Routine := none
  taskExec : Option ℕ := none
deriving DecidableEq, Repr

variable (scheduler : Scheduler) (task : Task)

def Task.clear : Task := { taskExec := task.taskExec }

def weightUp : ℕ → ℕ
  | 0 => taskWeightNominal
  | steps + 1 => weightUp steps * (taskWeightLevels + taskWeightSpan) / taskWeightLevels

def weightDown : ℕ → ℕ
  | 0 => taskWeightNominal
  | steps + 1 => weightDown steps * taskWeightLevels / (taskWeightLevels + taskWeightSpan)

def taskWeight : UInt32 :=
  if task.taskPolicy = .roundRobin then
    UInt32.ofNat taskWeightNominal
  else
    let effective := max 0 (min (task.taskPriority - task.nice) maxTaskPriority)
    let step : ℤ := (effective * (taskWeightLevels - 1)) / maxTaskPriority - taskWeightLevels / 2
    let weight := if 0 ≤ step then weightUp step.toNat else weightDown (-step).toNat
    let weight := if task.taskPolicy = .deadline then weight * taskWeightDeadlineBoost else weight
    if weight < 1 then 1 else UInt32.ofNat weight

/-- `setTaskPriority` on a record. -/
def Task.setPriority (priority : ℕ) (task : Task) : Task :=
  let task := { task with taskPriority := min priority maxTaskPriority }
  { task with weight := taskWeight task }

/-- `setTaskPolicy` on a record. -/
def Task.setPolicy (policy : TaskPolicy) (task : Task) : Task :=
  let task := { task with taskPolicy := policy }
  { task with weight := taskWeight task }

/-- `setTaskNice` on a record. -/
def Task.setNice (nice : ℤ) (task : Task) : Task :=
  let task := { task with nice := nice }
  { task with weight := taskWeight task }

structure Scheduler where
  tasks : List Task
  maxTasks : ℕ
  rebaseStartPriotask : Bool
  minVruntime : UInt64
  nextTaskId : ℤ
deriving DecidableEq, Repr

/-- The constructor. -/
def fresh : Scheduler :=
  { tasks := List.replicate maxSchedulableTasks {}
    maxTasks := maxSchedulableTasks
    rebaseStartPriotask := false
    minVruntime := 0
    nextTaskId := 1 }

def Scheduler.modifySlot (index : ℕ) (change : Task → Task) : Scheduler :=
  { scheduler with tasks := scheduler.tasks.modify index change }

def isRegisteredTask (id : ℤ) : Option ℕ :=
  if id < 0 then none else scheduler.tasks.findIdx? fun task => task.taskId = id

def changeTask (id : ℤ) (change : Task → Task) : Bool × Scheduler :=
  match isRegisteredTask scheduler id with
  | none => (false, scheduler)
  | some index => (true, scheduler.modifySlot index change)

def uniqueTaskId : ℕ → Scheduler → ℤ × Scheduler
  | 0, scheduler => (-1, scheduler)
  | attempts + 1, scheduler =>
    let id := scheduler.nextTaskId
    let scheduler := { scheduler with nextTaskId := if maxTaskId ≤ id then 1 else id + 1 }
    if scheduler.tasks.any fun task => task.taskId = id then uniqueTaskId attempts scheduler
    else (id, scheduler)

/-- The arguments of a registration. -/
structure Registration where
  task : Routine
  duration : UInt64
  priority : ℕ
  lastMillis : UInt64
  maxAttempts : ℤ
  name : Option Text
  owner : UInt8
deriving DecidableEq, Repr

def Registration.record (registration : Registration) (id : ℤ) (vruntime : UInt64) (slot : Task) :
    Task :=
  let task :=
    { slot with
      task := some registration.task
      duration := registration.duration
      lastMillis := registration.lastMillis
      maxAttempts := registration.maxAttempts
      taskExecUs := 0
      vruntime := vruntime
      taskId := id
      state := .sleeping }
  { (task.setPolicy .fifo).setPriority registration.priority with
    name := registration.name
    owner := registration.owner }

def registerTask (registration : Registration) : ℤ × Scheduler :=
  match (scheduler.tasks.take scheduler.maxTasks).findIdx? fun task => task.taskId < 0 with
  | none => (-1, scheduler)
  | some slot =>
    match uniqueTaskId (scheduler.maxTasks + 1) scheduler with
    | (id, next) =>
      if id < 0 then (-1, next)
      else (id, next.modifySlot slot (registration.record id scheduler.minVruntime))

def Registration.update (registration : Registration) (slot : Task) : Task :=
  let task := { slot with task := some registration.task, duration := registration.duration }
  let task := task.setPriority registration.priority
  { task with
    lastMillis := if registration.lastMillis = 0 then task.lastMillis else registration.lastMillis
    maxAttempts := registration.maxAttempts
    name := registration.name.or task.name
    owner := registration.owner }

def updateInterval (id : ℤ) (registration : Registration) : ℤ × Scheduler :=
  match isRegisteredTask scheduler id with
  | some index => (id, scheduler.modifySlot index registration.update)
  | none => registerTask scheduler registration

/-- What `remove_task` does to a slot. -/
def Task.expire : Task :=
  let task := { task with duration := 10 }
  { task.setPriority 0 with maxAttempts := 0, task := none, state := .zombie, taskExec := none }

/-- `remove_task`, which `clearTimeout` and `clearInterval` call. -/
def removeTask (id : ℤ) : Bool × Scheduler :=
  if id < 0 then (false, scheduler)
  else
    (scheduler.tasks.any fun task => task.taskId = id,
      { scheduler with
        tasks := scheduler.tasks.map fun task => if task.taskId = id then task.expire else task })

def sendSignal (id : ℤ) (signal : Signal) : Bool × Scheduler :=
  changeTask scheduler id fun task => { task with pendingSig := signal }

def reachedByName (name : Text) (signal : Signal) (requester : UInt8) (isRoot : Bool)
    (task : Task) : Bool :=
  0 ≤ task.taskId ∧ task.state ≠ .zombie ∧ task.name = some name ∧
    (isRoot = true ∨ task.owner = requester) ∧
    ¬ ((signal = .stop ∨ signal = .cont) ∧ task.stoppable = false)

def sendSignalByName (name : Text) (signal : Signal) (requester : UInt8)
    (isRoot : Bool) : ℕ × Scheduler :=
  if name = [] then (0, scheduler)
  else
    (scheduler.tasks.countP (reachedByName name signal requester isRoot),
      { scheduler with
        tasks := scheduler.tasks.map fun task =>
          if reachedByName name signal requester isRoot task then { task with pendingSig := signal }
          else task })

/-- A call of the scheduler's interface, other than a turn. -/
inductive Call where
  | registerTask (registration : Registration)
  | updateInterval (id : ℤ) (registration : Registration)
  | removeTask (id : ℤ)
  | setTaskName (id : ℤ) (name : Option Text)
  | setTaskOwner (id : ℤ) (owner : UInt8)
  | setTaskNice (id : ℤ) (nice : ℤ)
  | setTaskPolicy (id : ℤ) (policy : TaskPolicy)
  | setTaskPriority (id : ℤ) (priority : ℕ)
  | setTaskFinalizer (id : ℤ) (finalizer : Option Routine)
  | sendSignal (id : ℤ) (signal : Signal)
  | sendSignalByName (name : Text) (signal : Signal) (requester : UInt8) (isRoot : Bool)
  | setMaxTasksLimit (maxTasks : UInt8)
  | rebaseAndRestartPrioTasks
deriving DecidableEq, Repr

def Call.perform : Call → Scheduler
  | .registerTask registration => (TaskScheduler.registerTask scheduler registration).2
  | .updateInterval id registration => (TaskScheduler.updateInterval scheduler id registration).2
  | .removeTask id => (TaskScheduler.removeTask scheduler id).2
  | .setTaskName id name => (changeTask scheduler id fun task => { task with name := name }).2
  | .setTaskOwner id owner => (changeTask scheduler id fun task => { task with owner := owner }).2
  | .setTaskNice id nice => (changeTask scheduler id (Task.setNice (max (-20) (min nice 19)))).2
  | .setTaskPolicy id policy => (changeTask scheduler id (Task.setPolicy policy)).2
  | .setTaskPriority id priority => (changeTask scheduler id (Task.setPriority priority)).2
  | .setTaskFinalizer id finalizer =>
    (changeTask scheduler id fun task => { task with finalizer := finalizer }).2
  | .sendSignal id signal => (TaskScheduler.sendSignal scheduler id signal).2
  | .sendSignalByName name signal requester isRoot =>
    (TaskScheduler.sendSignalByName scheduler name signal requester isRoot).2
  | .setMaxTasksLimit maxTasks => { scheduler with maxTasks := maxTasks.toNat }
  | .rebaseAndRestartPrioTasks => { scheduler with rebaseStartPriotask := true }

def performAll (calls : List Call) : Scheduler := calls.foldl Call.perform scheduler

def Task.nextDue : UInt64 := task.lastMillis + task.duration

/-- Whether `getSortedTaskList` puts the second task in front of the first. -/
def swapNeeded (score : Task → UInt64 → ℤ) (now : UInt64) (first second : Task) : Bool :=
  let firstDue := decide (first.nextDue ≤ now)
  let secondDue := decide (second.nextDue ≤ now)
  if firstDue ≠ secondDue then secondDue
  else if first.vruntime ≠ second.vruntime then second.vruntime < first.vruntime
  else if score first now ≠ score second now then score first now < score second now
  else if 3 < (first.nextDue - second.nextDue).toBitVec.toInt.natAbs then
    second.nextDue < first.nextDue
  else second.taskExecUs < first.taskExecUs

/-- The inner loop of the sort: one place against all behind it, which change places
with it where the order asks for it. -/
def exchangePass {ι : Type*} (swap : ι → ι → Bool) : ι → List ι → ι × List ι
  | first, [] => (first, [])
  | first, second :: rest =>
    if swap first second then
      let (least, rest) := exchangePass swap second rest
      (least, first :: rest)
    else
      let (least, rest) := exchangePass swap first rest
      (least, second :: rest)

def exchangeSort {ι : Type*} (swap : ι → ι → Bool) : ℕ → List ι → List ι
  | 0, list => list
  | _ + 1, [] => []
  | places + 1, first :: rest =>
    let (least, rest) := exchangePass swap first rest
    least :: exchangeSort swap places rest

def Scheduler.slot (index : ℕ) : Task := scheduler.tasks.getD index {}

def liveIndices : List ℕ :=
  (List.range scheduler.tasks.length).filter fun index => 0 ≤ (scheduler.slot index).taskId

def getSortedTaskList (score : Task → UInt64 → ℤ) (now : UInt64) (scheduler : Scheduler) : List ℕ :=
  let live := liveIndices scheduler
  exchangeSort
    (fun first second => swapNeeded score now (scheduler.slot first) (scheduler.slot second))
    live.length live

/-- What a turn finds outside the scheduler. -/
structure Turn where
  score : Task → UInt64 → ℤ
  sortedAt : UInt64
  startedAt : ℕ → UInt64
  execUs : ℕ → UInt32
  finished : ℕ → Bool
  calls : Routine → Scheduler → List Call
  finalizerCalls : Routine → Scheduler → List Call

/-- What a turn shows to the outside: a callback or a finalizer run for a task. -/
inductive Event where
  | invoked (id : ℤ) (routine : Routine)
  | finalized (id : ℤ) (routine : Routine)
deriving DecidableEq, Repr

def Task.consumeSignal : Task :=
  match task.pendingSig with
  | .kill | .term =>
    { task with pendingSig := .none, task := none, maxAttempts := 0, state := .zombie }
  | .stop => { task with pendingSig := .none, state := .stopped }
  | .cont =>
    { task with
      pendingSig := .none
      state := if task.state = .stopped then .sleeping else task.state }
  | .hup | .none => { task with pendingSig := .none }

/-- What a task under an executive makes of its pending signal.  Suspending, resuming
and terminating are the executive's. -/
def Task.passSignal : Task :=
  match task.pendingSig with
  | .stop =>
    { task with pendingSig := .none, state := if task.stoppable then .stopped else task.state }
  | .cont =>
    { task with
      pendingSig := .none
      state := if task.stoppable ∧ task.state = .stopped then .sleeping else task.state }
  | _ => { task with pendingSig := .none }

/-- Runs the finalizer of a slot, which holds it no longer by then. -/
def runFinalizer (turn : Turn) (index : ℕ) (scheduler : Scheduler) : List Event × Scheduler :=
  match (scheduler.slot index).finalizer with
  | none => ([], scheduler)
  | some finalizer =>
    let scheduler := scheduler.modifySlot index fun task => { task with finalizer := none }
    ([.finalized (scheduler.slot index).taskId finalizer],
      performAll scheduler (turn.finalizerCalls finalizer scheduler))

def handleExecutive (turn : Turn) (index : ℕ) (scheduler : Scheduler) : List Event × Scheduler :=
  match (scheduler.slot index).taskExec with
  | none => ([], scheduler)
  | some executive =>
    let scheduler := scheduler.modifySlot index Task.passSignal
    if turn.finished executive then runFinalizer turn index scheduler else ([], scheduler)

/-- The last time of a task that is in the future is the present. -/
def Task.clampLast (start : UInt64) (task : Task) : Task :=
  { task with lastMillis := if start < task.lastMillis then start else task.lastMillis }

def Task.charge (execUs : UInt32) (task : Task) : Task :=
  let weight := if 0 < task.weight then task.weight else 1
  { task with
    taskExecUs := execUs
    vruntime := task.vruntime + execUs.toUInt64 * UInt64.ofNat taskWeightNominal / weight.toUInt64
    state := .sleeping }

/-- The last time moved on by whole durations, four times at most. -/
def catchUp (start duration : UInt64) : ℕ → UInt64 → UInt64
  | 0, last => last
  | rounds + 1, last =>
    if duration ≤ start - last then catchUp start duration rounds (last + duration) else last

/-- The last time and the attempts left after a task was due. -/
def Task.advance (start : UInt64) (task : Task) : Task :=
  let attempts := if 0 < task.maxAttempts then task.maxAttempts - 1 else task.maxAttempts
  { task with
    lastMillis := if task.lastMillis = 0 then start
      else catchUp start task.duration 4 task.lastMillis
    maxAttempts := attempts
    state := if attempts = 0 then .zombie else task.state }

def invokeTask (turn : Turn) (place index : ℕ) (scheduler : Scheduler) : List Event × Scheduler :=
  let task := scheduler.slot index
  match task.task with
  | none => ([], scheduler)
  | some routine =>
    let scheduler :=
      { scheduler with minVruntime := max scheduler.minVruntime task.vruntime }
    let scheduler := scheduler.modifySlot index fun task => { task with state := .running }
    let scheduler := performAll scheduler (turn.calls routine scheduler)
    ([.invoked task.taskId routine], scheduler.modifySlot index (Task.charge (turn.execUs place)))

/-- A slot whose task is run in the turn itself: whether the turn goes on to the next
slot without having looked at it in full. -/
def handleInline (turn : Turn) (place index : ℕ) (scheduler : Scheduler) :
    Bool × List Event × Scheduler :=
  let start := turn.startedAt place
  let signal := (scheduler.slot index).pendingSig
  let scheduler := scheduler.modifySlot index Task.consumeSignal
  if signal.lethal then (true, [], scheduler)
  else if (scheduler.slot index).state = .stopped then (true, [], scheduler)
  else
    let scheduler := scheduler.modifySlot index (Task.clampLast start)
    let task := scheduler.slot index
    if task.maxAttempts ≠ 0 ∧ task.duration ≤ start - task.lastMillis then
      let (events, scheduler) := invokeTask turn place index scheduler
      (false, events, scheduler.modifySlot index (Task.advance start))
    else
      (false, [], scheduler)

def handleSlots (turn : Turn) : ℕ → List ℕ → Scheduler → List Event × Scheduler
  | _, [], scheduler => ([], scheduler)
  | place, index :: rest, scheduler =>
    if (scheduler.slot index).taskMode ≠ .inline then
      let (events, scheduler) := handleExecutive turn index scheduler
      let (later, scheduler) := handleSlots turn (place + 1) rest scheduler
      (events ++ later, scheduler)
    else
      let (skipped, events, scheduler) := handleInline turn place index scheduler
      if skipped = false ∧ scheduler.rebaseStartPriotask = true then
        (events, { scheduler with rebaseStartPriotask := false })
      else
        let (later, scheduler) := handleSlots turn (place + 1) rest scheduler
        (events ++ later, scheduler)

def removeExpiredFrom (turn : Turn) : List ℕ → Scheduler → List Event × Scheduler
  | [], scheduler => ([], scheduler)
  | index :: rest, scheduler =>
    let task := scheduler.slot index
    if 0 ≤ task.taskId ∧ task.maxAttempts = 0 then
      let (events, scheduler) := runFinalizer turn index scheduler
      let scheduler := scheduler.modifySlot index Task.clear
      let (later, scheduler) := removeExpiredFrom turn rest scheduler
      (events ++ later, scheduler)
    else
      removeExpiredFrom turn rest scheduler

def removeExpiredTasks (turn : Turn) (scheduler : Scheduler) : List Event × Scheduler :=
  removeExpiredFrom turn (List.range scheduler.tasks.length) scheduler

def handleTasks (turn : Turn) (scheduler : Scheduler) : List Event × Scheduler :=
  let indices := getSortedTaskList turn.score turn.sortedAt scheduler
  let scheduler := { scheduler with rebaseStartPriotask := true }
  let (events, scheduler) := handleSlots turn 0 indices scheduler
  let (later, scheduler) := removeExpiredTasks turn scheduler
  (events ++ later, scheduler)

/-- One thing that happens to the scheduler from outside. -/
inductive Step where
  | call (call : Call)
  | turn (turn : Turn)

def Step.take : Step → List Event × Scheduler
  | .call made => ([], made.perform scheduler)
  | .turn given => handleTasks given scheduler

end PdiStack.TaskScheduler
