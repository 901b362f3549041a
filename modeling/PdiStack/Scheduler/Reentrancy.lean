import PdiStack.Core.StateMachine
import PdiStack.Scheduler.Turns

/-!
# Turns that are interrupted by user code

A callback or a finalizer runs in the middle of `handle_tasks`, and may call the
scheduler again, a turn included.  The machine of this module keeps the turns that wait
for user code as a stack.  Its inputs are the calls that the user code on top makes, or
the main loop where no turn waits, and its return.
-/

namespace PdiStack.Reentrancy

open StateMachine TaskScheduler Turns List

/-- What `handle_tasks` reads outside the scheduler. -/
structure Readings where
  score : Task → UInt64 → ℤ
  sortedAt : UInt64
  startedAt : ℕ → UInt64
  execUs : ℕ → UInt32
  finished : ℕ → Bool

def readingsOf (turn : Turn) : Readings :=
  { score := turn.score
    sortedAt := turn.sortedAt
    startedAt := turn.startedAt
    execUs := turn.execUs
    finished := turn.finished }

/-- What happens to the tasks. -/
inductive Notice where
  | registered (id : ℤ)
  | finalizerSet (id : ℤ) (finalizer : Option Routine)
  | invoked (id : ℤ) (routine : Routine)
  | finalized (id : ℤ) (finalizer : Routine)
  | released (id : ℤ)
deriving DecidableEq, Repr

/-- User code that the scheduler has called, with what is left to do when it returns. -/
inductive Frame where
  | callback (readings : Readings) (place index : ℕ) (rest : List ℕ)
  | reaping (readings : Readings) (place : ℕ) (rest : List ℕ)
  | releasing (index : ℕ) (rest : List ℕ)

/-- Where a turn stops: at its end, or in user code. -/
structure Halt where
  notices : List Notice
  scheduler : Scheduler
  frame : Option Frame

def Halt.after (notices : List Notice) (halt : Halt) : Halt :=
  { halt with notices := notices ++ halt.notices }

def releaseFrom : List ℕ → Scheduler → Halt
  | [], scheduler => ⟨[], scheduler, none⟩
  | index :: rest, scheduler =>
    let task := scheduler.slot index
    if 0 ≤ task.taskId ∧ task.maxAttempts = 0 then
      match task.finalizer with
      | some finalizer =>
        ⟨[.finalized task.taskId finalizer],
          scheduler.modifySlot index fun task => { task with finalizer := none },
          some (.releasing index rest)⟩
      | none =>
        (releaseFrom rest (scheduler.modifySlot index Task.clear)).after [.released task.taskId]
    else
      releaseFrom rest scheduler

def releaseExpired (scheduler : Scheduler) : Halt :=
  releaseFrom (range scheduler.tasks.length) scheduler

/-- What the loop of `handle_tasks` makes of a slot before it runs user code. -/
inductive Begun where
  | skipped (scheduler : Scheduler)
  | looked (scheduler : Scheduler)
  | entered (notice : Notice) (scheduler : Scheduler) (frame : Frame)

section

variable (readings : Readings) (place index : ℕ) (rest : List ℕ) (scheduler : Scheduler)

def beginExecutive : Begun :=
  match (scheduler.slot index).taskExec with
  | none => .skipped scheduler
  | some executive =>
    let scheduler := scheduler.modifySlot index Task.passSignal
    if readings.finished executive then
      match (scheduler.slot index).finalizer with
      | none => .skipped scheduler
      | some finalizer =>
        .entered (.finalized (scheduler.slot index).taskId finalizer)
          (scheduler.modifySlot index fun task => { task with finalizer := none })
          (.reaping readings place rest)
    else .skipped scheduler

def beginInvoke : Begun :=
  let task := scheduler.slot index
  match task.task with
  | none => .looked (scheduler.modifySlot index (Task.advance (readings.startedAt place)))
  | some routine =>
    let scheduler := { scheduler with minVruntime := max scheduler.minVruntime task.vruntime }
    .entered (.invoked task.taskId routine)
      (scheduler.modifySlot index fun task => { task with state := .running })
      (.callback readings place index rest)

def beginInline : Begun :=
  let start := readings.startedAt place
  let signal := (scheduler.slot index).pendingSig
  let scheduler := scheduler.modifySlot index Task.consumeSignal
  if signal.lethal then .skipped scheduler
  else if (scheduler.slot index).state = .stopped then .skipped scheduler
  else
    let scheduler := scheduler.modifySlot index (Task.clampLast start)
    let task := scheduler.slot index
    if task.maxAttempts ≠ 0 ∧ task.duration ≤ start - task.lastMillis then
      beginInvoke readings place index rest scheduler
    else .looked scheduler

def beginSlot : Begun :=
  if (scheduler.slot index).taskMode ≠ .inline then
    beginExecutive readings place index rest scheduler
  else beginInline readings place index rest scheduler

end

/-- The loop over the sorted slots from a place on, and the release of the expired ones
after it, up to the next user code. -/
def slotsFrom (readings : Readings) : ℕ → List ℕ → Scheduler → Halt
  | _, [], scheduler => releaseExpired scheduler
  | place, index :: rest, scheduler =>
    match beginSlot readings place index rest scheduler with
    | .skipped scheduler => slotsFrom readings (place + 1) rest scheduler
    | .looked scheduler =>
      if scheduler.rebaseStartPriotask = true then
        releaseExpired { scheduler with rebaseStartPriotask := false }
      else slotsFrom readings (place + 1) rest scheduler
    | .entered notice scheduler frame => ⟨[notice], scheduler, some frame⟩

def goOn (readings : Readings) (place : ℕ) (rest : List ℕ) (scheduler : Scheduler) : Halt :=
  if scheduler.rebaseStartPriotask = true then
    releaseExpired { scheduler with rebaseStartPriotask := false }
  else slotsFrom readings (place + 1) rest scheduler

def beginTurn (readings : Readings) (scheduler : Scheduler) : Halt :=
  slotsFrom readings 0 (getSortedTaskList readings.score readings.sortedAt scheduler)
    { scheduler with rebaseStartPriotask := true }

/-- A slot cleared at the end of its release.  It may be free already, when the
finalizer has run a turn of its own. -/
def clearSlot (index : ℕ) (scheduler : Scheduler) : List Notice × Scheduler :=
  (if 0 ≤ (scheduler.slot index).taskId then [.released (scheduler.slot index).taskId] else [],
    scheduler.modifySlot index Task.clear)

def Frame.resume (scheduler : Scheduler) : Frame → Halt
  | .callback readings place index rest =>
    let scheduler := scheduler.modifySlot index (Task.charge (readings.execUs place))
    let scheduler := scheduler.modifySlot index (Task.advance (readings.startedAt place))
    goOn readings place rest scheduler
  | .reaping readings place rest => slotsFrom readings (place + 1) rest scheduler
  | .releasing index rest =>
    let (notices, scheduler) := clearSlot index scheduler
    (releaseFrom rest scheduler).after notices

/-- A scheduler with the user code it has called and that has not returned. -/
structure Machine where
  scheduler : Scheduler
  frames : List Frame

def start : Machine := { scheduler := fresh, frames := [] }

/-- What the user code on top does. -/
inductive Input where
  | call (call : Call)
  | handleTasks (readings : Readings)
  | removeExpiredTasks
  | finish

def registrationNotices (id : ℤ) : List Notice := if id < 0 then [] else [.registered id]

def callNotices (scheduler : Scheduler) : Call → List Notice
  | .registerTask registration => registrationNotices (registerTask scheduler registration).1
  | .updateInterval id registration =>
    match isRegisteredTask scheduler id with
    | some _ => []
    | none => registrationNotices (registerTask scheduler registration).1
  | .setTaskFinalizer id finalizer =>
    match isRegisteredTask scheduler id with
    | some _ => [.finalizerSet id finalizer]
    | none => []
  | _ => []

/-- A machine after a turn has stopped on top of some frames. -/
def settle (frames : List Frame) (halt : Halt) : List Notice × Machine :=
  (halt.notices, { scheduler := halt.scheduler, frames := halt.frame.toList ++ frames })

def Machine.take (machine : Machine) : Input → List Notice × Machine
  | .call call =>
    (callNotices machine.scheduler call,
      { machine with scheduler := call.perform machine.scheduler })
  | .handleTasks readings => settle machine.frames (beginTurn readings machine.scheduler)
  | .removeExpiredTasks => settle machine.frames (releaseExpired machine.scheduler)
  | .finish =>
    match machine.frames with
    | [] => ([], machine)
    | frame :: frames => settle frames (frame.resume machine.scheduler)

def notices (inputs : List Input) (machine : Machine) : List Notice :=
  (run Machine.take inputs machine).1.flatMap Prod.snd

theorem notices_cons (input : Input) (inputs : List Input) (machine : Machine) :
    notices (input :: inputs) machine =
      (machine.take input).1 ++ notices inputs (machine.take input).2 := rfl

end PdiStack.Reentrancy
