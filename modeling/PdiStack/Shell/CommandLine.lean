import PdiStack.Core.StateMachine
import PdiStack.Shell.ShellParser
import PdiStack.Shell.Streams

/-!
# Running a line

`runLine` parses a line and runs its pipelines one after the other, each when its join
lets it.  `runPipeline` runs the commands of one pipeline, each with its descriptors
pointed at what the line names.

The commands themselves are a parameter: what a command does to the shell when it is run
on a text.  A run also returns the redirection targets that storage was asked for.
-/

namespace PdiStack.CommandLine

open StringOperations FileSystemInterface Dispatcher Streams ShellParser StateMachine

def cmdErrorInval : ℤ := -3601
def cmdErrorNoent : ℤ := -3603
def cmdErrorPerm : ℤ := -3606
def cmdErrorFailed : ℤ := -3608
def cmdErrorUnset : ℤ := -3612
def cmdErrorAgain : ℤ := -3613
def cmdErrorHoldBuffer : ℤ := -3614

/-- What a descriptor of a session points at.  The two pipes of a running pipeline
are not owned by the descriptor. -/
inductive Descriptor where
  | terminal
  | source (stream : FileReadStream)
  | sink (stream : FileWriteStream)
  | carry
  | outpipe
deriving DecidableEq, Repr

/-- `session_t`, as far as running a line reads or writes it. -/
structure ShellSession where
  isAuthorized : Bool
  uid : UInt16
  gid : UInt16
  umask : UInt16
  cwd : Text
  lastExit : ℤ
  stdin : Descriptor
  stdout : Descriptor
deriving DecidableEq, Repr

/-- The state a line runs on.  `carry` and `outpipe` are the pipes of the running pipeline. -/
structure ShellState (σ : Type) where
  storage : σ
  session : Option ShellSession
  environment : Text → Text
  devicePwd : Text
  terminal : Text
  carry : Option PipeStream
  outpipe : Option PipeStream

variable {σ : Type}

/-- The storage, the command registry by the text of a line, and what closing the
terminal does. -/
structure Shell (σ : Type) where
  dispatcher : VfsDispatcher σ
  getCommand : Text → Option (Text → ShellState σ → ℤ × ShellState σ)
  disconnectTerminal : ShellState σ → Bool × ShellState σ

/-- A redirection target that storage was asked for. -/
inductive Touch where
  | source (path : Text)
  | sink (path : Text) (append : Bool)
deriving DecidableEq, Repr

namespace ShellState

variable (state : ShellState σ)

/-- The identity that storage sees: that of the current session, and root's where
there is none. -/
def caller : Caller :=
  match state.session with
  | none => { uid := 0, gid := 0, umask := fileUmaskDefault }
  | some session => { uid := session.uid, gid := session.gid, umask := session.umask }

def getPwd : Text :=
  match state.session with
  | none => state.devicePwd
  | some session => if session.cwd = [] then state.devicePwd else session.cwd

def expandContext : ExpandContext where
  lastExit := (state.session.map ShellSession.lastExit).getD pdiOk
  environment := state.environment

def setLastExit (status : ℤ) : ShellState σ :=
  if status = cmdErrorAgain ∨ status = cmdErrorHoldBuffer then
    state
  else
    { state with session := state.session.map fun session => { session with lastExit := status } }

def write (message : Text) : ShellState σ :=
  { state with terminal := state.terminal ++ message }

def newline : Text := [0x0D, 0x0A]

variable (dispatcher : VfsDispatcher σ)

def release (descriptor : Descriptor) : ShellState σ :=
  match descriptor with
  | .source stream =>
    { state with storage := FileReadStream.destroy dispatcher stream state.storage }
  | .sink stream =>
    { state with
      storage := FileWriteStream.destroy dispatcher state.caller stream state.storage }
  | _ => state

/-- `setFd(PDI_FD_STDIN, …)` once the descriptor it replaces is released. -/
def pointStdin (descriptor : Descriptor) : ShellState σ :=
  { state with session := state.session.map fun session => { session with stdin := descriptor } }

def pointStdout (descriptor : Descriptor) : ShellState σ :=
  { state with session := state.session.map fun session => { session with stdout := descriptor } }

/-- `closeFd(PDI_FD_STDIN)`. -/
def closeStdin : ShellState σ :=
  match state.session with
  | none => state
  | some session => (state.pointStdin .terminal).release dispatcher session.stdin

/-- `closeFd(PDI_FD_STDOUT)`. -/
def closeStdout : ShellState σ :=
  match state.session with
  | none => state
  | some session => (state.pointStdout .terminal).release dispatcher session.stdout

def resetStdio : ShellState σ :=
  { (state.closeStdin dispatcher).closeStdout dispatcher with carry := none, outpipe := none }

end ShellState

def appendFileSeparator (path : Text) : Text :=
  if path.getLast? = some pathSeparator then path else path ++ [pathSeparator]

/-- `resolveArgPathStr`: a length that is not positive as a number of 16 bits has
no path. -/
def resolveArgPath (state : ShellState σ) (value : Text) : Text :=
  let span := visible value
  if span = [] then
    []
  else if span.head? = some pathSeparator then
    span
  else
    appendFileSeparator state.getPwd ++ span

def targetText (line : Text) (redirect : Redirect) (state : ShellState σ) : Text :=
  expand state.expandContext true (spanOf line redirect.start redirect.len)

def targetPath (line : Text) (redirect : Redirect) (state : ShellState σ) : Text :=
  resolveArgPath state (targetText line redirect state)

section

variable (shell : Shell σ)

def openSource (path : Text) (state : ShellState σ) : Bool × ShellState σ × List Touch :=
  if path = [] then
    (false, state, [])
  else
    let (stream, storage) :=
      FileReadStream.create shell.dispatcher state.caller (cString path) state.storage
    let state := { state with storage := storage }
    let dropped := state.release shell.dispatcher (.source stream)
    if ¬ stream.isValid then
      (false, dropped, [.source path])
    else if state.session.isNone then
      (false, dropped, [.source path])
    else
      (true, (state.closeStdin shell.dispatcher).pointStdin (.source stream), [.source path])

def openRedirect (path : Text) (append : Bool) (state : ShellState σ) :
    Bool × ShellState σ × List Touch :=
  if path = [] then
    (false, state, [])
  else
    let (stream, storage) :=
      FileWriteStream.create shell.dispatcher state.caller (cString path) append state.storage
    let state := { state with storage := storage }
    if state.session.isNone then
      (false, state.release shell.dispatcher (.sink stream), [.sink path append])
    else
      (true, (state.closeStdout shell.dispatcher).pointStdout (.sink stream), [.sink path append])

variable (line : Text) (parsed : Line)

def outputRedirect (index : ℕ) : Option (Redirect × Bool) :=
  match parsed.findRedirect index .output with
  | some redirect => some (redirect, false)
  | none => (parsed.findRedirect index .append).map fun redirect => (redirect, true)

/-- A pipeline or a line on its way. -/
structure Flow (σ : Type) where
  res : ℤ
  stopped : Bool
  state : ShellState σ

/-- A target that could not be opened ends the pipeline. -/
def refuse (path : Text) (state : ShellState σ) : Flow σ where
  res := cmdErrorInval
  stopped := true
  state := (state.write
    (ShellState.newline ++ text "cannot open " ++ cString path ++ ShellState.newline)).resetStdio
      shell.dispatcher

/-- Points the input of a command at the pipe from the command before, or at the
file it names. -/
def openInput (index : ℕ) (state : ShellState σ) : Bool × ShellState σ × List Touch :=
  match state.carry with
  | some _ => (true, state.pointStdin .carry, [])
  | none =>
    match parsed.findRedirect index .input with
    | none => (true, state, [])
    | some redirect => openSource shell (targetPath line redirect state) state

/-- The pipe to the next command, which takes the output unless a redirection
does. -/
def openPipe (isLast redirected : Bool) (state : ShellState σ) : ShellState σ :=
  if isLast then
    { state with outpipe := none }
  else
    let state := { state with outpipe := some PipeStream.create }
    if redirected then state else state.pointStdout .outpipe

def reportUnknownCommand (command : Text) (state : ShellState σ) : ShellState σ :=
  if command = [] then
    state
  else
    state.write (ShellState.newline ++ command.takeWhile (· ≠ charBlank) ++
      text ": command not found" ++ ShellState.newline)

/-- Looks a command up and runs it.  A command without a text ends the pipeline. -/
def execute (index : ℕ) (state : ShellState σ) : Flow σ :=
  match parsed.commandText state.expandContext line index with
  | none =>
    { res := cmdErrorInval, stopped := true, state := state.resetStdio shell.dispatcher }
  | some command =>
    match shell.getCommand (cString command) with
    | none =>
      { res := cmdErrorNoent, stopped := false, state := reportUnknownCommand command state }
    | some run =>
      { res := (run command state).1, stopped := false, state := (run command state).2 }

/-- Closes the descriptor that a redirection was opened on. -/
def disconnectStdout (state : ShellState σ) : Bool × ShellState σ :=
  match state.session with
  | none => (true, state)
  | some session =>
    match session.stdout with
    | .sink stream =>
      let (landed, stream, storage) :=
        FileWriteStream.disconnect shell.dispatcher state.caller stream state.storage
      (landed, { state with storage := storage }.pointStdout (.sink stream))
    | .terminal => shell.disconnectTerminal state
    | _ => (true, state)

/-- Commits the target of a redirection while the result can still be reported. -/
def commitOutput (path : Text) (flow : Flow σ) : Flow σ :=
  if flow.stopped then
    flow
  else
    match disconnectStdout shell flow.state with
    | (true, state) => { flow with state := state }
    | (false, state) =>
      { res := cmdErrorFailed
        stopped := false
        state := state.write
          (ShellState.newline ++ text "cannot write " ++ cString path ++ ShellState.newline) }

/-- The pipe that was written becomes the input of the next command.  A command
that has not finished leaves the rest nothing to run on. -/
def carryOn (flow : Flow σ) : Flow σ :=
  if flow.stopped then
    flow
  else
    { flow with
      stopped := flow.res = cmdErrorAgain
      state := { flow.state with carry := flow.state.outpipe, outpipe := none } }

/-- A command whose output target was asked for, with what came of that. -/
def runRedirected (index : ℕ) (outpath : Text) :
    Bool × ShellState σ × List Touch → List Touch × Flow σ
  | (false, state, sinks) => (sinks, refuse shell outpath state)
  | (true, state, sinks) =>
    (sinks, carryOn (commitOutput shell outpath (execute shell line parsed index state)))

/-- The rest of the pass once the input of the command is open. -/
def runOpened (isLast : Bool) (index : ℕ) (state : ShellState σ) : List Touch × Flow σ :=
  match outputRedirect parsed index with
  | none => ([], carryOn (execute shell line parsed index (openPipe isLast false state)))
  | some (redirect, append) =>
    let state := openPipe isLast true state
    runRedirected shell line parsed index (targetText line redirect state)
      (openRedirect shell (targetPath line redirect state) append state)

def inputTarget (index : ℕ) (state : ShellState σ) : Text :=
  match parsed.findRedirect index .input with
  | none => []
  | some redirect => targetText line redirect state

def runWithInput (isLast : Bool) (index : ℕ) :
    Bool × ShellState σ × List Touch → List Touch × Flow σ
  | (false, state, sources) =>
    (sources, refuse shell (inputTarget line parsed index state) state)
  | (true, state, sources) =>
    let outcome := runOpened shell line parsed isLast index state
    (sources ++ outcome.1, outcome.2)

/-- A pass of the loop in `runPipeline`. -/
def runCommand (isLast : Bool) (index : ℕ) (state : ShellState σ) : List Touch × Flow σ :=
  runWithInput shell line parsed isLast index
    (openInput shell line parsed index
      ((state.closeStdin shell.dispatcher).closeStdout shell.dispatcher))

/-- What a command writes goes through its output descriptor. -/
def writeStdout (data : Text) (state : ShellState σ) : ShellState σ :=
  match state.session with
  | none => state
  | some session =>
    match session.stdout with
    | .terminal => state.write data
    | .sink stream =>
      let (stream, storage) := FileWriteStream.write shell.dispatcher state.caller
        (data.length + 1) data stream state.storage
      { state with storage := storage }.pointStdout (.sink stream)
    | .outpipe => { state with outpipe := state.outpipe.map (PipeStream.write data) }
    | _ => state

/-- The loop of `runPipeline` as a machine fed with command indices. -/
def commandStep (pipeline : Pipeline) (flow : Flow σ) (index : ℕ) : List Touch × Flow σ :=
  if flow.stopped then
    ([], flow)
  else
    runCommand shell line parsed
      (index + 1 = pipeline.commandStart + pipeline.commandCount) index flow.state

def runPipeline (pipeline : Pipeline) (state : ShellState σ) : List Touch × ℤ × ShellState σ :=
  let outcome := run (commandStep shell line parsed pipeline)
    (List.range' pipeline.commandStart pipeline.commandCount)
    { res := cmdErrorUnset, stopped := false
      state := { state with carry := none, outpipe := none } }
  (outcome.1.flatMap Prod.snd, outcome.2.res, outcome.2.state.resetStdio shell.dispatcher)

/-- The loop of `runLine` as a machine fed with pipelines.  `$?` is the status of
the last pipeline that finished. -/
def pipelineStep (flow : Flow σ) (pipeline : Pipeline) : List Touch × Flow σ :=
  if flow.stopped ∨ ¬ shouldRun pipeline.join flow.res then
    ([], flow)
  else
    let (touched, res, state) := runPipeline shell line parsed pipeline flow.state
    if res = cmdErrorAgain ∨ res = cmdErrorHoldBuffer then
      (touched, { res := res, stopped := true, state := state })
    else
      (touched, { res := res, stopped := false, state := state.setLastExit res })

/-- What a line came to.  `namedNoent` says that an unknown command has been named
already. -/
structure LineOutcome (σ : Type) where
  res : ℤ
  namedNoent : Bool
  state : ShellState σ
  touched : List Touch

def syntaxError (state : ShellState σ) : LineOutcome σ where
  res := cmdErrorInval
  namedNoent := false
  state := state.write (ShellState.newline ++ text "syntax error" ++ ShellState.newline)
  touched := []

/-- A line of one command with nothing to wire up, run where it lies. -/
def runPlain (state : ShellState σ) : LineOutcome σ :=
  let outcome :=
    match shell.getCommand (cString line) with
    | none => (cmdErrorNoent, state)
    | some run => run line state
  { res := outcome.1, namedNoent := false, state := outcome.2, touched := [] }

def runPipelines (state : ShellState σ) : LineOutcome σ :=
  let outcome := run (pipelineStep shell line parsed) parsed.pipelines
    { res := cmdErrorNoent, stopped := false, state := state }
  { res := outcome.2.res, namedNoent := true, state := outcome.2.state
    touched := outcome.1.flatMap Prod.snd }

def runLine (state : ShellState σ) : LineOutcome σ :=
  match parse line with
  | none => syntaxError state
  | some parsed =>
    if parsed.isPlain ∧ ¬ expandable (visible line) then
      runPlain shell line state
    else
      runPipelines shell line parsed state

end

end PdiStack.CommandLine
