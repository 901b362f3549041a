import PdiStack.Core.StateMachine
import PdiStack.Shell.Environment

/-!
# The script runner

`ScriptRunner` runs the lines of a file through the shell.  The open blocks of a script
are a stack of flags, and where a script has stopped is a stack of frames.  `drain` reads
the line of the innermost frame, opens and closes blocks, and hands the rest to the shell.

A command line can call the runner again, through `source`, and can abandon all scripts
of the session, through `logout` and `su`.  The runner is therefore a machine: its inputs
are one pass of the innermost loop, and what the running command does.
-/

namespace PdiStack.ScriptRunner

open PdiTypes StringOperations ShellParser CommandLine Environment

def scriptMaxDepth : ℕ := 3

def scriptBlockMax : ℕ := 8

def scriptLoopMax : ℕ := 1000

def scriptCommentChar : UInt8 := 0x23

def cmdErrorCanceled : ℤ := -3609

inductive Keyword where
  | none
  | ifWord
  | elseWord
  | fiWord
  | whileWord
  | doneWord
  | forWord
deriving DecidableEq, Repr

def Keyword.isCondition (word : Keyword) : Bool := word = .ifWord || word = .whileWord

def keywordOf (word : Text) : Keyword :=
  if word = text "if" then .ifWord
  else if word = text "else" then .elseWord
  else if word = text "fi" then .fiWord
  else if word = text "for" then .forWord
  else if word = text "while" then .whileWord
  else if word = text "done" then .doneWord
  else .none

/-- `keyword`: what a line opens or closes, and the rest of the line after a keyword. -/
def keyword (line : Text) : Keyword × Text :=
  let word := line.takeWhile fun char => !isBlank char
  match keywordOf word with
  | .none => (.none, [])
  | found => (found, (line.drop word.length).dropWhile isBlank)

/-- What `drain` makes of a line: its keyword, and the text that is left to run.  A blank
line and a comment are nothing. -/
def readStatement (line : Text) : Option (Keyword × Text) :=
  let statement := line.dropWhile isBlank
  if statement = [] ∨ statement.head? = some scriptCommentChar then none
  else
    match keyword statement with
    | (.none, _) => some (.none, statement)
    | found => some found

/-- The part of a session that command lines change, and the system behind it. -/
structure Situation (ω : Type) where
  env : Env
  lastExit : ℤ
  rest : ω
deriving DecidableEq

/-- What the runner asks the system for. -/
structure World (ω : Type) where
  readLineInFile : Text → ℕ → ω → Except PdiErr Text
  isFileExist : Text → ω → Bool
  derivedValue : Text → ω → Text
  baseValue : Text → ω → Option Text

variable {ω : Type}

/-- `setLastExit`; a command that has not finished has no exit status. -/
def Situation.setLastExit (situation : Situation ω) (status : ℤ) : Situation ω :=
  if status = cmdErrorAgain ∨ status = cmdErrorHoldBuffer then situation
  else { situation with lastExit := status }

/-- `Environment::set` in a session, whose status `openForBlock` does not look at. -/
def Situation.set (situation : Situation ω) (name value : Text) : Situation ω :=
  { situation with env := (Environment.set situation.env name value).2 }

def Situation.context (world : World ω) (situation : Situation ω) : ExpandContext where
  lastExit := situation.lastExit
  environment :=
    Environment.get (fun name => world.derivedValue name situation.rest)
      (fun name => world.baseValue name situation.rest) situation.env

/-- The name and the words of a for line, if it is one: a name the environment takes, the
word `in`, and nothing but words. -/
def forHead (rest : Text) : Option (Text × List Token) :=
  match tokenize (visible rest) with
  | some (first :: joiner :: list) =>
    let name := cString (spanOf rest first.start first.len)
    if first.type = .word ∧ joiner.type = .word ∧
        spanOf rest joiner.start joiner.len = text "in" ∧
        isValidName name = true ∧ isDerived name = false ∧ ∀ token ∈ list, token.type = .word then
      some (name, list)
    else none
  | _ => none

/-- The words that one word of the list stands for. -/
def wordsOfToken (context : ExpandContext) (rest : Text) (token : Token) : List Text :=
  let span := spanOf rest token.start token.len
  let expanded := expand context true span
  if span.any fun char => char = charSingleQuote || char = charDoubleQuote then [expanded]
  else (expanded.splitOnP isBlank).filter fun word => !word.isEmpty

def forWords (context : ExpandContext) (rest : Text) (list : List Token) : List Text :=
  list.flatMap (wordsOfToken context rest)

/-- `loopWord`: the name, the word of a pass, and how many words there are. -/
def loopWord (context : ExpandContext) (rest : Text) (index : ℕ) : Option (Text × Text × ℕ) :=
  (forHead rest).map fun head =>
    let words := forWords context rest head.2
    (head.1, words.getD index [], words.length)

inductive BlockKind where
  | ifBlock
  | whileBlock
  | forBlock
deriving DecidableEq, Repr

structure ScriptBlock where
  kind : BlockKind
  taken : Bool := false
  skipping : Bool := false
  head : ℕ := 0
  passes : ℕ := 0
deriving DecidableEq, Repr

structure ScriptFrame where
  path : Text
  line : ℕ := 0
  loopPasses : ℕ := 0
  blocks : List ScriptBlock := []
deriving DecidableEq, Repr

def skipping (frame : ScriptFrame) : Bool := frame.blocks.any ScriptBlock.skipping

inductive Obeyed where
  | fails
  | goes (frame : ScriptFrame) (binding : Option (Text × Text))
  | calls (frame : ScriptFrame) (statement : Text)
deriving DecidableEq, Repr

/-- The frame without its innermost block, if that is an if block or if it is a loop. -/
def closeBlock (isIf : Bool) (frame : ScriptFrame) : Obeyed :=
  match frame.blocks with
  | [] => .fails
  | block :: outer =>
    if isIf = (decide (block.kind = .ifBlock)) then .goes { frame with blocks := outer } none
    else .fails

def blockKindOf : Keyword → BlockKind
  | .whileWord => .whileBlock
  | .forWord => .forBlock
  | _ => .ifBlock

def skipStatement (frame : ScriptFrame) (word : Keyword) : Obeyed :=
  match word with
  | .ifWord | .whileWord | .forWord =>
    if scriptBlockMax ≤ frame.blocks.length then .fails
    else
      .goes
        { frame with
          blocks := { kind := blockKindOf word, taken := true, skipping := true } :: frame.blocks }
        none
  | .fiWord => closeBlock true frame
  | .doneWord => closeBlock false frame
  | .elseWord =>
    match frame.blocks with
    | [] => .fails
    | block :: outer =>
      if block.kind ≠ .ifBlock then .fails
      else if block.skipping ∧ ¬ block.taken then
        .goes { frame with blocks := { block with skipping := false, taken := true } :: outer } none
      else .goes frame none
  | .none => .goes frame none

def nextPass (frame : ScriptFrame) : Obeyed :=
  match frame.blocks with
  | [] => .fails
  | block :: outer =>
    if block.kind = .ifBlock then .fails
    else if scriptLoopMax ≤ block.passes + 1 then .fails
    else
      .goes
        { frame with line := block.head, loopPasses := block.passes + 1, blocks := outer } none

/-- An else line after a branch that was run or passed over by itself. -/
def turnToElse (frame : ScriptFrame) : Obeyed :=
  match frame.blocks with
  | [] => .fails
  | block :: outer =>
    if block.kind = .ifBlock then
      .goes { frame with blocks := { block with skipping := block.taken } :: outer } none
    else .fails

def openForBlock (context : ExpandContext) (frame : ScriptFrame) (rest : Text) : Obeyed :=
  let index := frame.loopPasses
  if scriptBlockMax ≤ frame.blocks.length then .fails
  else
    match loopWord context rest index with
    | none => .fails
    | some (name, value, count) =>
      let block : ScriptBlock :=
        { kind := .forBlock, head := frame.line - 1, passes := index, taken := true
          skipping := count ≤ index }
      .goes { frame with loopPasses := 0, blocks := block :: frame.blocks }
        -- `Environment::set` is given a C string
        (if count ≤ index then none else some (name, cString value))

def openCondition (frame : ScriptFrame) (word : Keyword) (rest : Text) : Obeyed :=
  if scriptBlockMax ≤ frame.blocks.length ∨ rest = [] then .fails
  else
    let block : ScriptBlock :=
      { kind := blockKindOf word, head := frame.line - 1, passes := frame.loopPasses }
    .calls { frame with loopPasses := 0, blocks := block :: frame.blocks } rest

def obey (context : ExpandContext) (frame : ScriptFrame) (word : Keyword) (rest : Text) : Obeyed :=
  if skipping frame then skipStatement frame word
  else
    match word with
    | .fiWord => closeBlock true frame
    | .elseWord => turnToElse frame
    | .doneWord => nextPass frame
    | .forWord => openForBlock context frame rest
    | .ifWord | .whileWord => openCondition frame word rest
    | .none => .calls frame rest

theorem obey_of_skipping (context : ExpandContext) {frame : ScriptFrame} (word : Keyword)
    (rest : Text) (hskips : skipping frame = true) :
    obey context frame word rest = skipStatement frame word := if_pos hskips

theorem obey_of_not_skipping (context : ExpandContext) {frame : ScriptFrame} (word : Keyword)
    (rest : Text) (hruns : skipping frame = false) :
    obey context frame word rest = match word with
      | .fiWord => closeBlock true frame
      | .elseWord => turnToElse frame
      | .doneWord => nextPass frame
      | .forWord => openForBlock context frame rest
      | .ifWord | .whileWord => openCondition frame word rest
      | .none => .calls frame rest :=
  if_neg (Bool.eq_false_iff.mp hruns)

/-- The flags that the status of a condition sets on its block. -/
def ScriptBlock.decided (block : ScriptBlock) (status : ℤ) : ScriptBlock :=
  let skipping := decide (status ≠ pdiOk)
  { block with
    taken := decide (status = pdiOk) || (decide (block.kind = .whileBlock) && skipping)
    skipping := skipping }

/-- The flags of the innermost block of the innermost script, set by a condition.  The
runner takes both from the ends of its stacks without asking whether there is one. -/
def decideBlock (status : ℤ) : List ScriptFrame → Option (List ScriptFrame)
  | [] => none
  | frame :: below =>
    match frame.blocks with
    | [] => none
    | block :: outer => some ({ frame with blocks := block.decided status :: outer } :: below)

/-- What the runner uses of a session, with the innermost script first. -/
structure Session (ω : Type) where
  situation : Situation ω
  scripts : List ScriptFrame := []
  exitOnPrompt : Bool := true
  waiting : Bool := false
deriving DecidableEq

/-- A line that was handed to the shell, with the open scripts at that moment. -/
structure Call where
  word : Keyword
  statement : Text
  scripts : List ScriptFrame
deriving DecidableEq, Repr

/-- A run of `drain` that has not returned. -/
structure Activation where
  floor : ℕ
  last : ℤ
  called : Option Call := none
deriving DecidableEq, Repr

/-- The session and the runs of `drain` that are under way, innermost first. -/
structure Runner (ω : Type) where
  session : Session ω
  drains : List Activation := []
deriving DecidableEq

/-- What happens next. -/
inductive Input (ω : Type) where
  | tick
  | run (path : Text) (exitonprompt : Bool)
  | resume
  | clearSession
  | change (situation : Situation ω)
  | wait (waiting : Bool)
  | back (status : ℤ)

/-- What the runner is seen to do. -/
inductive Event (ω : Type) where
  | ran (statement : Text) (situation : Situation ω)
  | bound (name value : Text) (situation : Situation ω)
  | returned (status : ℤ)
  | faulted
deriving DecidableEq

/-- The start of `drain`. -/
def enter (session : Session ω) (drains : List Activation) (floor : ℕ) : Runner ω where
  session := session
  drains := { floor := floor, last := session.situation.lastExit } :: drains

def scriptRun (world : World ω) (session : Session ω) (drains : List Activation) (path : Text)
    (exitonprompt : Bool) : List (Event ω) × Runner ω :=
  if scriptMaxDepth ≤ session.scripts.length ∨ world.isFileExist path session.situation.rest = false then
    ([.returned cmdErrorFailed], { session, drains })
  else
    ([], enter
      { session with
        scripts := { path := path } :: session.scripts
        exitOnPrompt := if session.scripts = [] then exitonprompt else session.exitOnPrompt }
      drains session.scripts.length)

/-- The session after a for line has bound its variable. -/
def Session.bind (session : Session ω) : Option (Text × Text) → Session ω
  | none => session
  | some (name, value) => { session with situation := session.situation.set name value }

def bindingEvents (situation : Situation ω) : Option (Text × Text) → List (Event ω)
  | none => []
  | some (name, value) => [.bound name value situation]

def readAndObey (world : World ω) (session : Session ω) (activation : Activation)
    (outer : List Activation) (frame : ScriptFrame) (below : List ScriptFrame) :
    List (Event ω) × Runner ω :=
  let looping := activation :: outer
  match world.readLineInFile frame.path frame.line session.situation.rest with
  | .error code =>
    let session := { session with scripts := below }
    if code = .notFound ∧ frame.blocks = [] then ([], { session, drains := looping })
    else ([.returned cmdErrorFailed], { session, drains := outer })
  | .ok line =>
    let frame := { frame with line := frame.line + 1 }
    match readStatement line with
    | none => ([], { session := { session with scripts := frame :: below }, drains := looping })
    | some (word, rest) =>
      match obey (session.situation.context world) frame word rest with
      | .fails =>
        ([.returned cmdErrorFailed], { session := { session with scripts := [] }, drains := outer })
      | .goes frame binding =>
        (bindingEvents session.situation binding,
          { session := { session with scripts := frame :: below }.bind binding
            drains := looping })
      | .calls frame statement =>
        let scripts := frame :: below
        ([.ran statement session.situation],
          { session := { session with scripts := scripts }
            drains := { activation with called := some { word, statement, scripts } } :: outer })

/-- One pass of the loop of `drain`. -/
def tick (world : World ω) (session : Session ω) (activation : Activation)
    (outer : List Activation) : List (Event ω) × Runner ω :=
  match session.scripts with
  | [] => ([.returned activation.last], { session, drains := outer })
  | frame :: below =>
    if session.scripts.length ≤ activation.floor then
      ([.returned activation.last], { session, drains := outer })
    else readAndObey world session activation outer frame below

/-- What `drain` does when a line has been run and the block of a condition has its
flags: it goes on, unless a command waits for input. -/
def goOn (session : Session ω) (activation : Activation) (outer : List Activation) (status : ℤ) :
    List (Event ω) × Runner ω :=
  if session.waiting then
    if session.exitOnPrompt then
      ([.returned cmdErrorCanceled],
        { session := { session with scripts := [], waiting := false }, drains := outer })
    else ([.returned cmdErrorAgain], { session, drains := outer })
  else ([], { session, drains := { activation with last := status, called := none } :: outer })

def lineRan (session : Session ω) (activation : Activation) (call : Call)
    (outer : List Activation) (status : ℤ) : List (Event ω) × Runner ω :=
  let session := { session with situation := session.situation.setLastExit status }
  if call.word.isCondition then
    match decideBlock status session.scripts with
    | none => ([.faulted], { session })
    | some scripts => goOn { session with scripts := scripts } activation outer status
  else goOn session activation outer status

/-- Whether a command is running, or nothing is: no `drain` is between two lines. -/
def Runner.isIdle (runner : Runner ω) : Bool :=
  match runner.drains with
  | [] => true
  | activation :: _ => activation.called.isSome

/-- What the runner makes of an input; one that cannot happen now changes nothing.
`resume` is called by the shell between two command lines of a session only. -/
def Runner.take (world : World ω) (runner : Runner ω) (input : Input ω) :
    List (Event ω) × Runner ω :=
  match input with
  | .tick =>
    match runner.drains with
    | { floor, last, called := none } :: outer =>
      ScriptRunner.tick world runner.session { floor, last } outer
    | _ => ([], runner)
  | .back status =>
    match runner.drains with
    | { floor, last, called := some call } :: outer =>
      lineRan runner.session { floor, last, called := some call } call outer status
    | _ => ([], runner)
  | .resume =>
    if runner.drains = [] ∧ runner.session.scripts ≠ [] ∧ runner.session.waiting = false then
      ([], enter runner.session [] 0)
    else ([], runner)
  | .run path exitonprompt =>
    if runner.isIdle then scriptRun world runner.session runner.drains path exitonprompt
    else ([], runner)
  | .clearSession =>
    if runner.isIdle then
      ([], { runner with
        session := { runner.session with scripts := [], exitOnPrompt := true } })
    else ([], runner)
  | .change situation =>
    if runner.isIdle then
      ([], { runner with session := { runner.session with situation := situation } })
    else ([], runner)
  | .wait waiting =>
    if runner.isIdle then
      ([], { runner with session := { runner.session with waiting := waiting } })
    else ([], runner)

/-- What a command line does. -/
structure Reply (ω : Type) where
  situation : Situation ω
  doings : List (Input ω) := []
  status : ℤ

/-- The shell: what it does with a line in a situation. -/
abbrev Commands (ω : Type) := Text → Situation ω → Reply ω

def nextInputs (commands : Commands ω) (runner : Runner ω) : List (Input ω) :=
  match runner.drains with
  | [] => []
  | activation :: _ =>
    match activation.called with
    | none => [.tick]
    | some call =>
      let reply := commands call.statement runner.session.situation
      .change reply.situation :: reply.doings ++ [.back reply.status]

def takeAll (world : World ω) (inputs : List (Input ω)) (runner : Runner ω) :
    List (Event ω) × Runner ω :=
  let ran := StateMachine.run (Runner.take world) inputs runner
  (ran.1.flatMap Prod.snd, ran.2)

def drive (world : World ω) (commands : Commands ω) : ℕ → Runner ω → List (Event ω) × Runner ω
  | 0, runner => ([], runner)
  | moves + 1, runner =>
    let moved := takeAll world (nextInputs commands runner) runner
    let rest := drive world commands moves moved.2
    (moved.1 ++ rest.1, rest.2)

end PdiStack.ScriptRunner
