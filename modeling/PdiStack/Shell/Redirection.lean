import PdiStack.Shell.CommandLine
import PdiStack.Storage.TmpFs

/-!
# Redirections without a login

A command checks for itself whether the session is authorized.  A redirection is
opened by the pipeline before its command is looked up, and the file layer decides
by a uid that a session without a login shares with root.  Nothing on the way asks
for the login.

So a line leaves every target alone exactly when it names none that it gets to:
`untouched_iff` is that equivalence, for every line and every session.
-/

namespace PdiStack.Redirection

open StringOperations FileSystemInterface Dispatcher Streams ShellParser CommandLine StateMachine List

variable {σ : Type}

/-- The command's input is not redirected, or to no path, and then its output is
not looked at; otherwise its output is not redirected, or to no path. -/
def Untargeted (line : Text) (parsed : Line) (index : ℕ) (state : ShellState σ) : Prop :=
  match state.carry, parsed.findRedirect index .input with
  | none, some redirect => targetPath line redirect state = []
  | _, _ =>
    ∀ redirect append, outputRedirect parsed index = some (redirect, append) →
      targetPath line redirect state = []

/-- Every command that the pipeline gets to names no target. -/
def UntargetedPipeline (shell : Shell σ) (line : Text) (parsed : Line) (pipeline : Pipeline)
    (state : ShellState σ) : Prop :=
  Allowed (commandStep shell line parsed pipeline)
    (fun flow index => flow.stopped ∨ Untargeted line parsed index flow.state)
    (range' pipeline.commandStart pipeline.commandCount)
    { res := cmdErrorUnset, stopped := false
      state := { state with carry := none, outpipe := none } }

/-- Every command of the pipelines that the line gets to names no target. -/
def UntargetedPipelines (shell : Shell σ) (line : Text) (parsed : Line) (state : ShellState σ) :
    Prop :=
  Allowed (pipelineStep shell line parsed)
    (fun flow pipeline => (flow.stopped ∨ ¬ shouldRun pipeline.join flow.res) ∨
      UntargetedPipeline shell line parsed pipeline flow.state)
    parsed.pipelines { res := cmdErrorNoent, stopped := false, state := state }

/-- The line does not parse, or is one plain command, or every command that it
gets to names no target. -/
def UntargetedLine (shell : Shell σ) (line : Text) (state : ShellState σ) : Prop :=
  match parse line with
  | none => True
  | some parsed =>
    if parsed.isPlain ∧ ¬ expandable (visible line) then True
    else UntargetedPipelines shell line parsed state

/-- Two states in which a redirection names the same path. -/
structure SameNaming (state next : ShellState σ) : Prop where
  getPwd_eq : next.getPwd = state.getPwd
  expandContext_eq : next.expandContext = state.expandContext
  carry_eq : next.carry = state.carry

section

variable {state next third : ShellState σ}

theorem SameNaming.trans (hfirst : SameNaming state next) (hsecond : SameNaming next third) :
    SameNaming state third :=
  ⟨hsecond.getPwd_eq.trans hfirst.getPwd_eq,
    hsecond.expandContext_eq.trans hfirst.expandContext_eq,
    hsecond.carry_eq.trans hfirst.carry_eq⟩

theorem SameNaming.targetPath_eq (hsame : SameNaming state next) (line : Text)
    (redirect : Redirect) : targetPath line redirect next = targetPath line redirect state := by
  unfold targetPath targetText resolveArgPath
  rw [hsame.getPwd_eq, hsame.expandContext_eq]

variable (state) (dispatcher : VfsDispatcher σ)

theorem sameNaming_release {descriptor : Descriptor} :
    SameNaming state (state.release dispatcher descriptor) := by
  cases descriptor <;> exact ⟨rfl, rfl, rfl⟩

theorem sameNaming_pointStdin {descriptor : Descriptor} :
    SameNaming state (state.pointStdin descriptor) := by
  cases hsession : state.session <;>
    constructor <;>
      simp [ShellState.pointStdin, ShellState.getPwd, ShellState.expandContext, hsession]

theorem sameNaming_pointStdout {descriptor : Descriptor} :
    SameNaming state (state.pointStdout descriptor) := by
  cases hsession : state.session <;>
    constructor <;>
      simp [ShellState.pointStdout, ShellState.getPwd, ShellState.expandContext, hsession]

theorem sameNaming_closeStdin : SameNaming state (state.closeStdin dispatcher) := by
  unfold ShellState.closeStdin
  split
  · exact ⟨rfl, rfl, rfl⟩
  · exact (sameNaming_pointStdin state).trans (sameNaming_release _ dispatcher)

theorem sameNaming_closeStdout : SameNaming state (state.closeStdout dispatcher) := by
  unfold ShellState.closeStdout
  split
  · exact ⟨rfl, rfl, rfl⟩
  · exact (sameNaming_pointStdout state).trans (sameNaming_release _ dispatcher)

theorem targetPath_openPipe (isLast redirected : Bool) (line : Text) (redirect : Redirect) :
    targetPath line redirect (openPipe isLast redirected state) =
      targetPath line redirect state := by
  unfold openPipe
  split
  · rfl
  split
  · rfl
  · exact (sameNaming_pointStdout { state with outpipe := some PipeStream.create }).targetPath_eq
      line redirect

end

section

variable (shell : Shell σ)

theorem openSource_touched (path : Text) (state : ShellState σ) :
    (openSource shell path state).2.2 = if path = [] then [] else [.source path] := by
  unfold openSource
  split
  · rfl
  dsimp only
  repeat' split
  all_goals rfl

theorem openRedirect_touched (path : Text) (append : Bool) (state : ShellState σ) :
    (openRedirect shell path append state).2.2 = if path = [] then [] else [.sink path append] := by
  unfold openRedirect
  split
  · rfl
  dsimp only
  split <;> rfl

variable (line : Text) (parsed : Line) (isLast : Bool) (index : ℕ)

theorem runRedirected_touched (outpath : Text) (outcome : Bool × ShellState σ × List Touch) :
    (runRedirected shell line parsed index outpath outcome).1 = outcome.2.2 := by
  obtain ⟨opened, state, sinks⟩ := outcome
  cases opened <;> rfl

/-- The second half of a command asks for its output target, if it names one. -/
theorem runOpened_touched_iff (state : ShellState σ) :
    (runOpened shell line parsed isLast index state).1 = [] ↔
      ∀ redirect append, outputRedirect parsed index = some (redirect, append) →
        targetPath line redirect state = [] := by
  unfold runOpened
  cases outputRedirect parsed index with
  | none => exact iff_of_true rfl nofun
  | some output =>
    obtain ⟨redirect, append⟩ := output
    rw [runRedirected_touched, openRedirect_touched, targetPath_openPipe]
    by_cases hpath : targetPath line redirect state = []
    · refine iff_of_true (if_pos hpath) fun other _ hother => ?_
      cases hother
      exact hpath
    · rw [if_neg hpath]
      exact iff_of_false (cons_ne_nil _ _) fun hall => hpath (hall redirect append rfl)

theorem runWithInput_of_opened (state : ShellState σ) :
    (runWithInput shell line parsed isLast index (true, state, [])).1 =
      (runOpened shell line parsed isLast index state).1 :=
  nil_append _

theorem runWithInput_of_touched {outcome : Bool × ShellState σ × List Touch}
    (htouched : outcome.2.2 ≠ []) :
    (runWithInput shell line parsed isLast index outcome).1 ≠ [] := by
  obtain ⟨opened, state, sources⟩ := outcome
  cases opened with
  | false => exact htouched
  | true => exact append_ne_nil_of_left_ne_nil htouched _

/-- A command asks storage for no target exactly when it names none. -/
theorem runCommand_touched_iff (state : ShellState σ) :
    (runCommand shell line parsed isLast index state).1 = [] ↔
      Untargeted line parsed index state := by
  have hsame := (sameNaming_closeStdin state shell.dispatcher).trans
    (sameNaming_closeStdout (state.closeStdin shell.dispatcher) shell.dispatcher)
  rw [runCommand, Untargeted, openInput, hsame.carry_eq]
  cases state.carry with
  | some pipe =>
    rw [runWithInput_of_opened, runOpened_touched_iff]
    simp [(hsame.trans (sameNaming_pointStdin _)).targetPath_eq]
  | none =>
    cases parsed.findRedirect index .input with
    | none =>
      rw [runWithInput_of_opened, runOpened_touched_iff]
      simp [hsame.targetPath_eq]
    | some redirect =>
      dsimp only
      rw [hsame.targetPath_eq]
      by_cases hpath : targetPath line redirect state = []
      · rw [hpath]
        exact iff_of_true rfl rfl
      · refine iff_of_false (runWithInput_of_touched shell line parsed isLast index ?_) hpath
        rw [openSource_touched, if_neg hpath]
        exact cons_ne_nil _ _

theorem runPipeline_touched_iff (pipeline : Pipeline) (state : ShellState σ) :
    (runPipeline shell line parsed pipeline state).1 = [] ↔
      UntargetedPipeline shell line parsed pipeline state := by
  have hstep : ∀ (flow : Flow σ) (index : ℕ),
      (commandStep shell line parsed pipeline flow index).1 = [] ↔
        (flow.stopped ∨ Untargeted line parsed index flow.state) := by
    intro flow index
    unfold commandStep
    split
    · rename_i hstopped
      exact iff_of_true rfl (.inl hstopped)
    · rename_i hrunning
      rw [runCommand_touched_iff, or_iff_right hrunning]
  exact flatMap_eq_nil_iff.trans (run_answers_iff (· = []) hstep _ _)

theorem pipelineStep_touched_iff (flow : Flow σ) (pipeline : Pipeline) :
    (pipelineStep shell line parsed flow pipeline).1 = [] ↔
      ((flow.stopped ∨ ¬ shouldRun pipeline.join flow.res) ∨
        UntargetedPipeline shell line parsed pipeline flow.state) := by
  unfold pipelineStep
  split
  · rename_i hskipped
    exact iff_of_true rfl (.inl hskipped)
  · rename_i hruns
    rw [or_iff_right hruns, ← runPipeline_touched_iff]
    dsimp only
    split <;> rfl

theorem runPipelines_touched_iff {state : ShellState σ} :
    (runPipelines shell line parsed state).touched = [] ↔
      UntargetedPipelines shell line parsed state :=
  flatMap_eq_nil_iff.trans
    (run_answers_iff (· = []) (pipelineStep_touched_iff shell line parsed) _ _)

/-- A line asks storage for no redirection target exactly when no command that it
gets to names one.  Whether the session is authorized does not matter. -/
theorem untouched_iff (line : Text) (state : ShellState σ) :
    (runLine shell line state).touched = [] ↔ UntargetedLine shell line state := by
  unfold runLine UntargetedLine
  cases parse line with
  | none => exact iff_of_true rfl trivial
  | some parsed =>
    dsimp only
    split
    · exact iff_of_true rfl trivial
    · exact runPipelines_touched_iff shell line parsed

end

/-- A device with one file of root's that nobody else may touch. -/
def sampleDispatcher : VfsDispatcher TmpFs.TmpfsNodes where
  mounts := [{ prefixPath := text "/tmp", backend := 0 }]
  privDepth := 0
  object := fun _ => TmpFs.fileSystem id (fun nodes _ => nodes)
    { uid := 0, gid := 0, umask := fileUmaskDefault } 0

/-- What a command that needs a login answers without one. -/
def refusing (run : Text → ShellState σ → ShellState σ) (_ : Text) (state : ShellState σ) :
    ℤ × ShellState σ :=
  (cmdErrorPerm, run (ShellState.newline ++ text "CmdErr : " ++ int32ToString cmdErrorPerm) state)

/-- A shell whose one command is refused, with the refusal written to its output. -/
def sampleShell : Shell TmpFs.TmpfsNodes :=
  let silent : Shell TmpFs.TmpfsNodes :=
    { dispatcher := sampleDispatcher, getCommand := fun _ => none
      disconnectTerminal := fun state => (true, state) }
  { silent with
    getCommand := fun command =>
      if (text "ls").isPrefixOf command then some (refusing (writeStdout silent)) else none }

def sampleSession : ShellSession where
  isAuthorized := false
  uid := 0
  gid := 0
  umask := fileUmaskDefault
  cwd := text "/"
  lastExit := pdiOk
  stdin := .terminal
  stdout := .terminal

def sampleState : ShellState TmpFs.TmpfsNodes where
  storage :=
    [{ path := text "secret", data := text "key", type := .reg, perms := 0o600, uid := 0, gid := 0
       ctime := 0, mtime := 0 }]
  session := some sampleSession
  environment := fun _ => []
  devicePwd := text "/"
  terminal := []
  carry := none
  outpipe := none

def secretOf (nodes : TmpFs.TmpfsNodes) : Option Text :=
  (TmpFs.findNode nodes (text "secret")).map TmpFs.TmpfsNode.data

/-- The session is not authorized and the command is refused.  The file it names
is overwritten with the refusal all the same, and a file it names as its input is
opened. -/
theorem refused_command_overwrites :
    sampleSession.isAuthorized = false ∧ secretOf sampleState.storage = some (text "key") ∧
      (runLine sampleShell (text "ls > /tmp/secret") sampleState).res = cmdErrorPerm ∧
      secretOf (runLine sampleShell (text "ls > /tmp/secret") sampleState).state.storage =
        some (ShellState.newline ++ text "CmdErr : -3606") ∧
      (runLine sampleShell (text "nosuch < /tmp/secret") sampleState).touched =
        [.source (text "/tmp/secret")] := by
  decide +kernel

end PdiStack.Redirection
