import PdiStack.Shell.Redirection

/-!
# Output that a pipe drops

A pipe is filled by one command before the next one starts, and takes what fits.  `runPipeline`
never asks it whether something did not.  So a pipeline that returns success has carried all
that its commands wrote exactly when each of them wrote no more than a pipe holds.
-/

namespace PdiStack.PipeLoss

open StringOperations Streams ShellParser CommandLine StateMachine List

variable {σ : Type} (shell : Shell σ)
  (outputs : Text → Option (Text → ShellState σ → List Text × ℤ))
  (line : Text) (parsed : Line) (pipeline : Pipeline)

/-- The pieces that a command writes go through its output descriptor. -/
def writeAll (pieces : List Text) (state : ShellState σ) : ShellState σ :=
  pieces.foldl (fun state piece => writeStdout shell piece state) state

/-- A shell whose commands write their pieces, which may depend on all that they find, and
return a status. -/
def writing : Shell σ :=
  { shell with
    getCommand := fun name => (outputs name).map fun output command state =>
      ((output command state).2, writeAll shell (output command state).1 state) }

/-- The bytes that a command writes when it is executed in a state. -/
def written (index : ℕ) (state : ShellState σ) : Text :=
  if state.session.isNone then
    []
  else
    match parsed.commandText state.expandContext line index with
    | none => []
    | some command => ((outputs (cString command)).map fun output =>
        (output command state).1.flatten).getD []

/-- The state in which a command is executed whose output goes into a pipe, none where its
input cannot be opened. -/
def piped (index : ℕ) (state : ShellState σ) : Option (ShellState σ) :=
  match openInput shell line parsed index
    ((state.closeStdin shell.dispatcher).closeStdout shell.dispatcher) with
  | (true, state, _) => some (openPipe false false state)
  | (false, _, _) => none

/-- A condition on what each command writes that puts its output into a pipe. -/
def AtPipes (wanted : Flow σ → ℕ → ShellState σ → Prop) (state : ShellState σ) : Prop :=
  Allowed (commandStep (writing shell outputs) line parsed pipeline)
    (fun flow index => flow.stopped = false →
      index + 1 ≠ pipeline.commandStart + pipeline.commandCount →
      outputRedirect parsed index = none →
        ∀ state ∈ piped (writing shell outputs) line parsed index flow.state,
          wanted flow index state)
    (List.range' pipeline.commandStart pipeline.commandCount)
    { res := cmdErrorUnset, stopped := false
      state := { state with carry := none, outpipe := none } }

def CarriesAll (state : ShellState σ) : Prop :=
  AtPipes shell outputs line parsed pipeline (fun flow index state =>
    ((commandStep (writing shell outputs) line parsed pipeline flow index).2.state.carry.map
      PipeStream.content).getD [] = written outputs line parsed index state) state

def FitsAll (state : ShellState σ) : Prop :=
  AtPipes shell outputs line parsed pipeline (fun _ index state =>
    (written outputs line parsed index state).length ≤ pipeCapacity) state

theorem content_foldl_write (pieces : List Text) {pipe : PipeStream}
    (hpipe : pipe.content.length ≤ pipeCapacity) :
    (pieces.foldl (fun pipe piece => pipe.write piece) pipe).content =
      (pipe.content ++ pieces.flatten).take pipeCapacity := by
  induction pieces generalizing pipe with
  | nil => simp [take_of_length_le hpipe]
  | cons piece pieces ih =>
    have hwrite : (pipe.write piece).content = (pipe.content ++ piece).take pipeCapacity := by
      rw [take_append, take_of_length_le hpipe]
      rfl
    rw [foldl_cons, ih (by rw [hwrite]; exact length_take_le _ _), hwrite, flatten_cons,
      ← append_assoc]
    generalize pipe.content ++ piece = front
    rw [take_append, take_append, take_take, length_take, min_self,
      show pipeCapacity - min pipeCapacity front.length = pipeCapacity - front.length by omega]

theorem outpipe_writeAll (pieces : List Text) {session : ShellSession} {state : ShellState σ}
    {pipe : PipeStream} (hsession : state.session = some session)
    (hstdout : session.stdout = .outpipe) (hpipe : state.outpipe = some pipe) :
    (writeAll shell pieces state).outpipe =
      some (pieces.foldl (fun pipe piece => pipe.write piece) pipe) := by
  induction pieces generalizing state pipe with
  | nil => exact hpipe
  | cons piece pieces ih =>
    have hnext : writeStdout shell piece state =
        { state with outpipe := some (pipe.write piece) } := by
      simp [writeStdout, hsession, hstdout, hpipe]
    rw [writeAll, foldl_cons, hnext]
    exact ih hsession rfl

theorem writeAll_of_none {pieces : List Text} {state : ShellState σ}
    (hsession : state.session = none) :
    writeAll shell pieces state = state := by
  induction pieces with
  | nil => rfl
  | cons piece pieces ih =>
    rwa [writeAll, foldl_cons, writeStdout, hsession]

/-- The next command finds what the pipe had room for, and a command without a text has written
nothing. -/
theorem carry_execute (index : ℕ) (input : ShellState σ) :
    ((carryOn (execute (writing shell outputs) line parsed index
        (openPipe false false input))).state.carry.map PipeStream.content).getD [] =
      (written outputs line parsed index (openPipe false false input)).take pipeCapacity := by
  have hstdout : ∀ session, (openPipe false false input).session = some session →
      session.stdout = .outpipe := by
    intro session hsession
    obtain ⟨before, -, rfl⟩ := Option.map_eq_some_iff.mp hsession
    rfl
  have hcreated : (openPipe false false input).outpipe = some PipeStream.create := rfl
  generalize openPipe false false input = state at hstdout hcreated ⊢
  rw [execute, written]
  cases parsed.commandText state.expandContext line index with
  | none => simp [carryOn, ShellState.resetStdio]
  | some command =>
    have hlooked : (writing shell outputs).getCommand (cString command) =
        (outputs (cString command)).map fun output command state =>
          ((output command state).2, writeAll shell (output command state).1 state) := rfl
    dsimp only
    rw [hlooked]
    cases outputs (cString command) with
    | none =>
      have hreported : (reportUnknownCommand command state).outpipe = some PipeStream.create := by
        rw [reportUnknownCommand]
        split <;> exact hcreated
      simp [carryOn, hreported, PipeStream.create]
    | some output =>
      cases hsession : state.session with
      | none =>
        simp [carryOn, writeAll_of_none shell hsession, hcreated, PipeStream.create]
      | some session =>
        have hpipe := outpipe_writeAll shell (output command state).1 hsession
          (hstdout session hsession) hcreated
        simp [carryOn, hpipe, content_foldl_write, PipeStream.create]

/-- A pipeline carries all that its commands write into pipes exactly when it fits. -/
theorem carriesAll_iff (state : ShellState σ) :
    CarriesAll shell outputs line parsed pipeline state ↔
      FitsAll shell outputs line parsed pipeline state := by
  refine allowed_iff_of_invariant (fun _ => True) (fun flow index _ => ?_) (fun _ _ _ _ => trivial)
    _ trivial
  refine imp_congr_right fun hrunning => imp_congr_right fun hmore => imp_congr_right fun hplain =>
    forall_congr' fun state => imp_congr_right fun hpiped => ?_
  obtain ⟨input, rfl, hstep⟩ : ∃ input, state = openPipe false false input ∧
      (commandStep (writing shell outputs) line parsed pipeline flow index).2 =
        carryOn (execute (writing shell outputs) line parsed index state) := by
    rw [piped] at hpiped
    rw [commandStep, if_neg (by simp [hrunning]), runCommand, decide_eq_false hmore]
    split at hpiped
    · rename_i opened sources hopened
      obtain rfl := Option.some.inj hpiped
      refine ⟨opened, rfl, ?_⟩
      rw [hopened, runWithInput, runOpened, hplain]
    · cases hpiped
  dsimp only
  rw [hstep, carry_execute, take_eq_self_iff]

/-- A command that writes one byte more than a pipe holds, and others that write nothing. -/
def sampleOutputs (name : Text) : Option (Text → ShellState TmpFs.TmpfsNodes → List Text × ℤ) :=
  some fun _ _ => (if name = text "w" then [List.replicate (pipeCapacity + 1) 0x61] else [], pdiOk)

theorem overfull_pipe_succeeds :
    (parse (text "w | r")).map (·.pipelines.length) = some 1 ∧
    ∀ parsed ∈ parse (text "w | r"), ∀ pipeline ∈ parsed.pipelines,
      (runPipeline (writing Redirection.sampleShell sampleOutputs) (text "w | r") parsed pipeline
        Redirection.sampleState).2.1 = pdiOk ∧
      ¬ CarriesAll Redirection.sampleShell sampleOutputs (text "w | r") parsed pipeline
        Redirection.sampleState := by
  unfold CarriesAll AtPipes
  decide +kernel

end PdiStack.PipeLoss
