import PdiStack.Shell.ScriptRunner

/-!
# The block structure of scripts

The lines of a well nested script are the writing of a tree of if, while and for blocks,
and the tree has a plain meaning: it says which command lines are run, in which
situation, and which status is the last.  Nothing here knows of flags, stacks or line
numbers.
-/

namespace PdiStack.ScriptStructure

open StringOperations ShellParser CommandLine Environment ScriptRunner

variable {ω : Type}

/-- A script as a tree; every part is followed by what comes after it. -/
inductive Script where
  | done
  | command (statement : Text) (next : Script)
  | ifElse (condition : Text) (first second next : Script)
  | whileDo (condition : Text) (body next : Script)
  | forIn (head : Text) (body next : Script)
deriving DecidableEq, Repr

def Script.depth : Script → ℕ
  | .done => 0
  | .command _ next => next.depth
  | .ifElse _ first second next => max (max first.depth second.depth + 1) next.depth
  | .whileDo _ body next => max (body.depth + 1) next.depth
  | .forIn _ body next => max (body.depth + 1) next.depth

/-- The statements of a script file, one for each line. -/
abbrev Statement := Option (Keyword × Text)

/-- The statements are the writing of a script: well nested, with at most one else for
each if, and with blank lines and comments anywhere. -/
inductive Written : List Statement → Script → Prop
  | done : Written [] .done
  | blank {lines script} (hlines : Written lines script) : Written (none :: lines) script
  | command {lines next} (statement : Text) (hlines : Written lines next) :
      Written (some (.none, statement) :: lines) (.command statement next)
  | ifThen {inner lines first next} (condition end_ : Text) (hfirst : Written inner first)
      (hlines : Written lines next) :
      Written (some (.ifWord, condition) :: inner ++ some (.fiWord, end_) :: lines)
        (.ifElse condition first .done next)
  | ifElse {inner other lines first second next} (condition middle end_ : Text)
      (hfirst : Written inner first) (hsecond : Written other second)
      (hlines : Written lines next) :
      Written
        (some (.ifWord, condition) :: inner ++ some (.elseWord, middle) :: other ++
          some (.fiWord, end_) :: lines)
        (.ifElse condition first second next)
  | whileDo {inner lines body next} (condition end_ : Text) (hbody : Written inner body)
      (hlines : Written lines next) :
      Written (some (.whileWord, condition) :: inner ++ some (.doneWord, end_) :: lines)
        (.whileDo condition body next)
  | forIn {inner lines body next} (head end_ : Text) (hbody : Written inner body)
      (hlines : Written lines next) :
      Written (some (.forWord, head) :: inner ++ some (.doneWord, end_) :: lines)
        (.forIn head body next)

/-- What came of running a part of a script. -/
structure Outcome (ω : Type) where
  events : List (Event ω) := []
  situation : Situation ω
  last : ℤ
deriving DecidableEq

/-- What a part of a script does in a situation, given the last status before it.  There
is no outcome if a loop makes too many passes, or if a block cannot be opened. -/
abbrev Meaning (ω : Type) := Situation ω → ℤ → Option (Outcome ω)

/-- Go on after an outcome. -/
def Outcome.andThen (first : Outcome ω) (next : Meaning ω) : Option (Outcome ω) :=
  (next first.situation first.last).map fun second =>
    { second with events := first.events ++ second.events }

def sequence (first second : Meaning ω) : Meaning ω := fun situation last =>
  (first situation last).bind fun outcome => outcome.andThen second

def lineOutcome (commands : Commands ω) (statement : Text) (situation : Situation ω) : Outcome ω :=
  let reply := commands statement situation
  { events := [.ran statement situation]
    situation := reply.situation.setLastExit reply.status
    last := reply.status }

def conditional (commands : Commands ω) (condition : Text) (holds fails : Meaning ω) : Meaning ω :=
  fun situation _ =>
    if condition = [] then none
    else
      let decided := lineOutcome commands condition situation
      decided.andThen (if decided.last = pdiOk then holds else fails)

def nothing : Meaning ω := fun situation last => some { situation, last }

/-- The passes of a while loop that may evaluate its condition so many times. -/
def whilePasses (commands : Commands ω) (condition : Text) (body : Meaning ω) : ℕ → Meaning ω
  | 0 => fun _ _ => none
  | heads + 1 =>
    conditional commands condition (sequence body (whilePasses commands condition body heads))
      nothing

def bindOutcome (name value : Text) (situation : Situation ω) (last : ℤ) : Outcome ω where
  events := [.bound name value situation]
  situation := { situation with env := Environment.bind situation.env name value }
  last := last

/-- The passes of a for loop from a word of its list on, which is read again at every
pass. -/
def forPasses (world : World ω) (head : Text) (body : Meaning ω) : ℕ → ℕ → Meaning ω
  | 0, _ => fun _ _ => none
  | heads + 1, index => fun situation last =>
    (forHead head).bind fun (name, list) =>
      match (forWords (situation.context world) head list)[index]? with
      | none => some { situation, last }
      | some word =>
        (bindOutcome name (cString word) situation last).andThen
          (sequence body (forPasses world head body heads (index + 1)))

def interpret (world : World ω) (commands : Commands ω) : Script → Meaning ω
  | .done => nothing
  | .command statement next => fun situation _ =>
    (lineOutcome commands statement situation).andThen (interpret world commands next)
  | .ifElse condition first second next =>
    sequence
      (conditional commands condition (interpret world commands first)
        (interpret world commands second))
      (interpret world commands next)
  | .whileDo condition body next =>
    sequence (whilePasses commands condition (interpret world commands body) scriptLoopMax)
      (interpret world commands next)
  | .forIn head body next =>
    sequence (forPasses world head (interpret world commands body) scriptLoopMax 0)
      (interpret world commands next)

theorem andThen_eq_some {first outcome : Outcome ω} {next : Meaning ω}
    (hnext : first.andThen next = some outcome) :
    ∃ second, next first.situation first.last = some second ∧
      outcome = { second with events := first.events ++ second.events } := by
  obtain ⟨second, hsecond, houtcome⟩ := Option.map_eq_some_iff.mp hnext
  exact ⟨second, hsecond, houtcome.symm⟩

theorem sequence_eq_some {first second : Meaning ω} {situation : Situation ω} {last : ℤ}
    {outcome : Outcome ω} (hsequence : sequence first second situation last = some outcome) :
    ∃ before after, first situation last = some before ∧
      second before.situation before.last = some after ∧
      outcome = { after with events := before.events ++ after.events } := by
  obtain ⟨before, hbefore, hafter⟩ := Option.bind_eq_some_iff.mp hsequence
  obtain ⟨after, hsecond, houtcome⟩ := andThen_eq_some hafter
  exact ⟨before, after, hbefore, hsecond, houtcome⟩

theorem conditional_eq_some {commands : Commands ω} {condition : Text} {holds fails : Meaning ω}
    {situation : Situation ω} {last : ℤ} {outcome : Outcome ω}
    (hconditional : conditional commands condition holds fails situation last = some outcome) :
    condition ≠ [] ∧ ∃ branch,
      (if (commands condition situation).status = pdiOk then holds else fails)
          (lineOutcome commands condition situation).situation
          (commands condition situation).status = some branch ∧
        outcome = { branch with events := .ran condition situation :: branch.events } := by
  rw [conditional] at hconditional
  split at hconditional
  · cases hconditional
  · next hcondition =>
      obtain ⟨branch, hbranch, houtcome⟩ := andThen_eq_some hconditional
      exact ⟨hcondition, branch, hbranch, houtcome⟩

end PdiStack.ScriptStructure
