import PdiStack.Shell.ScriptStructure

/-!
# Scripts follow their block structure

The runner has no tree.  It keeps a stack of flags and a pass count that the end of a
loop hands to its head, and it goes over the same lines again.  Driven over the written
form of a tree, it does what the tree means.

The proof composes stretches of lines.  A stretch is passed over in silence, or it
performs a meaning, and both compose as meanings do.
-/

namespace PdiStack.ScriptRefinement

open StringOperations ShellParser CommandLine Environment ScriptRunner ScriptStructure List Option

variable {ω : Type}

/-- The runner comes from one state to another in some moves, showing these events. -/
def Leads (world : World ω) (commands : Commands ω) (runner : Runner ω) (events : List (Event ω))
    (next : Runner ω) : Prop :=
  ∃ moves, drive world commands moves runner = (events, next)

theorem drive_add (world : World ω) (commands : Commands ω) (first second : ℕ)
    (runner : Runner ω) :
    drive world commands (first + second) runner =
      ((drive world commands first runner).1 ++
          (drive world commands second (drive world commands first runner).2).1,
        (drive world commands second (drive world commands first runner).2).2) := by
  induction first generalizing runner with
  | zero => rw [zero_add]; rfl
  | succ first ih =>
    rw [Nat.succ_add]
    simp [drive, ih, append_assoc]

section Drive

variable {world : World ω} {commands : Commands ω}

theorem Leads.refl {runner : Runner ω} : Leads world commands runner [] runner := ⟨0, rfl⟩

variable {word : Keyword} {meaning : Meaning ω} {middle start : Runner ω} {block : ScriptBlock}

theorem Leads.trans {finish : Runner ω} {first second : List (Event ω)}
    (hfirst : Leads world commands start first middle)
    (hsecond : Leads world commands middle second finish) :
    Leads world commands start (first ++ second) finish := by
  obtain ⟨before, hbefore⟩ := hfirst
  obtain ⟨after, hafter⟩ := hsecond
  refine ⟨before + after, ?_⟩
  rw [drive_add, hbefore, hafter]

theorem Leads.silent {finish : Runner ω} {events : List (Event ω)}
    (hfirst : Leads world commands start [] middle)
    (hsecond : Leads world commands middle events finish) :
    Leads world commands start events finish := hfirst.trans hsecond

theorem Leads.silent_after {finish : Runner ω} {events : List (Event ω)}
    (hfirst : Leads world commands start events middle)
    (hsecond : Leads world commands middle [] finish) :
    Leads world commands start events finish := by
  have hboth := hfirst.trans hsecond
  rwa [append_nil] at hboth

theorem leads_move {runner : Runner ω} (inputs : List (Input ω)) {moved : List (Event ω) × Runner ω}
    (hinputs : nextInputs commands runner = inputs)
    (hmoved : takeAll world inputs runner = moved) :
    Leads world commands runner moved.1 moved.2 := by
  refine ⟨1, ?_⟩
  simp [drive, hinputs, hmoved, append_nil]

def FileHolds (world : World ω) (path : Text) (lines : List Text) (rest : ω) : Prop :=
  ∀ number, world.readLineInFile path number rest = match lines[number]? with
    | some line => .ok line
    | none => .error .notFound

/-- A line that does nothing to the runner and leaves the file as it is, and a binding
that the environment has room for. -/
def Ordinary (world : World ω) (commands : Commands ω) (path : Text) (lines : List Text) :
    Event ω → Prop
  | .ran statement situation =>
    (commands statement situation).doings = [] ∧
      FileHolds world path lines (commands statement situation).situation.rest
  | .bound name _ situation => hasRoom situation.env name = true
  | _ => True

@[simp]
theorem rest_setLastExit (situation : Situation ω) (status : ℤ) :
    (situation.setLastExit status).rest = situation.rest := by
  rw [Situation.setLastExit]
  split <;> rfl

variable (path : Text) (below : List ScriptFrame) (exitOnPrompt : Bool) (outer : List Activation)

def between (line loopPasses : ℕ) (blocks : List ScriptBlock) (situation : Situation ω) (last : ℤ) :
    Runner ω where
  session :=
    { situation, scripts := { path, line, loopPasses, blocks } :: below, exitOnPrompt }
  drains := { floor := below.length, last } :: outer

structure Setting (ω : Type) where
  world : World ω
  commands : Commands ω
  path : Text
  lines : List Text
  below : List ScriptFrame
  exitOnPrompt : Bool
  outer : List Activation

abbrev Setting.between (setting : Setting ω) :
    ℕ → ℕ → List ScriptBlock → Situation ω → ℤ → Runner ω :=
  ScriptRefinement.between setting.path setting.below setting.exitOnPrompt setting.outer

abbrev Setting.frame (setting : Setting ω) (line loopPasses : ℕ) (blocks : List ScriptBlock) :
    ScriptFrame := { path := setting.path, line, loopPasses, blocks }

/-- The script's file is as it was. -/
abbrev Setting.Holds (setting : Setting ω) (situation : Situation ω) : Prop :=
  FileHolds setting.world setting.path setting.lines situation.rest

abbrev Setting.statements (setting : Setting ω) : List Statement := setting.lines.map readStatement

/-- The runner comes from one state to another while the script runs. -/
abbrev Setting.Leads (setting : Setting ω) :
    Runner ω → List (Event ω) → Runner ω → Prop :=
  ScriptRefinement.Leads setting.world setting.commands

variable {setting : Setting ω} {line loopPasses line' loopPasses' : ℕ}
  {blocks blocks' : List ScriptBlock} {situation : Situation ω} {last : ℤ}

/-- Where the innermost script has a line, one move reads and obeys it. -/
theorem leads_readAndObey {moved : List (Event ω) × Runner ω}
    (hmoved : readAndObey setting.world (setting.between line loopPasses blocks situation last).session
      { floor := setting.below.length, last } setting.outer (setting.frame line loopPasses blocks)
      setting.below = moved) :
    setting.Leads (setting.between line loopPasses blocks situation last) moved.1 moved.2 := by
  have htick : (setting.between line loopPasses blocks situation last).take setting.world .tick =
      moved := by
    have hfloor : ¬ setting.below.length + 1 ≤ setting.below.length := by omega
    exact (if_neg hfloor).trans hmoved
  refine leads_move [.tick] rfl ?_
  simp [takeAll, StateMachine.run_cons, StateMachine.run_nil, htick, flatMap_cons, flatMap_nil,
    append_nil]

section

variable (hfile : setting.Holds situation)
include hfile

theorem Setting.Holds.read {statement : Statement}
    (hline : setting.statements[line]? = some statement) :
    ∃ text, setting.world.readLineInFile setting.path line situation.rest = .ok text ∧
      readStatement text = statement := by
  rw [getElem?_map] at hline
  obtain ⟨text, htext, hstatement⟩ := map_eq_some_iff.mp hline
  refine ⟨text, ?_, hstatement⟩
  rw [hfile line, htext]

theorem leads_blank (hline : setting.statements[line]? = some none) :
    setting.Leads (setting.between line loopPasses blocks situation last) []
      (setting.between (line + 1) loopPasses blocks situation last) := by
  obtain ⟨text, hread, hstatement⟩ := Setting.Holds.read hfile hline
  refine @leads_readAndObey _ _ _ _ _ _ _ (_, _) ?_
  simp [readAndObey, between, hread, hstatement]

theorem leads_goes {rest : Text} (hline : setting.statements[line]? = some (some (word, rest)))
    (hobey : obey (situation.context setting.world) (setting.frame (line + 1) loopPasses blocks) word
      rest = .goes (setting.frame line' loopPasses' blocks') none) :
    setting.Leads (setting.between line loopPasses blocks situation last) []
      (setting.between line' loopPasses' blocks' situation last) := by
  obtain ⟨text, hread, hstatement⟩ := Setting.Holds.read hfile hline
  refine @leads_readAndObey _ _ _ _ _ _ _ (_, _) ?_
  simp [readAndObey, between, hread, hstatement, hobey, bindingEvents, Session.bind]

theorem leads_binds {rest name value : Text}
    (hline : setting.statements[line]? = some (some (.forWord, rest)))
    (hobey : obey (situation.context setting.world) (setting.frame (line + 1) loopPasses blocks)
      .forWord rest = .goes (setting.frame (line + 1) loopPasses' blocks') (some (name, value)))
    (hset : (Environment.set situation.env name value).2 = Environment.bind situation.env name value) :
    setting.Leads (setting.between line loopPasses blocks situation last)
      (bindOutcome name value situation last).events
      (setting.between (line + 1) loopPasses' blocks' (bindOutcome name value situation last).situation
        last) := by
  obtain ⟨text, hread, hstatement⟩ := Setting.Holds.read hfile hline
  refine @leads_readAndObey _ _ _ _ _ _ _ (_, _) ?_
  simp [readAndObey, between, hread, hstatement, hobey, bindingEvents, Session.bind, Situation.set,
    hset, bindOutcome]

/-- A statement that the shell runs, and what is left of it: the flags of a condition. -/
theorem leads_calls {rest statement : Text} {decided : List ScriptBlock}
    (hline : setting.statements[line]? = some (some (word, rest)))
    (hobey : obey (situation.context setting.world) (setting.frame (line + 1) loopPasses blocks) word
      rest = .calls (setting.frame line' loopPasses' blocks') statement)
    (hordinary : Ordinary setting.world setting.commands setting.path setting.lines
      (.ran statement situation))
    (hdecided : if word.isCondition then
        decideBlock (setting.commands statement situation).status
            (setting.frame line' loopPasses' blocks' :: setting.below) =
          some (setting.frame line' loopPasses' decided :: setting.below)
      else decided = blocks') :
    setting.Leads (setting.between line loopPasses blocks situation last)
      [.ran statement situation]
      (setting.between line' loopPasses' decided
        (lineOutcome setting.commands statement situation).situation
        (setting.commands statement situation).status) := by
  obtain ⟨text, hread, hstatement⟩ := Setting.Holds.read hfile hline
  refine Leads.silent_after
    (@leads_readAndObey _ _ _ _ _ _ _ ([.ran statement situation], _) (by
      simp only [readAndObey, between, hread, hstatement, hobey]
      rfl)) ?_
  let reply := setting.commands statement situation
  refine @leads_move _ _ _ _ (.change reply.situation :: reply.doings ++ [.back reply.status])
    ([], _) rfl ?_
  simp only [reply, takeAll, hordinary.1, cons_append, nil_append, StateMachine.run_cons,
    StateMachine.run_nil, Runner.take, Runner.isIdle, isSome_some, if_true, lineRan]
  cases hcondition : word.isCondition with
  | true =>
    rw [hcondition, if_pos rfl] at hdecided
    simp [hdecided, goOn, lineOutcome, Bool.false_eq_true, flatMap_cons, flatMap_nil, append_nil]
  | false =>
    rw [hcondition, if_neg (by decide)] at hdecided
    simp [goOn, lineOutcome, hdecided, Bool.false_eq_true, flatMap_cons, flatMap_nil, append_nil]

end

/-! ## Stretches of a script -/

def Sits (statements : List Statement) : ℕ → List Statement → Prop
  | _, [] => True
  | line, statement :: piece => statements[line]? = some statement ∧ Sits statements (line + 1) piece

theorem sits_append {statements : List Statement} (first second : List Statement) (line : ℕ) :
    Sits statements line (first ++ second) ↔
      Sits statements line first ∧ Sits statements (line + first.length) second := by
  induction first generalizing line with
  | nil => simp [Sits]
  | cons statement first ih =>
    rw [cons_append, Sits, Sits, ih, and_assoc, length_cons, add_right_comm line, add_assoc line]

theorem sits_self (before statements : List Statement) :
    Sits (before ++ statements) before.length statements := by
  induction statements generalizing before with
  | nil => trivial
  | cons statement statements ih =>
    refine ⟨by simp, ?_⟩
    have hrest := ih (before ++ [statement])
    rwa [append_assoc, length_append] at hrest

def Setting.AllOrdinary (setting : Setting ω) (events : List (Event ω)) : Prop :=
  ∀ event ∈ events, Ordinary setting.world setting.commands setting.path setting.lines event

variable (setting)

/-- In every situation the runner comes from one place to another and shows nothing. -/
def Passes (line loopPasses : ℕ) (blocks : List ScriptBlock) (line' loopPasses' : ℕ)
    (blocks' : List ScriptBlock) : Prop :=
  ∀ (situation : Situation ω) (last : ℤ), setting.Holds situation →
    Leads setting.world setting.commands (setting.between line loopPasses blocks situation last) []
      (setting.between line' loopPasses' blocks' situation last)

/-- Between two places the runner does what a part of a script means, as long as that
consists of ordinary lines and bindings. -/
def Performs (meaning : Meaning ω) (line loopPasses : ℕ) (blocks : List ScriptBlock) (line' : ℕ)
    (blocks' : List ScriptBlock) : Prop :=
  ∀ (situation : Situation ω) (last : ℤ) (outcome : Outcome ω),
    setting.Holds situation → meaning situation last = some outcome →
    setting.AllOrdinary outcome.events →
    Leads setting.world setting.commands (setting.between line loopPasses blocks situation last)
        outcome.events (setting.between line' 0 blocks' outcome.situation outcome.last) ∧
      setting.Holds outcome.situation

variable {setting} {line'' loopPasses'' : ℕ} {blocks'' : List ScriptBlock}

section

variable (hfirst : Passes setting line loopPasses blocks line' loopPasses' blocks')
include hfirst

theorem Passes.trans
    (hsecond : Passes setting line' loopPasses' blocks' line'' loopPasses'' blocks'') :
    Passes setting line loopPasses blocks line'' loopPasses'' blocks'' :=
  fun _ _ hfile => (hfirst _ _ hfile).silent (hsecond _ _ hfile)

theorem Passes.performs
    (hsecond : Performs setting meaning line' loopPasses' blocks' line'' blocks'') :
    Performs setting meaning line loopPasses blocks line'' blocks'' := by
  intro situation last outcome hfile hmeaning hordinary
  obtain ⟨hleads, hafter⟩ := hsecond _ _ _ hfile hmeaning hordinary
  exact ⟨(hfirst _ _ hfile).silent hleads, hafter⟩

end

theorem Performs.passes (hfirst : Performs setting meaning line loopPasses blocks line' blocks')
    (hsecond : Passes setting line' 0 blocks' line'' 0 blocks'') :
    Performs setting meaning line loopPasses blocks line'' blocks'' := by
  intro situation last outcome hfile hmeaning hordinary
  obtain ⟨hleads, hafter⟩ := hfirst _ _ _ hfile hmeaning hordinary
  exact ⟨hleads.silent_after (hsecond _ _ hafter), hafter⟩

theorem Passes.performs_nothing
    (hpasses : Passes setting line loopPasses blocks line' 0 blocks') :
    Performs setting nothing line loopPasses blocks line' blocks' := by
  intro situation last outcome hfile hmeaning _
  cases hmeaning
  exact ⟨hpasses _ _ hfile, hfile⟩

theorem Performs.sequence {first second : Meaning ω}
    (hfirst : Performs setting first line loopPasses blocks line' blocks')
    (hsecond : Performs setting second line' 0 blocks' line'' blocks'') :
    Performs setting
      (ScriptStructure.sequence first second) line loopPasses blocks line'' blocks'' := by
  intro situation last outcome hfile hmeaning hordinary
  obtain ⟨before, after, hbefore, hafter, rfl⟩ := sequence_eq_some hmeaning
  obtain ⟨hleads, hmiddle⟩ := hfirst _ _ _ hfile hbefore
    fun event hevent => hordinary event (mem_append_left _ hevent)
  obtain ⟨hleads', hfinish⟩ := hsecond _ _ _ hmiddle hafter
    fun event hevent => hordinary event (mem_append_right _ hevent)
  exact ⟨hleads.trans hleads', hfinish⟩

variable {rest : Text}

theorem performs_line {statement : Text} (opened : List ScriptBlock)
    (decided : ℤ → List ScriptBlock) (next : ℤ → Meaning ω)
    (hline : setting.statements[line]? = some (some (word, rest)))
    (hobey : ∀ context, obey context (setting.frame (line + 1) loopPasses blocks) word rest =
      .calls (setting.frame (line + 1) 0 opened) statement)
    (hdecided : ∀ status, if word.isCondition then
        decideBlock status (setting.frame (line + 1) 0 opened :: setting.below) =
          some (setting.frame (line + 1) 0 (decided status) :: setting.below)
      else decided status = opened)
    (hmeaning : ∀ situation last, meaning situation last =
      (lineOutcome setting.commands statement situation).andThen
        (next (setting.commands statement situation).status))
    (hnext : ∀ status, Performs setting (next status) (line + 1) 0 (decided status) line' blocks') :
    Performs setting meaning line loopPasses blocks line' blocks' := by
  intro situation last outcome hfile houtcome hordinary
  rw [hmeaning] at houtcome
  obtain ⟨after, hafter, rfl⟩ := andThen_eq_some houtcome
  have hran := hordinary _ (mem_append_left _ (mem_singleton.mpr rfl))
  have hfile' : setting.Holds (lineOutcome setting.commands statement situation).situation := by
    rw [Setting.Holds, lineOutcome, rest_setLastExit]
    exact hran.2
  obtain ⟨hleads, hfinish⟩ := hnext _ _ _ _ hfile' hafter
    fun event hevent => hordinary event (mem_append_right _ hevent)
  exact ⟨(leads_calls hfile hline (hobey _) hran (hdecided _)).trans hleads, hfinish⟩

/-! ## Lines that open and close blocks -/

/-- Some block of a script is passed over. -/
abbrev Skips (blocks : List ScriptBlock) : Prop := blocks.any ScriptBlock.skipping = true

/-- Nothing is passed over. -/
abbrev Runs (blocks : List ScriptBlock) : Prop := blocks.any ScriptBlock.skipping = false

def passedOver (word : Keyword) : ScriptBlock :=
  { kind := blockKindOf word, taken := true, skipping := true }

theorem obey_of_skips {context : ExpandContext} {word : Keyword} {rest : Text}
    (hskips : Skips blocks) :
    obey context (setting.frame line loopPasses blocks) word rest =
      skipStatement (setting.frame line loopPasses blocks) word :=
  obey_of_skipping context word rest hskips

theorem obey_of_runs (context : ExpandContext) (word : Keyword) (rest : Text)
    (hruns : Runs blocks) :
    obey context (setting.frame line loopPasses blocks) word rest = match word with
      | .fiWord => closeBlock true (setting.frame line loopPasses blocks)
      | .elseWord => turnToElse (setting.frame line loopPasses blocks)
      | .doneWord => nextPass (setting.frame line loopPasses blocks)
      | .forWord => openForBlock context (setting.frame line loopPasses blocks) rest
      | .ifWord | .whileWord => openCondition (setting.frame line loopPasses blocks) word rest
      | .none => .calls (setting.frame line loopPasses blocks) rest :=
  obey_of_not_skipping context word rest hruns

theorem passes_of_obey (hline : setting.statements[line]? = some (some (word, rest)))
    (hobey : ∀ context, obey context (setting.frame (line + 1) loopPasses blocks) word rest =
      .goes (setting.frame line' loopPasses' blocks') none) :
    Passes setting line loopPasses blocks line' loopPasses' blocks' :=
  fun _ _ hfile => leads_goes hfile hline (hobey _)

theorem passes_open (hopens : word = .ifWord ∨ word = .whileWord ∨ word = .forWord)
    (hline : setting.statements[line]? = some (some (word, rest))) (hskips : Skips blocks)
    (hroom : blocks.length < scriptBlockMax) :
    Passes setting line loopPasses blocks (line + 1) loopPasses (passedOver word :: blocks) := by
  refine passes_of_obey hline fun context => ?_
  have hnotfull : ¬ scriptBlockMax ≤ blocks.length := by omega
  rw [obey_of_skips hskips]
  rcases hopens with rfl | rfl | rfl <;> exact if_neg hnotfull

theorem passes_fi (hline : setting.statements[line]? = some (some (.fiWord, rest)))
    (hkind : block.kind = .ifBlock) :
    Passes setting line loopPasses (block :: blocks) (line + 1) loopPasses blocks := by
  refine passes_of_obey hline fun context => ?_
  have hclose : closeBlock true (setting.frame (line + 1) loopPasses (block :: blocks)) =
      .goes (setting.frame (line + 1) loopPasses blocks) none := by
    simp [closeBlock, hkind]
  by_cases hskips : Skips (block :: blocks)
  · rw [obey_of_skips hskips]
    exact hclose
  · rw [obey_of_runs _ _ _ (Bool.eq_false_iff.mpr hskips)]
    exact hclose

section

variable (hline : setting.statements[line]? = some (some (.doneWord, rest)))
  (hkind : block.kind ≠ .ifBlock)

include hline hkind

theorem passes_done (hskips : Skips (block :: blocks)) :
    Passes setting line loopPasses (block :: blocks) (line + 1) loopPasses blocks := by
  refine passes_of_obey hline fun context => ?_
  rw [obey_of_skips hskips]
  simp [skipStatement, closeBlock, hkind]

theorem passes_again (hruns : Runs (block :: blocks)) (hpasses : block.passes + 1 < scriptLoopMax) :
    Passes setting line loopPasses (block :: blocks) block.head (block.passes + 1) blocks := by
  refine passes_of_obey hline fun context => ?_
  rw [obey_of_runs _ _ _ hruns]
  have hfew : ¬ scriptLoopMax ≤ block.passes + 1 := by omega
  simp [nextPass, hkind, hfew]

end

section

variable (hline : setting.statements[line]? = some (some (.elseWord, rest)))

include hline

theorem passes_else_over (hkind : blockKindOf word = .ifBlock) :
    Passes setting line loopPasses (passedOver word :: blocks) (line + 1) loopPasses
      (passedOver word :: blocks) := by
  refine passes_of_obey hline fun context => ?_
  rw [obey_of_skips rfl]
  simp [skipStatement, passedOver, hkind]

/-- The else line after the lines of a block that was taken. -/
theorem passes_else_taken (hkind : block.kind = .ifBlock) (htaken : block.taken = true)
    (hruns : Runs (block :: blocks)) :
    Passes setting line loopPasses (block :: blocks) (line + 1) loopPasses
      ({ block with skipping := true } :: blocks) := by
  refine passes_of_obey hline fun context => ?_
  rw [obey_of_runs _ _ _ hruns]
  simp [turnToElse, hkind, htaken]

/-- The else line after the lines of a block that was not taken. -/
theorem passes_else_instead (hkind : block.kind = .ifBlock) (htaken : block.taken = false)
    (hskipping : block.skipping = true) :
    Passes setting line loopPasses (block :: blocks) (line + 1) loopPasses
      ({ block with skipping := false, taken := true } :: blocks) := by
  refine passes_of_obey hline fun context => ?_
  rw [obey_of_skips (by rw [Skips, any_cons, hskipping, Bool.true_or])]
  simp [skipStatement, hkind, htaken, hskipping]

end

/-- Lines that are passed over leave everything as it was but their place. -/
theorem passes_written {piece : List Statement} {script : Script} (hwritten : Written piece script)
    (hsits : Sits setting.statements line piece) (hfinish : line' = line + piece.length)
    (hskips : Skips blocks) (hdepth : blocks.length + script.depth ≤ scriptBlockMax) :
    Passes setting line loopPasses blocks line' loopPasses blocks := by
  induction hwritten generalizing line line' blocks with
  | done =>
    subst hfinish
    exact fun _ _ _ => Leads.refl
  | blank _ ih =>
    have hblank : Passes setting line loopPasses blocks (line + 1) loopPasses blocks :=
      fun _ _ hfile => leads_blank hfile hsits.1
    exact hblank.trans (ih hsits.2 (by rw [hfinish, length_cons]; omega) hskips hdepth)
  | command statement _ ih =>
    refine (passes_of_obey hsits.1 fun context => obey_of_skips hskips).trans ?_
    exact ih hsits.2 (by rw [hfinish, length_cons]; omega) hskips hdepth
  | ifThen condition end_ _ _ ihfirst ihnext =>
    rw [Script.depth] at hdepth
    rw [cons_append, Sits, sits_append] at hsits
    obtain ⟨hopen, hinner, hclose, hafter⟩ := hsits
    refine (passes_open (.inl rfl) hopen hskips (by omega)).trans ?_
    refine (ihfirst hinner rfl rfl (by rw [length_cons]; omega)).trans ?_
    refine (passes_fi hclose rfl).trans ?_
    refine ihnext hafter ?_ hskips (by omega)
    rw [hfinish, length_append, length_cons, length_cons]
    omega
  | ifElse condition middle end_ _ _ _ ihfirst ihsecond ihnext =>
    rw [Script.depth] at hdepth
    rw [append_assoc, cons_append, cons_append, Sits, sits_append, Sits, sits_append] at hsits
    obtain ⟨hopen, hinner, helse, hother, hclose, hafter⟩ := hsits
    refine (passes_open (.inl rfl) hopen hskips (by omega)).trans ?_
    refine (ihfirst hinner rfl rfl (by rw [length_cons]; omega)).trans ?_
    refine (passes_else_over helse rfl).trans ?_
    refine (ihsecond hother rfl rfl (by rw [length_cons]; omega)).trans ?_
    refine (passes_fi hclose rfl).trans ?_
    refine ihnext hafter ?_ hskips (by omega)
    simp only [hfinish, length_append, length_cons]
    omega
  | whileDo head end_ _ _ ihbody ihnext | forIn head end_ _ _ ihbody ihnext =>
    rw [Script.depth] at hdepth
    rw [cons_append, Sits, sits_append] at hsits
    obtain ⟨hopen, hinner, hclose, hafter⟩ := hsits
    refine (passes_open (by decide) hopen hskips (by omega)).trans ?_
    refine (ihbody hinner rfl rfl (by rw [length_cons]; omega)).trans ?_
    refine (passes_done hclose (by decide) rfl).trans ?_
    refine ihnext hafter ?_ hskips (by omega)
    rw [hfinish, length_append, length_cons, length_cons]
    omega

/-! ## Conditions and loops -/

def openedBy (word : Keyword) (line passes : ℕ) : ScriptBlock :=
  { kind := blockKindOf word, head := line, passes }

/-- The block of a condition that held. -/
def chosen (word : Keyword) (line passes : ℕ) : ScriptBlock :=
  { kind := blockKindOf word, taken := true, head := line, passes }

def refused (word : Keyword) (line passes : ℕ) : ScriptBlock :=
  { kind := blockKindOf word, taken := decide (word = .whileWord), skipping := true, head := line
    passes }

theorem openCondition_calls {word : Keyword} {condition : Text}
    (hroom : blocks.length < scriptBlockMax) (hcondition : condition ≠ []) :
    openCondition (setting.frame (line + 1) loopPasses blocks) word condition =
      .calls (setting.frame (line + 1) 0 (openedBy word line loopPasses :: blocks)) condition := by
  have hopens : ¬ (scriptBlockMax ≤ blocks.length ∨ condition = []) := by
    rintro (hfull | hempty)
    · omega
    · exact hcondition hempty
  exact if_neg hopens

/-- A condition, with what its status decides for the lines that follow. -/
theorem performs_conditional {condition : Text} {holds fails : Meaning ω}
    (hword : word = .ifWord ∨ word = .whileWord)
    (hline : setting.statements[line]? = some (some (word, condition))) (hruns : Runs blocks)
    (hroom : blocks.length < scriptBlockMax)
    (hholds : Performs setting holds (line + 1) 0 (chosen word line loopPasses :: blocks) line'
      blocks')
    (hfails : Performs setting fails (line + 1) 0 (refused word line loopPasses :: blocks) line'
      blocks') :
    Performs setting (conditional setting.commands condition holds fails) line loopPasses blocks
      line' blocks' := by
  by_cases hcondition : condition = []
  · intro situation last outcome _ hmeaning _
    exact absurd hcondition (conditional_eq_some hmeaning).1
  refine performs_line
    (openedBy word line loopPasses :: blocks)
    (fun status => (if status = pdiOk then chosen word line loopPasses
      else refused word line loopPasses) :: blocks)
    (fun status => if status = pdiOk then holds else fails)
    hline (fun context => ?_) (fun status => ?_)
    (fun situation last => if_neg hcondition) (fun status => ?_)
  · rw [obey_of_runs _ _ _ hruns]
    rcases hword with rfl | rfl <;> exact openCondition_calls hroom hcondition
  · by_cases hstatus : status = pdiOk <;> rcases hword with rfl | rfl <;>
      simp [Keyword.isCondition, decideBlock, ScriptBlock.decided, hstatus, openedBy, chosen,
        refused, blockKindOf]
  · by_cases hstatus : status = pdiOk
    · rw [if_pos hstatus, if_pos hstatus]
      exact hholds
    · rw [if_neg hstatus, if_neg hstatus]
      exact hfails

section Loop

variable {rest end_ : Text} {finish : ℕ} {body : Meaning ω}

/-- The lines between the head and the end of a loop: passed over in a block that is, and
otherwise doing what the body means. -/
structure LoopBody (setting : Setting ω) (blocks : List ScriptBlock) (body : Meaning ω)
    (line finish : ℕ) (end_ : Text) : Prop where
  passed : ∀ block, block.skipping = true →
    Passes setting (line + 1) 0 (block :: blocks) finish 0 (block :: blocks)
  performed : ∀ block, block.skipping = false →
    Performs setting body (line + 1) 0 (block :: blocks) finish (block :: blocks)
  ends : setting.statements[finish]? = some (some (.doneWord, end_))

/-- The body of a loop and the passes after it, from a block that has room for one. -/
theorem LoopBody.again {next : ℕ → Meaning ω} {heads : ℕ}
    (hloop : LoopBody setting blocks body line finish end_) (hkind : block.kind ≠ .ifBlock)
    (hruns : Runs (block :: blocks)) (hskipping : block.skipping = false)
    (hhead : block.head = line) (hnone : ∀ situation last, next 0 situation last = none)
    (hheads : heads + 1 + block.passes = scriptLoopMax)
    (hnext : 0 < heads →
      Performs setting (next heads) line (block.passes + 1) blocks (finish + 1) blocks) :
    Performs setting (ScriptStructure.sequence body (next heads)) (line + 1) 0 (block :: blocks)
      (finish + 1) blocks := by
  cases heads with
  | zero =>
    intro situation last outcome _ hmeaning _
    obtain ⟨before, after, -, hafter, -⟩ := sequence_eq_some hmeaning
    rw [hnone] at hafter
    cases hafter
  | succ heads =>
    have hpasses : Passes setting finish 0 (block :: blocks) line (block.passes + 1) blocks :=
      hhead ▸ passes_again hloop.ends hkind hruns (by omega)
    refine (hloop.performed block hskipping).sequence ?_
    exact hpasses.performs (hnext (Nat.succ_pos heads))

theorem performs_whilePasses (hloop : LoopBody setting blocks body line finish end_)
    (hline : setting.statements[line]? = some (some (.whileWord, rest))) (hruns : Runs blocks)
    (hroom : blocks.length < scriptBlockMax) (heads index : ℕ)
    (hheads : heads + index = scriptLoopMax) :
    Performs setting (whilePasses setting.commands rest body heads) line index blocks (finish + 1)
      blocks := by
  induction heads generalizing index with
  | zero =>
    intro situation last outcome _ hmeaning _
    cases hmeaning
  | succ heads ih =>
    refine performs_conditional (.inr rfl) hline hruns hroom ?_ (Passes.performs_nothing ?_)
    · exact @LoopBody.again _ _ _ _ _ _ _ _ (whilePasses setting.commands rest body) heads hloop
        (by simp [chosen, blockKindOf]) hruns rfl rfl (fun _ _ => rfl) hheads
        fun _ => ih _ (by dsimp only [chosen]; omega)
    · exact (hloop.passed _ rfl).trans (passes_done hloop.ends (by simp [refused, blockKindOf]) rfl)

def forBlock (line passes : ℕ) (skipping : Bool) : ScriptBlock :=
  { kind := .forBlock, head := line, passes, taken := true, skipping }

theorem forHead_name {name : Text} {list : List Token} (hhead : forHead rest = some (name, list)) :
    isValidName name = true ∧ isDerived name = false := by
  rw [forHead] at hhead
  split at hhead
  · dsimp only at hhead
    split at hhead
    · next hnamed =>
        cases hhead
        exact ⟨hnamed.2.2.2.1, hnamed.2.2.2.2.1⟩
    · cases hhead
  · cases hhead

theorem openForBlock_goes {name : Text} {list : List Token} (context : ExpandContext)
    (hhead : forHead rest = some (name, list)) (hroom : blocks.length < scriptBlockMax) :
    openForBlock context (setting.frame (line + 1) loopPasses blocks) rest =
      match (forWords context rest list)[loopPasses]? with
      | none => .goes (setting.frame (line + 1) 0 (forBlock line loopPasses true :: blocks)) none
      | some word =>
        .goes (setting.frame (line + 1) 0 (forBlock line loopPasses false :: blocks))
          (some (name, cString word)) := by
  have hnotfull : ¬ scriptBlockMax ≤ blocks.length := by omega
  simp only [openForBlock, if_neg hnotfull, loopWord, hhead]
  cases hword : (forWords context rest list)[loopPasses]? with
  | none =>
    have hspent := List.getElem?_eq_none_iff.mp hword
    simp [hspent, forBlock]
  | some word =>
    obtain ⟨hless, rfl⟩ := List.getElem?_eq_some_iff.mp hword
    have hmore : ¬ (forWords context rest list).length ≤ loopPasses := by omega
    simp [hmore, forBlock, hword]

theorem performs_forPasses (hloop : LoopBody setting blocks body line finish end_)
    (hline : setting.statements[line]? = some (some (.forWord, rest))) (hruns : Runs blocks)
    (hroom : blocks.length < scriptBlockMax) (heads index : ℕ)
    (hheads : heads + index = scriptLoopMax) :
    Performs setting (forPasses setting.world rest body heads index) line index blocks (finish + 1)
      blocks := by
  induction heads generalizing index with
  | zero =>
    intro situation last outcome _ hmeaning _
    cases hmeaning
  | succ heads ih =>
    intro situation last outcome hfile hmeaning hordinary
    obtain ⟨⟨name, list⟩, hhead, hmeaning⟩ := bind_eq_some_iff.mp hmeaning
    have hobey : obey (situation.context setting.world) (setting.frame (line + 1) index blocks)
        .forWord rest = _ :=
      (obey_of_runs _ _ _ hruns).trans (openForBlock_goes _ hhead hroom)
    dsimp only at hmeaning hobey
    cases hword : (forWords (situation.context setting.world) rest list)[index]? with
    | none =>
      rw [hword] at hmeaning hobey
      cases hmeaning
      have hover : Passes setting (line + 1) 0 (forBlock line index true :: blocks) (finish + 1)
          0 blocks :=
        (hloop.passed _ rfl).trans (passes_done hloop.ends (by simp [forBlock]) rfl)
      exact ⟨(leads_goes hfile hline hobey).silent (hover _ _ hfile), hfile⟩
    | some word =>
      rw [hword] at hmeaning hobey
      obtain ⟨after, hafter, rfl⟩ := andThen_eq_some hmeaning
      have hbound := hordinary _ (mem_append_left _ (mem_singleton.mpr rfl))
      obtain ⟨hvalid, hderived⟩ := forHead_name hhead
      have hbinds : Leads _ setting.commands (setting.between line index blocks situation last) _ _ :=
        leads_binds hfile hline hobey (set_of_hasRoom hvalid hderived hbound _)
      have hbody : Performs setting (ScriptStructure.sequence body _) (line + 1) 0
          (forBlock line index false :: blocks) (finish + 1) blocks :=
        @LoopBody.again _ _ _ _ _ _ _ _
          (fun heads => forPasses setting.world rest body heads (index + 1)) heads hloop
          (by simp [forBlock]) hruns rfl rfl (fun _ _ => rfl) hheads
          fun _ => ih _ (by omega)
      have hfile' : setting.Holds (bindOutcome name (cString word) situation last).situation :=
        hfile
      obtain ⟨hleads, hfinish⟩ := hbody _ _ _ hfile' hafter
        fun event hevent => hordinary event (mem_append_right _ hevent)
      exact ⟨hbinds.trans hleads, hfinish⟩

end Loop

/-! ## Whole scripts -/

/-- Over the writing of a script the runner does what the script means. -/
theorem performs_written {piece : List Statement} {script : Script}
    (hwritten : Written piece script)
    (hsits : Sits setting.statements line piece) (hfinish : line' = line + piece.length)
    (hruns : Runs blocks) (hdepth : blocks.length + script.depth ≤ scriptBlockMax) :
    Performs setting (interpret setting.world setting.commands script) line 0 blocks line' blocks := by
  induction hwritten generalizing line line' blocks with
  | done =>
    rw [hfinish]
    have hhere : Passes setting line 0 blocks line 0 blocks := fun _ _ _ => Leads.refl
    exact hhere.performs_nothing
  | blank _ ih =>
    have hblank : Passes setting line 0 blocks (line + 1) 0 blocks :=
      fun _ _ hfile => leads_blank hfile hsits.1
    exact hblank.performs (ih hsits.2 (by rw [hfinish, length_cons]; omega) hruns hdepth)
  | command statement _ ih =>
    refine performs_line blocks (fun _ => blocks) (fun _ => interpret _ _ _) hsits.1
      (fun context => obey_of_runs _ _ _ hruns) (fun _ => rfl) (fun _ _ => rfl) fun _ => ?_
    exact ih hsits.2 (by rw [hfinish, length_cons]; omega) hruns hdepth
  | ifThen condition end_ hfirst _ ihfirst ihnext =>
    rw [Script.depth] at hdepth
    rw [cons_append, Sits, sits_append] at hsits
    obtain ⟨hopen, hinner, hclose, hafter⟩ := hsits
    refine Performs.sequence ?_ (ihnext hafter (by simp [hfinish]; omega) hruns (by omega))
    refine performs_conditional (.inl rfl) hopen hruns (by omega) ?_ ?_
    · have hrun : Performs setting _ (line + 1) 0 (chosen .ifWord line 0 :: blocks) _ _ :=
        ihfirst hinner rfl hruns (by rw [length_cons]; omega)
      exact hrun.passes (passes_fi hclose rfl)
    · have hover : Passes setting (line + 1) 0 (refused .ifWord line 0 :: blocks) _ 0 _ :=
        passes_written hfirst hinner rfl rfl (by rw [length_cons]; omega)
      exact (hover.trans (passes_fi hclose rfl)).performs_nothing
  | ifElse condition middle end_ hfirst hsecond _ ihfirst ihsecond ihnext =>
    rw [Script.depth] at hdepth
    rw [append_assoc, cons_append, cons_append, Sits, sits_append, Sits, sits_append] at hsits
    obtain ⟨hopen, hinner, helse, hother, hclose, hafter⟩ := hsits
    refine Performs.sequence ?_ (ihnext hafter (by simp [hfinish]; omega) hruns (by omega))
    refine performs_conditional (.inl rfl) hopen hruns (by omega) ?_ ?_
    · have hrun : Performs setting _ (line + 1) 0 (chosen .ifWord line 0 :: blocks) _ _ :=
        ihfirst hinner rfl hruns (by rw [length_cons]; omega)
      have hover : Passes setting _ 0
          ({ chosen .ifWord line 0 with skipping := true } :: blocks) _ 0 _ :=
        passes_written hsecond hother rfl rfl (by rw [length_cons]; omega)
      have hturn : Passes setting _ 0 (chosen .ifWord line 0 :: blocks) _ 0 _ :=
        passes_else_taken helse rfl rfl hruns
      exact hrun.passes (hturn.trans (hover.trans (passes_fi hclose rfl)))
    · have hover : Passes setting (line + 1) 0 (refused .ifWord line 0 :: blocks) _ 0 _ :=
        passes_written hfirst hinner rfl rfl (by rw [length_cons]; omega)
      have hrun : Performs setting _ _ 0
          ({ refused .ifWord line 0 with skipping := false, taken := true } :: blocks) _ _ :=
        ihsecond hother rfl hruns (by rw [length_cons]; omega)
      refine (hover.trans (passes_else_instead helse rfl rfl rfl)).performs ?_
      exact hrun.passes (passes_fi hclose rfl)
  | whileDo head end_ hbody _ ihbody ihnext | forIn head end_ hbody _ ihbody ihnext =>
    rw [Script.depth] at hdepth
    rw [cons_append, Sits, sits_append] at hsits
    obtain ⟨hopen, hinner, hclose, hafter⟩ := hsits
    refine Performs.sequence ?_ (ihnext hafter (by simp [hfinish]; omega) hruns (by omega))
    have hloop : LoopBody setting blocks _ line _ end_ :=
      ⟨fun block hskip => passes_written hbody hinner rfl
          (by rw [Skips, any_cons, hskip, Bool.true_or]) (by rw [length_cons]; omega),
        fun block hskip => ihbody hinner rfl (by rw [Runs, any_cons, hskip, hruns]; rfl)
          (by rw [length_cons]; omega), hclose⟩
    first
      | exact performs_whilePasses hloop hopen hruns (by omega) scriptLoopMax 0 rfl
      | exact performs_forPasses hloop hopen hruns (by omega) scriptLoopMax 0 rfl

/-- At the end of its file a script whose blocks are closed leaves the stack, and then
the loop ends with the last status. -/
theorem leads_end (hfile : setting.Holds situation) :
    setting.Leads (setting.between setting.lines.length loopPasses [] situation last)
      [.returned last]
      { session :=
          { situation, scripts := setting.below, exitOnPrompt := setting.exitOnPrompt }
        drains := setting.outer } := by
  have hend : setting.world.readLineInFile setting.path setting.lines.length situation.rest =
      .error .notFound := by
    rw [hfile, getElem?_eq_none (le_refl _)]
  have hpopped : setting.Leads
      (setting.between setting.lines.length loopPasses [] situation last) []
      { session := { situation, scripts := setting.below, exitOnPrompt := setting.exitOnPrompt }
        drains := { floor := setting.below.length, last } :: setting.outer } := by
    refine @leads_readAndObey _ _ _ _ _ _ _ ([], _) ?_
    simp [readAndObey, ScriptRefinement.between, hend, and_self]
  refine hpopped.silent (@leads_move _ _ _ _ [.tick] ([.returned last], _) rfl ?_)
  simp only [takeAll, StateMachine.run_cons, StateMachine.run_nil, Runner.take, ScriptRunner.tick,
    flatMap_cons, flatMap_nil, append_nil]
  cases hbelow : setting.below with
  | nil => rfl
  | cons frame below =>
    simp only
    rw [if_pos (le_refl _)]

end Drive

def opened (path : Text) (session : Session ω) : Runner ω :=
  enter { session with scripts := { path } :: session.scripts } [] session.scripts.length

/-- A well nested script, on whose lines nothing asks for input, calls the runner, ends
all scripts or touches the file, and whose for variables the session has room for, is
run as its block structure says: the same command lines in the same situations.  `drain`
takes its frame from the stack and returns the last status. -/
theorem drain_followsStructure (world : World ω) (commands : Commands ω) {path : Text}
    {lines : List Text} {script : Script} {session : Session ω} {outcome : Outcome ω}
    (hfile : FileHolds world path lines session.situation.rest)
    (hwritten : Written (lines.map readStatement) script) (hdepth : script.depth ≤ scriptBlockMax)
    (hmeans : interpret world commands script session.situation session.situation.lastExit =
      some outcome)
    (hordinary : ∀ event ∈ outcome.events, Ordinary world commands path lines event)
    (hwaiting : session.waiting = false) :
    ∃ moves, drive world commands moves (opened path session) =
      (outcome.events ++ [.returned outcome.last],
        { session := { session with situation := outcome.situation }, drains := [] }) := by
  obtain ⟨situation, scripts, exitOnPrompt, waiting⟩ := session
  cases hwaiting
  let setting : Setting ω :=
    { world, commands, path, lines, below := scripts, exitOnPrompt, outer := [] }
  have hsits : Sits setting.statements 0 (lines.map readStatement) :=
    sits_self [] (lines.map readStatement)
  have hfinish : lines.length = 0 + (lines.map readStatement).length := by
    rw [length_map, zero_add]
  have hperforms : Performs setting _ 0 0 [] lines.length [] :=
    performs_written hwritten hsits hfinish rfl (by simpa using hdepth)
  obtain ⟨hleads, hafter⟩ := hperforms situation situation.lastExit outcome hfile hmeans hordinary
  exact hleads.trans (leads_end hafter)

def loneFile (lines : List Text) : World Unit where
  readLineInFile _ number _ :=
    match lines[number]? with
    | some line => .ok line
    | none => .error .notFound
  isFileExist _ _ := true
  derivedValue _ _ := []
  baseValue _ _ := none

/-- A shell in which `check` holds while `w` is `a`, and `logout` ends all scripts. -/
def smallShell : Commands Unit := fun statement situation =>
  if statement = text "logout" then
    { situation := { situation with env := [] }, doings := [.clearSession], status := pdiOk }
  else
    { situation
      status :=
        if statement = text "check" ∧ situation.env ≠ [(text "w", text "a")] then cmdErrorFailed
        else pdiOk }

def choosingLines : List Text :=
  [text "for w in a b", text "  if check", text "    take $w", text "  else", text "    leave $w",
    text "  fi", text "", text "done", text "end"]

def choosingScript : Script :=
  .forIn (text "w in a b")
    (.ifElse (text "check") (.command (text "take $w") .done) (.command (text "leave $w") .done)
      .done)
    (.command (text "end") .done)

theorem choosingScript_written : Written (choosingLines.map readStatement) choosingScript := by
  have hstatements : choosingLines.map readStatement =
      some (.forWord, text "w in a b") ::
        (some (.ifWord, text "check") :: [some (.none, text "take $w")] ++
          some (.elseWord, []) :: [some (.none, text "leave $w")] ++ some (.fiWord, []) :: [none]) ++
        some (.doneWord, []) :: [some (.none, text "end")] := by
    decide +kernel
  rw [hstatements]
  exact .forIn _ _ (.ifElse _ _ _ (.command _ .done) (.command _ .done) (.blank .done))
    (.command _ .done)

theorem choosingScript_run :
    let fresh : Situation Unit := { env := [], lastExit := pdiOk, rest := () }
    let first := { fresh with env := [(text "w", text "a")] }
    let second := { fresh with env := [(text "w", text "b")] }
    ∃ moves, drive (loneFile choosingLines) smallShell moves
        (opened (text "/s") { situation := fresh }) =
      ([.bound (text "w") (text "a") fresh, .ran (text "check") first, .ran (text "take $w") first,
          .bound (text "w") (text "b") first, .ran (text "check") second,
          .ran (text "leave $w") { second with lastExit := cmdErrorFailed }, .ran (text "end") second,
          .returned pdiOk],
        { session := { situation := second } }) := by
  intro fresh first second
  refine @drain_followsStructure _ (loneFile choosingLines) smallShell (text "/s") choosingLines
    choosingScript { situation := fresh }
    { events := [.bound (text "w") (text "a") fresh, .ran (text "check") first,
        .ran (text "take $w") first, .bound (text "w") (text "b") first,
        .ran (text "check") second, .ran (text "leave $w") { second with lastExit := cmdErrorFailed },
        .ran (text "end") second]
      situation := second, last := pdiOk }
    (fun _ => rfl) choosingScript_written (by decide) (by decide +kernel) ?_ rfl
  simp only [forall_mem_cons, Ordinary]
  exact ⟨by decide, ⟨by decide, fun _ => rfl⟩, ⟨by decide, fun _ => rfl⟩, by decide,
    ⟨by decide, fun _ => rfl⟩, ⟨by decide, fun _ => rfl⟩, ⟨by decide, fun _ => rfl⟩, nofun⟩

/-- A script that logs out is given up: its next line is not run. -/
theorem logout_endsScript :
    let fresh : Situation Unit := { env := [], lastExit := pdiOk, rest := () }
    let lines := [text "logout", text "echo hi"]
    Written (lines.map readStatement)
        (.command (text "logout") (.command (text "echo hi") .done)) ∧
      interpret (loneFile lines) smallShell
          (.command (text "logout") (.command (text "echo hi") .done)) fresh pdiOk =
        some { events := [.ran (text "logout") fresh, .ran (text "echo hi") fresh]
               situation := fresh, last := pdiOk } ∧
      drive (loneFile lines) smallShell 3 (opened (text "/s") { situation := fresh }) =
        ([.ran (text "logout") fresh, .returned pdiOk], { session := { situation := fresh } }) := by
  refine ⟨?_, by decide +kernel, by decide +kernel⟩
  have hstatements : [text "logout", text "echo hi"].map readStatement =
      [some (.none, text "logout"), some (.none, text "echo hi")] := by
    decide +kernel
  rw [hstatements]
  exact .command _ (.command _ .done)

end PdiStack.ScriptRefinement
