import PdiStack.Shell.ScriptRunner

/-!
# A condition decides its own block

When the shell has run the line of an if or a while, the runner sets the flags of the
innermost block of the innermost script.  That is the block of the condition only if the
line left the stack of scripts as it was.  A sourced script that ends or cannot be read
does.  One with a misplaced line ends all scripts, one that stops for input stays on the
stack, and a line that logs out ends all scripts itself.
-/

namespace PdiStack.ScriptConditions

open StringOperations ShellParser CommandLine ScriptRunner List Option

variable {ω : Type}

/-- Some `drain` waits for the line of a condition to be run. -/
def Awaits (drains : List Activation) : Prop :=
  ∃ activation ∈ drains, activation.called.any (fun call => call.word.isCondition) = true

instance (drains : List Activation) : Decidable (Awaits drains) :=
  inferInstanceAs (Decidable (∃ activation ∈ drains, _))

/-- Whether a line stands where it may: an else and a fi in an if block, a done in a loop
that has not made too many passes, and the head of a block where there is room for one.
What a head says matters where it is not passed over. -/
def isPlaced (frame : ScriptFrame) : Keyword → Text → Bool
  | .none, _ => true
  | .elseWord, _ | .fiWord, _ => frame.blocks.head?.any fun block => block.kind = .ifBlock
  | .doneWord, _ =>
      frame.blocks.head?.any fun block =>
        block.kind ≠ .ifBlock && (skipping frame || block.passes + 1 < scriptLoopMax)
  | .ifWord, rest | .whileWord, rest =>
      frame.blocks.length < scriptBlockMax && (skipping frame || rest ≠ [])
  | .forWord, rest =>
      frame.blocks.length < scriptBlockMax && (skipping frame || (forHead rest).isSome)

/-- Whether the line that the innermost script is at stands where it may, if it can be
read. -/
def isNextPlaced (world : World ω) (session : Session ω) : Bool :=
  session.scripts.head?.all fun frame =>
    match world.readLineInFile frame.path frame.line session.situation.rest with
    | .error _ => true
    | .ok line => (readStatement line).all fun statement => isPlaced frame statement.1 statement.2

/-- While the line of a condition is being run, no command ends the scripts of the session,
and the scripts that are sourced under it have no misplaced line and do not stop for
input. -/
def Steady (world : World ω) (runner : Runner ω) : Input ω → Prop
  | .clearSession => ¬ Awaits runner.drains
  | .tick => Awaits runner.drains.tail → isNextPlaced world runner.session = true
  | .back _ => Awaits runner.drains.tail → runner.session.waiting = false
  | _ => True

instance (world : World ω) (runner : Runner ω) :
    (input : Input ω) → Decidable (Steady world runner input)
  | .clearSession => inferInstanceAs (Decidable (¬ _))
  | .tick | .back _ => inferInstanceAs (Decidable (_ → _))
  | .run .. | .resume | .change _ | .wait _ => inferInstanceAs (Decidable True)

/-- The line of a condition was handed to the shell with its own block, fresh, at the end
of the stack. -/
def OpensBlock (call : Call) (frame : ScriptFrame) (block : ScriptBlock)
    (outer : List ScriptBlock) (below : List ScriptFrame) : Prop :=
  call.scripts = frame :: below ∧ frame.blocks = block :: outer ∧
    block.kind = blockKindOf call.word ∧ block.taken = false ∧ block.skipping = false

/-- When the line of a condition has been run, the stack of scripts is what it was when
the line was handed to the shell, with the condition's own block at its end, and that
block is the one whose flags are set. -/
def DecidesOwnBlock (runner : Runner ω) : Input ω → Prop
  | .back status =>
      ∀ activation ∈ runner.drains.head?, ∀ call ∈ activation.called,
        call.word.isCondition = true →
          ∃ frame block outer below, OpensBlock call frame block outer below ∧
            runner.session.scripts = call.scripts ∧
            decideBlock status runner.session.scripts =
              some ({ frame with blocks := block.decided status :: outer } :: below)
  | _ => True

section

variable {word : Keyword} {frame : ScriptFrame} {rest : Text}

theorem skipStatement_ne_fails (hskips : skipping frame = true)
    (hplaced : isPlaced frame word rest = true) :
    skipStatement frame word ≠ .fails := by
  cases word with
  | none => exact nofun
  | ifWord | whileWord | forWord =>
      simp only [isPlaced, Bool.and_eq_true, decide_eq_true_eq] at hplaced
      rw [skipStatement, if_neg (by omega)]
      exact nofun
  | elseWord =>
      cases hblocks : frame.blocks with
      | nil => simp [isPlaced, hblocks] at hplaced
      | cons block outer =>
          simp only [isPlaced, hblocks, head?_cons, any_some, decide_eq_true_eq] at hplaced
          simp only [skipStatement, hblocks, hplaced, ne_eq, not_true_eq_false, if_false]
          split <;> exact nofun
  | fiWord | doneWord =>
      cases hblocks : frame.blocks with
      | nil => simp [isPlaced, hblocks] at hplaced
      | cons block outer => simp_all [isPlaced, skipStatement, closeBlock]

theorem obey_ne_fails {context : ExpandContext} (hplaced : isPlaced frame word rest = true) :
    obey context frame word rest ≠ .fails := by
  cases hskips : skipping frame with
  | true =>
      rw [obey_of_skipping context word rest hskips]
      exact skipStatement_ne_fails hskips hplaced
  | false =>
      rw [obey_of_not_skipping context word rest hskips]
      cases word with
      | none => exact nofun
      | ifWord | whileWord =>
          simp only [isPlaced, hskips, Bool.and_eq_true, Bool.false_or, decide_eq_true_eq] at hplaced
          rw [openCondition, if_neg (by rintro (h | h); omega; exact hplaced.2 h)]
          exact nofun
      | forWord =>
          simp only [isPlaced, hskips, Bool.and_eq_true, Bool.false_or, decide_eq_true_eq] at hplaced
          obtain ⟨head, hhead⟩ := isSome_iff_exists.mp hplaced.2
          rw [openForBlock, if_neg (by omega), loopWord, hhead]
          exact nofun
      | elseWord | fiWord | doneWord =>
          cases hblocks : frame.blocks with
          | nil => simp [isPlaced, hblocks] at hplaced
          | cons block outer => simp_all [isPlaced, closeBlock, turnToElse, nextPass]

/-- The block of a condition is at the end of the stack when its line is handed over. -/
def OpensOwnBlock (call : Call) : Prop :=
  call.word.isCondition = true → ∃ frame block outer below, OpensBlock call frame block outer below

theorem obey_calls {context : ExpandContext} {opened : ScriptFrame} {statement : Text}
    (hcalls : obey context frame word rest = .calls opened statement) {below : List ScriptFrame} :
    OpensOwnBlock { word, statement, scripts := opened :: below } := by
  intro hcondition
  have hopens : openCondition frame word rest = .calls opened statement := by
    cases word with
    | none | elseWord | fiWord | doneWord | forWord => cases hcondition
    | ifWord | whileWord =>
        cases hskips : skipping frame with
        | true =>
            rw [obey_of_skipping context _ rest hskips, skipStatement] at hcalls
            split at hcalls <;> cases hcalls
        | false => rwa [obey_of_not_skipping context _ rest hskips] at hcalls
  rw [openCondition] at hopens
  split at hopens
  · cases hopens
  · cases hopens
    exact ⟨_, _, _, _, rfl, rfl, rfl, rfl, rfl⟩

end

/-- What an input makes of the runs of `drain` and of the stack of scripts. -/
inductive Move : List Activation → List ScriptFrame → List Activation → List ScriptFrame → Prop
  | stays {drains scripts} : Move drains scripts drains scripts
  | clears {drains scripts} (hawaits : ¬ Awaits drains) : Move drains scripts drains []
  | resumes {scripts} (last : ℤ) : Move [] scripts [{ floor := 0, last }] scripts
  | enters {drains scripts} (hidle : ∀ activation ∈ drains.head?, activation.called.isSome = true)
      (last : ℤ) (frame : ScriptFrame) :
      Move drains scripts ({ floor := scripts.length, last } :: drains) (frame :: scripts)
  | turns {activation outer frame below} (hloops : activation.called = none)
      (hfloor : activation.floor ≤ below.length) (turned : ScriptFrame) :
      Move (activation :: outer) (frame :: below) (activation :: outer) (turned :: below)
  | pops {activation outer frame below} (hloops : activation.called = none)
      (hfloor : activation.floor ≤ below.length) :
      Move (activation :: outer) (frame :: below) (activation :: outer) below
  | breaks {activation outer frame below} (hloops : activation.called = none)
      (hfloor : activation.floor ≤ below.length) :
      Move (activation :: outer) (frame :: below) outer below
  | fails {activation outer scripts} (hawaits : ¬ Awaits outer) (left : List ScriptFrame) :
      Move (activation :: outer) scripts outer left
  | calls {activation outer frame below} (hloops : activation.called = none)
      (hfloor : activation.floor ≤ below.length) (called : ScriptFrame) (call : Call)
      (hscripts : call.scripts = called :: below) (hopens : OpensOwnBlock call) :
      Move (activation :: outer) (frame :: below) ({ activation with called := some call } :: outer)
        (called :: below)
  | ends {activation outer scripts} (hloops : activation.called = none)
      (hfloor : scripts.length ≤ activation.floor) : Move (activation :: outer) scripts outer scripts
  | goesOn {activation outer frame below} (hcalled : activation.called.isSome = true) (last : ℤ)
      (decided : ScriptFrame) :
      Move (activation :: outer) (frame :: below)
        ({ activation with last, called := none } :: outer) (decided :: below)
  | goesBare {activation outer} (hcalled : activation.called.isSome = true) (last : ℤ) :
      Move (activation :: outer) [] ({ activation with last, called := none } :: outer) []
  | faults {drains scripts} : Move drains scripts [] scripts

variable {drains : List Activation} {scripts : List ScriptFrame}

theorem decideBlock_eq_some {status : ℤ} {decided : List ScriptFrame}
    (hdecides : decideBlock status scripts = some decided) :
    ∃ frame block outer below, scripts = frame :: below ∧ frame.blocks = block :: outer ∧
      decided = { frame with blocks := block.decided status :: outer } :: below := by
  cases scripts with
  | nil => cases hdecides
  | cons frame below =>
      simp only [decideBlock] at hdecides
      split at hdecides
      · cases hdecides
      · next block outer hblocks =>
          cases hdecides
          exact ⟨frame, block, outer, below, rfl, hblocks, rfl⟩

section Moves

variable {world : World ω} {session : Session ω} {floor : ℕ} {last : ℤ}
  {outer : List Activation}

theorem move_readAndObey {frame : ScriptFrame} {below : List ScriptFrame}
    (hscripts : session.scripts = frame :: below) (hfloor : floor ≤ below.length)
    (hplaced : Awaits outer → isNextPlaced world session = true) :
    let next := (readAndObey world session { floor, last } outer frame below).2
    Move ({ floor, last } :: outer) (frame :: below) next.drains next.session.scripts := by
  intro next
  rw [isNextPlaced, hscripts, head?_cons, all_some] at hplaced
  simp only [next, readAndObey]
  cases hread : world.readLineInFile frame.path frame.line session.situation.rest with
  | error code =>
      dsimp only
      split
      · exact .pops rfl hfloor
      · exact .breaks rfl hfloor
  | ok line =>
      simp only [hread] at hplaced ⊢
      cases hstatement : readStatement line with
      | none => exact @Move.turns { floor, last } outer frame below rfl hfloor _
      | some statement =>
          obtain ⟨word, rest⟩ := statement
          rw [hstatement] at hplaced
          dsimp only
          cases hobey : obey (session.situation.context world) { frame with line := frame.line + 1 }
              word rest with
          | fails =>
              refine .fails (fun hawaits => ?_) []
              have hplaced' : isPlaced { frame with line := frame.line + 1 } word rest = true :=
                hplaced hawaits
              exact obey_ne_fails hplaced' hobey
          | goes moved binding =>
              cases binding <;> exact @Move.turns { floor, last } outer frame below rfl hfloor moved
          | calls moved statement =>
              exact @Move.calls { floor, last } outer frame below rfl hfloor moved _ rfl
                (obey_calls hobey)

theorem move_tick (hplaced : Awaits outer → isNextPlaced world session = true) :
    let next := (tick world session { floor, last } outer).2
    Move ({ floor, last } :: outer) session.scripts next.drains next.session.scripts := by
  intro next
  simp only [next, ScriptRunner.tick]
  cases hscripts : session.scripts with
  | nil =>
      simp only [hscripts]
      exact .ends rfl (Nat.zero_le _)
  | cons frame below =>
      dsimp only
      split
      · next hfloor => simpa only [hscripts] using .ends rfl hfloor
      · next hfloor =>
          exact move_readAndObey hscripts (by rw [length_cons] at hfloor; omega) hplaced

theorem move_goOn {activation : Activation} {scripts : List ScriptFrame} {status : ℤ}
    (hgoes : Move (activation :: outer) scripts
      ({ activation with last := status, called := none } :: outer) session.scripts)
    (hwaiting : Awaits outer → session.waiting = false) :
    let next := (goOn session activation outer status).2
    Move (activation :: outer) scripts next.drains next.session.scripts := by
  intro next
  simp only [next, goOn]
  cases hwaits : session.waiting with
  | false => exact hgoes
  | true =>
      have hawaits : ¬ Awaits outer := fun hawaits =>
        absurd hwaits (Bool.eq_false_iff.mp (hwaiting hawaits))
      rw [if_pos rfl]
      split
      · exact .fails hawaits []
      · exact .fails hawaits session.scripts

theorem move_lineRan {activation : Activation} {call : Call} {status : ℤ}
    (hcalled : activation.called = some call)
    (hwaiting : Awaits outer → session.waiting = false) :
    let next := (lineRan session activation call outer status).2
    Move (activation :: outer) session.scripts next.drains next.session.scripts := by
  intro next
  have hsome : activation.called.isSome = true := by rw [hcalled]; rfl
  simp only [next, lineRan]
  split
  · cases hdecides : decideBlock status session.scripts with
    | none => exact .faults
    | some decided =>
        obtain ⟨frame, block, blocks, below, hscripts, -, rfl⟩ := decideBlock_eq_some hdecides
        rw [hscripts]
        exact move_goOn (.goesOn hsome status _) hwaiting
  · refine move_goOn ?_ hwaiting
    cases session.scripts with
    | nil => exact .goesBare hsome status
    | cons frame below => exact .goesOn hsome status frame

theorem move_take {runner : Runner ω} {input : Input ω} (hsteady : Steady world runner input) :
    Move runner.drains runner.session.scripts (runner.take world input).2.drains
      (runner.take world input).2.session.scripts := by
  obtain ⟨session, drains⟩ := runner
  cases input with
  | change situation | wait waiting =>
      simp only [Runner.take]
      split <;> exact .stays
  | clearSession =>
      simp only [Runner.take]
      split
      · exact .clears hsteady
      · exact .stays
  | resume =>
      simp only [Runner.take]
      split
      · next hresumes =>
          obtain ⟨rfl, -⟩ := hresumes
          exact .resumes _
      · exact .stays
  | run path exitonprompt =>
      simp only [Runner.take, scriptRun]
      split
      · next hidle =>
          split
          · exact .stays
          · refine .enters (fun activation hhead => ?_) _ _
            cases drains with
            | nil => cases hhead
            | cons first rest =>
                cases hhead
                exact hidle
      · exact .stays
  | tick =>
      rcases drains with _ | ⟨⟨floor, last, called⟩, outer⟩
      · exact .stays
      · cases called with
        | none => exact move_tick hsteady
        | some call => exact .stays
  | back status =>
      rcases drains with _ | ⟨⟨floor, last, called⟩, outer⟩
      · exact .stays
      · cases called with
        | none => exact .stays
        | some call => exact move_lineRan rfl hsteady

end Moves

/-- Every `drain` has handed a line to the shell, and while a condition is among the lines
the stack is what the innermost of them left, over what the next one did. -/
def Waits : List Activation → List ScriptFrame → Prop
  | [], _ => True
  | activation :: outer, scripts =>
      Awaits (activation :: outer) →
        (∃ call, activation.called = some call ∧ call.scripts = scripts) ∧
          (Awaits outer → ∃ frame below, scripts = frame :: below ∧
            activation.floor = below.length ∧ Waits outer below)

/-- The same, where the innermost `drain` may be between two lines of its script or may
have come to its end. -/
def Holds : List Activation → List ScriptFrame → Prop
  | [], _ => True
  | activation :: outer, scripts =>
      match activation.called with
      | some _ => Waits (activation :: outer) scripts
      | none =>
          Awaits outer → ∃ below, (scripts = below ∨ ∃ frame, scripts = frame :: below) ∧
            activation.floor = below.length ∧ Waits outer below

theorem waits_of_not_awaits {scripts : List ScriptFrame} (hawaits : ¬ Awaits drains) :
    Waits drains scripts := by
  cases drains with
  | nil => trivial
  | cons activation outer => exact fun hnow => absurd hnow hawaits

theorem Awaits.cons {outer : List Activation} (hawaits : Awaits outer) (activation : Activation) :
    Awaits (activation :: outer) := by
  obtain ⟨waiting, hmem, hcondition⟩ := hawaits
  exact ⟨waiting, mem_cons_of_mem _ hmem, hcondition⟩

theorem Waits.holds (hwaits : Waits drains scripts) : Holds drains scripts := by
  cases drains with
  | nil => trivial
  | cons activation outer =>
      rw [Holds]
      cases hcalled : activation.called with
      | some call => exact hwaits
      | none =>
          intro hawaits
          obtain ⟨⟨call, hcall, -⟩, -⟩ := hwaits (hawaits.cons activation)
          rw [hcalled] at hcall
          cases hcall

theorem Holds.waits (hholds : Holds drains scripts)
    (hidle : ∀ activation ∈ drains.head?, activation.called.isSome = true) :
    Waits drains scripts := by
  cases drains with
  | nil => trivial
  | cons activation outer =>
      obtain ⟨call, hcalled⟩ := isSome_iff_exists.mp (hidle activation rfl)
      rw [Holds, hcalled] at hholds
      exact hholds

/-- Between two lines of a script under a condition, the stack is the script's frame over
what the condition's line left. -/
theorem Holds.below {activation : Activation} {outer : List Activation} {frame : ScriptFrame}
    {below : List ScriptFrame} (hholds : Holds (activation :: outer) (frame :: below))
    (hloops : activation.called = none)
    (hfloor : activation.floor ≤ below.length) (hawaits : Awaits outer) :
    activation.floor = below.length ∧ Waits outer below := by
  rw [Holds, hloops] at hholds
  obtain ⟨base, hscripts | ⟨top, hscripts⟩, hbase, hwaits⟩ := hholds hawaits
  · have hlength := congrArg List.length hscripts
    rw [length_cons] at hlength
    omega
  · cases hscripts
    exact ⟨hbase, hwaits⟩

theorem Move.holds {next : List Activation} {left : List ScriptFrame}
    (hmove : Move drains scripts next left) (hholds : Holds drains scripts) : Holds next left := by
  cases hmove with
  | stays => exact hholds
  | clears hawaits => exact (waits_of_not_awaits hawaits).holds
  | faults => trivial
  | resumes last => exact fun hawaits => absurd hawaits (by rintro ⟨_, hmem, _⟩; cases hmem)
  | enters hidle last frame =>
      exact fun _ => ⟨scripts, .inr ⟨frame, rfl⟩, rfl, hholds.waits hidle⟩
  | turns hloops hfloor turned =>
      rw [Holds, hloops]
      intro hawaits
      obtain ⟨hbase, hwaits⟩ := hholds.below hloops hfloor hawaits
      exact ⟨_, .inr ⟨turned, rfl⟩, hbase, hwaits⟩
  | pops hloops hfloor =>
      rw [Holds, hloops]
      intro hawaits
      obtain ⟨hbase, hwaits⟩ := hholds.below hloops hfloor hawaits
      exact ⟨_, .inl rfl, hbase, hwaits⟩
  | breaks hloops hfloor =>
      by_cases hawaits : Awaits next
      · exact (hholds.below hloops hfloor hawaits).2.holds
      · exact (waits_of_not_awaits hawaits).holds
  | fails hawaits left => exact (waits_of_not_awaits hawaits).holds
  | calls hloops hfloor called call hscripts hopens =>
      intro _
      refine ⟨⟨call, rfl, hscripts⟩, fun hawaits => ?_⟩
      obtain ⟨hbase, hwaits⟩ := hholds.below hloops hfloor hawaits
      exact ⟨called, _, rfl, hbase, hwaits⟩
  | @ends activation _ _ hloops hfloor =>
      by_cases hawaits : Awaits next
      · rw [Holds, hloops] at hholds
        obtain ⟨base, hscripts | ⟨top, hscripts⟩, hbase, hwaits⟩ := hholds hawaits
        · exact (hscripts ▸ hwaits).holds
        · rw [hscripts, length_cons] at hfloor
          omega
      · exact (waits_of_not_awaits hawaits).holds
  | @goesOn activation outer frame below hcalled last decided =>
      intro hawaits
      obtain ⟨call, hcall⟩ := isSome_iff_exists.mp hcalled
      rw [Holds, hcall] at hholds
      obtain ⟨top, base, hscripts, hbase, hwaits⟩ := (hholds (hawaits.cons _)).2 hawaits
      cases hscripts
      exact ⟨below, .inr ⟨decided, rfl⟩, hbase, hwaits⟩
  | @goesBare activation outer hcalled last =>
      intro hawaits
      obtain ⟨call, hcall⟩ := isSome_iff_exists.mp hcalled
      rw [Holds, hcall] at hholds
      obtain ⟨top, base, hscripts, -⟩ := (hholds (hawaits.cons _)).2 hawaits
      cases hscripts

/-- Every line of a condition that is being run was handed over with its own block. -/
def CallsOpen (drains : List Activation) : Prop :=
  ∀ activation ∈ drains, ∀ call ∈ activation.called, OpensOwnBlock call

theorem Move.callsOpen {next : List Activation} {left : List ScriptFrame}
    (hmove : Move drains scripts next left) (hopen : CallsOpen drains) : CallsOpen next := by
  have houter : ∀ {activation outer}, CallsOpen (activation :: outer) → CallsOpen outer :=
    fun hopen later hlater => hopen later (mem_cons_of_mem _ hlater)
  cases hmove with
  | stays | clears _ | turns _ _ _ | pops _ _ => exact hopen
  | faults => exact nofun
  | breaks _ _ | fails _ _ | ends _ _ => exact houter hopen
  | resumes last => exact forall_mem_cons.mpr ⟨nofun, nofun⟩
  | enters _ _ _ => exact forall_mem_cons.mpr ⟨nofun, hopen⟩
  | goesOn _ _ _ | goesBare _ _ => exact forall_mem_cons.mpr ⟨nofun, houter hopen⟩
  | calls _ _ called call _ hopens =>
      refine forall_mem_cons.mpr ⟨?_, houter hopen⟩
      rintro called ⟨⟩
      exact hopens

theorem decidesOwnBlock_of_holds {runner : Runner ω}
    (hholds : Holds runner.drains runner.session.scripts) (hopen : CallsOpen runner.drains)
    {input : Input ω} : DecidesOwnBlock runner input := by
  cases input with
  | back status =>
      obtain ⟨session, drains⟩ := runner
      intro activation hactivation call hcall hcondition
      cases drains with
      | nil => cases hactivation
      | cons first outer =>
          cases hactivation
          obtain ⟨frame, block, blocks, below, hopens⟩ :=
            hopen activation mem_cons_self call hcall hcondition
          have hcalled : activation.called = some call := hcall
          have hawaits : Awaits (activation :: outer) :=
            ⟨activation, mem_cons_self, by rw [hcalled]; exact hcondition⟩
          rw [Holds, hcalled] at hholds
          obtain ⟨⟨same, hsame, hscripts⟩, -⟩ := hholds hawaits
          rw [hcalled] at hsame
          cases hsame
          refine ⟨frame, block, blocks, below, hopens, hscripts.symm, ?_⟩
          rw [← hscripts, hopens.1, decideBlock, hopens.2.1]
  | tick | run _ _ | resume | clearSession | change _ | wait _ => trivial

/-- In every run in which, while the line of a condition is being run, no command ends the
scripts of the session and no script sourced under it has a misplaced line or stops for
input, every condition decides its own block. -/
theorem conditions_decideOwnBlock (world : World ω) (session : Session ω) (inputs : List (Input ω))
    (hsteady : StateMachine.Allowed (Runner.take world) (Steady world) inputs { session }) :
    StateMachine.Allowed (Runner.take world) DecidesOwnBlock inputs { session } := by
  have hstart : Holds ({ session } : Runner ω).drains session.scripts ∧
      CallsOpen ({ session } : Runner ω).drains := ⟨trivial, nofun⟩
  refine StateMachine.Allowed.of_invariant
    (fun runner => Holds runner.drains runner.session.scripts ∧ CallsOpen runner.drains)
    (fun runner input hinvariant hallowed => ?_) hsteady hstart
  have hmove := move_take hallowed
  exact ⟨decidesOwnBlock_of_holds hinvariant.1 hinvariant.2, hmove.holds hinvariant.1,
    hmove.callsOpen hinvariant.2⟩

/-- A system with a script whose condition sources another one. -/
def twoFiles (sourced : List Text) : World Unit where
  readLineInFile path number _ :=
    match (if path = text "/main" then [text "if source /sub", text "echo", text "fi"]
      else sourced)[number]? with
    | some line => .ok line
    | none => .error .notFound
  isFileExist _ _ := true
  derivedValue _ _ := []
  baseValue _ _ := none

def freshSession : Session Unit := { situation := { env := [], lastExit := pdiOk, rest := () } }

/-- The condition of the main script sources the other one, and `ticks` passes of its
`drain` later the condition's line has been run. -/
def sourcingInputs (ticks : List (Input Unit)) (status : ℤ) : List (Input Unit) :=
  [.run (text "/main") false, .tick, .run (text "/sub") false] ++ ticks ++ [.back status]

theorem sourcing_decidesOwnBlock :
    StateMachine.Allowed (Runner.take (twoFiles [text "echo"])) DecidesOwnBlock
      (sourcingInputs [.tick, .back pdiOk, .tick, .tick] pdiOk) { session := freshSession } :=
  conditions_decideOwnBlock (twoFiles [text "echo"]) freshSession _ (by decide +kernel)

/-- A condition that sources a script whose only line is a stray `fi`: when its line has
been run, the session has no script left, and the block that is asked for is not there. -/
theorem misplaced_takesBlock :
    let world := twoFiles [text "fi"]
    let runner := (StateMachine.run (Runner.take world)
      [.run (text "/main") false, .tick, .run (text "/sub") false, .tick] { session := freshSession }).2
    (∃ activation call, runner.drains = [activation] ∧ activation.called = some call ∧
        call.word = .ifWord ∧ call.statement = text "source /sub" ∧ call.scripts ≠ []) ∧
      runner.session.scripts = [] ∧ ¬ DecidesOwnBlock runner (.back cmdErrorFailed) ∧
      (runner.take world (.back cmdErrorFailed)).1 = [.faulted] := by
  intro world runner
  have hcalled : runner.drains =
      [{ floor := 0, last := pdiOk
         called := some { word := .ifWord, statement := text "source /sub"
                          scripts := [{ path := text "/main", line := 1
                                        blocks := [{ kind := .ifBlock }] }] } }] := by
    decide +kernel
  have hscripts : runner.session.scripts = [] := by decide +kernel
  refine ⟨⟨_, _, hcalled, rfl, rfl, rfl, cons_ne_nil _ _⟩, hscripts, fun hdecides => ?_,
    by decide +kernel⟩
  obtain ⟨frame, block, outer, below, -, hsame, -⟩ := hdecides _ (by rw [hcalled]; rfl) _ rfl rfl
  rw [hscripts] at hsame
  cases hsame

end PdiStack.ScriptConditions
