import PdiStack.Shell.Arguments

/-!
# Options by position

The options that a command takes by position from a plain line, against the words of the
line.  `options_are_arguments_iff` says when the two agree: the text behind the first space
has to fit, in the sense of `Fits`, and an equals sign must not send the line to the reader of
named options.
-/

namespace PdiStack.PositionalOptions

open StringOperations CommandLine CommandBase ShellGrammar Arguments List Option
open ShellParser hiding Command

theorem tokens_eq_words {tree : CommandTree} (hitems : ∀ item ∈ tree, item.Proper)
    (hredirects : CommandTree.redirects tree = []) :
    CommandTree.tokens tree = CommandTree.words tree := by
  induction tree with
  | nil => rfl
  | cons item tree ih =>
    have hrest := ih fun other hother => hitems other (mem_cons_of_mem item hother)
    cases item with
    | word token =>
      rw [CommandTree.tokens_word, CommandTree.words_word, hrest hredirects]
    | redirect sign target =>
      obtain ⟨hsign, -⟩ := hitems _ mem_cons_self
      obtain ⟨op, hop⟩ := (exists_redirectOpOf_iff sign.type).mpr hsign
      rw [CommandTree.redirects_redirect hop] at hredirects
      cases hredirects

theorem type_of_mem_words {tree : CommandTree} (hitems : ∀ item ∈ tree, item.Proper) :
    ∀ token ∈ CommandTree.words tree, token.type = .word := by
  intro token htoken
  obtain ⟨item, hitem, hword⟩ := mem_filterMap.mp htoken
  cases item with
  | word other =>
    obtain rfl := some.inj hword
    exact hitems _ hitem
  | redirect sign target => cases hword

theorem tokensFrom_of_tokenize {line : Text} {tokens : List Token}
    (htokens : tokenize line = some tokens) :
    tokensFrom line.length line.length line = some tokens := by
  unfold tokenize at htokens
  split at htokens
  · cases htokens
  · exact htokens

theorem foldl_addCommand_commands_length (trees : List CommandTree) (out : Line) :
    (trees.foldl addCommand out).commands.length = out.commands.length + trees.length := by
  induction trees generalizing out with
  | nil => rfl
  | cons tree trees ih =>
    rw [foldl_cons, ih, addCommand, length_append, length_singleton, length_cons]
    omega

/-- The tree of a plain line is one command without a redirection. -/
theorem exists_command_of_plain {tree : LineTree} (hplain : tree.tables.isPlain = true) :
    ∃ command : CommandTree, tree.pipelines = .single (.single command) ∧
      CommandTree.redirects command = [] := by
  simp only [Line.isPlain, Bool.and_eq_true, decide_eq_true_eq] at hplain
  obtain ⟨⟨hpipelines, hcommands⟩, hredirects⟩ := hplain
  rw [LineTree.tables] at hpipelines hcommands hredirects
  have hjoins := congrArg length (joins_addPipelines .first emptyLine tree.pipelines)
  rw [length_map, hpipelines] at hjoins
  cases hlist : tree.pipelines with
  | cons pipeline sep rest =>
    rw [hlist] at hjoins
    simp [Separated.seps, emptyLine] at hjoins
  | single pipeline =>
    rw [hlist, addPipelines, addPipeline] at hcommands hredirects
    rw [foldl_addCommand_commands_length] at hcommands
    cases pipeline with
    | cons command sep rest =>
      have hsome : 0 < rest.items.length := by cases rest <;> simp [Separated.items]
      simp only [Separated.items, length_cons] at hcommands
      omega
    | single command =>
      refine ⟨command, rfl, ?_⟩
      simpa [Separated.items, addCommand, emptyLine] using hredirects

/-- A plain line is words, and at most a semicolon after them. -/
theorem reads_of_plain {line : Text} {parsed : Line} (hparse : parse line = some parsed)
    (hplain : parsed.isPlain = true) :
    Reads [] (visible line) parsed.words ∧ parsed.words ≠ [] := by
  unfold parse at hparse
  split at hparse
  · cases hparse
  rename_i tokens htokens
  obtain ⟨tree, hproper, htree, rfl⟩ := (readLine_eq_some_iff tokens parsed).mp hparse
  obtain ⟨command, hcommand, hredirects⟩ := exists_command_of_plain hplain
  obtain ⟨hpipelines, -⟩ := hproper.pipelines
  rw [hcommand] at hpipelines
  have hproperCommand := (hpipelines _ mem_cons_self).commands command mem_cons_self
  have hwords : tree.tables.words = CommandTree.words command := by
    rw [LineTree.tables, hcommand]
    rfl
  rw [LineTree.tokens_eq, hcommand] at htree
  have hspelled : tokens = CommandTree.words command ++ tree.last.toList := by
    rw [← htree, ← tokens_eq_words hproperCommand.items hredirects]
    rfl
  have hlast : ∀ token ∈ tree.last.toList, token.type ≠ .word := by
    intro token htoken
    rw [hproper.last token (mem_toList.mp htoken)]
    decide
  rw [hwords]
  refine ⟨⟨type_of_mem_words hproperCommand.items, (visible line).length, tree.last.toList,
    le_refl _, hlast, ?_⟩, hproperCommand.named⟩
  rw [← hspelled]
  exact tokensFrom_of_tokenize htokens

theorem bound_of_reads {front rest : Text} {words : List Token} (hreads : Reads front rest words) :
    ∀ word ∈ words, word.start + word.len ≤ (front ++ rest).length := by
  induction words generalizing front rest with
  | nil => exact nofun
  | cons token later ih =>
    obtain ⟨gap, word, after, rfl, hgap, hword⟩ := hreads.exists_word (cons_ne_nil _ _)
    obtain ⟨others, hcons, hlater⟩ := hreads.read_word hgap hword
    obtain ⟨rfl, rfl⟩ := cons.inj hcons
    intro other hother
    rcases mem_cons.mp hother with rfl | hmem
    · rw [wordToken]
      simp only [length_append]
      omega
    · have hbound := ih hlater other hmem
      simpa [append_assoc] using hbound

/-! ## Arguments -/

def arguments (context : ExpandContext) (line : Text) (parsed : Line) : List (ℕ × Text) :=
  parsed.words.tail.map fun word =>
    (word.start, expand context true (spanOf line word.start word.len))

theorem length_visible (line : Text) : (visible line).length = lengthInt16 line.length := by
  have hle : lengthInt16 line.length ≤ line.length := by
    unfold lengthInt16
    split
    · exact Nat.mod_le _ _
    · exact Nat.zero_le _
  rw [visible, length_take, min_eq_left hle]

theorem spanOf_visible {line : Text} {word : Token}
    (hbound : word.start + word.len ≤ (visible line).length) :
    spanOf line word.start word.len = spanOf (visible line) word.start word.len := by
  rw [length_visible] at hbound
  exact drop_take_of_take_eq (by rw [visible, take_take, min_self]) hbound

theorem head_span_visible {line : Text} {words : List Token}
    (hreads : Reads [] (visible line) words) :
    words.head?.map (fun word => spanOf line word.start word.len) =
      words.head?.map (fun word => spanOf (visible line) word.start word.len) := by
  cases words with
  | nil => rfl
  | cons word words =>
    exact congrArg some (spanOf_visible (bound_of_reads hreads word mem_cons_self))

/-- Without a dollar sign, the arguments are the words of the part that is parsed. -/
theorem arguments_eq_slices (context : ExpandContext) {line : Text} {parsed : Line}
    (hreads : Reads [] (visible line) parsed.words) (hdollar : charDollar ∉ visible line) :
    arguments context line parsed = parsed.words.tail.map (slice (visible line)) := by
  refine map_congr_left fun word hword => ?_
  have hspan := spanOf_visible (bound_of_reads hreads word (mem_of_mem_tail hword))
  have hfree : charDollar ∉ spanOf (visible line) word.start word.len := fun hmem =>
    hdollar (mem_of_mem_drop (mem_of_mem_take hmem))
  rw [hspan]
  exact congrArg _ (expandFrom_eq_unquoted context .outside hfree)

/-! ## The name of the command -/

/-- A command that takes its options by position, with spaces between them, has no named
ones, holds no value and is not waiting for one.  Its name is what `SetCommand` takes, and
has no blank in it. -/
structure Positional (command : Command) : Prop where
  named : command.cmd ≠ []
  short : command.cmd.length < cmdSizeMax
  name : ∀ char ∈ command.cmd, isBlank char = false ∧ char ≠ 0
  options : command.options = replicate cmdOptionMax .cleared
  waiting : command.waitingoptionindx = none
  accepts : command.acceptArgsOptions = true
  separator : command.optionseparator = some separatorSpace

theorem areStrEquals_iff {name str : Text} {limit : ℕ} (hname : 0 ∉ name)
    (hlimit : (cString str).length ≤ limit) :
    areStrEquals name str limit = true ↔ cString str = name := by
  rw [areStrEquals, cString_of_notMem hname, decide_eq_true_iff]
  constructor
  · rintro ⟨hlength, htake⟩
    rw [take_of_length_le (by omega), take_of_length_le hlimit] at htake
    exact htake.symm
  · rintro rfl
    exact ⟨rfl, rfl⟩

variable {command : Command}

section

variable (hcommand : Positional command)

include hcommand

theorem Positional.name_free :
    0 ∉ command.cmd := fun hmem => (hcommand.name 0 hmem).2 rfl

theorem Positional.blank_free :
    charBlank ∉ command.cmd := fun hmem => absurd (hcommand.name charBlank hmem).1 (by decide)

/-- A line that a command is matched with starts with its name, and at most one byte stands
between that and the first space. -/
theorem name_of_isCommandMatch {before after : Text}
    (hfound : cStrstr (before ++ charBlank :: after) separatorSpace = some before.length)
    (hfree : 0 ∉ before)
    (hmatch : isCommandMatch command.cmd (before ++ charBlank :: after) = true) :
    before.take (min (cmdSizeMax - 1) before.length) = command.cmd ∧
      ∃ between, before = command.cmd ++ between ∧ between.length ≤ 1 := by
  rw [isCommandMatch, hfound] at hmatch
  simp only [getD_some, Bool.and_eq_true, decide_eq_true_eq] at hmatch
  obtain ⟨⟨-, hlong⟩, hequal⟩ := hmatch
  rw [take_append_of_le_length (min_le_right _ _)] at hequal
  have hcut : cString (before.take (min (cmdSizeMax - 1) before.length)) =
      before.take (min (cmdSizeMax - 1) before.length) :=
    cString_of_notMem fun hmem => hfree (mem_of_mem_take hmem)
  rw [areStrEquals_iff hcommand.name_free (by rw [hcut, length_take]; omega), hcut] at hequal
  refine ⟨hequal, before.drop (min (cmdSizeMax - 1) before.length), ?_, ?_⟩
  · rw [← hequal, take_append_drop]
  · rw [length_drop]
    omega

theorem isCommandMatch_self : isCommandMatch command.cmd command.cmd = true := by
  have hnone : cStrstr command.cmd separatorSpace = none := by
    rw [eq_none_iff_forall_ne_some]
    intro place hplace
    obtain ⟨before, after, hname, -⟩ := (cStrstr_singleton_eq_some_iff (by decide)).mp hplace
    exact hcommand.blank_free (by rw [hname]; simp)
  have hshort := hcommand.short
  have hself : cString command.cmd = command.cmd := cString_of_notMem hcommand.name_free
  have hwhole : min cmdSizeMax command.cmd.length = command.cmd.length := by omega
  have hpart : min (cmdSizeMax - 1) command.cmd.length = command.cmd.length := by omega
  simp only [isCommandMatch, hnone, hself, getD_none, hwhole, hpart, take_length,
    Bool.and_eq_true, decide_eq_true_eq]
  refine ⟨⟨length_pos_of_ne_nil hcommand.named, le_refl _⟩, ?_⟩
  exact (areStrEquals_iff hcommand.name_free (by rw [hself])).mpr hself

end

/-! ## What a line leaves in the options -/

/-- No value is read from a line whose name goes to its end. -/
theorem read_of_no_space (command : Command) {line : Text} {len : ℕ}
    (hend : min len ((cStrstr line separatorSpace).getD len) = len) :
    (command.read line len).options = command.options := by
  rw [Command.read]
  dsimp only
  split
  · split
    · split
      · rw [if_neg (by omega)]
      · rw [if_neg (by omega)]
    · rfl
  · rfl

/-- The sign that makes a line one of named options, past the name. -/
def assignAt (command : Command) (line : Text) (cmdEnd : ℕ) : Option ℕ :=
  if 0 < command.optionindx then cStrstr (line.drop cmdEnd) assignOperator else none

/-- A line whose name is found is read past the space behind the name. -/
theorem read_of_space (hcommand : Positional command) {line : Text}
    {len cmdEnd : ℕ} (hfound : cStrstr line separatorSpace = some cmdEnd) (hend : cmdEnd < len)
    (hpositive : 0 < cmdEnd) (hname : line.take (min (cmdSizeMax - 1) cmdEnd) = command.cmd) :
    command.read line len = match assignAt command line cmdEnd with
      | some offset =>
        if cmdEnd + offset < len ∧ 0 < offset then
          (readNamed command.optionseparator len len cmdEnd (cmdEnd + offset) line
            command.options).1
        else
          { result := cmdErrorInval, args := line, options := command.options }
      | none =>
        if cmdEnd + 1 < len then
          let values := readValues (some separatorSpace) len cmdOptionMax 0 (cmdEnd + 1) line
            command.options
          { result := pdiOk, args := values.1, options := values.2 }
        else
          { result := pdiOk, args := line, options := command.options } := by
  have hmin : min len cmdEnd = cmdEnd := min_eq_right (le_of_lt hend)
  rw [Command.read, hfound]
  simp only [getD_some, hmin, hpositive, hname, isCommandMatch_self hcommand,
    hcommand.waiting, hcommand.accepts, hcommand.separator, true_and]
  rfl

def valueAt (reading : Reading) (index : ℕ) : Option (ℕ × Text) :=
  reading.options[index]?.bind (CommandOption.value reading.args)

/-- No option of a command that was not given anything holds a value. -/
theorem valueAt_of_cleared (hcommand : Positional command) {reading : Reading}
    (hoptions : reading.options = command.options) (index : ℕ) : valueAt reading index = none := by
  rw [valueAt, hoptions, hcommand.options, getElem?_replicate]
  split <;> rfl

/-- Without the sign of a named option, the options are the values of the text. -/
theorem valueAt_read (hcommand : Positional command) {line : Text}
    {len cmdEnd : ℕ} (hfound : cStrstr line separatorSpace = some cmdEnd) (hend : cmdEnd < len)
    (hpositive : 0 < cmdEnd) (hname : line.take (min (cmdSizeMax - 1) cmdEnd) = command.cmd)
    (hlen : len ≤ line.length) (hassign : assignAt command line cmdEnd = none) {index : ℕ}
    (hindex : index < cmdOptionMax) :
    valueAt (command.read line len) index =
      (values cmdOptionMax (cmdEnd + 1) ((line.take len).drop (cmdEnd + 1)))[index]? := by
  have hlength : ((line.take len).drop (cmdEnd + 1)).length = len - (cmdEnd + 1) := by
    rw [length_drop, length_take, min_eq_left hlen]
  have hread := read_of_space hcommand hfound hend hpositive hname
  rw [hassign] at hread
  by_cases hmore : cmdEnd + 1 < len
  · rw [if_pos hmore] at hread
    have hclear : ∀ place option, 0 ≤ place → command.options[place]? = some option →
        option.optionval = none := by
      intro place option _ hoption
      rw [hcommand.options] at hoption
      rw [eq_of_mem_replicate (mem_of_getElem? hoption)]
      rfl
    have hroom : 0 + cmdOptionMax ≤ command.options.length := by
      rw [hcommand.options, length_replicate, zero_add]
    obtain ⟨-, -, hvalues⟩ := readValues_values hmore hlen hroom hclear rfl rfl
    have hvalue := hvalues index hindex
    rw [zero_add] at hvalue
    rw [hread, values, if_neg (by
      rw [← length_eq_zero_iff]
      omega)]
    exact hvalue
  · rw [if_neg hmore] at hread
    rw [valueAt_of_cleared hcommand (by rw [hread]), values, if_pos (by
      rw [← length_eq_zero_iff]
      omega)]
    rfl

def StartPast (low : ℕ) (options : List CommandOption) : Prop :=
  ∀ option ∈ options, ∀ place ∈ option.optionval, low < place

theorem StartPast.give {low : ℕ} {options : List CommandOption} (hoptions : StartPast low options)
    {span : Span} (hspan : low < span.start) (index : ℕ) :
    StartPast low (options.modify index (.give span)) := by
  intro option hoption place hplace
  obtain ⟨position, hposition⟩ := mem_iff_getElem?.mp hoption
  rw [getElem?_modify] at hposition
  obtain ⟨before, hbefore, rfl⟩ := map_eq_some_iff.mp hposition
  by_cases hindex : index = position
  · rw [if_pos hindex] at hplace
    rw [← some.inj (mem_def.mp hplace)]
    exact hspan
  · rw [if_neg hindex] at hplace
    exact hoptions before (mem_of_getElem? hbefore) place hplace

theorem le_valueEnd {separator : Option Text} {len start : ℕ} (hstart : start ≤ len) (args : Text) :
    start ≤ valueEnd separator len args start := by
  refine Nat.le_min.mpr ⟨hstart, ?_⟩
  cases strstrUnquoted (args.drop start) separator with
  | none => exact hstart
  | some offset => exact Nat.le_add_right start offset

/-- A value that is given by name starts past the sign. -/
theorem startPast_readNamed {separator : Option Text} {len low passes start assign : ℕ}
    {args : Text} {options : List CommandOption} (hlow : low ≤ assign) (hassign : assign < len)
    (hoptions : StartPast low options) :
    StartPast low (readNamed separator len passes start assign args options).1.options := by
  induction passes generalizing start assign args options with
  | zero => exact hoptions
  | succ passes ih =>
    have hstop : assign + 1 ≤ valueEnd separator len args (assign + 1) := le_valueEnd hassign args
    have hspan : low < (stripQuotes args (assign + 1)
        (valueEnd separator len args (assign + 1))).start :=
      lt_of_lt_of_le (Nat.lt_succ_of_le hlow) (Nat.le_add_right _ _)
    have hgiven := hoptions.give hspan
    rw [readNamed]
    dsimp only
    split
    · exact hoptions
    · split
      · exact hgiven _
      · split
        · rename_i offset _ hmore
          exact ih (le_trans (le_trans hlow (Nat.le_of_succ_le hstop))
            (le_trans (Nat.le_add_right _ _) (Nat.le_add_right _ offset))) hmore.2 (hgiven _)
        · exact hgiven _

/-! ## Agreement -/

variable {command : Command} {context : ExpandContext} {line : Text} {parsed : Line}

/-- Every option holds the argument word of its number, and the others hold nothing. -/
def Agrees (command : Command) (context : ExpandContext) (line : Text) (parsed : Line) : Prop :=
  ∀ index < cmdOptionMax,
    valueAt (command.read line (lengthInt16 line.length)) index =
      (arguments context line parsed)[index]?

/-- The options read as the argument words do, wherever they stand. -/
def SameTexts (command : Command) (context : ExpandContext) (line : Text) (parsed : Line) : Prop :=
  ∀ index < cmdOptionMax,
    (valueAt (command.read line (lengthInt16 line.length)) index).map Prod.snd =
      (arguments context line parsed)[index]?.map Prod.snd

/-- The text behind the first space fits, when the command reads values from it by position.
A line whose name goes to its end has no argument, and so has one that is read as named
options. -/
def Fitting (command : Command) (line : Text) (parsed : Line) : Prop :=
  match cStrstr (visible line) separatorSpace with
  | none => parsed.words.tail = []
  | some cmdEnd =>
    if (assignAt command line cmdEnd).isSome then
      parsed.words.tail = []
    else
      Fits cmdOptionMax ((visible line).drop (cmdEnd + 1))

theorem values_length_le (slots start : ℕ) (rest : Text) :
    (values slots start rest).length ≤ slots := by
  rw [values]
  split
  · exact Nat.zero_le _
  · exact pieces_length_le _ _ _

/-- A space that is found in the part that is parsed is the first one of the line. -/
theorem cStrstr_of_visible {cmdEnd : ℕ}
    (hfound : cStrstr (visible line) separatorSpace = some cmdEnd) :
    ∃ before rest, visible line = before ++ charBlank :: rest ∧ before.length = cmdEnd ∧
      0 ∉ before ∧ charBlank ∉ before ∧ cStrstr line separatorSpace = some cmdEnd := by
  obtain ⟨before, rest, hvisible, hlength, hlimit, hfree, hnew⟩ :=
    (cStrstr_singleton_eq_some_iff (by decide)).mp hfound
  refine ⟨before, rest, hvisible, hlength, hfree, hnew, ?_⟩
  refine (cStrstr_singleton_eq_some_iff (by decide)).mpr
    ⟨before, rest ++ line.drop (lengthInt16 line.length), ?_, hlength, hlimit, hfree, hnew⟩
  rw [← cons_append, ← append_assoc, ← hvisible, visible, take_append_drop]

theorem no_space_of_visible (hnone : cStrstr (visible line) separatorSpace = none) :
    min (lengthInt16 line.length)
      ((cStrstr line separatorSpace).getD (lengthInt16 line.length)) = lengthInt16 line.length := by
  refine min_eq_left ?_
  cases hline : cStrstr line separatorSpace with
  | none => exact le_refl _
  | some place =>
    rw [getD_some]
    by_contra hshort
    obtain ⟨before, after, hsplit, rfl, hlimit, hfree, hnew⟩ :=
      (cStrstr_singleton_eq_some_iff (by decide)).mp hline
    obtain ⟨extra, hextra⟩ := Nat.exists_eq_add_of_lt (Nat.not_le.mp hshort)
    have hvisible : visible line = before ++ charBlank :: after.take extra := by
      rw [visible, hextra, hsplit, add_assoc, take_length_add_append, take_succ_cons]
    have hfound := (cStrstr_singleton_eq_some_iff (by decide)).mpr
      ⟨before, after.take extra, hvisible, rfl, hlimit, hfree, hnew⟩
    cases hnone.symm.trans hfound

/-- The argument words are the words of the text behind the first space. -/
theorem reads_past_name (hcommand : Positional command) {words : List Token}
    {before rest between : Text} (hreads : Reads [] (before ++ charBlank :: rest) words)
    (hname : words.head?.map (fun word =>
      spanOf (before ++ charBlank :: rest) word.start word.len) = some command.cmd)
    (hbefore : before = command.cmd ++ between) (hbetween : between.length ≤ 1) :
    Reads (before ++ [charBlank]) rest words.tail := by
  have hwords : words ≠ [] := by
    rintro rfl
    cases hname
  obtain ⟨gap, word, after, hsplit, hgap, hword⟩ := hreads.exists_word hwords
  rw [hsplit] at hreads hname
  obtain ⟨later, rfl, hlater⟩ := hreads.read_word hgap hword
  have hspan := spanOf_wordToken [] gap word after
  obtain rfl : word = command.cmd := hspan.symm.trans (some.inj hname)
  -- the line starts with the name, which starts with no blank
  have hstart : gap = [] := by
    cases gap with
    | nil => rfl
    | cons char gap =>
      obtain ⟨first, tail, hcons⟩ := exists_cons_of_ne_nil hcommand.named
      rw [hbefore, hcons] at hsplit
      obtain ⟨rfl, -⟩ := cons.inj hsplit
      have hfirst := (hcommand.name first (by rw [hcons]; exact mem_cons_self)).1
      exact absurd (hgap first mem_cons_self) (by rw [hfirst]; exact Bool.false_ne_true)
  subst hstart
  rw [hbefore, append_assoc] at hsplit
  obtain rfl : between ++ charBlank :: rest = after := append_cancel_left hsplit
  rw [hbefore]
  obtain ⟨-, hends⟩ := exists_word_of_wordRest hword.ends
  match between, hbetween with
  | [], _ =>
    rw [append_nil]
    exact hlater.skip_blank rfl
  | [char], _ =>
    -- a tab or an operator behind the name
    rcases hends char rfl with hchar | hoperator
    · exact (hlater.skip_blank hchar).skip_blank rfl
    · exact (hlater.skip_operator hoperator).skip_blank rfl

/-! ## Lists of values -/

theorem forall_getElem?_eq_iff {α : Type*} {left right : List α} {bound : ℕ}
    (hleft : left.length ≤ bound) (hright : right.length ≤ bound) :
    (∀ index < bound, left[index]? = right[index]?) ↔ left = right := by
  refine ⟨fun hsame => ext_getElem? fun index => ?_, fun hequal index _ => by rw [hequal]⟩
  by_cases hindex : index < bound
  · exact hsame index hindex
  · rw [getElem?_eq_none (by omega), getElem?_eq_none (by omega)]

theorem forall_none_eq_getElem?_iff {α : Type*} {list : List α} {bound : ℕ} (hbound : 0 < bound) :
    (∀ index < bound, none = list[index]?) ↔ list = [] := by
  refine ⟨fun hnone => ?_, fun hlist index _ => by rw [hlist]; rfl⟩
  exact head?_eq_none_iff.mp (head?_eq_getElem?.trans (hnone 0 hbound).symm)

theorem forall₂_alike_refl (list : List (ℕ × Text)) : List.Forall₂ Alike list list := by
  induction list with
  | nil => exact .nil
  | cons value list ih => exact .cons ⟨rfl, .inl rfl⟩ ih

/-- Values that read as words that are not empty do. -/
theorem forall₂_alike_of_texts {left right : List (ℕ × Text)}
    (htexts : left.map Prod.snd = right.map Prod.snd) (hsome : ∀ word ∈ right, word.2 ≠ []) :
    List.Forall₂ Alike left right := by
  induction right generalizing left with
  | nil =>
    rw [map_eq_nil_iff.mp htexts]
    exact .nil
  | cons word right ih =>
    obtain ⟨value, values, rfl, hvalue, hvalues⟩ := map_eq_cons_iff.mp htexts
    exact .cons ⟨hvalue, .inr (hsome word mem_cons_self)⟩
      (ih hvalues fun other hother => hsome other (mem_cons_of_mem word hother))

/-! ## The theorem -/

section

variable {before rest : Text} {words : List Token}

theorem fits_of_forall₂ (hreads : Reads (before ++ [charBlank]) rest words)
    (halike : List.Forall₂ Alike (values cmdOptionMax (before.length + 1) rest)
      (words.map (slice (before ++ charBlank :: rest)))) : Fits cmdOptionMax rest := by
  refine fits_of_alike hreads ?_
  rwa [append_assoc, length_append]

theorem values_eq_slices (hreads : Reads (before ++ [charBlank]) rest words)
    (hcount : words.length ≤ cmdOptionMax) (hfits : Fits cmdOptionMax rest) :
    values cmdOptionMax (before.length + 1) rest =
      words.map (slice (before ++ charBlank :: rest)) := by
  have hvalues := values_of_fits hfits hreads hcount
  rwa [append_assoc, length_append]
    at hvalues

end

section

variable (hcommand : Positional command)
  (hoptions : (command.read line (lengthInt16 line.length)).options = command.options)
  (harguments : arguments context line parsed = parsed.words.tail.map (slice (visible line)))

include hcommand hoptions harguments

theorem agrees_iff_of_unset : Agrees command context line parsed ↔ parsed.words.tail = [] := by
  simp only [Agrees, valueAt_of_cleared hcommand hoptions]
  rw [forall_none_eq_getElem?_iff (by decide), harguments, map_eq_nil_iff]

theorem sameTexts_iff_of_unset :
    SameTexts command context line parsed ↔ parsed.words.tail = [] := by
  simp only [SameTexts, valueAt_of_cleared hcommand hoptions, map_none, ← getElem?_map]
  rw [forall_none_eq_getElem?_iff (by decide), harguments, map_eq_nil_iff, map_eq_nil_iff]

end

/-- Where the sign of named options stands in the text behind the first space. -/
theorem assign_in_rest {before rest : Text} {offset : ℕ}
    (hvisible : visible line = before ++ charBlank :: rest)
    (hassign : assignAt command line before.length = some offset)
    (hinside : before.length + offset < lengthInt16 line.length) (hoffset : 0 < offset) :
    rest[offset - 1]? = some 0x3D := by
  have hsign : cStrstr (line.drop before.length) assignOperator = some offset := by
    rw [assignAt] at hassign
    split at hassign
    · exact hassign
    · cases hassign
  obtain ⟨front, after, hdrop, rfl, -⟩ := (cStrstr_singleton_eq_some_iff (by decide)).mp hsign
  have hplace : (line)[before.length + front.length]? = some 0x3D := by
    rw [← getElem?_drop, hdrop]
    simp
  have hseen : (visible line)[before.length + front.length]? = some 0x3D := by
    rw [visible, getElem?_take_of_lt hinside, hplace]
  rw [hvisible, getElem?_append_right (Nat.le_add_right _ _), Nat.add_sub_cancel_left] at hseen
  obtain ⟨inner, hinner⟩ := Nat.exists_eq_succ_of_ne_zero (Nat.ne_of_gt hoffset)
  rw [hinner] at hseen ⊢
  exact hseen

section

variable {before rest : Text} (hcommand : Positional command)
  (hvisible : visible line = before ++ charBlank :: rest)
  (hfound : cStrstr line separatorSpace = some before.length) (hpositive : 0 < before.length)
  (hname : line.take (min (cmdSizeMax - 1) before.length) = command.cmd)
  (hreads : Reads (before ++ [charBlank]) rest parsed.words.tail)
  (harguments : arguments context line parsed = parsed.words.tail.map (slice (visible line)))

include hvisible in
theorem length_lt_of_visible : before.length < lengthInt16 line.length := by
  rw [← length_visible, hvisible, length_append, length_cons]
  omega

include hcommand hvisible hfound hpositive hname hreads harguments

/-- A line that is read as named options holds the sign in its words, and no value stands
where the first of them does. -/
theorem agrees_iff_of_assign {offset : ℕ}
    (hassign : assignAt command line before.length = some offset) :
    Agrees command context line parsed ↔ parsed.words.tail = [] := by
  have hlen := length_lt_of_visible hvisible
  have hread := read_of_space hcommand hfound hlen hpositive hname
  rw [hassign] at hread
  dsimp only at hread
  by_cases hinside : before.length + offset < lengthInt16 line.length ∧ 0 < offset
  · rw [if_pos hinside] at hread
    have hsign := assign_in_rest hvisible hassign hinside.1 hinside.2
    have hwords : parsed.words.tail ≠ [] := by
      intro hnone
      rw [hnone] at hreads
      rcases hreads.wordless _ (mem_of_getElem? hsign) with hblank | hoperator
      · cases hblank
      · cases hoperator
    refine iff_of_false (fun hagrees => ?_) hwords
    obtain ⟨gap, word, after, rfl, hgap, hword⟩ := hreads.exists_word hwords
    obtain ⟨later, hlater, -⟩ := hreads.read_word hgap hword
    have hfirst := hagrees 0 (by decide)
    rw [harguments, hlater, map_cons, getElem?_cons_zero, hvisible, ← singleton_append,
      ← append_assoc before, slice_wordToken, length_append, hread] at hfirst
    obtain ⟨option, hoption, hvalue⟩ := bind_eq_some_iff.mp hfirst
    obtain ⟨place, hplace, hpair⟩ := map_eq_some_iff.mp hvalue
    have hclear : StartPast (before.length + offset) command.options := by
      intro other hother place hplace
      rw [hcommand.options] at hother
      rw [eq_of_mem_replicate hother] at hplace
      cases hplace
    have hpast := startPast_readNamed (le_refl _) hinside.1 hclear option
      (mem_of_getElem? hoption) place hplace
    -- the sign is not among the blanks before the first word
    have hbefore : gap.length ≤ offset - 1 := by
      by_contra hshort
      rw [getElem?_append_left (by omega)] at hsign
      cases hgap _ (mem_of_getElem? hsign)
    have hstart : place = before.length + 1 + gap.length := congrArg Prod.fst hpair
    omega
  · rw [if_neg hinside] at hread
    exact agrees_iff_of_unset hcommand (by rw [hread]) harguments

/-- A line that is read by position agrees with its words when the text behind the first
space fits. -/
theorem agrees_iff_of_values (hcount : parsed.words.tail.length ≤ cmdOptionMax)
    (hassign : assignAt command line before.length = none) :
    (Agrees command context line parsed ↔ Fits cmdOptionMax rest) ∧
      ((∀ argument ∈ arguments context line parsed, argument.2 ≠ []) →
        (SameTexts command context line parsed ↔ Fits cmdOptionMax rest)) := by
  have hlen := length_lt_of_visible hvisible
  have hrest : (line.take (lengthInt16 line.length)).drop (before.length + 1) = rest := by
    rw [← visible, hvisible, append_cons]
    exact drop_left' length_append
  have hwhole : lengthInt16 line.length ≤ line.length := by
    rw [← length_visible]
    exact length_take_le' _ _
  have hread : ∀ index < cmdOptionMax,
      valueAt (command.read line (lengthInt16 line.length)) index =
        (values cmdOptionMax (before.length + 1) rest)[index]? := by
    intro index hindex
    rw [valueAt_read hcommand hfound hlen hpositive hname hwhole hassign hindex, hrest]
  have hvalues := values_length_le cmdOptionMax (before.length + 1) rest
  have hwords : (parsed.words.tail.map (slice (visible line))).length ≤ cmdOptionMax := by
    rwa [length_map]
  have hfits := values_eq_slices hreads hcount
  rw [← hvisible] at hfits
  constructor
  · have hagrees : Agrees command context line parsed ↔
        values cmdOptionMax (before.length + 1) rest =
          parsed.words.tail.map (slice (visible line)) := by
      rw [← forall_getElem?_eq_iff hvalues hwords, Agrees, harguments]
      exact forall₂_congr fun index hindex => by rw [hread index hindex]
    rw [hagrees]
    refine ⟨fun hsame => fits_of_forall₂ hreads ?_, hfits⟩
    rw [← hvisible, hsame]
    exact forall₂_alike_refl _
  · intro hsome
    have htexts : SameTexts command context line parsed ↔
        (values cmdOptionMax (before.length + 1) rest).map Prod.snd =
          (parsed.words.tail.map (slice (visible line))).map Prod.snd := by
      have hleft : ((values cmdOptionMax (before.length + 1) rest).map Prod.snd).length ≤
          cmdOptionMax := by rwa [length_map]
      have hright : ((parsed.words.tail.map (slice (visible line))).map Prod.snd).length ≤
          cmdOptionMax := by rwa [length_map]
      rw [← forall_getElem?_eq_iff hleft hright, SameTexts, harguments]
      refine forall₂_congr fun index hindex => ?_
      rw [hread index hindex, getElem?_map, getElem?_map, getElem?_map, getElem?_map]
    rw [htexts]
    refine ⟨fun hsame => fits_of_forall₂ hreads ?_, fun hfit => by rw [hfits hfit]⟩
    rw [← hvisible]
    rw [harguments] at hsome
    exact forall₂_alike_of_texts hsame hsome

end

/-- For a plain line without a dollar sign that a command is matched with, and whose first
word is the name of the command, the options are the argument words, each in its place and
without its quotes, exactly when the line is fitting.  When no argument is empty, and the
command has reserved no options, it is enough that the texts are the same. -/
theorem options_are_arguments_iff (context : ExpandContext) (hparse : parse line = some parsed)
    (hplain : parsed.isPlain = true) (hdollar : charDollar ∉ visible line)
    (hcommand : Positional command)
    (hname : parsed.words.head?.map (fun word => spanOf line word.start word.len) =
      some command.cmd)
    (hmatch : isCommandMatch command.cmd line = true)
    (hcount : parsed.words.tail.length ≤ cmdOptionMax) :
    (Agrees command context line parsed ↔ Fitting command line parsed) ∧
      (command.optionindx = 0 → (∀ argument ∈ arguments context line parsed, argument.2 ≠ []) →
        (SameTexts command context line parsed ↔ Fitting command line parsed)) := by
  obtain ⟨hreads, hwords⟩ := reads_of_plain hparse hplain
  have harguments := arguments_eq_slices context hreads hdollar
  cases hspace : cStrstr (visible line) separatorSpace with
  | none =>
    have hoptions := read_of_no_space command (no_space_of_visible hspace)
    rw [Fitting, hspace]
    exact ⟨agrees_iff_of_unset hcommand hoptions harguments,
      fun _ _ => sameTexts_iff_of_unset hcommand hoptions harguments⟩
  | some cmdEnd =>
    obtain ⟨before, rest, hvisible, rfl, hfree, -, hfound⟩ := cStrstr_of_visible hspace
    have hline : line = before ++ charBlank :: (rest ++ line.drop (lengthInt16 line.length)) := by
      rw [← cons_append, ← append_assoc, ← hvisible, visible, take_append_drop]
    obtain ⟨hcut, between, hbefore, hbetween⟩ :=
      name_of_isCommandMatch hcommand (hline ▸ hfound) hfree (hline ▸ hmatch)
    have hpast := reads_past_name hcommand (hvisible ▸ hreads)
      (hvisible ▸ (head_span_visible hreads ▸ hname)) hbefore hbetween
    have hpositive : 0 < before.length := by
      rw [hbefore, length_append]
      exact Nat.add_pos_left (length_pos_of_ne_nil hcommand.named) _
    have hshort : line.take (min (cmdSizeMax - 1) before.length) = command.cmd := by
      rw [hline, take_append_of_le_length (min_le_right _ _), hcut]
    cases hassign : assignAt command line before.length with
    | some offset =>
      rw [Fitting, hspace]
      dsimp only
      rw [hassign]
      refine ⟨?_, fun hindx => ?_⟩
      · exact agrees_iff_of_assign hcommand hvisible hfound hpositive hshort hpast harguments hassign
      · rw [assignAt, hindx] at hassign
        cases hassign
    | none =>
      obtain ⟨hagrees, htexts⟩ := agrees_iff_of_values hcommand hvisible hfound hpositive hshort
        hpast harguments hcount hassign
      have hrest : (visible line).drop (before.length + 1) = rest := by
        rw [hvisible, append_cons]
        exact drop_left' length_append
      rw [Fitting, hspace]
      dsimp only
      rw [hassign, hrest]
      exact ⟨hagrees, fun _ => htexts⟩

def positionalCommand (name : Text) : Command where
  cmd := name
  options := replicate cmdOptionMax .cleared
  optionindx := 0
  waitingoptionindx := none
  acceptArgsOptions := true
  optionseparator := some separatorSpace

def emptyContext : ExpandContext := { lastExit := pdiOk, environment := fun _ => [] }

def plainLine (words : List (ℕ × ℕ)) : Line where
  pipelines := [{ commandStart := 0, commandCount := 1, join := .first }]
  commands := [{ wordStart := 0, wordCount := words.length, redirectStart := 0, redirectCount := 0 }]
  redirects := []
  words := words.map fun word => { type := .word, start := word.1, len := word.2 }

/-- A line with one space before each of its arguments, one of which is quoted. -/
theorem options_are_arguments_of_copy :
    Fitting (positionalCommand (text "cp")) (text "cp 'a b' c")
      (plainLine [(0, 2), (3, 5), (9, 1)]) := by
  have hcommand : Positional (positionalCommand (text "cp")) :=
    ⟨by decide, by decide, by decide +kernel, rfl, rfl, rfl, rfl⟩
  have hagrees : Agrees (positionalCommand (text "cp")) emptyContext (text "cp 'a b' c")
      (plainLine [(0, 2), (3, 5), (9, 1)]) := by
    unfold Agrees
    decide +kernel
  exact (options_are_arguments_iff emptyContext (by decide +kernel) rfl (by decide) hcommand
    (by decide) (by decide) (by decide)).1.mp hagrees

/-- A second space between two arguments is read as an empty option, and an escaped blank
ends an option. -/
theorem options_are_not_arguments :
    (parse (text "cp a  b") = some (plainLine [(0, 2), (3, 1), (6, 1)]) ∧
      isCommandMatch (text "cp") (text "cp a  b") = true ∧
      arguments emptyContext (text "cp a  b") (plainLine [(0, 2), (3, 1), (6, 1)]) =
        [(3, text "a"), (6, text "b")] ∧
      (range cmdOptionMax).map
          (valueAt ((positionalCommand (text "cp")).read (text "cp a  b") 7)) =
        [some (3, text "a"), some (5, []), some (6, text "b")]) ∧
    (parse (text "cat a\\ b") = some (plainLine [(0, 3), (4, 4)]) ∧
      isCommandMatch (text "cat") (text "cat a\\ b") = true ∧
      arguments emptyContext (text "cat a\\ b") (plainLine [(0, 3), (4, 4)]) = [(4, text "a b")] ∧
      (range cmdOptionMax).map
          (valueAt ((positionalCommand (text "cat")).read (text "cat a\\ b") 8)) =
        [some (4, text "a\\"), some (7, text "b"), none]) := by
  decide +kernel

end PdiStack.PositionalOptions
