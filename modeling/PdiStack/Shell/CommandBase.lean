import Mathlib
import PdiStack.Shell.CommandLine

/-!
# The options of a command

`executeCommand` of `CommandBase` reads a command line into the options of the command it
is for, and then runs the command.  A line names its options, `c=value`, or gives them by
position.  A value is a span of the line: where it starts and how long it is.  The quotes
around it are removed by packing what is left of the span towards its start, in the buffer
that holds the line.
-/

namespace PdiStack.CommandBase

open StringOperations ShellParser CommandLine List

def cmdSizeMax : ℕ := 8
def cmdOptionMax : ℕ := 3
def cmdOptionSizeMax : ℕ := 3

def cmdErrorInvalid : ℤ := -3604
def cmdErrorOpt : ℤ := -3605

def separatorSpace : Text := [charBlank]

def assignOperator : Text := [0x3D]

/-- `CommandOption`.  The value is a span of the line that is being read. -/
structure CommandOption where
  option : Text
  optionval : Option ℕ
  optionvalsize : ℕ
deriving DecidableEq, Repr

/-- An option without a name and without a value, as `Clear(true)` leaves it. -/
def CommandOption.cleared : CommandOption := { option := [], optionval := none, optionvalsize := 0 }

/-- What an option holds, where the line lies in `args`: the place of its value and the
bytes there. -/
def CommandOption.value (args : Text) (option : CommandOption) : Option (ℕ × Text) :=
  option.optionval.map fun start => (start, (args.drop start).take option.optionvalsize)

/-- `CommandBase`, as far as reading a line looks at it.  `optionindx` is the number of
options that were added or reserved. -/
structure Command where
  cmd : Text
  options : List CommandOption
  optionindx : ℕ
  waitingoptionindx : Option ℕ
  acceptArgsOptions : Bool
  optionseparator : Option Text
deriving DecidableEq, Repr

/-- `isCommandMatch` for a whole name. -/
def isCommandMatch (cmdname cmd : Text) : Bool :=
  let cmdMaxLen := min cmdSizeMax (cString cmd).length
  let cmdEnd := (cStrstr cmd separatorSpace).getD cmdMaxLen
  let argcmdLen := min (cmdSizeMax - 1) cmdEnd
  0 < cmdEnd && cmdEnd ≤ cmdMaxLen && areStrEquals cmdname (cmd.take argcmdLen) argcmdLen

def getOptionIndex (options : List CommandOption) (name : Option Text) : Option ℕ :=
  name.bind fun name =>
    options.findIdx? fun option => areStrEquals option.option name cmdOptionSizeMax

/-- The loop of `stripQuotes`: every character that stays is moved to the place to write.
No more passes are made than there are characters to read. -/
def pack : ℕ → QuoteFlags → Text → ℕ → ℕ → ℕ → Text × ℕ
  | 0, _, args, _, write, _ => (args, write)
  | passes + 1, flags, args, read, write, stop =>
      if read < stop then
        let char := args.getD read 0
        if char = charBackslash ∧ ¬ flags.insingle ∧ read + 1 < stop then
          pack passes flags (args.set write (args.getD (read + 1) 0)) (read + 2) (write + 1) stop
        else
          match flags.toggled char with
          | some flags => pack passes flags args (read + 1) write stop
          | none => pack passes flags (args.set write char) (read + 1) (write + 1) stop
      else
        (args, write)

/-- What is left of a text without its quotes and the backslashes of its escapes. -/
def unquoted : QuoteFlags → Text → Text
  | _, [] => []
  | flags, char :: rest =>
      if char = charBackslash ∧ ¬ flags.insingle then
        match rest with
        | [] => [char]
        | escaped :: rest => escaped :: unquoted flags rest
      else
        match flags.toggled char with
        | some flags => unquoted flags rest
        | none => char :: unquoted flags rest

theorem unquoted_cons (flags : QuoteFlags) (char : UInt8) (rest : Text) :
    unquoted flags (char :: rest) =
      if char = charBackslash ∧ ¬ flags.insingle then
        match rest with
        | [] => [char]
        | escaped :: rest => escaped :: unquoted flags rest
      else
        match flags.toggled char with
        | some flags => unquoted flags rest
        | none => char :: unquoted flags rest := by
  rw [unquoted.eq_def]
  rfl

theorem unquoted_length_le (flags : QuoteFlags) (span : Text) :
    (unquoted flags span).length ≤ span.length := by
  fun_induction unquoted flags span with
  | case1 => exact le_refl 0
  | case2 flags char h => exact le_refl 1
  | case3 flags char h escaped rest ih =>
    rw [length_cons, length_cons, length_cons]
    omega
  | case4 flags char rest h toggled htoggled ih =>
    rw [length_cons]
    omega
  | case5 flags char rest h htoggled ih =>
    rw [length_cons, length_cons]
    omega

variable {args : Text} {len start stop write : ℕ}

theorem take_succ_set (hwrite : write < args.length) (char : UInt8) :
    (args.set write char).take (write + 1) = args.take write ++ [char] := by
  rw [take_add_one, take_set_of_le (le_refl write), getElem?_set_self hwrite]
  rfl

/-- A text with a piece of it replaced. -/
def spliced (args : Text) (write : ℕ) (kept : Text) : Text :=
  args.take write ++ kept ++ args.drop (write + kept.length)

theorem spliced_set (hwrite : write < args.length) (char : UInt8) (kept : Text) :
    spliced (args.set write char) (write + 1) kept = spliced args write (char :: kept) := by
  rw [spliced, spliced, take_succ_set hwrite, drop_set_of_lt (by omega), length_cons,
    append_assoc, append_assoc, append_assoc, singleton_append,
    cons_append, add_assoc, add_comm 1]

theorem spliced_nil (args : Text) (write : ℕ) : spliced args write [] = args := by
  rw [spliced, append_nil, length_nil, add_zero, take_append_drop]

/-- The reader is never behind the writer, so what is still to be read is as it was. -/
theorem drop_take_set {read : ℕ} (hbehind : write < read) (char : UInt8) :
    ((args.set write char).take stop).drop read = (args.take stop).drop read := by
  rw [take_set, drop_set_of_lt hbehind]

theorem drop_take_cons {read : ℕ} (hread : read < stop) (hstop : stop ≤ args.length) :
    (args.take stop).drop read = args.getD read 0 :: (args.take stop).drop (read + 1) := by
  rw [drop_eq_getElem_cons (by rw [length_take]; omega), getElem_take,
    getD_eq_getElem?_getD, getElem?_eq_getElem (by omega), Option.getD_some]

theorem drop_take_nil {read : ℕ} (hread : stop ≤ read) : (args.take stop).drop read = [] := by
  rw [drop_eq_nil_iff, length_take]
  omega

/-- Packing a span in the buffer is reading it into a list and writing that back. -/
theorem pack_eq {passes read : ℕ} {flags : QuoteFlags} (hwrite : write ≤ read)
    (hstop : stop ≤ args.length) (hpasses : stop - read ≤ passes) :
    pack passes flags args read write stop =
      (spliced args write (unquoted flags ((args.take stop).drop read)),
        write + (unquoted flags ((args.take stop).drop read)).length) := by
  induction passes generalizing flags args read write with
  | zero =>
    rw [drop_take_nil (by omega), unquoted, spliced_nil]
    rfl
  | succ passes ih =>
    rw [pack]
    by_cases hread : read < stop
    · -- one character is written at most, and at a place that has been read
      have hwritten : ∀ (flags : QuoteFlags) (char : UInt8) (past : ℕ), read < past →
          pack passes flags (args.set write char) past (write + 1) stop =
            (spliced args write (char :: unquoted flags ((args.take stop).drop past)),
              write + (char :: unquoted flags ((args.take stop).drop past)).length) := by
        intro flags char past hpast
        rw [ih (by omega) (by rwa [length_set]) (by omega), drop_take_set (by omega),
          spliced_set (by omega), length_cons, add_right_comm, add_assoc]
      rw [if_pos hread, drop_take_cons hread hstop, unquoted_cons]
      by_cases hescape : args.getD read 0 = charBackslash ∧ ¬ flags.insingle
      · rw [if_pos hescape]
        by_cases hlast : read + 1 < stop
        · rw [if_pos ⟨hescape.1, hescape.2, hlast⟩, drop_take_cons hlast hstop]
          exact hwritten flags _ _ (by omega)
        · have hplain : flags.toggled charBackslash = none := by
            simp [QuoteFlags.toggled, charBackslash]
          rw [if_neg (fun h => hlast h.2.2), hescape.1, drop_take_nil (by omega)]
          have hrest := hwritten flags charBackslash (read + 1) (by omega)
          rw [drop_take_nil (by omega)] at hrest
          exact hrest
      · rw [if_neg hescape, if_neg (fun h => hescape ⟨h.1, h.2.1⟩)]
        cases flags.toggled (args.getD read 0) with
        | some toggled => exact ih (by omega) hstop (by omega)
        | none => exact hwritten flags _ _ (by omega)
    · rw [if_neg hread, drop_take_nil (by omega), unquoted, spliced_nil]
      rfl

/-- A line and a span of it. -/
structure Span where
  args : Text
  start : ℕ
  stop : ℕ
deriving DecidableEq, Repr

def trimmed (span : Text) : Text := (span.dropWhile isBlank).rdropWhile isBlank

def lead (span : Text) : ℕ := (span.takeWhile isBlank).length

/-- `stripQuotes`: blanks at both ends are left out of the span, then it is packed. -/
def stripQuotes (args : Text) (start stop : ℕ) : Span :=
  let inside := (args.take stop).drop start
  let start := start + lead inside
  let stop := start + (trimmed inside).length
  let packed := pack (stop - start) .outside args start start stop
  { args := packed.1, start := start, stop := packed.2 }

theorem lead_add_trimmed_length_le (span : Text) :
    lead span + (trimmed span).length ≤ span.length := by
  have hbody := (List.rdropWhile_prefix isBlank (span.dropWhile isBlank)).length_le
  have hwhole := congrArg length (takeWhile_append_dropWhile (p := isBlank) (l := span))
  rw [length_append] at hwhole
  rw [lead, trimmed]
  omega

/-- What is left of a span lies in it, past the blanks it starts with. -/
theorem trimmed_eq_drop_take (span : Text) :
    trimmed span = (span.drop (lead span)).take (trimmed span).length := by
  have hdrop : (span.takeWhile isBlank ++ span.dropWhile isBlank).drop (lead span) =
      span.dropWhile isBlank := drop_left' rfl
  rw [takeWhile_append_dropWhile] at hdrop
  rw [hdrop]
  exact prefix_iff_eq_take.mp (List.rdropWhile_prefix isBlank (span.dropWhile isBlank))

/-- `stripQuotes` writes the span back without its quotes, past the blanks before it. -/
theorem stripQuotes_eq (hstop : stop ≤ args.length) (hstart : start ≤ stop) {inside : Text}
    (hinside : (args.take stop).drop start = inside) :
    stripQuotes args start stop =
      { args := spliced args (start + lead inside) (unquoted .outside (trimmed inside))
        start := start + lead inside
        stop := start + lead inside + (unquoted .outside (trimmed inside)).length } := by
  have hlength : inside.length = stop - start := by
    rw [← hinside, length_drop, length_take, min_eq_left hstop]
  have hfits := lead_add_trimmed_length_le inside
  have hbody : (args.take (start + lead inside + (trimmed inside).length)).drop
      (start + lead inside) = trimmed inside := by
    have hdrop : ∀ past, inside.drop past = (args.drop (start + past)).take (stop - (start + past)) := by
      intro past
      rw [← hinside, drop_drop, drop_take]
    conv_rhs => rw [trimmed_eq_drop_take, hdrop, take_take]
    rw [drop_take]
    congr 1
    omega
  rw [stripQuotes, hinside, pack_eq (le_refl _) (by omega) (le_refl _), hbody]

def valueEnd (separator : Option Text) (len : ℕ) (args : Text) (start : ℕ) : ℕ :=
  min len (((strstrUnquoted (args.drop start) separator).map (start + ·)).getD len)

def separatorLength (separator : Option Text) : ℕ :=
  match separator with
  | none => 1
  | some separator => separator.length

def CommandOption.give (span : Span) (option : CommandOption) : CommandOption :=
  { option with optionval := some span.start, optionvalsize := span.stop - span.start }

/-- The loop over values that are given by position, from the option `index` on.  The
first number is how many options are left. -/
def readValues (separator : Option Text) (len : ℕ) :
    ℕ → ℕ → ℕ → Text → List CommandOption → Text × List CommandOption
  | 0, _, _, args, options => (args, options)
  | left + 1, index, start, args, options =>
      let stop := valueEnd separator len args start
      let span := stripQuotes args start stop
      let options := options.modify index (CommandOption.give span)
      let start := stop + separatorLength separator
      if start < len then
        readValues separator len left (index + 1) start span.args options
      else
        (span.args, options)

/-- What reading a line leaves. -/
structure Reading where
  result : ℤ
  args : Text
  options : List CommandOption
deriving DecidableEq, Repr

/-- A pass of the loop over named options: the bytes copied for the name, where they start, the
sign, the end of the value and the index that the loop goes on from, unless it breaks off. -/
structure NamedPass where
  name : Text
  start : ℕ
  assign : ℕ
  stop : ℕ
  resume : Option ℕ
deriving DecidableEq

/-- The loop over values that are given by name.  A name is what stands between the value
before it and the sign; it is read whole, where the source copies it into a buffer of
`CMD_OPTION_SIZE_MAX` bytes. -/
def readNamed (separator : Option Text) (len : ℕ) :
    ℕ → ℕ → ℕ → Text → List CommandOption → Reading × List NamedPass
  | 0, _, _, args, options => (⟨pdiOk, args, options⟩, [])
  | passes + 1, start, assign, args, options =>
      let name := (args.take assign).drop start
      let valueStart := assign + assignOperator.length
      let stop := valueEnd separator len args valueStart
      let span := stripQuotes args valueStart stop
      match getOptionIndex options (strtrim name) with
      | none => (⟨cmdErrorOpt, span.args, options⟩, [⟨name, start, assign, stop, none⟩])
      | some index =>
          let options := options.modify index (CommandOption.give span)
          let next := stop + separatorLength separator
          let pass : NamedPass := ⟨name, start, assign, stop, some next⟩
          match if next < len then cStrstr (span.args.drop next) assignOperator else none with
          | none => (⟨pdiOk, span.args, options⟩, [pass])
          | some offset =>
              if 0 < offset ∧ next + offset < len then
                let rest := readNamed separator len passes next (next + offset) span.args options
                (rest.1, pass :: rest.2)
              else
                (⟨pdiOk, span.args, options⟩, [pass])

/-- `executeCommand` up to the call of `execute`, for a command that is not asked for the
option it waits for. -/
def Command.read (command : Command) (args : Text) (len : ℕ) : Reading :=
  let cmdEnd := min len ((cStrstr args separatorSpace).getD len)
  if 0 < cmdEnd then
    let argcmd := args.take (min (cmdSizeMax - 1) cmdEnd)
    if isCommandMatch command.cmd argcmd then
      match if 0 < command.optionindx then cStrstr (args.drop cmdEnd) assignOperator else none with
      | some offset =>
          if cmdEnd + offset < len ∧ 0 < offset then
            (readNamed command.optionseparator len len cmdEnd (cmdEnd + offset) args
              command.options).1
          else
            { result := cmdErrorInval, args := args, options := command.options }
      | none =>
          if command.acceptArgsOptions ∧ cmdEnd + 1 < len then
            let first := command.waitingoptionindx.getD 0
            let values := readValues command.optionseparator len (cmdOptionMax - first) first
              (cmdEnd + 1) args command.options
            { result := pdiOk, args := values.1, options := values.2 }
          else
            { result := pdiOk, args := args, options := command.options }
    else
      { result := cmdErrorInvalid, args := args, options := command.options }
  else
    { result := cmdErrorNoent, args := args, options := command.options }

/-- `executeCommand` with the command's own `execute`, on a line and the length that
`runLine` hands it. -/
def executeCommand (command : Command) (execute : Text → List CommandOption → ℤ) (line : Text) :
    ℤ :=
  let reading := command.read line (lengthInt16 line.length)
  if reading.result = pdiOk then execute reading.args reading.options else reading.result

def cutLength (rest : Text) : ℕ := (strstrUnquoted rest (some separatorSpace)).getD rest.length

/-- The values that are given by position, at most `left` of them, where `rest` is the text
of the line from `start` on. -/
def pieces : ℕ → ℕ → Text → List (ℕ × Text)
  | 0, _, _ => []
  | left + 1, start, rest =>
      let piece := rest.take (cutLength rest)
      (start + lead piece, unquoted .outside (trimmed piece)) ::
        if cutLength rest + 1 < rest.length then
          pieces left (start + (cutLength rest + 1)) (rest.drop (cutLength rest + 1))
        else
          []

theorem pieces_length_le (left start : ℕ) (rest : Text) :
    (pieces left start rest).length ≤ left := by
  induction left generalizing start rest with
  | zero => exact le_refl 0
  | succ left ih =>
    rw [pieces]
    split
    · exact Nat.succ_le_succ (ih _ _)
    · exact Nat.succ_le_succ (Nat.zero_le left)

theorem strstrUnquoted_space (rest : Text) :
    strstrUnquoted rest (some separatorSpace) =
      Scan.scan QuoteFlags.next (· = 0) (fun flags head => flags = .outside ∧ head = charBlank)
        searchLimit .outside rest :=
  strstrUnquotedFrom_singleton (by decide) (by decide) searchLimit .outside rest

theorem cutLength_le (rest : Text) : cutLength rest ≤ rest.length := by
  rw [cutLength, strstrUnquoted_space]
  cases hfound : Scan.scan _ _ _ _ _ rest with
  | none => exact le_refl _
  | some place => exact le_of_lt (Scan.scan_lt_length hfound)

/-- A value ends where its text does, whatever lies past the length of the line. -/
theorem valueEnd_space (hstart : start ≤ len) (hlen : len ≤ args.length) :
    valueEnd (some separatorSpace) len args start =
      start + cutLength ((args.take len).drop start) := by
  have hsplit : args.drop start = (args.take len).drop start ++ args.drop len := by
    conv_lhs => rw [← take_append_drop len args]
    refine drop_append_of_le_length ?_
    rwa [length_take, min_eq_left hlen]
  have hlength : ((args.take len).drop start).length = len - start := by
    rw [length_drop, length_take, min_eq_left hlen]
  rw [valueEnd, cutLength, strstrUnquoted_space, strstrUnquoted_space, hsplit,
    ← Scan.min_scan_append _ _ _ (args.drop len) (le_refl _)]
  cases Scan.scan _ _ _ _ _ ((args.take len).drop start ++ args.drop len) with
  | none =>
    rw [Option.map_none, Option.getD_none, Option.getD_none]
    omega
  | some place =>
    rw [Option.map_some, Option.getD_some, Option.getD_some]
    omega

theorem length_spliced {kept : Text} (hfits : write + kept.length ≤ args.length) :
    (spliced args write kept).length = args.length := by
  rw [spliced, length_append, length_append, length_take, length_drop]
  omega

theorem take_spliced {kept : Text} (hstop : stop ≤ write) (hwrite : write ≤ args.length) :
    (spliced args write kept).take stop = args.take stop := by
  rw [spliced, append_assoc, take_append_of_le_length, take_take, min_eq_left hstop]
  rw [length_take]
  omega

theorem drop_spliced {kept : Text} (hstart : write + kept.length ≤ start)
    (hwrite : write ≤ args.length) :
    (spliced args write kept).drop start = args.drop start := by
  have hfront : (args.take write ++ kept).length = write + kept.length := by
    rw [length_append, length_take, min_eq_left hwrite]
  rw [spliced, drop_append, drop_eq_nil_of_le (by omega), nil_append, drop_drop]
  congr 1
  omega

theorem spliced_drop_take {kept : Text} (hwrite : write ≤ args.length) :
    ((spliced args write kept).drop write).take kept.length = kept := by
  rw [spliced, append_assoc, drop_left' (by rw [length_take]; omega), take_left' rfl]

theorem drop_take_of_take_eq {other : Text} (hfront : args.take stop = other.take stop) {size : ℕ}
    (hsize : start + size ≤ stop) :
    (args.drop start).take size = (other.drop start).take size := by
  have hinside : ∀ text : Text, (text.drop start).take size =
      ((text.take stop).drop start).take size := by
    intro text
    rw [drop_take, take_take, min_eq_left (by omega)]
  rw [hinside args, hfront, ← hinside other]

/-- What one value leaves: its option holds the first piece, and the text past it is as it
was. -/
theorem stripQuotes_piece (hstart : start ≤ len) (hlen : len ≤ args.length) {rest : Text}
    (hrest : (args.take len).drop start = rest) :
    ∃ kept : Text, kept = unquoted .outside (trimmed (rest.take (cutLength rest))) ∧
      lead (rest.take (cutLength rest)) + kept.length ≤ cutLength rest ∧
      stripQuotes args start (start + cutLength rest) =
        { args := spliced args (start + lead (rest.take (cutLength rest))) kept
          start := start + lead (rest.take (cutLength rest))
          stop := start + lead (rest.take (cutLength rest)) + kept.length } := by
  have hcut := cutLength_le rest
  have hlength : rest.length = len - start := by
    rw [← hrest, length_drop, length_take, min_eq_left hlen]
  refine ⟨_, rfl, ?_, ?_⟩
  · have hkept := unquoted_length_le .outside (trimmed (rest.take (cutLength rest)))
    have htrimmed := lead_add_trimmed_length_le (rest.take (cutLength rest))
    rw [length_take] at htrimmed
    omega
  · refine stripQuotes_eq (by omega) (by omega) ?_
    rw [← hrest, drop_take, drop_take, take_take, min_eq_left, Nat.add_sub_cancel_left]
    rw [← drop_take, hrest]
    omega

theorem readValues_space {span : Span}
    (hstop : valueEnd (some separatorSpace) len args start = stop)
    (hspan : stripQuotes args start stop = span) (left index : ℕ) (options : List CommandOption) :
    readValues (some separatorSpace) len (left + 1) index start args options =
      if stop + 1 < len then
        readValues (some separatorSpace) len left (index + 1) (stop + 1) span.args
          (options.modify index (.give span))
      else
        (span.args, options.modify index (.give span)) := by
  subst hstop
  subst hspan
  rfl

/-- The values that are read are the pieces of the text, each at its place in the line. -/
theorem readValues_values {left index : ℕ} {options : List CommandOption} (hstart : start < len)
    (hlen : len ≤ args.length) (hleft : index + left ≤ options.length)
    (hclear : ∀ place option, index ≤ place → options[place]? = some option →
      option.optionval = none) {rest : Text} (hrest : (args.take len).drop start = rest)
    {result : Text × List CommandOption}
    (hresult : readValues (some separatorSpace) len left index start args options = result) :
    result.1.take start = args.take start ∧ (∀ place < index, result.2[place]? = options[place]?) ∧
      ∀ offset < left, result.2[index + offset]?.bind (CommandOption.value result.1) =
        (pieces left start rest)[offset]? := by
  induction left generalizing index start args options rest with
  | zero =>
    subst hresult
    exact ⟨rfl, fun _ _ => rfl, fun _ hless => absurd hless (Nat.not_lt_zero _)⟩
  | succ left ih =>
    have hlength : rest.length = len - start := by
      rw [← hrest, length_drop, length_take, min_eq_left hlen]
    have hcut := cutLength_le rest
    obtain ⟨kept, hkept, hfits, hspan⟩ := stripQuotes_piece (le_of_lt hstart) hlen hrest
    have hstop := valueEnd_space (le_of_lt hstart) hlen
    rw [hrest] at hstop
    rw [readValues_space hstop hspan] at hresult
    set write := start + lead (rest.take (cutLength rest)) with hwrite
    set packed := spliced args write kept with hpacked
    have hindex : index < options.length := by omega
    have hother : ∀ place, place ≠ index →
        (options.modify index (.give ⟨packed, write, write + kept.length⟩))[place]? =
          options[place]? :=
      fun place hne => getElem?_modify_ne _ _ (Ne.symm hne)
    -- the option keeps its value as long as the text up to the next value does not change
    have hfirst : ∀ final : Text, final.take (start + cutLength rest + 1) =
          packed.take (start + cutLength rest + 1) →
        (options.modify index (.give ⟨packed, write, write + kept.length⟩))[index]?.bind
          (CommandOption.value final) = some (write, kept) := by
      intro final hfinal
      have hkeeps : (final.drop write).take kept.length = kept := by
        rw [drop_take_of_take_eq hfinal (by omega), hpacked, spliced_drop_take (by omega)]
      rw [getElem?_modify_eq, getElem?_eq_getElem hindex]
      simp [CommandOption.value, CommandOption.give, hkeeps]
    by_cases hmore : start + cutLength rest + 1 < len
    · rw [if_pos hmore] at hresult
      have hrest' : (packed.take len).drop (start + cutLength rest + 1) =
          rest.drop (cutLength rest + 1) := by
        rw [drop_take, hpacked, drop_spliced (by omega) (by omega), ← drop_take, ← hrest,
          drop_drop, hrest, add_assoc]
      have hclear' : ∀ place option, index + 1 ≤ place →
          (options.modify index (.give ⟨packed, write, write + kept.length⟩))[place]? =
            some option → option.optionval = none := by
        intro place option hplace hoption
        rw [hother place (by omega)] at hoption
        exact hclear place option (by omega) hoption
      obtain ⟨htake, hplaces, hvalues⟩ := ih hmore
        (by rw [length_spliced (by omega)]; exact hlen)
        (by rw [length_modify]; omega) hclear' hrest' hresult
      refine ⟨?_, ?_, ?_⟩
      · have hfront := congrArg (take start) htake
        rw [take_take, take_take, min_eq_left (by omega)] at hfront
        rw [hfront, take_spliced (by omega) (by omega)]
      · intro place hplace
        rw [hplaces place (by omega), hother place (by omega)]
      · intro offset hoffset
        rw [pieces, if_pos (by omega)]
        cases offset with
        | zero =>
          rw [add_zero, hplaces index (Nat.lt_succ_self index), hfirst result.1 htake, ← hkept]
          rfl
        | succ offset =>
          rw [getElem?_cons_succ, ← add_assoc start, ← hvalues offset (by omega)]
          congr 2
          omega
    · rw [if_neg hmore] at hresult
      subst hresult
      refine ⟨?_, fun place hplace => hother place (by omega), ?_⟩
      · exact take_spliced (by omega) (by omega)
      intro offset hoffset
      rw [pieces, if_neg (by omega)]
      cases offset with
      | zero =>
        rw [add_zero, hfirst packed rfl, ← hkept]
        rfl
      | succ offset =>
        rw [hother _ (by omega)]
        cases hoption : options[index + (offset + 1)]? with
        | none => rfl
        | some option =>
          rw [Option.bind_some, CommandOption.value, hclear _ option (by omega) hoption]
          rfl

end PdiStack.CommandBase
