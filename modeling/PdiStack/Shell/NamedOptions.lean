import PdiStack.Shell.PositionalOptions

/-!
# The buffer of an option name

A pass of the loop over named options copies all bytes between the value before it and the
sign into a buffer of `CMD_OPTION_SIZE_MAX` bytes.  The loop ends and stays in the line, but
the copy has no bound: the buffer holds a name of at most two bytes, the blank before it
counted, and where a value ends with the longest line the next index does not fit 16 bits.
The quotes of a value are taken out where it stands, so what the passes copy are the names
of the line as it came in.
-/

namespace PdiStack.NamedOptions

open StringOperations CommandBase PositionalOptions List
open ShellParser (lengthInt16)

/-! ## Names in a line -/

/-- The fields `name=value` that follow each other in a line, up to the first whose name is
none of the options. -/
def fields (separator : Option Text) (options : List CommandOption) (len : ℕ) (line : Text) :
    ℕ → ℕ → List NamedPass
  | 0, _ => []
  | count + 1, start =>
      match cStrstr (line.drop start) assignOperator with
      | none => []
      | some offset =>
          if 0 < offset ∧ start + offset < len then
            let name := (line.drop start).take offset
            let stop := valueEnd separator len line (start + offset + assignOperator.length)
            let next := stop + separatorLength separator
            if (getOptionIndex options (strtrim name)).isSome then
              ⟨name, start, start + offset, stop, some next⟩ ::
                fields separator options len line count next
            else
              [⟨name, start, start + offset, stop, none⟩]
          else
            []

/-- What a pass reads lies in the line, and the name holds no NUL. -/
structure Inside (len : ℕ) (pass : NamedPass) : Prop where
  start_lt : pass.start < pass.assign
  assign_lt : pass.assign < pass.stop
  stop_le : pass.stop ≤ len
  name : 0 ∉ pass.name

section Fields

variable {separator : Option Text} {options : List CommandOption} {len : ℕ} {line : Text}
  {start : ℕ}

theorem notMem_name {rest : Text} {offset : ℕ}
    (hfound : cStrstr rest assignOperator = some offset) : 0 ∉ rest.take offset := by
  obtain ⟨before, after, rfl, rfl, -, hfree, -⟩ :=
    (cStrstr_singleton_eq_some_iff (by decide)).mp hfound
  rw [take_left]
  exact hfree

theorem fields_inside {count : ℕ} :
    ∀ field ∈ fields separator options len line count start, Inside len field := by
  induction count generalizing start with
  | zero => nofun
  | succ count ih =>
    rw [fields]
    split
    case h_1 => nofun
    case h_2 offset hfound =>
      split
      case isFalse => nofun
      case isTrue hsign =>
        have hfield : ∀ resume, Inside len ⟨(line.drop start).take offset, start, start + offset,
            valueEnd separator len line (start + offset + assignOperator.length), resume⟩ :=
          fun _ => ⟨Nat.lt_add_of_pos_right hsign.1, le_valueEnd hsign.2 line, min_le_left _ _,
            notMem_name hfound⟩
        dsimp only
        split
        · exact forall_mem_cons.mpr ⟨hfield _, ih⟩
        · exact forall_mem_singleton.mpr (hfield _)

theorem fields_eq_nil {count : ℕ} (hsign : ∀ offset,
      cStrstr (line.drop start) assignOperator = some offset →
        ¬ (0 < offset ∧ start + offset < len)) :
    fields separator options len line count start = [] := by
  cases count with
  | zero => rfl
  | succ count =>
    rw [fields]
    split
    · rfl
    case h_2 hfound => rw [if_neg (hsign _ hfound)]

/-- A line has no more fields than bytes. -/
theorem fields_fuel {count more : ℕ} (hcount : len ≤ start + count) :
    fields separator options len line (count + more) start =
      fields separator options len line count start := by
  induction count generalizing start with
  | zero => rw [fields_eq_nil (by omega), fields_eq_nil (by omega)]
  | succ count ih =>
    rw [add_right_comm, fields, fields]
    split
    · rfl
    case h_2 offset _ =>
      split
      case isFalse => rfl
      case isTrue hsign =>
        have hstop : start + offset + assignOperator.length ≤
            valueEnd separator len line (start + offset + assignOperator.length) :=
          le_valueEnd hsign.2 line
        dsimp only
        rw [ih (by omega)]

end Fields

/-! ## The loop -/

theorem getOptionIndex_give {options : List CommandOption} {index : ℕ} {span : Span} :
    getOptionIndex (options.modify index (.give span)) = getOptionIndex options := by
  have hnames : (options.modify index (.give span)).map (·.option) = options.map (·.option) := by
    apply ext_getElem?
    intro place
    rw [getElem?_map, getElem?_map, getElem?_modify]
    cases options[place]? with
    | none => rfl
    | some option =>
      simp only [Option.map_some]
      split <;> rfl
  have hindex : ∀ (given : List CommandOption) (name : Text),
      (given.findIdx? fun option => areStrEquals option.option name cmdOptionSizeMax) =
        (given.map (·.option)).findIdx? fun option => areStrEquals option name cmdOptionSizeMax :=
    fun _ _ => by rw [findIdx?_map]; rfl
  funext name
  simp only [getOptionIndex, hindex, hnames]

/-- Packing a value leaves the line behind it, and its length. -/
theorem stripQuotes_keeps {args : Text} {start stop next : ℕ} (hstart : start ≤ stop)
    (hstop : stop ≤ args.length) (hnext : stop ≤ next) :
    (stripQuotes args start stop).args.drop next = args.drop next ∧
      (stripQuotes args start stop).args.length = args.length := by
  rw [stripQuotes_eq hstop hstart rfl]
  have hinside := lead_add_trimmed_length_le ((args.take stop).drop start)
  have hkept := unquoted_length_le .outside (trimmed ((args.take stop).drop start))
  rw [length_drop, length_take, min_eq_left hstop] at hinside
  exact ⟨drop_spliced (by omega) (by omega), length_spliced (by omega)⟩

/-- The passes of the loop are the fields of the line. -/
theorem passes_readNamed {separator : Option Text} {options given : List CommandOption}
    {len passes start offset : ℕ} {line args : Text} (hlen : len ≤ line.length)
    (hlength : args.length = line.length) (hargs : args.drop start = line.drop start)
    (hgiven : getOptionIndex given = getOptionIndex options)
    (hfound : cStrstr (line.drop start) assignOperator = some offset)
    (hsign : 0 < offset ∧ start + offset < len) :
    (readNamed separator len passes start (start + offset) args given).2 =
      fields separator options len line passes start := by
  induction passes generalizing start offset args given with
  | zero => rfl
  | succ passes ih =>
    have hname : (args.take (start + offset)).drop start = (line.drop start).take offset := by
      rw [drop_take, Nat.add_sub_cancel_left, hargs]
    have hvalue : args.drop (start + offset + assignOperator.length) =
        line.drop (start + offset + assignOperator.length) := by
      rw [add_assoc, ← drop_drop, hargs, drop_drop]
    have hend : valueEnd separator len args (start + offset + assignOperator.length) =
        valueEnd separator len line (start + offset + assignOperator.length) := by
      rw [valueEnd, valueEnd, hvalue]
    have hstart : start + offset + assignOperator.length ≤
        valueEnd separator len line (start + offset + assignOperator.length) :=
      le_valueEnd hsign.2 line
    have hstop : valueEnd separator len line (start + offset + assignOperator.length) ≤ len :=
      min_le_left _ _
    rw [readNamed, fields, hfound]
    simp only [hname, hend, hgiven, if_pos hsign]
    cases getOptionIndex options (strtrim ((line.drop start).take offset)) with
    | none => rfl
    | some index =>
      generalize valueEnd separator len line (start + offset + assignOperator.length) = stop
        at hstart hstop ⊢
      obtain ⟨hkept, hsame⟩ := @stripQuotes_keeps args _ _ _ hstart (by omega)
        (Nat.le_add_right stop (separatorLength separator))
      have hdrop : args.drop (stop + separatorLength separator) =
          line.drop (stop + separatorLength separator) := by
        rw [← Nat.add_sub_cancel' (show start ≤ stop + separatorLength separator by omega),
          ← drop_drop, hargs, drop_drop]
      rw [hdrop] at hkept
      simp only [hkept, Option.isSome_some, if_true]
      by_cases hmore : stop + separatorLength separator < len
      · rw [if_pos hmore]
        cases hnext : cStrstr (line.drop (stop + separatorLength separator)) assignOperator with
        | none => rw [fields_eq_nil (by simp [hnext])]
        | some offset' =>
          dsimp only
          by_cases hsign' : 0 < offset' ∧ stop + separatorLength separator + offset' < len
          · rw [if_pos hsign', ih (hsame.trans hlength) hkept (getOptionIndex_give.trans hgiven)
              hnext hsign']
          · rw [if_neg hsign', fields_eq_nil (by rw [hnext]; rintro _ ⟨⟩; exact hsign')]
      · rw [if_neg hmore, fields_eq_nil (by omega)]

/-- The passes that `executeCommand` makes on a line, when the loop is cut off no earlier than
`more` passes past the length of the line. -/
def commandPasses (command : Command) (args : Text) (more : ℕ) : List NamedPass :=
  let len := lengthInt16 args.length
  let cmdEnd := min len ((cStrstr args separatorSpace).getD len)
  if 0 < cmdEnd ∧ isCommandMatch command.cmd (args.take (min (cmdSizeMax - 1) cmdEnd)) then
    match assignAt command args cmdEnd with
    | some offset =>
        if cmdEnd + offset < len ∧ 0 < offset then
          (readNamed command.optionseparator len (len + more) cmdEnd (cmdEnd + offset) args
            command.options).2
        else []
    | none => []
  else []

/-- The fields behind the name of a command that has options. -/
def commandFields (command : Command) (line : Text) : List NamedPass :=
  let len := lengthInt16 line.length
  let cmdEnd := min len ((cStrstr line separatorSpace).getD len)
  if 0 < cmdEnd ∧ isCommandMatch command.cmd (line.take (min (cmdSizeMax - 1) cmdEnd)) ∧
      0 < command.optionindx then
    fields command.optionseparator command.options len line len cmdEnd
  else []

/-- Every pass copies no more than the buffer takes, leaves a NUL in it and reads inside the
line, at indices of 16 bits; the loop ends, and a name too long is refused. -/
structure StaysWithin (command : Command) (args : Text) : Prop where
  copied : ∀ pass ∈ commandPasses command args 0, pass.name.length ≤ cmdOptionSizeMax
  terminated : ∀ pass ∈ commandPasses command args 0,
    0 ∈ pass.name ++ List.replicate (cmdOptionSizeMax - pass.name.length) 0
  inside : ∀ pass ∈ commandPasses command args 0,
    Inside (lengthInt16 args.length) pass ∧ ∀ next ∈ pass.resume, next < 2 ^ 15
  ends : ∀ more, commandPasses command args more = commandPasses command args 0
  refused : ∀ pass ∈ commandPasses command args 0, cmdOptionSizeMax < pass.name.length →
    (command.read args (lengthInt16 args.length)).result = cmdErrorOpt

theorem commandPasses_eq_fields {command : Command} {line : Text} {more : ℕ} :
    commandPasses command line more = commandFields command line := by
  have hlen : lengthInt16 line.length ≤ line.length := by
    rw [lengthInt16]
    split
    · exact Nat.mod_le _ _
    · exact Nat.zero_le _
  unfold commandPasses commandFields assignAt
  dsimp only
  generalize min (lengthInt16 line.length) _ = cmdEnd
  by_cases hcommand : 0 < cmdEnd ∧
      isCommandMatch command.cmd (line.take (min (cmdSizeMax - 1) cmdEnd))
  · by_cases hoptions : 0 < command.optionindx
    · rw [if_pos hcommand, if_pos hoptions, if_pos ⟨hcommand.1, hcommand.2, hoptions⟩]
      cases hfound : cStrstr (line.drop cmdEnd) assignOperator with
      | none => rw [fields_eq_nil (by simp [hfound])]
      | some offset =>
        dsimp only
        by_cases hsign : 0 < offset ∧ cmdEnd + offset < lengthInt16 line.length
        · rw [if_pos hsign.symm, passes_readNamed hlen rfl rfl rfl hfound hsign,
            fields_fuel (Nat.le_add_left _ _)]
        · rw [if_neg (hsign ∘ And.symm), fields_eq_nil (by rw [hfound]; rintro _ ⟨⟩; exact hsign)]
    · rw [if_pos hcommand, if_neg hoptions, if_neg fun h => hoptions h.2.2]
  · rw [if_neg hcommand, if_neg fun h => hcommand ⟨h.1, h.2.1⟩]

/-- The loop stays within its buffers exactly when every name in the line, up to the first
that is no option, has fewer bytes than the buffer, and the next field starts at an index of
16 bits. -/
theorem commandPasses_within_iff (command : Command) (args : Text) :
    StaysWithin command args ↔ ∀ field ∈ commandFields command args,
      field.name.length < cmdOptionSizeMax ∧ ∀ next ∈ field.resume, next < 2 ^ 15 := by
  have hinside : ∀ field ∈ commandFields command args,
      Inside (lengthInt16 args.length) field := by
    rw [commandFields]
    split
    · exact fields_inside
    · exact nofun
  rw [← commandPasses_eq_fields] at hinside ⊢
  constructor
  · intro hstays pass hpass
    refine ⟨?_, (hstays.inside pass hpass).2⟩
    have hzero := (mem_append.mp (hstays.terminated pass hpass)).resolve_left
      (hinside pass hpass).name
    exact Nat.lt_of_sub_ne_zero (mem_replicate.mp hzero).1
  · intro hfits
    refine ⟨fun pass hpass => le_of_lt (hfits pass hpass).1, fun pass hpass => ?_,
      fun pass hpass => ⟨hinside pass hpass, (hfits pass hpass).2⟩,
      fun _ => commandPasses_eq_fields.trans commandPasses_eq_fields.symm,
      fun pass hpass hlong => ?_⟩
    · exact mem_append_right _ (mem_replicate.mpr
        ⟨Nat.sub_ne_zero_of_lt (hfits pass hpass).1, rfl⟩)
    · exact absurd (hfits pass hpass).1 (Nat.not_lt_of_gt hlong)

/-- A name of four letters is copied with the blank before it, five bytes for a buffer of
three. -/
theorem commandPasses_long_name :
    ¬ StaysWithin { positionalCommand (text "pin") with optionindx := 1 } (text "pin mode=1") := by
  intro hstays
  have hpass : (⟨text " mode", 3, 8, 10, none⟩ : NamedPass) ∈
      commandPasses { positionalCommand (text "pin") with optionindx := 1 } (text "pin mode=1") 0 := by
    decide +kernel
  exact absurd (hstays.copied _ hpass) (by decide)

end PdiStack.NamedOptions
