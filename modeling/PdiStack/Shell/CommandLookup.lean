import PdiStack.Shell.PositionalOptions

/-!
# The command that a line names

`GetCommand` goes over the registered names and takes the first that `isCommandMatch`
finds at the start of a line.  The name is what stands before the first space, or the
first bytes of a line without one, and it is compared in a buffer of `CMD_SIZE_MAX`
bytes.  The first word of the shell ends and is quoted by other rules.
-/

namespace PdiStack.CommandLookup

open StringOperations ShellParser CommandLine CommandBase PositionalOptions List Option

def getCommand (registry : List Text) (cmdname : Text) : Option Text :=
  registry.find? fun name => isCommandMatch name cmdname

/-- What `isCommandMatch` compares with the names, if it compares anything. -/
def comparedName (line : Text) : Option Text :=
  let cmdMaxLen := min cmdSizeMax (cString line).length
  let cmdEnd := (cStrstr line separatorSpace).getD cmdMaxLen
  if 0 < cmdEnd ∧ cmdEnd ≤ cmdMaxLen then some (cString (line.take (min (cmdSizeMax - 1) cmdEnd)))
  else none

/-- The first word of a line that is accepted as plain, expanded and without its quotes. -/
def firstWord (context : ExpandContext) (line : Text) : Option Text :=
  (parse line).bind fun parsed =>
    if parsed.isPlain then
      parsed.words.head?.map fun word => expand context true (spanOf line word.start word.len)
    else none

def isName (name : Text) : Bool := name.length < cmdSizeMax && !name.contains 0

structure Registry (registry : List Text) : Prop where
  distinct : registry.Nodup
  names : ∀ name ∈ registry, isName name = true

variable {line name : Text} {registry : List Text}

theorem isName_iff : isName name = true ↔ name.length < cmdSizeMax ∧ 0 ∉ name := by
  simp [isName]

theorem length_cString_take_le {line : Text} {limit : ℕ} :
    (cString (line.take limit)).length ≤ limit :=
  (List.takeWhile_prefix _).length_le.trans (length_take_le _ _)

theorem isCommandMatch_iff (hname : isName name = true) :
    isCommandMatch name line = true ↔ comparedName line = some name := by
  simp only [isCommandMatch, comparedName, Bool.and_eq_true, decide_eq_true_eq,
    areStrEquals_iff (isName_iff.mp hname).2 (length_cString_take_le)]
  split
  case isTrue hinside => rw [and_iff_right hinside, some_inj]
  case isFalse houtside =>
    exact iff_of_false (fun hmatch => houtside hmatch.1) (some_ne_none _).symm

theorem isName_of_compared (hcompared : comparedName line = some name) : isName name = true := by
  unfold comparedName at hcompared
  dsimp only at hcompared
  split at hcompared
  · cases hcompared
    refine isName_iff.mpr ⟨(length_cString_take_le).trans_lt ?_, fun hmem => ?_⟩
    · exact (min_le_left _ _).trans_lt (by decide)
    · exact absurd (mem_takeWhile_imp hmem) (by decide)
  · cases hcompared

theorem getCommand_eq_some_iff (hregistry : Registry registry) :
    getCommand registry line = some name ↔ comparedName line = some name ∧ name ∈ registry := by
  have hcompares : ∀ found, getCommand registry line = some found →
      comparedName line = some found ∧ found ∈ registry := by
    intro found hfound
    have hmem := mem_of_find?_eq_some hfound
    have hmatch := find?_some hfound
    exact ⟨(isCommandMatch_iff (hregistry.names found hmem)).mp hmatch, hmem⟩
  refine ⟨hcompares name, fun ⟨hcompared, hmem⟩ => ?_⟩
  have hmatch := (isCommandMatch_iff (hregistry.names name hmem)).mpr hcompared
  cases hfound : getCommand registry line with
  | none => exact absurd hmatch (find?_eq_none.mp hfound name hmem)
  | some found => rw [← hcompared, (hcompares found hfound).1]

/-- A plain line is given the command that its first word names, and none when that word
is not registered, whatever the registry, exactly when the text that is compared is the
word, or is missing for a word that cannot be registered. -/
theorem getCommand_firstWord_iff (context : ExpandContext) (line : Text) :
    (∀ registry, Registry registry →
      getCommand registry line = (firstWord context line).filter (registry.contains ·)) ↔
      comparedName line = (firstWord context line).filter isName := by
  constructor
  · intro hright
    ext name
    rw [filter_eq_some_iff]
    by_cases hname : isName name = true
    · have hregistry : Registry [name] := ⟨nodup_singleton name, forall_mem_singleton.mpr hname⟩
      have hfound := @getCommand_eq_some_iff line name [name] hregistry
      rw [hright [name] hregistry] at hfound
      simpa [hname] using hfound.symm
    · exact iff_of_false (fun hcompared => hname (isName_of_compared hcompared)) fun hword =>
        hname hword.2
  · intro hcompared registry hregistry
    ext name
    rw [getCommand_eq_some_iff hregistry, hcompared, filter_eq_some_iff,
      filter_eq_some_iff, contains_iff_mem]
    exact ⟨fun hword => ⟨hword.1.1, hword.2⟩,
      fun hword => ⟨⟨hword.1, hregistry.names name hword.2⟩, hword.2⟩⟩

/-- A word of eight letters runs the command of its first seven, and a tab behind a name
hides it. -/
theorem getCommand_misses_word :
    Registry [text "history", text "ls"] ∧
      firstWord emptyContext (text "historyx") = some (text "historyx") ∧
      getCommand [text "history", text "ls"] (text "historyx") = some (text "history") ∧
      firstWord emptyContext (text "ls\t/") = some (text "ls") ∧
      getCommand [text "history", text "ls"] (text "ls\t/") = none := by
  refine ⟨⟨by decide, by decide⟩, by decide +kernel, by decide, by decide +kernel, by decide⟩

end PdiStack.CommandLookup
