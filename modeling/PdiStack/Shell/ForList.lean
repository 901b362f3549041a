import PdiStack.Shell.Arguments
import PdiStack.Shell.ScriptRunner

/-!
# The list of a for line

`loopWord` takes the quotes and escapes of each word away and then splits what is left
on blanks, unless the word has a quote character in it.  An escaped blank is therefore
where a word is cut: the passes are one for each word exactly when no word has one.
-/

namespace PdiStack.ForList

open StringOperations ShellParser CommandBase Arguments ScriptRunner List

def wordText (rest : Text) (token : Token) : Text :=
  unquoted .outside (spanOf rest token.start token.len)

/-- The word has a quote character, or its text is not empty and has no blank. -/
def IsWhole (rest : Text) (token : Token) : Prop :=
  (∃ char ∈ spanOf rest token.start token.len, char = charSingleQuote ∨ char = charDoubleQuote) ∨
    wordText rest token ≠ [] ∧ ∀ char ∈ wordText rest token, isBlank char = false

variable {rest : Text} {token : Token}

/-- A word without a dollar sign is taken for itself and nothing else, or for others. -/
theorem wordsOfToken_spec (context : ExpandContext)
    (hdollar : charDollar ∉ spanOf rest token.start token.len) :
    (wordText rest token ∈ wordsOfToken context rest token ↔ IsWhole rest token) ∧
      (IsWhole rest token → wordsOfToken context rest token = [wordText rest token]) := by
  have hexpand : expand context true (spanOf rest token.start token.len) = wordText rest token :=
    expandFrom_eq_unquoted context .outside hdollar
  have hsingle : IsWhole rest token → wordsOfToken context rest token = [wordText rest token] := by
    rintro (hquote | ⟨hne, hblank⟩)
    · simp [wordsOfToken, hexpand, hquote]
    · simp [wordsOfToken, hexpand, splitOnP_eq_singleton hblank, hne]
  refine ⟨⟨fun hmem => ?_, fun hwhole => by simp [hsingle hwhole]⟩, hsingle⟩
  by_cases hquote : ∃ char ∈ spanOf rest token.start token.len,
      char = charSingleQuote ∨ char = charDoubleQuote
  · exact .inl hquote
  · simp only [wordsOfToken, any_eq_true, Bool.or_eq_true, decide_eq_true_eq,
      if_neg hquote, mem_filter] at hmem
    exact .inr ⟨by simpa using hmem.2, fun char hchar =>
      (Occurrence.of_mem_splitOnP isBlank _ _ hmem.1 char hchar).2⟩

section Lists

variable {α β : Type*} {take : α → List β} {own : α → β} {list : List α}

/-- Items that are taken for themselves alone, or for others, leave nothing in front. -/
theorem of_flatMap_eq {front : List β}
    (hown : ∀ item ∈ list, own item ∈ take item → take item = [own item])
    (hsame : list.flatMap take = front ++ list.map own) :
    front = [] ∧ ∀ item ∈ list, own item ∈ take item := by
  induction list generalizing front with
  | nil => simpa using hsame
  | cons first list ih =>
    rw [forall_mem_cons] at hown ⊢
    rw [flatMap_cons, append_eq_append_iff] at hsame
    have hlate : ∀ late, list.flatMap take ≠ late ++ own first :: list.map own := by
      intro late hrest
      rw [append_cons] at hrest
      simpa using (ih hown.2 hrest).1
    rcases hsame with ⟨late, -, hrest⟩ | ⟨- | ⟨item, extra⟩, htake, hrest⟩
    · exact absurd hrest (hlate late)
    · exact absurd hrest.symm (hlate [])
    · obtain ⟨rfl, hmap⟩ := List.cons.inj hrest
      have hmem : own first ∈ take first := by simp [htake]
      rw [hown.1 hmem, singleton_eq_append_iff] at htake
      obtain ⟨rfl, hextra⟩ := htake.resolve_right (by simp)
      obtain rfl := (List.cons.inj hextra).2
      exact ⟨rfl, hmem, (@ih [] hown.2 hmap.symm).2⟩

end Lists

/-- The count and the values of a for line are its words, without their quotes and escapes,
exactly when every word is whole. -/
theorem loopWord_words_iff (context : ExpandContext) {name : Text} {list : List Token}
    (hhead : forHead rest = some (name, list))
    (hdollar : ∀ token ∈ list, charDollar ∉ spanOf rest token.start token.len) :
    (∀ index, loopWord context rest index = some (name,
        (forWords context rest list).getD index [], (forWords context rest list).length)) ∧
      (forWords context rest list = list.map (wordText rest) ↔
        ∀ token ∈ list, IsWhole rest token) := by
  have hspec := fun token htoken => wordsOfToken_spec context (hdollar token htoken)
  refine ⟨fun index => by rw [loopWord, hhead]; rfl, fun hsame token htoken => ?_, fun hwhole => ?_⟩
  · refine (hspec token htoken).1.mp ((@of_flatMap_eq _ _ _ _ _ [] ?_ hsame).2 token htoken)
    exact fun token htoken hmem => (hspec token htoken).2 ((hspec token htoken).1.mp hmem)
  · rw [map_eq_flatMap]
    exact flatMap_congr fun token htoken => (hspec token htoken).2 (hwhole token htoken)

theorem loopWord_words_iff_quoted :
    forWords ⟨0, fun _ => []⟩ (text "w in 'a b'") [⟨.word, 5, 5⟩] =
      [⟨.word, 5, 5⟩].map (wordText (text "w in 'a b'")) := by
  have hhead : forHead (text "w in 'a b'") = some (text "w", [⟨.word, 5, 5⟩]) := by decide +kernel
  refine (loopWord_words_iff ⟨0, fun _ => []⟩ hhead (by decide +kernel)).2.mpr ?_
  unfold IsWhole
  decide +kernel

/-- An escaped blank cuts the one word of the list in two. -/
theorem loopWord_cuts_escaped :
    (forHead (text "w in a\\ b")).map (·.2.length) = some 1 ∧
      loopWord ⟨0, fun _ => []⟩ (text "w in a\\ b") 0 = some (text "w", text "a", 2) := by
  decide +kernel

end PdiStack.ForList
