import PdiStack.Shell.CommandBase
import PdiStack.Shell.ShellGrammar

/-!
# The arguments of a plain line

A plain line is run where it lies: the command reads its own options from the bytes of the
line, with a scanner of its own.  The shell cuts a line into words at runs of blanks outside
quotes and escapes.  The command cuts it at every single space outside quotes, does not know
escapes there, and gives up a search after `searchLimit` bytes.  `Fits` says on which texts
the two agree, and the options are the argument words exactly on those.
-/

namespace PdiStack.Arguments

open StringOperations ShellParser CommandBase ShellGrammar Scan List Option Bool

/-- A text at whose front a word ends. -/
def EndsWord (after : Text) : Prop :=
  ∀ char ∈ after.head?, isBlank char = true ∨ (operatorAt after).isSome = true

variable {found : TokenType × ℕ} {char : UInt8} {slots start : ℕ}

theorem isSome_operatorAt {rest : Text} (hstart : isOperatorStart char = true)
    (hampersand : ¬ char = charAmpersand) : (operatorAt (char :: rest)).isSome = true := by
  simp only [isOperatorStart, or_eq_true, decide_eq_true_eq] at hstart
  rcases hstart with (((rfl | rfl) | rfl) | rfl) | rfl
  · rfl
  · exact absurd rfl hampersand
  all_goals rfl

/-- A word is read up to blanks, or up to the end, as it is read up to anything else. -/
def ReadTo (quoting : Quoting) (word after : Text) : Prop :=
  ∀ next : Text, (∀ char ∈ next.head?, isBlank char = true) → (after = [] → next = []) →
    wordRest quoting (word ++ next) = some next

/-- `rest` is a word and what follows it, which starts with what ends a word. -/
def EndsAt (quoting : Quoting) (rest after : Text) : Prop :=
  (∃ word, rest = word ++ after ∧ ReadTo quoting word after) ∧ EndsWord after

/-- What follows a word is the rest of the text it was read from, and starts with what ends
a word. -/
theorem exists_word_of_wordRest {quoting : Quoting} {rest after : Text}
    (hrest : wordRest quoting rest = some after) : EndsAt quoting rest after := by
  -- a longer text has a longer word
  have hcons : ∀ {quoting next : Quoting} (chars : Text) {tail : Text}, EndsAt quoting tail after →
      (∀ text : Text, (text.head? = some charAmpersand → tail.head? = some charAmpersand) →
        wordRest next (chars ++ text) = wordRest quoting text) →
      EndsAt next (chars ++ tail) after := by
    rintro quoting next chars tail ⟨⟨word, rfl, hread⟩, hends⟩ hstep
    refine ⟨⟨chars ++ word, by rw [append_assoc], fun text htext hmore => ?_⟩, hends⟩
    rw [append_assoc, hstep _ ?_, hread text htext hmore]
    cases word with
    | nil => exact fun hhead => absurd (htext _ hhead) (by decide)
    | cons first word => exact id
  -- a word that ends here
  have hhere : ∀ {tail : Text}, some tail = some after → EndsWord tail →
      EndsAt .bare tail after := by
    intro tail htail hends
    obtain rfl := some.inj htail
    refine ⟨⟨[], rfl, fun text htext _ => ?_⟩, hends⟩
    cases text with
    | nil => rfl
    | cons char text =>
      rw [wordRest.eq_def]
      exact if_pos (htext char rfl)
  fun_induction wordRest quoting rest with
  | case1 => exact hhere hrest nofun
  | case2 | case3 | case16 => cases hrest
  | case4 char rest hblank => exact hhere hrest (by simpa [EndsWord] using .inl hblank)
  | case5 =>
    obtain rfl := some.inj hrest
    exact ⟨⟨[charBackslash], rfl, fun text _ hmore => by rw [hmore rfl]; rfl⟩, nofun⟩
  | case6 escaped rest _ ih | case17 escaped rest _ ih =>
    exact hcons [charBackslash, escaped] (ih hrest) fun _ _ => by rw [wordRest.eq_def]; rfl
  | case7 rest _ _ ih | case13 rest ih =>
    exact hcons [charSingleQuote] (ih hrest) fun _ _ => by rw [wordRest.eq_def]; rfl
  | case8 rest _ _ _ ih | case15 rest ih =>
    exact hcons [charDoubleQuote] (ih hrest) fun _ _ => by rw [wordRest.eq_def]; rfl
  | case9 rest hdoubled =>
    exact hhere hrest fun _ _ => .inr (by simp [operatorAt, hdoubled, charAmpersand, charBar])
  | case10 rest hsingle _ _ _ _ ih =>
    refine hcons [charAmpersand] (ih hrest) fun text htext => ?_
    rw [wordRest.eq_def]
    exact if_neg fun hhead => hsingle (htext hhead)
  | case11 char rest _ _ _ _ hampersand hoperator =>
    exact hhere hrest fun _ _ => .inr (isSome_operatorAt hoperator hampersand)
  | case12 char rest _ _ _ _ _ _ ih | case14 char rest _ ih | case18 char rest _ _ ih =>
    exact hcons [char] (ih hrest) fun text _ => by rw [wordRest.eq_def]; simp [*]

/-- `word` is the shell word at the front of a text that goes on with `after`. -/
structure WordAt (word after : Text) : Prop where
  nonempty : word ≠ []
  start : ∀ char ∈ word.head?, isBlank char = false
  noOperator : operatorAt (word ++ after) = none
  ends : wordRest .bare (word ++ after) = some after

/-- A character that starts neither a gap nor an operator is part of a word. -/
theorem wordRest_ne_self {rest : Text} (hblank : isBlank char = false)
    (hoperator : operatorAt (char :: rest) = none) :
    wordRest .bare (char :: rest) ≠ some (char :: rest) := by
  -- the rest of a shorter text is shorter
  have hshort : ∀ {quoting : Quoting} {tail : Text}, tail.length ≤ rest.length →
      wordRest quoting tail ≠ some (char :: rest) := by
    intro quoting tail htail hwhole
    obtain ⟨⟨word, rfl, -⟩, -⟩ := exists_word_of_wordRest hwhole
    rw [length_append, length_cons] at htail
    omega
  intro hself
  by_cases hescape : char = charBackslash
  · subst hescape
    cases rest with
    | nil => cases hself
    | cons escaped rest => exact hshort (Nat.le_succ _) hself
  rw [wordRest.eq_def] at hself
  simp only [hblank, hescape, false_eq_true, if_false] at hself
  split at hself
  · exact hshort (le_refl _) hself
  split at hself
  · exact hshort (le_refl _) hself
  split at hself
  · rename_i hampersand
    subst hampersand
    split at hself
    · rename_i hdoubled
      simp [operatorAt, hdoubled, charAmpersand, charBar] at hoperator
    · exact hshort (le_refl _) hself
  split at hself
  · rename_i hampersand hstart
    have hsome : (operatorAt (char :: rest)).isSome = true := isSome_operatorAt hstart hampersand
    rw [hoperator] at hsome
    cases hsome
  · exact hshort (le_refl _) hself

section

variable {word after : Text} (hword : WordAt word after)

include hword

theorem WordAt.of_blank {next : Text} (hnext : ∀ char ∈ next.head?, isBlank char = true)
    (hmore : after = [] → next = []) :
    WordAt word next := by
  obtain ⟨⟨found, hfound, hread⟩, -⟩ := exists_word_of_wordRest hword.ends
  obtain rfl := append_cancel_right hfound
  refine ⟨hword.nonempty, hword.start, ?_, hread next hnext hmore⟩
  have hoperator := hword.noOperator
  obtain ⟨char, tail, rfl⟩ := exists_cons_of_ne_nil hword.nonempty
  cases tail with
  | cons second tail => exact hoperator
  | nil =>
    have hsingle : next.head? ≠ some charAmpersand := fun hhead => nomatch hnext _ hhead
    simp only [operatorAt] at hoperator ⊢
    grind

theorem WordAt.of_gap {gap : Text} (hafter : after ≠ [])
    (hgap : ∀ char ∈ gap, isBlank char = true) (hsome : gap ≠ []) (rest : Text) :
    WordAt word (gap ++ rest) := by
  obtain ⟨first, gap, rfl⟩ := exists_cons_of_ne_nil hsome
  refine hword.of_blank ?_ fun hnil => absurd hnil hafter
  simpa using hgap first mem_cons_self

theorem WordAt.not_endsWord : ¬ EndsWord (word ++ after) := by
  intro hends
  obtain ⟨first, tail, rfl⟩ := exists_cons_of_ne_nil hword.nonempty
  rcases hends first rfl with hblank | hoperator
  · rw [hword.start first rfl] at hblank
    cases hblank
  · rw [hword.noOperator] at hoperator
    cases hoperator

end

/-! ## The tokens of a text -/

variable {total passes : ℕ}

theorem dropWhile_blanks {gap : Text} (hgap : ∀ char ∈ gap, isBlank char = true) (rest : Text) :
    (gap ++ rest).dropWhile isBlank = rest.dropWhile isBlank := by
  rw [dropWhile_append_of_pos hgap]

theorem WordAt.dropWhile_eq {word after : Text} (hword : WordAt word after) :
    (word ++ after).dropWhile isBlank = word ++ after := by
  cases word with
  | nil => exact absurd rfl hword.nonempty
  | cons char word =>
    simp [hword.start char rfl]

/-- Blanks before a token do not matter. -/
theorem tokensFrom_gap {gap : Text} (hgap : ∀ char ∈ gap, isBlank char = true) (rest : Text) :
    tokensFrom total (passes + 1) (gap ++ rest) = tokensFrom total (passes + 1) rest := by
  rw [tokensFrom, tokensFrom, dropWhile_blanks hgap]

theorem tokensFrom_blanks {gap : Text} (hgap : ∀ char ∈ gap, isBlank char = true) :
    tokensFrom total passes gap = some [] := by
  cases passes with
  | zero => rfl
  | succ passes =>
    rw [← append_nil gap, tokensFrom_gap hgap]
    rfl

/-- The token of a word, in a line of `total` bytes that ends with the word and `after`. -/
def wordToken (total : ℕ) (word after : Text) : Token :=
  { type := .word, start := total - (word ++ after).length, len := word.length }

theorem tokensFrom_word {word after : Text} (hword : WordAt word after) :
    tokensFrom total (passes + 1) (word ++ after) =
      (tokensFrom total passes after).map (wordToken total word after :: ·) := by
  have hsome : word ++ after ≠ [] := fun hnil => hword.nonempty (append_eq_nil_iff.mp hnil).1
  have hlength : (word ++ after).length - after.length = word.length := by
    rw [length_append, Nat.add_sub_cancel]
  rw [tokensFrom, hword.dropWhile_eq]
  simp only [hsome, hword.noOperator, hword.ends, hlength]
  rfl

theorem operatorAt_ne_word {rest : Text} (hfound : operatorAt rest = some found) :
    found.1 ≠ .word := by
  cases rest with
  | nil => cases hfound
  | cons char rest =>
    simp only [operatorAt] at hfound
    grind

/-- An operator is one character that starts one, or that character twice. -/
theorem operatorAt_cases {head : UInt8} {tail : Text}
    (hfound : operatorAt (head :: tail) = some found) :
    isOperatorStart head = true ∧ (found.2 = 1 ∨ found.2 = 2 ∧ tail.head? = some head) := by
  simp only [operatorAt] at hfound
  grind [isOperatorStart]

theorem operatorAt_chars {body : Text} (hfound : operatorAt body = some found) :
    0 < found.2 ∧ found.2 ≤ body.length ∧
      ∀ char ∈ body.take found.2, isOperatorStart char = true := by
  cases body with
  | nil => cases hfound
  | cons head tail =>
    obtain ⟨hhead, hone | ⟨htwo, hdoubled⟩⟩ := operatorAt_cases hfound
    · rw [hone]
      exact ⟨Nat.one_pos, by simp, by simpa using hhead⟩
    · obtain ⟨rest, rfl⟩ := head?_eq_some_iff.mp hdoubled
      rw [htwo]
      exact ⟨Nat.two_pos, by simp, by simpa using hhead⟩

/-- A token comes from a piece of the text, past the blanks before it. -/
theorem exists_piece_of_tokensFrom {rest : Text} {token : Token}
    {tokens : List Token} (htokens : tokensFrom total passes rest = some (token :: tokens)) :
    ∃ gap piece after left, rest = gap ++ (piece ++ after) ∧ (∀ char ∈ gap, isBlank char = true) ∧
      piece ≠ [] ∧ token.start = total - (piece ++ after).length ∧ token.len = piece.length ∧
      (token.type = .word → WordAt piece after) ∧ tokensFrom total left after = some tokens := by
  cases passes with
  | zero => cases htokens
  | succ left =>
    have hsplit := takeWhile_append_dropWhile (p := isBlank) (l := rest)
    have hgap : ∀ char ∈ rest.takeWhile isBlank, isBlank char = true :=
      fun char hchar => mem_takeWhile_imp hchar
    cases hbody : rest.dropWhile isBlank with
    | nil =>
      rw [← hsplit, hbody, append_nil, tokensFrom_blanks hgap] at htokens
      cases htokens
    | cons char body =>
      have hblank : isBlank char = false := by
        have hnot := head_dropWhile_not isBlank (l := rest) (by simp [hbody])
        simpa [hbody] using hnot
      rw [hbody] at hsplit
      rw [tokensFrom, hbody] at htokens
      cases hoperator : operatorAt (char :: body) with
      | some found =>
        rw [hoperator] at htokens
        obtain ⟨later, hlater, hcons⟩ := map_eq_some_iff.mp htokens
        obtain ⟨rfl, rfl⟩ := cons.inj hcons
        obtain ⟨hpositive, hlength, -⟩ := operatorAt_chars hoperator
        have hpiece := take_append_drop found.2 (char :: body)
        refine ⟨_, _, _, left, by rw [hpiece, hsplit], hgap, ?_, by rw [hpiece], ?_, ?_, hlater⟩
        · exact fun hnil => by simp [hpositive.ne'] at hnil
        · rw [length_take, min_eq_left hlength]
        · exact fun htype => absurd htype (operatorAt_ne_word hoperator)
      | none =>
        rw [hoperator] at htokens
        cases hends : wordRest .bare (char :: body) with
        | none =>
          rw [hends] at htokens
          cases htokens
        | some after =>
          rw [hends] at htokens
          obtain ⟨later, hlater, hcons⟩ := map_eq_some_iff.mp htokens
          obtain ⟨rfl, rfl⟩ := cons.inj hcons
          obtain ⟨⟨word, hword, -⟩, -⟩ := exists_word_of_wordRest hends
          have hnonempty : word ≠ [] := by
            rintro rfl
            rw [nil_append] at hword
            rw [← hword] at hends
            exact wordRest_ne_self hblank hoperator hends
          refine ⟨_, word, after, left, by rw [← hword, hsplit], hgap, hnonempty, by rw [hword],
            ?_, fun _ => ⟨hnonempty, ?_, ?_, ?_⟩, hlater⟩
          · rw [hword, length_append, Nat.add_sub_cancel]
          · intro first hfirst
            have hhead := congrArg head? hword
            rw [head?_append, mem_def.mp hfirst] at hhead
            rw [← some.inj hhead]
            exact hblank
          · rw [← hword, hoperator]
          · rw [← hword, hends]

/-! ## Text without its quotes -/

/-- A character that is read as it stands wherever it stands. -/
def Ordinary (char : UInt8) : Prop :=
  char ≠ charBackslash ∧ char ≠ charSingleQuote ∧ char ≠ charDoubleQuote

theorem toggled_eq_none_iff {flags : QuoteFlags} :
    flags.toggled char = none ↔
      ¬ (char = charSingleQuote ∧ ¬ flags.indouble) ∧
        ¬ (char = charDoubleQuote ∧ ¬ flags.insingle) := by
  unfold QuoteFlags.toggled
  constructor
  · intro hnone
    split at hnone
    · cases hnone
    · rename_i hsingle
      split at hnone
      · cases hnone
      · rename_i hdouble
        exact ⟨hsingle, hdouble⟩
  · rintro ⟨hsingle, hdouble⟩
    exact (if_neg hsingle).trans (if_neg hdouble)

theorem Ordinary.toggled (hchar : Ordinary char) (flags : QuoteFlags) : flags.toggled char = none :=
  toggled_eq_none_iff.mpr ⟨fun h => hchar.2.1 h.1, fun h => hchar.2.2 h.1⟩

theorem ordinary_of_isBlank (hblank : isBlank char = true) : Ordinary char := by
  simp only [isBlank, or_eq_true, decide_eq_true_eq] at hblank
  rcases hblank with rfl | rfl <;> exact ⟨by decide, by decide, by decide⟩

theorem EndsWord.ordinary {after : Text} (hends : EndsWord after) :
    ∀ char ∈ after.head?, Ordinary char := by
  intro char hchar
  rcases hends char hchar with hblank | hoperator
  · exact ordinary_of_isBlank hblank
  · cases after with
    | nil => cases hchar
    | cons first rest =>
      obtain rfl := some.inj hchar
      refine ⟨?_, ?_, ?_⟩ <;> rintro rfl <;> cases hoperator

/-- A text that goes on with an ordinary character does not read as its front does. -/
theorem unquoted_append_ne (hchar : Ordinary char) {flags : QuoteFlags} {front rest : Text} :
    unquoted flags (front ++ char :: rest) ≠ unquoted flags front := by
  have hhere : ∀ flags, unquoted flags (char :: rest) ≠ [] := by
    intro flags
    rw [unquoted_cons, if_neg (fun h => hchar.1 h.1), hchar.toggled]
    exact cons_ne_nil _ _
  fun_induction unquoted flags front with
  | case1 flags => exact hhere flags
  | case2 flags first hescape =>
    -- the backslash at the end of the front escapes the character
    rw [singleton_append, unquoted_cons, if_pos hescape]
    intro heq
    exact hchar.1 ((cons.inj heq).1.trans hescape.1)
  | case3 flags first hescape escaped front ih =>
    rw [cons_append, unquoted_cons, if_pos hescape]
    exact fun heq => ih (cons.inj heq).2
  | case4 flags first front hescape toggled htoggled ih =>
    rw [cons_append, unquoted_cons, if_neg hescape, htoggled]
    exact ih
  | case5 flags first front hescape htoggled ih =>
    rw [cons_append, unquoted_cons, if_neg hescape, htoggled]
    exact fun heq => ih (cons.inj heq).2

/-- Two fronts of a text that read the same are the same, when what follows each of them
starts with an ordinary character. -/
theorem eq_of_unquoted_eq {flags : QuoteFlags} {front other rest past : Text}
    (hsplit : other ++ past = front ++ rest) (hpast : ∀ char ∈ past.head?, Ordinary char)
    (hrest : ∀ char ∈ rest.head?, Ordinary char)
    (hsame : unquoted flags front = unquoted flags other) : front = other := by
  rcases append_eq_append_iff.mp hsplit with ⟨extra, rfl, rfl⟩ | ⟨extra, rfl, rfl⟩
  · cases extra with
    | nil => rw [append_nil]
    | cons char extra => exact absurd hsame (unquoted_append_ne (hpast char rfl))
  · cases extra with
    | nil => rw [append_nil]
    | cons char extra =>
      exact absurd hsame.symm (unquoted_append_ne (hrest char rfl))

/-- Without a dollar sign, expanding a span only takes its quotes away. -/
theorem expandFrom_eq_unquoted (context : ExpandContext) (flags : QuoteFlags) {span : Text}
    (hdollar : charDollar ∉ span) :
    expandFrom context true 0 flags.insingle flags.indouble span = unquoted flags span := by
  fun_induction unquoted flags span with
  | case1 => rfl
  | case2 flags first hescape =>
    obtain ⟨rfl, -⟩ := hescape
    simp [expandFrom, charBackslash, charSingleQuote, charDoubleQuote, charDollar]
  | case3 flags first hescape escaped rest ih =>
    obtain ⟨rfl, houtside⟩ := hescape
    have hrest : charDollar ∉ rest := fun hmem => hdollar (by simp [hmem])
    simp [expandFrom, houtside, ← ih hrest]
  | case4 flags first rest hescape toggled htoggled ih =>
    have hrest : charDollar ∉ rest := fun hmem => hdollar (by simp [hmem])
    rw [← ih hrest]
    rw [QuoteFlags.toggled] at htoggled
    split at htoggled
    · rename_i hsingle
      obtain rfl := some.inj htoggled
      obtain ⟨rfl, hindouble⟩ := hsingle
      simp [expandFrom, charBackslash, charSingleQuote, hindouble]
    · split at htoggled
      · rename_i hdouble
        obtain rfl := some.inj htoggled
        obtain ⟨rfl, hinsingle⟩ := hdouble
        simp [expandFrom, charBackslash, charSingleQuote, charDoubleQuote, hinsingle]
      · cases htoggled
  | case5 flags first rest hescape htoggled ih =>
    have hrest : charDollar ∉ rest := fun hmem => hdollar (by simp [hmem])
    have hfirst : first ≠ charDollar := fun heq => hdollar (by simp [heq])
    rw [← ih hrest]
    obtain ⟨hsingle, hdouble⟩ := toggled_eq_none_iff.mp htoggled
    rw [expandFrom, if_neg (fun h => hescape ⟨h.1, h.2.1⟩), if_neg hsingle, if_neg hdouble,
      if_neg (fun h => hfirst h.1), if_neg (fun h => hfirst h.1)]

/-! ## The reader without escapes -/

/-- No space of a text is outside the quotes, for a reader that knows no escapes and has
the given flags at the front. -/
def CoveredFrom (flags : QuoteFlags) (span : Text) : Prop :=
  Missed QuoteFlags.next (fun flags head => flags = .outside ∧ head = charBlank) flags span

/-- No space of a text is outside the quotes, for a reader that knows no escapes. -/
def Covered (span : Text) : Prop := CoveredFrom .outside span

/-- That reader comes to the end of a text outside the quotes, without a NUL on the way and
within the bound of a search. -/
structure Reached (span : Text) : Prop where
  outside : span.foldl QuoteFlags.next .outside = .outside
  noNul : 0 ∉ span
  bound : span.length < searchLimit

/-- The space at which a command cuts a text. -/
theorem strstrUnquoted_eq_some_iff {rest : Text} {place : ℕ} :
    strstrUnquoted rest (some separatorSpace) = some place ↔
      ∃ before after, rest = before ++ charBlank :: after ∧ before.length = place ∧
        Covered before ∧ Reached before := by
  rw [strstrUnquoted_space, scan_eq_some_iff]
  constructor
  · rintro ⟨before, letter, after, rfl, rfl, hbound, hread, -, hcovered, hhit⟩
    obtain ⟨houtside, rfl⟩ := of_decide_eq_true hhit
    refine ⟨before, after, rfl, rfl, hcovered, houtside, fun hmem => ?_, hbound⟩
    exact absurd rfl (of_decide_eq_false (hread 0 hmem))
  · rintro ⟨before, after, rfl, rfl, hcovered, hreached⟩
    refine ⟨before, charBlank, after, rfl, rfl, hreached.bound, fun read hread => ?_, by decide,
      hcovered, decide_eq_true ⟨hreached.outside, rfl⟩⟩
    exact decide_eq_false fun hzero => hreached.noNul (hzero ▸ hread)

theorem cutLength_of_reached {before : Text} (hcovered : Covered before) (hreached : Reached before)
    {rest : Text} : cutLength (before ++ charBlank :: rest) = before.length := by
  rw [cutLength, strstrUnquoted_eq_some_iff.mpr ⟨before, rest, rfl, rfl, hcovered, hreached⟩,
    getD_some]

/-- The reader finds no space in a text. -/
def Unseen (span : Text) : Prop :=
  ∀ before rest, span = before ++ charBlank :: rest → Covered before → ¬ Reached before

theorem cutLength_of_unseen {rest : Text} (hunseen : Unseen rest) :
    cutLength rest = rest.length := by
  rw [cutLength]
  cases hfound : strstrUnquoted rest (some separatorSpace) with
  | none => rfl
  | some place =>
    obtain ⟨before, after, hrest, -, hcovered, hreached⟩ := strstrUnquoted_eq_some_iff.mp hfound
    exact absurd hreached (hunseen before after hrest hcovered)

/-- A text is cut at the space that is found, if there is one. -/
theorem seen_or_unseen (rest : Text) :
    (∃ before after, rest = before ++ charBlank :: after ∧ Covered before ∧ Reached before) ∨
      Unseen rest := by
  by_cases hseen : ∃ before after, rest = before ++ charBlank :: after ∧ Covered before ∧
      Reached before
  · exact .inl hseen
  · exact .inr fun before after hrest hcovered hreached =>
      hseen ⟨before, after, hrest, hcovered, hreached⟩

/-! ## Texts that are cut at their words -/

/-- `word` is a word of the shell with blanks before it and no escaped blank at its end. -/
structure Argument (gap word after : Text) : Prop where
  gap : ∀ char ∈ gap, isBlank char = true
  isWord : WordAt word after
  last : ∀ char ∈ word.getLast?, isBlank char = false

/-- A text, read from the place after a space, that is cut at its words when at most
`slots` values are taken from it. -/
inductive Fits : ℕ → Text → Prop
  /-- No further value is taken, whatever follows. -/
  | full (rest : Text) : Fits 0 rest
  | done (slots : ℕ) : Fits slots []
  /-- The last argument, with blanks at most behind it, in a text where no space is found. -/
  | last {slots : ℕ} {gap word after : Text} (hargument : Argument gap word after)
      (hblank : ∀ char ∈ after, isBlank char = true) (hunseen : Unseen (gap ++ (word ++ after))) :
      Fits (slots + 1) (gap ++ (word ++ after))
  /-- An argument with a space behind it that is the first one to be found, and then a text
  that fits. -/
  | next {slots : ℕ} {gap word blanks rest : Text}
      (hargument : Argument gap word (blanks ++ charBlank :: rest))
      (hblank : ∀ char ∈ blanks, isBlank char = true)
      (hcovered : Covered (gap ++ (word ++ blanks))) (hreached : Reached (gap ++ (word ++ blanks)))
      (hrest : Fits slots rest) :
      Fits (slots + 1) (gap ++ (word ++ blanks) ++ charBlank :: rest)

def values (slots start : ℕ) (rest : Text) : List (ℕ × Text) :=
  if rest = [] then [] else pieces slots start rest

/-- The blanks around an argument are all that is trimmed. -/
theorem Argument.trimmed {gap word after blanks : Text} (hargument : Argument gap word after)
    (hblanks : ∀ char ∈ blanks, isBlank char = true) :
    lead (gap ++ (word ++ blanks)) = gap.length ∧
      CommandBase.trimmed (gap ++ (word ++ blanks)) = word := by
  have hfront : (word ++ blanks).takeWhile isBlank = [] ∧
      (word ++ blanks).dropWhile isBlank = word ++ blanks := by
    cases word with
    | nil => exact absurd rfl hargument.isWord.nonempty
    | cons char word => simp [hargument.isWord.start char rfl]
  constructor
  · rw [lead, takeWhile_append_of_pos hargument.gap, hfront.1, append_nil]
  have hback : (word.reverse).dropWhile isBlank = word.reverse := by
    cases hreverse : word.reverse with
    | nil => rfl
    | cons char rest =>
      have hend := hargument.last char (by
        rw [getLast?_eq_head?_reverse, hreverse]
        rfl)
      simp [hend]
  rw [CommandBase.trimmed, dropWhile_blanks hargument.gap, hfront.2, rdropWhile, reverse_append,
    dropWhile_blanks (fun char hchar => hblanks char (mem_reverse.mp hchar)), hback,
    reverse_reverse]

/-! ## The words of a line and the values of a command -/

def slice (line : Text) (word : Token) : ℕ × Text :=
  (word.start, unquoted .outside (spanOf line word.start word.len))

theorem start_wordToken {front gap word after : Text} :
    (wordToken (front ++ (gap ++ (word ++ after))).length word after).start =
      front.length + gap.length := by
  rw [wordToken, ← append_assoc, length_append, Nat.add_sub_cancel, length_append]

theorem spanOf_wordToken (front gap word after : Text) :
    spanOf (front ++ (gap ++ (word ++ after)))
        (wordToken (front ++ (gap ++ (word ++ after))).length word after).start word.length =
      word := by
  rw [start_wordToken, spanOf, ← length_append, ← append_assoc, drop_left, take_left]

theorem slice_wordToken (front gap word after : Text) :
    slice (front ++ (gap ++ (word ++ after)))
        (wordToken (front ++ (gap ++ (word ++ after))).length word after) =
      (front.length + gap.length, unquoted .outside word) :=
  Prod.ext (start_wordToken)
    (congrArg (unquoted .outside) (spanOf_wordToken front gap word after))

/-- The words of a text as the shell reads them, where the text ends a line. -/
structure Reads (front rest : Text) (words : List Token) : Prop where
  type : ∀ word ∈ words, word.type = .word
  tokens : ∃ passes last, rest.length ≤ passes ∧ (∀ token ∈ last, token.type ≠ .word) ∧
    tokensFrom (front ++ rest).length passes rest = some (words ++ last)

variable {front rest gap word after : Text} {words : List Token}

theorem Reads.blanks_eq_nil (hreads : Reads front gap words)
    (hgap : ∀ char ∈ gap, isBlank char = true) : words = [] := by
  obtain ⟨passes, last, -, -, htokens⟩ := hreads.tokens
  rw [tokensFrom_blanks hgap] at htokens
  exact (append_eq_nil_iff.mp (some.inj htokens).symm).1

theorem Reads.skip_gap (hreads : Reads front (gap ++ rest) words)
    (hgap : ∀ char ∈ gap, isBlank char = true) : Reads (front ++ gap) rest words := by
  obtain ⟨passes, last, hpasses, hlast, htokens⟩ := hreads.tokens
  rw [← append_assoc] at htokens
  rw [length_append] at hpasses
  refine ⟨hreads.type, passes, last, by omega, hlast, ?_⟩
  cases passes with
  | zero => exact htokens
  | succ passes => rwa [tokensFrom_gap hgap] at htokens

theorem Reads.skip_blank (hreads : Reads front (char :: rest) words) (hchar : isBlank char = true) :
    Reads (front ++ [char]) rest words := by
  exact hreads.skip_gap (by simpa using hchar)

/-- The first token of a text with a word at its front is that word. -/
theorem Reads.read_word (hreads : Reads front (gap ++ (word ++ after)) words)
    (hgap : ∀ char ∈ gap, isBlank char = true) (hword : WordAt word after) :
    ∃ later, words = wordToken (front ++ (gap ++ (word ++ after))).length word after :: later ∧
      Reads (front ++ gap ++ word) after later := by
  obtain ⟨passes, last, hpasses, hlast, htokens⟩ := hreads.tokens
  have hpositive := length_pos_of_ne_nil hword.nonempty
  rw [length_append, length_append] at hpasses
  obtain ⟨left, rfl⟩ := Nat.exists_eq_succ_of_ne_zero (n := passes) (by omega)
  rw [tokensFrom_gap hgap, tokensFrom_word hword] at htokens
  obtain ⟨tokens, hafter, hcons⟩ := map_eq_some_iff.mp htokens
  cases words with
  | nil =>
    -- the word is none of the tokens after the words
    rw [nil_append] at hcons
    subst hcons
    exact absurd rfl (hlast _ mem_cons_self)
  | cons token later =>
    obtain ⟨rfl, rfl⟩ := cons.inj hcons
    refine ⟨later, rfl, ?_, left, last, by omega, hlast, ?_⟩
    · exact fun other hother => hreads.type other (mem_cons_of_mem _ hother)
    · rwa [append_assoc, append_assoc]

theorem Reads.exists_word (hreads : Reads front rest words) (hwords : words ≠ []) :
    ∃ gap word after, rest = gap ++ (word ++ after) ∧ (∀ char ∈ gap, isBlank char = true) ∧
      WordAt word after := by
  obtain ⟨token, later, rfl⟩ := exists_cons_of_ne_nil hwords
  obtain ⟨passes, last, -, -, htokens⟩ := hreads.tokens
  obtain ⟨gap, word, after, left, hrest, hgap, -, -, -, hword, -⟩ :=
    exists_piece_of_tokensFrom htokens
  exact ⟨gap, word, after, hrest, hgap, hword (hreads.type token mem_cons_self)⟩

/-- One value, and then those of the text behind the space. -/
theorem values_succ {cut : ℕ} (hrest : rest ≠ []) (hcut : cutLength rest = cut) :
    values (slots + 1) start rest =
      (start + lead (rest.take cut), unquoted .outside (trimmed (rest.take cut))) ::
        values slots (start + (cut + 1)) (rest.drop (cut + 1)) := by
  subst hcut
  rw [values, if_neg hrest, pieces, values]
  by_cases hmore : cutLength rest + 1 < rest.length
  · rw [if_pos hmore, if_neg (fun hnil => absurd (drop_eq_nil_iff.mp hnil) (by omega))]
  · rw [if_neg hmore, if_pos (drop_eq_nil_iff.mpr (by omega))]

theorem values_nil (slots start : ℕ) : values slots start [] = [] := rfl

theorem values_of_unseen (hrest : rest ≠ []) (hunseen : Unseen rest) :
    values (slots + 1) start rest = [(start + lead rest, unquoted .outside (trimmed rest))] := by
  rw [values_succ hrest (cutLength_of_unseen hunseen), take_length,
    drop_eq_nil_of_le (Nat.le_succ _), values_nil]

theorem values_of_reached {before : Text} (hcovered : Covered before) (hreached : Reached before) :
    values (slots + 1) start (before ++ charBlank :: rest) =
      (start + lead before, unquoted .outside (trimmed before)) ::
        values slots (start + (before.length + 1)) rest := by
  have hsome : before ++ charBlank :: rest ≠ [] := by simp
  have hdrop : (before ++ charBlank :: rest).drop (before.length + 1) = rest := by
    rw [append_cons]
    exact drop_left' length_append
  rw [values_succ hsome (cutLength_of_reached hcovered hreached), take_left, hdrop]

theorem line_past (front before rest : Text) :
    front ++ (before ++ [charBlank]) ++ rest = front ++ (before ++ charBlank :: rest) := by
  rw [append_assoc, append_assoc, singleton_append]

theorem length_past (front before : Text) :
    (front ++ (before ++ [charBlank])).length = front.length + (before.length + 1) := by
  rw [length_append, length_append, length_singleton]

/-- The words past the first one and the blanks and the space behind it. -/
theorem Reads.read_argument {blanks : Text}
    (hreads : Reads front (gap ++ (word ++ blanks) ++ charBlank :: rest) words)
    (hgap : ∀ char ∈ gap, isBlank char = true) (hword : WordAt word (blanks ++ charBlank :: rest))
    (hblank : ∀ char ∈ blanks, isBlank char = true) :
    ∃ token later, words = token :: later ∧
      slice (front ++ (gap ++ (word ++ blanks) ++ charBlank :: rest)) token =
        (front.length + gap.length, unquoted .outside word) ∧
      Reads (front ++ (gap ++ (word ++ blanks) ++ [charBlank])) rest later := by
  have hsplit : gap ++ (word ++ blanks) ++ charBlank :: rest =
      gap ++ (word ++ (blanks ++ charBlank :: rest)) := by simp
  rw [hsplit] at hreads ⊢
  obtain ⟨later, rfl, hlater⟩ := hreads.read_word hgap hword
  refine ⟨_, later, rfl, slice_wordToken front gap word _, ?_⟩
  rw [append_cons] at hlater
  have hlater' := hlater.skip_gap (by simpa [or_imp, forall_and] using ⟨hblank, rfl⟩)
  simpa using hlater'

/-- In a text that fits, the values are the words. -/
theorem values_of_fits (hfits : Fits slots rest) (hreads : Reads front rest words)
    (hcount : words.length ≤ slots) :
    values slots front.length rest = words.map (slice (front ++ rest)) := by
  induction hfits generalizing front words with
  | full rest =>
    rw [length_eq_zero_iff.mp (Nat.le_zero.mp hcount), values]
    split <;> rfl
  | done slots =>
    rw [hreads.blanks_eq_nil nofun]
    rfl
  | @last slots gap word after hargument hblank hunseen =>
    obtain ⟨later, rfl, hlater⟩ := hreads.read_word hargument.gap hargument.isWord
    obtain ⟨hlead, htrimmed⟩ := hargument.trimmed hblank
    rw [values_of_unseen (by simp [hargument.isWord.nonempty]) hunseen,
      hlater.blanks_eq_nil hblank, map_singleton, slice_wordToken, hlead, htrimmed]
  | @next slots gap word blanks rest hargument hblank hcovered hreached hrest ih =>
    obtain ⟨token, later, rfl, hslice, hlater⟩ :=
      hreads.read_argument hargument.gap hargument.isWord hblank
    obtain ⟨hlead, htrimmed⟩ := hargument.trimmed hblank
    have hvalues := ih hlater (Nat.le_of_succ_le_succ hcount)
    rw [line_past, length_past] at hvalues
    rw [values_of_reached hcovered hreached, map_cons, hslice, hlead, htrimmed, hvalues]

theorem trimmed_of_blanks (hgap : ∀ char ∈ gap, isBlank char = true) :
    lead gap = gap.length ∧ trimmed gap = [] := by
  have hdrop := dropWhile_blanks hgap []
  rw [append_nil] at hdrop
  constructor
  · rw [lead, takeWhile_eq_self_iff.mpr hgap]
  · rw [trimmed, hdrop]
    rfl

/-- A value that reads as a word does, and that stands where the word does unless the word
is not empty. -/
def Alike (value word : ℕ × Text) : Prop := value.2 = word.2 ∧ (value.1 = word.1 ∨ word.2 ≠ [])

/-- A piece of a text that reads as the first word of the text does is that word with
blanks around it. -/
theorem exists_blanks_of_alike {piece : Text} (hword : WordAt word after)
    (hgap : ∀ char ∈ gap, isBlank char = true)
    (hpiece : gap ++ (word ++ after) = piece ∨
      ∃ rest, gap ++ (word ++ after) = piece ++ charBlank :: rest)
    (halike : Alike (start + lead piece, unquoted .outside (trimmed piece))
      (start + gap.length, unquoted .outside word)) :
    ∃ blanks, piece = gap ++ (word ++ blanks) ∧ (∀ char ∈ blanks, isBlank char = true) ∧
      ∀ char ∈ word.getLast?, isBlank char = false := by
  obtain ⟨back, hback, hends⟩ : ∃ back, gap ++ (word ++ after) = piece ++ back ∧
      ∀ char ∈ back.head?, isBlank char = true := by
    rcases hpiece with hwhole | ⟨rest, hsplit⟩
    · exact ⟨[], by rw [hwhole, append_nil], nofun⟩
    · refine ⟨charBlank :: rest, hsplit, fun char hchar => ?_⟩
      rw [← some.inj (mem_def.mp hchar)]
      rfl
  -- what follows the piece is not the word, which starts with no blank
  have hpast : word ++ after ≠ back := by
    rintro rfl
    obtain ⟨char, tail, rfl⟩ := exists_cons_of_ne_nil hword.nonempty
    exact false_ne_true ((hword.start char rfl).symm.trans (hends char rfl))
  obtain ⟨hsame, hplace⟩ := halike
  rcases append_eq_append_iff.mp hback with ⟨body, rfl, hbody⟩ | ⟨inner, rfl, rfl⟩
  · cases body with
    | nil => exact absurd hbody hpast
    | cons char body =>
      have hchar : isBlank char = false := by
        obtain ⟨first, tail, rfl⟩ := exists_cons_of_ne_nil hword.nonempty
        obtain ⟨rfl, -⟩ := cons.inj hbody
        exact hword.start first rfl
      have htrimmed : trimmed (gap ++ char :: body) = (char :: body).rdropWhile isBlank := by
        rw [trimmed, dropWhile_blanks hgap, dropWhile_cons_of_neg (by simp [hchar])]
      rw [htrimmed] at hsame
      have hblank : ∀ other ∈ (char :: body).rtakeWhile isBlank, isBlank other = true :=
        fun other hother => mem_rtakeWhile_imp hother
      have hcore := rdropWhile_append_rtakeWhile (p := isBlank) (l := char :: body)
      have hlast := rdropWhile_last_not isBlank (char :: body)
      set core := (char :: body).rdropWhile isBlank
      set blanks := (char :: body).rtakeWhile isBlank
      rw [← hcore, append_assoc] at hbody
      have hordinary : ∀ other ∈ (blanks ++ back).head?, Ordinary other := by
        intro other hother
        rw [mem_def, head?_append, or_eq_some_iff] at hother
        rcases hother with hinside | ⟨-, hpastBlank⟩
        · exact ordinary_of_isBlank (hblank other (mem_of_mem_head? hinside))
        · exact ordinary_of_isBlank (hends other hpastBlank)
      obtain ⟨-, hendsWord⟩ := exists_word_of_wordRest hword.ends
      have hequal := eq_of_unquoted_eq hbody hendsWord.ordinary hordinary hsame
      refine ⟨blanks, by rw [← hequal, hcore], hblank, fun last hend => ?_⟩
      rw [← hequal] at hend
      have hsome : core ≠ [] := ne_nil_of_mem (mem_of_getLast? hend)
      rw [getLast?_eq_some_getLast hsome] at hend
      rw [← some.inj hend]
      exact eq_false_iff.mpr (hlast hsome)
  · -- a piece of the blanks before the word is empty and stands before the word
    have hpieceBlank : ∀ char ∈ piece, isBlank char = true :=
      fun char hchar => hgap char (mem_append_left inner hchar)
    obtain ⟨hlead, htrimmed⟩ := trimmed_of_blanks hpieceBlank
    rw [htrimmed] at hsame
    have hlength : start + piece.length = start + (piece ++ inner).length := by
      rw [← hlead]
      exact hplace.resolve_right fun hne => hne hsame.symm
    rw [length_append] at hlength
    obtain rfl := length_eq_zero_iff.mp (show inner.length = 0 by omega)
    exact absurd rfl hpast

/-- A text whose values are its words fits. -/
theorem fits_of_alike (hreads : Reads front rest words)
    (halike : List.Forall₂ Alike (values slots front.length rest)
      (words.map (slice (front ++ rest)))) : Fits slots rest := by
  induction slots generalizing front rest words with
  | zero => exact .full rest
  | succ slots ih =>
    by_cases hsome : rest = []
    · subst hsome
      exact .done _
    have hwords : words ≠ [] := by
      rintro rfl
      rw [values_succ hsome rfl] at halike
      cases halike
    obtain ⟨gap, word, after, rfl, hgap, hword⟩ := hreads.exists_word hwords
    rcases seen_or_unseen (gap ++ (word ++ after)) with
      ⟨before, tail, hsplit, hcovered, hreached⟩ | hunseen
    · -- the piece before the space is the word with blanks around it
      obtain ⟨others, rfl, -⟩ := hreads.read_word hgap hword
      rw [map_cons, slice_wordToken, hsplit, values_of_reached hcovered hreached] at halike
      obtain ⟨hhead, htail⟩ := forall₂_cons.mp halike
      obtain ⟨blanks, rfl, hblank, hlast⟩ :=
        exists_blanks_of_alike hword hgap (.inr ⟨tail, hsplit⟩) hhead
      obtain rfl : after = blanks ++ charBlank :: tail := by
        simpa [append_assoc] using hsplit
      rw [hsplit] at hreads ⊢
      obtain ⟨first', others', hcons', -, hlater⟩ := hreads.read_argument hgap hword hblank
      obtain ⟨rfl, rfl⟩ := cons.inj hcons'
      refine .next ⟨hgap, hword, hlast⟩ hblank hcovered hreached (ih hlater ?_)
      rwa [line_past, length_past]
    · obtain ⟨others, rfl, -⟩ := hreads.read_word hgap hword
      rw [map_cons, slice_wordToken, values_of_unseen hsome hunseen] at halike
      obtain ⟨hhead, -⟩ := forall₂_cons.mp halike
      obtain ⟨blanks, hpiece, hblank, hlast⟩ := exists_blanks_of_alike hword hgap (.inl rfl) hhead
      obtain rfl : after = blanks := by simpa using hpiece
      exact .last ⟨hgap, hword, hlast⟩ hblank hunseen

/-- No word stands behind an operator in front of a text that ends in other tokens. -/
theorem Reads.skip_operator (hreads : Reads front (char :: charBlank :: rest) words)
    (hoperator : (operatorAt (char :: charBlank :: rest)).isSome = true) :
    Reads (front ++ [char]) (charBlank :: rest) words := by
  obtain ⟨passes, last, hpasses, hlast, htokens⟩ := hreads.tokens
  obtain ⟨found, hfound⟩ := isSome_iff_exists.mp hoperator
  obtain ⟨hstart, hlength⟩ := operatorAt_cases hfound
  have hone : found.2 = 1 := by
    refine hlength.resolve_right fun hdoubled => ?_
    rw [← some.inj hdoubled.2] at hstart
    cases hstart
  have hchar : isBlank char = false := by
    simp only [isOperatorStart, or_eq_true, decide_eq_true_eq] at hstart
    rcases hstart with (((rfl | rfl) | rfl) | rfl) | rfl <;> rfl
  cases passes with
  | zero => cases hpasses
  | succ passes =>
    rw [tokensFrom, dropWhile_cons_of_neg (by simp [hchar]), hfound] at htokens
    obtain ⟨later, hlater, hcons⟩ := map_eq_some_iff.mp htokens
    rw [hone] at hlater
    cases words with
    | cons word words =>
      obtain ⟨rfl, -⟩ := cons.inj hcons
      exact absurd (hreads.type _ mem_cons_self) (operatorAt_ne_word hfound)
    | nil =>
      subst hcons
      refine ⟨nofun, passes, later, Nat.le_of_succ_le_succ hpasses, ?_, ?_⟩
      · exact fun token htoken => hlast token (mem_cons_of_mem _ htoken)
      · rwa [append_assoc]

/-- A text without words holds blanks and operators only. -/
theorem Reads.wordless (hreads : Reads front rest []) :
    ∀ char ∈ rest, isBlank char = true ∨ isOperatorStart char = true := by
  obtain ⟨passes, last, hpasses, hlast, htokens⟩ := hreads.tokens
  generalize (front ++ rest).length = total at htokens
  clear hreads
  induction passes generalizing rest last with
  | zero =>
    rw [length_eq_zero_iff.mp (Nat.le_zero.mp hpasses)]
    exact nofun
  | succ passes ih =>
    intro char hchar
    rw [← takeWhile_append_dropWhile (p := isBlank) (l := rest), mem_append] at hchar
    rcases hchar with hgap | hbody
    · exact .inl (mem_takeWhile_imp hgap)
    have hlength := (dropWhile_suffix isBlank (l := rest)).length_le
    rw [tokensFrom] at htokens
    generalize rest.dropWhile isBlank = body at htokens hbody hlength
    rw [if_neg (ne_nil_of_mem hbody)] at htokens
    cases hoperator : operatorAt body with
    | none =>
      rw [hoperator] at htokens
      cases hends : wordRest .bare body with
      | none =>
        rw [hends] at htokens
        cases htokens
      | some after =>
        rw [hends] at htokens
        obtain ⟨later, -, rfl⟩ := map_eq_some_iff.mp htokens
        exact absurd rfl (hlast _ mem_cons_self)
    | some found =>
      rw [hoperator] at htokens
      obtain ⟨later, hlater, rfl⟩ := map_eq_some_iff.mp htokens
      obtain ⟨hpositive, -, hfront⟩ := operatorAt_chars hoperator
      rw [← take_append_drop found.2 body, mem_append] at hbody
      rcases hbody with hinside | hpast
      · exact .inr (hfront char hinside)
      · refine ih later ?_ (fun token htoken => hlast token (mem_cons_of_mem _ htoken)) hlater
          char hpast
        rw [length_drop]
        omega

end PdiStack.Arguments
