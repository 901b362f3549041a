import PdiStack.Shell.Arguments

/-!
# The text of a command

`commandText` hands a command its words without the redirections between them: the line from the
first word to the last where nothing else lies between, and otherwise word by word.  Either text
is a row of words with blanks between them, and the tokens of such a row are its words.
-/

namespace PdiStack.CommandText

open StringOperations ShellParser ShellGrammar Arguments List Option

/-- The tokens of a text behind `front`: each is a piece of the text past some blanks, and a word
token is the word there. -/
inductive Laid : Text → Text → List Token → Prop
  | nil {front rest : Text} : Laid front rest []
  | cons {front gap piece after : Text} {token : Token} {tokens : List Token} :
      (∀ char ∈ gap, isBlank char = true) → piece ≠ [] →
      token.start = (front ++ gap).length → token.len = piece.length →
      (token.type = .word → WordAt piece after) → Laid (front ++ gap ++ piece) after tokens →
      Laid front (gap ++ (piece ++ after)) (token :: tokens)

variable {front rest line gap : Text} {token : Token} {tokens more : List Token}

theorem laid_of_tokensFrom (passes : ℕ)
    (htokens : tokensFrom (front ++ rest).length passes rest = some tokens) :
    Laid front rest tokens := by
  induction tokens generalizing front rest passes with
  | nil => exact .nil
  | cons token tokens ih =>
    obtain ⟨gap, piece, after, left, rfl, hgap, hpiece, hstart, hlen, hword, hlater⟩ :=
      exists_piece_of_tokensFrom htokens
    have hline : front ++ (gap ++ (piece ++ after)) = front ++ gap ++ piece ++ after := by simp
    refine .cons hgap hpiece ?_ hlen hword (ih left (hline ▸ hlater))
    rw [hstart, ← append_assoc, length_append, Nat.add_sub_cancel]

theorem laid_of_tokenize (htokens : tokenize line = some tokens) : Laid [] line tokens := by
  refine laid_of_tokensFrom line.length ?_
  rw [tokenize] at htokens
  split at htokens
  · cases htokens
  · exact htokens

theorem Laid.skip {before : List Token} (hlaid : Laid front rest (before ++ tokens)) :
    ∃ start after, front ++ rest = start ++ after ∧ Laid start after tokens := by
  induction before generalizing front rest with
  | nil => exact ⟨front, rest, rfl, hlaid⟩
  | cons token before ih =>
    cases hlaid with
    | cons _ _ _ _ _ hlater =>
      obtain ⟨start, after, hsplit, htokens⟩ := ih hlater
      exact ⟨start, after, by simpa using hsplit, htokens⟩

theorem Laid.sorted (hlaid : Laid front rest tokens) :
    tokens.Pairwise fun first second => first.start < second.start := by
  suffices hle : (∀ token ∈ tokens, front.length ≤ token.start) ∧
      tokens.Pairwise fun first second => first.start < second.start from hle.2
  induction hlaid with
  | nil => exact ⟨nofun, .nil⟩
  | cons _ hpiece hstart _ _ _ ih =>
    have hpositive := length_pos_of_ne_nil hpiece
    simp only [length_append] at hstart ih
    refine ⟨forall_mem_cons.mpr ⟨by omega, fun token htoken => ?_⟩,
      .cons (fun token htoken => ?_) ih.2⟩
    all_goals
      have hle := ih.1 token htoken
      omega

theorem Laid.ne_nil (hlaid : Laid front rest tokens) (htokens : tokens ≠ []) : rest ≠ [] := by
  cases hlaid with
  | nil => exact absurd rfl htokens
  | cons _ hpiece => simp [hpiece]

/-- The bytes of a token. -/
def wordText (line : Text) (token : Token) : Text := spanOf line token.start token.len

theorem wordText_piece {piece after : Text} (hline : front ++ (gap ++ (piece ++ after)) <+: line)
    (hstart : token.start = (front ++ gap).length) (hlen : token.len = piece.length) :
    wordText line token = piece := by
  obtain ⟨tail, rfl⟩ := hline
  rw [wordText, spanOf, hstart, hlen]
  simp

/-- Words with blanks between them. -/
inductive Row : List Text → Text → Prop
  | nil : Row [] []
  | cons {word gap rest : Text} {words : List Text} : WordAt word (gap ++ rest) →
      (∀ char ∈ gap, isBlank char = true) → Row words rest →
      Row (word :: words) (word ++ (gap ++ rest))

theorem Row.single {word after : Text} (hword : WordAt word after) : Row [word] word := by
  have halone : WordAt word ([] ++ []) := hword.of_blank nofun fun _ => rfl
  simpa using Row.cons halone nofun .nil

/-- The tokens of a row are its words. -/
theorem Row.exists_tokens {words : List Text} (hrow : Row words rest) (front : Text)
    (hgap : ∀ char ∈ gap, isBlank char = true) {passes : ℕ} (hpasses : rest.length ≤ passes) :
    ∃ tokens, tokensFrom (front ++ (gap ++ rest)).length passes (gap ++ rest) = some tokens ∧
      (∀ token ∈ tokens, token.type = .word) ∧
      tokens.map (wordText (front ++ (gap ++ rest))) = words := by
  induction hrow generalizing front gap passes with
  | nil =>
    refine ⟨[], tokensFrom_blanks ?_, nofun, rfl⟩
    rwa [append_nil]
  | @cons word next rest words hword hnext _ ih =>
    have hpositive := length_pos_of_ne_nil hword.nonempty
    rw [length_append, length_append] at hpasses
    obtain ⟨left, rfl⟩ := Nat.exists_eq_succ_of_ne_zero (n := passes) (by omega)
    have hleft : rest.length ≤ left := by omega
    obtain ⟨tokens, htokens, htype, htexts⟩ := ih (front ++ gap ++ word) hnext hleft
    have hline : front ++ gap ++ word ++ (next ++ rest) =
        front ++ (gap ++ (word ++ (next ++ rest))) := by simp
    rw [hline] at htokens htexts
    refine ⟨wordToken (front ++ (gap ++ (word ++ (next ++ rest)))).length word (next ++ rest) ::
      tokens, ?_, forall_mem_cons.mpr ⟨rfl, htype⟩, ?_⟩
    · rw [tokensFrom_gap hgap, tokensFrom_word hword, htokens]
      rfl
    · rw [map_cons, htexts]
      exact congrArg (· :: words) (spanOf_wordToken front gap word (next ++ rest))

theorem Row.exists_tokenize {words : List Text} (hrow : Row words line) (hwords : words ≠ []) :
    ∃ tokens, tokenize line = some tokens ∧ (∀ token ∈ tokens, token.type = .word) ∧
      tokens.map (wordText line) = words := by
  obtain ⟨tokens, htokens, htype, rfl⟩ := hrow.exists_tokens [] (forall_mem_nil _) (le_refl _)
  refine ⟨tokens, ?_, htype, rfl⟩
  rw [nil_append, nil_append] at htokens
  rw [tokenize, htokens]
  cases tokens with
  | nil => exact absurd rfl hwords
  | cons token tokens => rfl

variable {tree : CommandTree}

theorem mem_tokens (htoken : token ∈ tree.words) {more : List Token} :
    token ∈ tree.tokens ++ more := by
  obtain ⟨item, hitem, hsome⟩ := mem_filterMap.mp htoken
  refine mem_append_left more (mem_flatMap.mpr ⟨item, hitem, ?_⟩)
  cases item with
  | word other => exact some.inj hsome ▸ mem_cons_self
  | redirect sign target => cases hsome

section

variable (hitems : ∀ item ∈ tree, item.Proper) (hlaid : Laid front rest (tree.tokens ++ more))
  (hline : front ++ rest <+: line)

include hitems hlaid hline

/-- The words of a command, with a space between any two. -/
theorem row_joined :
    Row (tree.words.map (wordText line))
      ([charBlank].intercalate (tree.words.map (wordText line))) := by
  induction tree generalizing front rest with
  | nil => exact .nil
  | cons item tree ih =>
    obtain ⟨hitem, htree⟩ := forall_mem_cons.mp hitems
    cases item with
    | redirect sign target =>
      rcases hlaid with _ | ⟨_, _, _, _, _, _ | ⟨_, _, _, _, _, hlater⟩⟩
      exact ih htree hlater (by simpa using hline)
    | word token =>
      rcases hlaid with _ | ⟨_, _, hstart, hlen, hat, hlater⟩
      have hrow := ih htree hlater (by simpa using hline)
      rw [CommandTree.words_word, map_cons, wordText_piece hline hstart hlen]
      cases hwords : CommandTree.words tree with
      | nil => simpa using Row.single (hat hitem)
      | cons second words =>
        have hblank : ∀ char ∈ [charBlank], isBlank char = true := all_eq_true.mp rfl
        rw [hwords] at hrow
        rw [map_cons, intercalate_cons_cons, append_assoc]
        have hafter := hlater.ne_nil
          (ne_nil_of_mem (mem_tokens (hwords ▸ mem_cons_self)))
        exact .cons ((hat hitem).of_gap hafter hblank (cons_ne_nil _ _) _) hblank hrow

/-- Without a redirection between the words of a command, the line from the first of them to the
last is a row. -/
theorem exists_row {first last : Token} (hfirst : tree.words.head? = some first)
    (hlast : tree.words.getLast? = some last)
    (hcontiguous : ∀ redirect ∈ tree.redirects,
      ¬ (first.start < redirect.start ∧ redirect.start < last.start + last.len)) :
    ∃ start text past, front ++ rest = start ++ (text ++ past) ∧ first.start = start.length ∧
      last.start + last.len = (start ++ text).length ∧
      Row (tree.words.map (wordText line)) text := by
  induction tree generalizing front rest first with
  | nil => cases hfirst
  | cons item tree ih =>
    obtain ⟨hitem, htree⟩ := forall_mem_cons.mp hitems
    cases item with
    | redirect sign target =>
      rcases hlaid with _ | ⟨_, _, _, _, _, _ | ⟨_, _, _, _, _, hlater⟩⟩
      obtain ⟨op, hop⟩ := (exists_redirectOpOf_iff sign.type).mpr hitem.1
      rw [CommandTree.redirects_redirect hop] at hcontiguous
      obtain ⟨start, text, past, hsplit, hrow⟩ := ih htree hlater (by simpa using hline) hfirst
        hlast (forall_mem_cons.mp hcontiguous).2
      exact ⟨start, text, past, by simpa using hsplit, hrow⟩
    | word token =>
      obtain rfl := some.inj hfirst
      have hsorted := hlaid.sorted
      rcases hlaid with _ | @⟨_, gap, piece, after, _, _, hgap, _, hstart, hlen, hat, hlater⟩
      rw [CommandTree.words_word] at hlast ⊢
      rw [map_cons, wordText_piece hline hstart hlen]
      cases hwords : CommandTree.words tree with
      | nil =>
        rw [hwords] at hlast
        obtain rfl := some.inj hlast
        refine ⟨front ++ gap, piece, after, by simp, hstart, ?_, Row.single (hat hitem)⟩
        simp [hstart, hlen, add_assoc]
      | cons second words =>
        rw [hwords, getLast?_cons_cons, ← hwords] at hlast
        cases tree with
        | nil => cases hwords
        | cons next tree =>
          obtain ⟨hnext, -⟩ := forall_mem_cons.mp htree
          cases next with
          | redirect sign target =>
            -- the path of the redirection would stand between two words
            obtain ⟨op, hop⟩ := (exists_redirectOpOf_iff sign.type).mpr hnext.1
            have hmem : last ∈ CommandTree.words tree := mem_of_getLast? hlast
            have hpath := rel_of_pairwise_cons hsorted.of_cons.of_cons (mem_tokens hmem)
            refine absurd ⟨?_, Nat.lt_add_right _ hpath⟩ (hcontiguous ⟨op, target.start, target.len⟩
              (CommandTree.redirects_redirect hop target tree ▸ mem_cons_self))
            exact rel_of_pairwise_cons hsorted (mem_cons_of_mem _ mem_cons_self)
          | word other =>
            have hlt := rel_of_pairwise_cons hsorted mem_cons_self
            obtain ⟨start, text, past, hsplit, hother, hstop, hrow⟩ :=
              ih htree hlater (by simpa using hline) rfl hlast fun redirect hredirect hbetween =>
                hcontiguous redirect hredirect ⟨lt_trans hlt hbetween.1, hbetween.2⟩
            rcases hlater with _ | @⟨_, next, second, later, _, _, hblank, _, hsecond, _, hword, _⟩
            rw [← append_assoc (front ++ gap ++ piece)] at hsplit
            obtain ⟨rfl, htail⟩ := append_inj hsplit (hsecond.symm.trans hother)
            have hsome : next ≠ [] := by
              rintro rfl
              exact (hword hnext).not_endsWord (exists_word_of_wordRest (hat hitem).ends).2
            refine ⟨front ++ gap, piece ++ (next ++ text), past, by simp [htail], hstart,
              by simpa using hstop, ?_⟩
            rw [← hwords]
            exact .cons ((hat hitem).of_gap (by simp [hsome]) hblank hsome text) hblank hrow

end

/-- A range of a list holds `part`. -/
def Ranged {α : Type*} (list : List α) (start count : ℕ) (part : List α) : Prop :=
  ∃ before after, list = before ++ (part ++ after) ∧ start = before.length ∧ count = part.length

section

variable {α : Type*} {list part : List α} {start count : ℕ}

theorem Ranged.eq (hpart : Ranged list start count part) : (list.drop start).take count = part := by
  obtain ⟨before, after, rfl, rfl, rfl⟩ := hpart
  rw [drop_left, take_left]

theorem Ranged.append (hpart : Ranged list start count part) (more : List α) :
    Ranged (list ++ more) start count part := by
  obtain ⟨before, after, rfl, hstart, hcount⟩ := hpart
  exact ⟨before, after ++ more, by simp, hstart, hcount⟩

theorem ranged_append {list part : List α} : Ranged (list ++ part) list.length part.length part :=
  ⟨list, [], by simp, rfl, rfl⟩

end

/-- Every command of the tables is that of a tree of the given kind. -/
def Known (kind : CommandTree → Prop) (out : Line) : Prop :=
  ∀ command ∈ out.commands, ∃ tree, kind tree ∧
    Ranged out.words command.wordStart command.wordCount tree.words ∧
    Ranged out.redirects command.redirectStart command.redirectCount tree.redirects

variable {kind : CommandTree → Prop} {out : Line}

theorem known_addCommand (hout : Known kind out) (htree : kind tree) :
    Known kind (addCommand out tree) := by
  intro command hcommand
  rcases mem_append.mp hcommand with hold | hnew
  · obtain ⟨other, hkind, hwords, hredirects⟩ := hout command hold
    exact ⟨other, hkind, hwords.append _, hredirects.append _⟩
  · obtain rfl := mem_singleton.mp hnew
    exact ⟨tree, htree, ranged_append, ranged_append⟩

theorem known_addPipelines {list : Separated Token PipelineTree} (hout : Known kind out)
    (hlist : ∀ pipeline ∈ list.items, ∀ tree ∈ pipeline.items, kind tree) (join : Join) :
    Known kind (addPipelines join out list) := by
  have hone : ∀ {out : Line} {pipeline : PipelineTree} (join : Join), Known kind out →
      (∀ tree ∈ pipeline.items, kind tree) → Known kind (addPipeline join out pipeline) :=
    fun {out pipeline} join hout htrees => pipeline.items.foldlRecOn addCommand hout
      fun out hout tree htree => known_addCommand hout (htrees tree htree)
  induction list generalizing join out with
  | single pipeline => exact hone join hout (hlist pipeline mem_cons_self)
  | cons pipeline sep list ih =>
    obtain ⟨hpipeline, hlist⟩ := forall_mem_cons.mp hlist
    exact ih (hone join hout hpipeline) hlist (joinAfter sep)

/-- The tree of a command is a part of the tree of the line. -/
theorem known_tables {tree : LineTree} (hproper : tree.Proper) :
    Known (fun command => command.Proper ∧ command.tokens <:+: tree.tokens) tree.tables := by
  obtain ⟨hpipelines, -⟩ := hproper.pipelines
  have hempty : ∀ kind, Known kind emptyLine := fun _ _ hnone => nomatch not_mem_nil hnone
  refine known_addPipelines (hempty _) (fun pipeline hpipeline command hcommand => ⟨?_, ?_⟩) .first
  · exact (hpipelines pipeline hpipeline).commands command hcommand
  · rw [LineTree.tokens_eq]
    exact ((Separated.infix_yield hcommand).trans (Separated.infix_yield hpipeline)).trans
      (prefix_append _ _).isInfix

/-- Without a dollar sign there is nothing to expand. -/
theorem expandFrom_eq_drop (context : ExpandContext) (taken : ℕ) (insingle indouble : Bool)
    {span : Text} (hdollar : charDollar ∉ span) :
    expandFrom context false taken insingle indouble span = span.drop taken := by
  induction span generalizing taken insingle indouble with
  | nil => cases taken <;> rfl
  | cons char rest ih =>
    obtain ⟨hchar, hrest⟩ := not_or.mp (mt mem_cons.mpr hdollar)
    cases taken with
    | succ taken => exact ih taken insingle indouble hrest
    | zero =>
      have hnot : ¬ char = charDollar := fun heq => hchar heq.symm
      simp only [expandFrom, ih _ _ _ hrest, hnot, false_and, if_false]
      split
      · rename_i hescape
        obtain ⟨next, rest, rfl⟩ := exists_cons_of_ne_nil hescape.2.2
        rfl
      · split <;> [rfl; split <;> rfl]

theorem expand_eq_self (context : ExpandContext) {span : Text} (hdollar : charDollar ∉ span) :
    expand context false span = span :=
  expandFrom_eq_drop context 0 false false hdollar

/-- The text of a command is a row of its words. -/
theorem row_commandText {tables : Line} {index : ℕ} {command : Command}
    (hcommand : tables.commands[index]? = some command) (htree : tree.Proper)
    (hwords : tables.wordsOf command = tree.words)
    (hredirects : tables.redirectsOf command = tree.redirects)
    (hlaid : Laid front rest (tree.tokens ++ more)) (hline : front ++ rest <+: line)
    (hdollar : charDollar ∉ line) {context : ExpandContext} :
    ∃ out, tables.commandText context line index = some out ∧
      Row (tree.words.map (wordText line)) out := by
  have hspan : ∀ start len, expand context false (spanOf line start len) = spanOf line start len :=
    fun start len => expand_eq_self context fun hmem =>
      hdollar (mem_of_mem_drop (mem_of_mem_take hmem))
  obtain ⟨first, hfirst⟩ := ne_none_iff_exists'.mp (mt head?_eq_none_iff.mp htree.named)
  obtain ⟨last, hlast⟩ := ne_none_iff_exists'.mp (mt getLast?_eq_none_iff.mp htree.named)
  simp only [Line.commandText, hcommand, hwords, hredirects, hfirst, hlast, hspan]
  split
  · rename_i hall
    obtain ⟨start, text, past, hsplit, hstart, hstop, hrow⟩ :=
      exists_row htree.items hlaid hline hfirst hlast fun redirect hredirect =>
        of_decide_eq_true (all_eq_true.mp hall redirect hredirect)
    obtain ⟨tail, rfl⟩ := hline
    refine ⟨_, rfl, ?_⟩
    rw [hsplit] at hrow ⊢
    rw [hstart, hstop, spanOf]
    simpa using hrow
  · refine ⟨_, rfl, ?_⟩
    rw [joinWords]
    simp only [hspan]
    exact row_joined htree.items hlaid hline

/-- On a line without a dollar sign the text of every command reads back as the words of the
command, whatever redirections stand between them.  A span without one is expanded to itself. -/
theorem commandText_reads_back :
    (∀ line parsed, parse line = some parsed → charDollar ∉ line →
      ∀ context index command, parsed.commands[index]? = some command →
        ∃ out, parsed.commandText context line index = some out ∧
          ∃ tokens, tokenize out = some tokens ∧ (∀ token ∈ tokens, token.type = .word) ∧
            tokens.map (wordText out) = (parsed.wordsOf command).map (wordText line)) ∧
      ∀ context span, charDollar ∉ span → expand context false span = span := by
  refine ⟨fun line parsed hparse hdollar context index command hcommand => ?_,
    fun context span hspan => expand_eq_self context hspan⟩
  obtain ⟨tree, htokens, hproper, rfl⟩ := (parse_eq_some_iff line parsed).mp hparse
  obtain ⟨part, ⟨hpart, before, later, hinfix⟩, hwords, hredirects⟩ :=
    known_tables hproper command (mem_of_getElem? hcommand)
  rw [← hinfix, append_assoc] at htokens
  obtain ⟨start, after, hsplit, hlaid⟩ := (laid_of_tokenize htokens).skip
  obtain ⟨out, hout, hrow⟩ := row_commandText hcommand hpart hwords.eq hredirects.eq hlaid
    (hsplit ▸ take_prefix _ line) hdollar
  have hnamed : part.words.map (wordText line) ≠ [] := mt map_eq_nil_iff.mp hpart.named
  refine ⟨out, hout, ?_⟩
  rw [show tree.tables.wordsOf command = part.words from hwords.eq]
  exact hrow.exists_tokenize hnamed

/-- A redirection between the words, and blanks inside one of them. -/
theorem commandText_reads_back_between :
    ∃ parsed out tokens, parse (text "cp >f 'a b'") = some parsed ∧
      parsed.commandText ⟨0, fun _ => []⟩ (text "cp >f 'a b'") 0 = some out ∧
      tokenize out = some tokens ∧ tokens.map (wordText out) = [text "cp", text "'a b'"] := by
  have hparse : parse (text "cp >f 'a b'") = some
      { pipelines := [⟨0, 1, .first⟩], commands := [⟨0, 2, 0, 1⟩], redirects := [⟨.output, 4, 1⟩]
        words := [⟨.word, 0, 2⟩, ⟨.word, 6, 5⟩] } := by decide +kernel
  obtain ⟨out, hout, tokens, htokens, -, htexts⟩ :=
    commandText_reads_back.1 _ _ hparse (by decide) ⟨0, fun _ => []⟩ 0 _ rfl
  exact ⟨_, out, tokens, hparse, hout, htokens, htexts⟩

end PdiStack.CommandText
