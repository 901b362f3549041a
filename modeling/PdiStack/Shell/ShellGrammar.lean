import Mathlib
import PdiStack.Core.Separated
import PdiStack.Shell.ShellParser

/-!
# The grammar of the shell

The grammar in the header of `ShellParser`, as derivation trees over the tokens, and the
flat tables that a tree describes.  The parser accepts a sequence of tokens exactly when
some tree spells it, and the tables it fills are those of the tree.
-/

namespace PdiStack.ShellGrammar

open ShellParser StringOperations List Bool

/-- One part of a command: a word, or a redirection with its sign and its path. -/
inductive Item where
  | word (token : Token)
  | redirect (sign target : Token)
deriving DecidableEq, Repr

namespace Item

def tokens : Item → List Token
  | word token => [token]
  | redirect sign target => [sign, target]

/-- The tokens are of the types the grammar names. -/
def Proper : Item → Prop
  | word token => token.type = .word
  | redirect sign target => (sign.type = .lt ∨ sign.type = .gt ∨ sign.type = .dgt) ∧
      target.type = .word

def word? : Item → Option Token
  | word token => some token
  | redirect _ _ => none

def redirect? : Item → Option Redirect
  | word _ => none
  | redirect sign target =>
    (redirectOpOf sign.type).map fun op => { op := op, start := target.start, len := target.len }

end Item

/-- `command`: words and redirections in any order. -/
abbrev CommandTree := List Item

namespace CommandTree

def tokens (tree : CommandTree) : List Token := tree.flatMap Item.tokens

def words (tree : CommandTree) : List Token := tree.filterMap Item.word?

def redirects (tree : CommandTree) : List Redirect := tree.filterMap Item.redirect?

@[simp] theorem tokens_nil : tokens [] = [] := rfl

variable (token : Token) (tree : CommandTree)

@[simp] theorem tokens_word : tokens (.word token :: tree) = token :: tokens tree := rfl

@[simp] theorem tokens_redirect (sign target : Token) (tree : CommandTree) :
    tokens (.redirect sign target :: tree) = sign :: target :: tokens tree := rfl

@[simp] theorem words_nil : words [] = [] := rfl

@[simp] theorem words_word : words (.word token :: tree) = token :: words tree := rfl

@[simp] theorem words_redirect (sign target : Token) (tree : CommandTree) :
    words (.redirect sign target :: tree) = words tree := rfl

@[simp] theorem redirects_nil : redirects [] = [] := rfl

@[simp] theorem redirects_word : redirects (.word token :: tree) = redirects tree := rfl

theorem redirects_redirect {sign : Token} {op : RedirectOp} (hop : redirectOpOf sign.type = some op)
    (target : Token) (tree : CommandTree) :
    redirects (.redirect sign target :: tree) =
      { op := op, start := target.start, len := target.len } :: redirects tree := by
  refine filterMap_cons_some ?_
  rw [Item.redirect?, hop]
  rfl

/-- There is a word, at most one input and at most one output of either kind. -/
structure Proper (tree : CommandTree) : Prop where
  items : ∀ item ∈ tree, item.Proper
  named : tree.words ≠ []
  inputs : tree.redirects.countP (fun redirect => redirect.op = .input) ≤ 1
  outputs : tree.redirects.countP (fun redirect => redirect.op ≠ .input) ≤ 1

end CommandTree

/-- `pipeline`: commands with bars between them. -/
abbrev PipelineTree := Separated Token CommandTree

namespace PipelineTree

def tokens (tree : PipelineTree) : List Token := tree.yield CommandTree.tokens

structure Proper (tree : PipelineTree) : Prop where
  commands : ∀ command ∈ tree.items, CommandTree.Proper command
  seps : ∀ sep ∈ tree.seps, sep.type = .pipe

end PipelineTree

/-- `and_or`: pipelines with conditions between them. -/
abbrev AndOrTree := Separated Token PipelineTree

structure AndOrTree.Proper (tree : AndOrTree) : Prop where
  pipelines : ∀ pipeline ∈ tree.items, PipelineTree.Proper pipeline
  seps : ∀ sep ∈ tree.seps, sep.type = .andIf ∨ sep.type = .orIf

/-- `line`: lists of pipelines with semicolons between them, and perhaps one at the end. -/
structure LineTree where
  body : Separated Token AndOrTree
  last : Option Token
deriving DecidableEq, Repr

namespace LineTree

def tokens (tree : LineTree) : List Token :=
  tree.body.yield (Separated.yield PipelineTree.tokens) ++ tree.last.toList

structure Proper (tree : LineTree) : Prop where
  andOrs : ∀ andOr ∈ tree.body.items, AndOrTree.Proper andOr
  seps : ∀ sep ∈ tree.body.seps, sep.type = .semi
  last : ∀ sep ∈ tree.last, sep.type = .semi

/-- The pipelines of the line in order, with the separators between them. -/
def pipelines (tree : LineTree) : Separated Token PipelineTree := tree.body.join

end LineTree

/-! ## The tables of a tree -/

/-- The join that a separator makes. -/
def joinAfter (sep : Token) : Join := (joinOf sep.type).getD .first

def commandOf (out : Line) (tree : CommandTree) : Command :=
  { wordStart := out.words.length, wordCount := tree.words.length
    redirectStart := out.redirects.length, redirectCount := tree.redirects.length }

def addCommand (out : Line) (tree : CommandTree) : Line :=
  { out with
    words := out.words ++ tree.words
    redirects := out.redirects ++ tree.redirects
    commands := out.commands ++ [commandOf out tree] }

def addPipeline (join : Join) (out : Line) (tree : PipelineTree) : Line :=
  { tree.items.foldl addCommand out with
    pipelines := out.pipelines ++
      [{ commandStart := out.commands.length, commandCount := tree.items.length, join := join }] }

def addPipelines : Join → Line → Separated Token PipelineTree → Line
  | join, out, .single tree => addPipeline join out tree
  | join, out, .cons tree sep rest =>
    addPipelines (joinAfter sep) (addPipeline join out tree) rest

def emptyLine : Line := { pipelines := [], commands := [], redirects := [], words := [] }

def LineTree.tables (tree : LineTree) : Line := addPipelines .first emptyLine tree.pipelines

/-! ## Redirections of one command -/

theorem clashes_eq_false_iff (seen redirect : Redirect) :
    clashes seen redirect = false ↔ (seen.op = .input ↔ redirect.op ≠ .input) := by
  unfold clashes
  cases seen.op <;> cases redirect.op <;> decide

/-- One input and one output are all that do not clash. -/
theorem pairwise_clashes_iff {redirects : List Redirect} :
    redirects.Pairwise (fun seen redirect => clashes seen redirect = false) ↔
      redirects.countP (fun redirect => redirect.op = .input) ≤ 1 ∧
        redirects.countP (fun redirect => redirect.op ≠ .input) ≤ 1 := by
  induction redirects with
  | nil => simp
  | cons first rest ih =>
    rw [pairwise_cons, ih, countP_cons, countP_cons]
    simp only [clashes_eq_false_iff, decide_eq_true_eq]
    have hinputs := countP_eq_zero (p := fun redirect : Redirect => redirect.op = .input)
      (l := rest)
    have houtputs := countP_eq_zero (p := fun redirect : Redirect => redirect.op ≠ .input)
      (l := rest)
    simp only [decide_eq_true_eq, ne_eq] at hinputs houtputs
    by_cases hfirst : first.op = .input
    · simp only [hfirst, true_iff, if_pos, ne_eq, not_true_eq_false, if_neg, not_false_eq_true]
      rw [← hinputs]
      omega
    · simp only [hfirst, false_iff, ne_eq, not_false_eq_true, if_true, if_false]
      rw [← houtputs]
      omega

variable {command : Command} {tree : CommandTree} {next : Line} {rest tokens : List Token}
  {list : Separated Token PipelineTree} {sep : Token} {passes : ℕ} (join : Join) (out : Line)

theorem redirectsOf_of_open {out : Line}
    (hopen : command.redirectStart + command.redirectCount = out.redirects.length) :
    out.redirectsOf command = out.redirects.drop command.redirectStart := by
  rw [Line.redirectsOf, take_of_length_le]
  rw [length_drop]
  omega

/-! ## Commands -/

/-- What ends a command: neither a word nor the sign of a redirection. -/
def EndsCommand (rest : List Token) : Prop :=
  ∀ token ∈ rest.head?, token.type ≠ .word ∧ redirectOpOf token.type = none

theorem exists_redirectOpOf_iff (type : TokenType) :
    (∃ op, redirectOpOf type = some op) ↔ type = .lt ∨ type = .gt ∨ type = .dgt := by
  cases type <;> simp [redirectOpOf]

theorem type_ne_word_of_redirectOpOf {type : TokenType} {op : RedirectOp}
    (hop : redirectOpOf type = some op) : type ≠ .word := by
  rintro rfl
  cases hop

/-- A command that is spelled at the head of the tokens is read off them. -/
theorem readCommand_tokens (hitems : ∀ item ∈ tree, item.Proper) (hrest : EndsCommand rest)
    {out : Line} (hopen : command.redirectStart + command.redirectCount = out.redirects.length)
    (hclash : (out.redirects.drop command.redirectStart ++ tree.redirects).Pairwise
      fun seen redirect => clashes seen redirect = false) :
    readCommand (CommandTree.tokens tree ++ rest) out command =
      some (rest,
        { out with words := out.words ++ tree.words, redirects := out.redirects ++ tree.redirects },
        { command with
          wordCount := command.wordCount + tree.words.length
          redirectCount := command.redirectCount + tree.redirects.length }) := by
  induction tree generalizing out command with
  | nil =>
    have hstop : readCommand rest out command = some (rest, out, command) := by
      cases rest with
      | nil => rfl
      | cons token rest =>
        obtain ⟨hword, hsign⟩ := hrest token rfl
        rw [readCommand, if_neg hword, hsign]
    simpa using hstop
  | cons item tree ih =>
    obtain ⟨hitem, htree⟩ := forall_mem_cons.mp hitems
    cases item with
    | word token =>
      have hword : token.type = .word := hitem
      rw [CommandTree.tokens_word, cons_append, readCommand, if_pos hword, ih htree]
      · simp [add_assoc, add_comm]
      · exact hopen
      · exact hclash
    | redirect sign target =>
      obtain ⟨hsign, htarget⟩ := hitem
      obtain ⟨op, hop⟩ := (exists_redirectOpOf_iff sign.type).mpr hsign
      rw [CommandTree.redirects_redirect hop] at hclash ⊢
      have hfree : ((out.redirectsOf command).any fun seen =>
          clashes seen { op := op, start := target.start, len := target.len }) = false := by
        rw [redirectsOf_of_open hopen, any_eq_false]
        intro seen hseen
        rw [(pairwise_append.mp hclash).2.2 seen hseen _ mem_cons_self]
        exact false_ne_true
      have hdrop : ∀ redirect, (out.redirects ++ [redirect]).drop command.redirectStart =
          out.redirects.drop command.redirectStart ++ [redirect] :=
        fun redirect => drop_append_of_le_length (by omega)
      rw [CommandTree.tokens_redirect, cons_append, cons_append, readCommand,
        if_neg (type_ne_word_of_redirectOpOf hop), hop]
      dsimp only
      rw [if_neg (not_not.mpr htarget), hfree, ih htree]
      · simp [add_assoc, add_comm]
      · simp only [length_append, length_singleton]
        omega
      · rw [hdrop, append_assoc]
        exact hclash

theorem exists_tree_of_readCommand {out : Line} {filled : Command}
    (hread : readCommand tokens out command = some (rest, next, filled))
    (hopen : command.redirectStart + command.redirectCount = out.redirects.length)
    (hseen : (out.redirects.drop command.redirectStart).Pairwise
      fun seen redirect => clashes seen redirect = false) :
    ∃ tree : CommandTree, (∀ item ∈ tree, item.Proper) ∧
      tokens = CommandTree.tokens tree ++ rest ∧ EndsCommand rest ∧
      (out.redirects.drop command.redirectStart ++ tree.redirects).Pairwise
        fun seen redirect => clashes seen redirect = false := by
  fun_induction readCommand tokens out command with
  | case1 out command =>
    obtain ⟨rfl, -⟩ := Prod.mk.inj (Option.some.inj hread)
    exact ⟨[], nofun, rfl, nofun, by simpa using hseen⟩
  | case2 token rest out command hword ih =>
    obtain ⟨tree, hitems, htokens, hrest, hclash⟩ := ih hread hopen hseen
    refine ⟨.word token :: tree, forall_mem_cons.mpr ⟨hword, hitems⟩, ?_, hrest, hclash⟩
    rw [htokens, CommandTree.tokens_word, cons_append]
  | case3 token rest out command hword hsign =>
    obtain ⟨rfl, -⟩ := Prod.mk.inj (Option.some.inj hread)
    refine ⟨[], nofun, rfl, ?_, by simpa using hseen⟩
    intro other hother
    obtain rfl := Option.some.inj hother
    exact ⟨hword, hsign⟩
  | case4 => cases hread
  | case5 => cases hread
  | case6 => cases hread
  | case7 token out command hword op hop target rest redirect htarget hfree ih =>
    have hdrop : (out.redirects ++ [redirect]).drop command.redirectStart =
        out.redirects.drop command.redirectStart ++ [redirect] :=
      drop_append_of_le_length (by omega)
    have hnext : (out.redirects.drop command.redirectStart ++ [redirect]).Pairwise
        fun seen redirect => clashes seen redirect = false := by
      rw [pairwise_append]
      refine ⟨hseen, pairwise_singleton _ _, fun seen hmem other hother => ?_⟩
      rw [mem_singleton.mp hother]
      rw [redirectsOf_of_open hopen, not_eq_true, any_eq_false] at hfree
      exact not_eq_true _ ▸ hfree seen hmem
    obtain ⟨tree, hitems, htokens, hrest, hclash⟩ := ih hread (by
      simp only [length_append, length_singleton]
      omega) (by rwa [hdrop])
    have hsign := (exists_redirectOpOf_iff token.type).mp ⟨op, hop⟩
    refine ⟨.redirect token target :: tree, forall_mem_cons.mpr
      ⟨⟨hsign, not_not.mp htarget⟩, hitems⟩, ?_, hrest, ?_⟩
    · rw [htokens, CommandTree.tokens_redirect, cons_append, cons_append]
    · rw [CommandTree.redirects_redirect hop]
      rwa [hdrop, append_assoc] at hclash

def freshCommand (out : Line) : Command :=
  { wordStart := out.words.length, wordCount := 0
    redirectStart := out.redirects.length, redirectCount := 0 }

theorem readCommand_fresh (hproper : tree.Proper) (hrest : EndsCommand rest) {out : Line} :
    readCommand (CommandTree.tokens tree ++ rest) out (freshCommand out) =
      some (rest,
        { out with words := out.words ++ tree.words, redirects := out.redirects ++ tree.redirects },
        commandOf out tree) := by
  have hclash := (pairwise_clashes_iff).mpr ⟨hproper.inputs, hproper.outputs⟩
  have hnone : out.redirects.drop (freshCommand out).redirectStart = [] := drop_length
  rw [readCommand_tokens hproper.items hrest rfl (by rwa [hnone])]
  simp [freshCommand, commandOf]

theorem exists_command_of_readCommand {out : Line}
    (hread : readCommand tokens out (freshCommand out) = some (rest, next, command))
    (hword : command.wordCount ≠ 0) :
    ∃ tree : CommandTree, tree.Proper ∧ tokens = CommandTree.tokens tree ++ rest ∧
      EndsCommand rest := by
  have hnone : out.redirects.drop (freshCommand out).redirectStart = [] := drop_length
  obtain ⟨tree, hitems, htokens, hrest, hclash⟩ :=
    exists_tree_of_readCommand hread rfl (by rw [hnone]; exact List.Pairwise.nil)
  have hfull := readCommand_tokens hitems hrest rfl hclash
  rw [← htokens, hread] at hfull
  obtain ⟨-, hpair⟩ := Prod.mk.inj (Option.some.inj hfull)
  obtain ⟨-, hcommand⟩ := Prod.mk.inj hpair
  rw [hnone] at hclash
  obtain ⟨hinputs, houtputs⟩ := (pairwise_clashes_iff).mp hclash
  refine ⟨tree, ⟨hitems, fun hnil => hword ?_, hinputs, houtputs⟩, htokens, hrest⟩
  rw [hcommand, hnil]
  rfl

/-! ## Pipelines -/

def EndsPipeline (rest : List Token) : Prop :=
  EndsCommand rest ∧ ∀ token ∈ rest.head?, token.type ≠ .pipe

theorem endsCommand_cons {token : Token} (hword : token.type ≠ .word)
    (hsign : redirectOpOf token.type = none) : EndsCommand (token :: rest) := by
  intro other hother
  obtain rfl := Option.some.inj hother
  exact ⟨hword, hsign⟩

theorem endsCommand_pipe {token : Token} (hpipe : token.type = .pipe) {rest : List Token} :
    EndsCommand (token :: rest) := by
  refine endsCommand_cons ?_ ?_
  · rw [hpipe]
    decide
  · rw [hpipe]
    rfl

theorem readPipeline_last (hproper : tree.Proper) (hrest : EndsPipeline rest) (passes : ℕ)
    (out : Line) (pipeline : Pipeline) :
    readPipeline (passes + 1) (CommandTree.tokens tree ++ rest) out pipeline =
      some (rest, addCommand out tree,
        { pipeline with commandCount := pipeline.commandCount + 1 }) := by
  have hread : readCommand (CommandTree.tokens tree ++ rest) out
      { wordStart := out.words.length, wordCount := 0
        redirectStart := out.redirects.length, redirectCount := 0 } = _ :=
    readCommand_fresh hproper hrest.1
  have hword : (commandOf out tree).wordCount ≠ 0 :=
    fun hzero => hproper.named (length_eq_zero_iff.mp hzero)
  rw [readPipeline, hread]
  dsimp only
  rw [if_neg hword]
  cases rest with
  | nil => rfl
  | cons token rest => exact if_neg (hrest.2 token rfl)

theorem readPipeline_more (hproper : tree.Proper) (hpipe : sep.type = .pipe) (rest : List Token)
    (passes : ℕ) (out : Line) (pipeline : Pipeline) :
    readPipeline (passes + 1) (CommandTree.tokens tree ++ sep :: rest) out pipeline =
      readPipeline passes rest (addCommand out tree)
        { pipeline with commandCount := pipeline.commandCount + 1 } := by
  have hread : readCommand (CommandTree.tokens tree ++ sep :: rest) out
      { wordStart := out.words.length, wordCount := 0
        redirectStart := out.redirects.length, redirectCount := 0 } = _ :=
    readCommand_fresh hproper (endsCommand_pipe hpipe)
  have hword : (commandOf out tree).wordCount ≠ 0 :=
    fun hzero => hproper.named (length_eq_zero_iff.mp hzero)
  rw [readPipeline, hread]
  dsimp only
  rw [if_neg hword, if_pos hpipe]
  rfl

theorem readPipeline_tokens {tree : PipelineTree} (hproper : tree.Proper)
    (hrest : EndsPipeline rest) (hpasses : tree.items.length ≤ passes) (out : Line)
    (pipeline : Pipeline) :
    readPipeline passes (PipelineTree.tokens tree ++ rest) out pipeline =
      some (rest, tree.items.foldl addCommand out,
        { pipeline with commandCount := pipeline.commandCount + tree.items.length }) := by
  obtain ⟨passes, rfl⟩ : ∃ fewer, passes = fewer + 1 :=
    Nat.exists_eq_succ_of_ne_zero fun hzero =>
      tree.items_ne_nil (length_eq_zero_iff.mp (by omega))
  induction tree generalizing passes out pipeline with
  | single command =>
    have hcommand := hproper.commands command mem_cons_self
    exact readPipeline_last hcommand hrest passes out pipeline
  | cons command sep tree ih =>
    obtain ⟨hcommand, hcommands⟩ := forall_mem_cons.mp hproper.commands
    obtain ⟨hpipe, hseps⟩ := forall_mem_cons.mp hproper.seps
    have hleft : tree.items.length ≤ passes := Nat.le_of_succ_le_succ hpasses
    obtain ⟨fewer, rfl⟩ : ∃ fewer, passes = fewer + 1 :=
      Nat.exists_eq_succ_of_ne_zero fun hzero =>
        tree.items_ne_nil (length_eq_zero_iff.mp (by omega))
    rw [PipelineTree.tokens, Separated.yield, append_assoc, cons_append,
      readPipeline_more hcommand hpipe]
    refine (ih ⟨hcommands, hseps⟩ _ _ _ hleft).trans ?_
    simp [Separated.items, add_assoc, add_comm]

theorem exists_tree_of_readPipeline {out : Line} {pipeline filled : Pipeline}
    (hread : readPipeline passes tokens out pipeline = some (rest, next, filled)) :
    ∃ tree : PipelineTree, tree.Proper ∧ tokens = PipelineTree.tokens tree ++ rest ∧
      EndsPipeline rest ∧ tree.items.length ≤ passes := by
  induction passes generalizing tokens out pipeline with
  | zero => cases hread
  | succ passes ih =>
    rw [readPipeline] at hread
    split at hread
    case h_1 => cases hread
    case h_2 left filledOut command hcommand =>
      split at hread
      case isTrue => cases hread
      case isFalse hword =>
        obtain ⟨tree, hproper, htokens, hends⟩ := exists_command_of_readCommand hcommand hword
        cases left with
        | nil =>
          obtain ⟨rfl, -⟩ := Prod.mk.inj (Option.some.inj hread)
          exact ⟨.single tree, ⟨forall_mem_singleton.mpr hproper, nofun⟩, htokens,
            ⟨hends, nofun⟩, Nat.succ_le_succ (Nat.zero_le _)⟩
        | cons token left =>
          dsimp only at hread
          split at hread
          case isFalse hpipe =>
            obtain ⟨rfl, -⟩ := Prod.mk.inj (Option.some.inj hread)
            refine ⟨.single tree, ⟨forall_mem_singleton.mpr hproper, nofun⟩, htokens,
              ⟨hends, fun other hother => ?_⟩, Nat.succ_le_succ (Nat.zero_le _)⟩
            rwa [← Option.some.inj hother]
          case isTrue hpipe =>
            obtain ⟨trees, htrees, hleft, hrest, hpasses⟩ := ih hread
            refine ⟨.cons tree token trees, ⟨?_, ?_⟩, ?_, hrest, Nat.succ_le_succ hpasses⟩
            · exact forall_mem_cons.mpr ⟨hproper, htrees.commands⟩
            · exact forall_mem_cons.mpr ⟨hpipe, htrees.seps⟩
            · rw [htokens, hleft, PipelineTree.tokens, PipelineTree.tokens, Separated.yield,
                append_assoc, cons_append]

/-! ## Lines -/

def Separates (sep : Token) : Prop := sep.type = .semi ∨ sep.type = .andIf ∨ sep.type = .orIf

theorem joinOf_eq_of_separates (hsep : Separates sep) : joinOf sep.type = some (joinAfter sep) := by
  rw [joinAfter]
  rcases hsep with hsep | hsep | hsep <;> rw [hsep] <;> rfl

theorem separates_of_joinOf {join : Join} (hjoin : joinOf sep.type = some join) :
    Separates sep ∧ (join = .always → sep.type = .semi) := by
  unfold Separates
  generalize sep.type = type at hjoin
  cases type <;> cases hjoin <;> decide

theorem endsPipeline_of_separates (hsep : Separates sep) {rest : List Token} :
    EndsPipeline (sep :: rest) := by
  refine ⟨endsCommand_cons ?_ ?_, fun other hother => ?_⟩
  · rcases hsep with hsep | hsep | hsep <;> rw [hsep] <;> decide
  · rcases hsep with hsep | hsep | hsep <;> rw [hsep] <;> rfl
  · rw [← Option.some.inj hother]
    rcases hsep with hsep | hsep | hsep <;> rw [hsep] <;> decide

theorem foldl_addCommand_pipelines (trees : List CommandTree) (out : Line) :
    (trees.foldl addCommand out).pipelines = out.pipelines := by
  induction trees generalizing out with
  | nil => rfl
  | cons tree trees ih =>
    rw [foldl_cons, ih]
    rfl

theorem tokens_ne_nil_of_words (hproper : tree.Proper) : CommandTree.tokens tree ≠ [] := by
  intro hnil
  cases tree with
  | nil => exact hproper.named rfl
  | cons item tree => cases item <;> cases hnil

theorem PipelineTree.tokens_ne_nil {tree : PipelineTree} (hproper : tree.Proper) :
    PipelineTree.tokens tree ≠ [] :=
  Separated.yield_ne_nil fun command hcommand =>
    tokens_ne_nil_of_words (hproper.commands command hcommand)

/-- The pipeline at the head of the tokens and what the line makes of it. -/
theorem readPipeline_whole {tree : PipelineTree} (hproper : tree.Proper) (hrest : EndsPipeline rest)
    {join : Join} {out : Line} :
    ∃ next pipeline, readPipeline (PipelineTree.tokens tree ++ rest).length
        (PipelineTree.tokens tree ++ rest) out
        { commandStart := out.commands.length, commandCount := 0, join := join } =
          some (rest, next, pipeline) ∧
      { next with pipelines := next.pipelines ++ [pipeline] } = addPipeline join out tree := by
  have hpasses : tree.items.length ≤ (PipelineTree.tokens tree ++ rest).length := by
    have hitems : tree.items.length ≤ (tree.yield CommandTree.tokens).length :=
      Separated.length_items_le fun command hcommand =>
        tokens_ne_nil_of_words (hproper.commands command hcommand)
    rw [length_append]
    exact hitems.trans (Nat.le_add_right _ _)
  refine ⟨_, _, readPipeline_tokens hproper hrest hpasses out _, ?_⟩
  rw [foldl_addCommand_pipelines, addPipeline, zero_add]

theorem readLine_tokens (hpipelines : ∀ tree ∈ list.items, PipelineTree.Proper tree)
    (hseps : ∀ sep ∈ list.seps, Separates sep) {last : Option Token}
    (hlast : ∀ sep ∈ last, sep.type = .semi) (hpasses : list.items.length ≤ passes) (join : Join)
    (out : Line) :
    readLine passes (list.yield PipelineTree.tokens ++ last.toList) join out =
      some (addPipelines join out list) := by
  induction list generalizing passes join out with
  | single tree =>
    obtain ⟨passes, rfl⟩ : ∃ fewer, passes = fewer + 1 := ⟨passes - 1, by
      simp only [Separated.items, length_singleton] at hpasses
      omega⟩
    have htree := hpipelines tree mem_cons_self
    have hends : EndsPipeline last.toList := by
      cases last with
      | none => refine ⟨fun token htoken => ?_, fun token htoken => ?_⟩ <;> cases htoken
      | some sep => exact endsPipeline_of_separates (.inl (hlast sep rfl))
    obtain ⟨next, pipeline, hread, hnext⟩ := readPipeline_whole htree hends
    rw [Separated.yield, readLine, hread]
    dsimp only
    rw [hnext]
    cases last with
    | none => rfl
    | some sep =>
      have hjoin : joinOf sep.type = some .always := by
        rw [hlast sep rfl]
        rfl
      dsimp only [Option.toList]
      rw [hjoin]
      rfl
  | cons tree sep list ih =>
    obtain ⟨htree, htrees⟩ := forall_mem_cons.mp hpipelines
    obtain ⟨hsep, hseps⟩ := forall_mem_cons.mp hseps
    obtain ⟨passes, rfl⟩ : ∃ fewer, passes = fewer + 1 := ⟨passes - 1, by
      simp only [Separated.items, length_cons] at hpasses
      omega⟩
    obtain ⟨next, pipeline, hread, hnext⟩ :=
      readPipeline_whole htree (endsPipeline_of_separates hsep)
    have hmore : list.yield PipelineTree.tokens ++ last.toList ≠ [] :=
      append_ne_nil_of_left_ne_nil (Separated.yield_ne_nil fun other hother =>
        PipelineTree.tokens_ne_nil (htrees other hother)) _
    rw [Separated.yield, append_assoc, cons_append, readLine, hread]
    dsimp only
    rw [hnext, joinOf_eq_of_separates hsep]
    dsimp only
    rw [if_neg hmore, ih htrees hseps (Nat.le_of_succ_le_succ hpasses), addPipelines]

/-- What was read of the tokens is a line. -/
theorem exists_list_of_readLine {join : Join} {out : Line}
    (hread : readLine passes tokens join out = some next) :
    ∃ (list : Separated Token PipelineTree) (last : Option Token),
      (∀ tree ∈ list.items, PipelineTree.Proper tree) ∧ (∀ sep ∈ list.seps, Separates sep) ∧
        (∀ sep ∈ last, sep.type = .semi) ∧
        tokens = list.yield PipelineTree.tokens ++ last.toList ∧ list.items.length ≤ passes := by
  induction passes generalizing tokens join out with
  | zero => cases hread
  | succ passes ih =>
    rw [readLine] at hread
    split at hread
    case h_1 => cases hread
    case h_2 rest filled pipeline hpipeline =>
      obtain ⟨tree, hproper, htokens, -, -⟩ := exists_tree_of_readPipeline hpipeline
      have hone : ∀ other ∈ [tree], PipelineTree.Proper other := forall_mem_singleton.mpr hproper
      cases rest with
      | nil =>
        exact ⟨.single tree, none, hone, nofun, nofun, htokens,
          Nat.succ_le_succ (Nat.zero_le _)⟩
      | cons sep rest =>
        dsimp only at hread
        split at hread
        case h_1 => cases hread
        case h_2 nextJoin hjoin =>
          obtain ⟨hsep, hsemi⟩ := separates_of_joinOf hjoin
          split at hread
          case isTrue hend =>
            split at hread
            case isFalse => cases hread
            case isTrue halways =>
              refine ⟨.single tree, some sep, hone, nofun, ?_, ?_,
                Nat.succ_le_succ (Nat.zero_le _)⟩
              · intro other hother
                rw [← Option.some.inj hother]
                exact hsemi halways
              · rw [htokens, hend]
                rfl
          case isFalse =>
            obtain ⟨list, last, hlist, hseps, hlast, hrest, hpasses⟩ := ih hread
            refine ⟨.cons tree sep list, last, forall_mem_cons.mpr ⟨hproper, hlist⟩,
              forall_mem_cons.mpr ⟨hsep, hseps⟩, hlast, ?_, Nat.succ_le_succ hpasses⟩
            rw [htokens, hrest, Separated.yield, append_assoc, cons_append]

/-! ## Lists of pipelines and trees -/

def treeOf (list : Separated Token PipelineTree) (last : Option Token) : LineTree :=
  { body := list.split fun sep => sep.type = .semi, last := last }

theorem proper_treeOf {last : Option Token}
    (hpipelines : ∀ tree ∈ list.items, PipelineTree.Proper tree)
    (hseps : ∀ sep ∈ list.seps, Separates sep) (hlast : ∀ sep ∈ last, sep.type = .semi) :
    (treeOf list last).Proper ∧ (treeOf list last).pipelines = list := by
  have hjoin : (treeOf list last).body.join = list := Separated.join_split _ list
  refine ⟨⟨fun andOr handOr => ⟨fun tree htree => ?_, fun sep hsep => ?_⟩, fun sep hsep => ?_, hlast⟩,
    hjoin⟩
  · refine hpipelines tree ?_
    rw [← hjoin]
    exact Separated.mem_items_join.mpr ⟨andOr, handOr, htree⟩
  · have hnot := Separated.inner_of_mem_items_split _ andOr handOr sep hsep
    have hmem : sep ∈ list.seps := by
      rw [← hjoin]
      exact Separated.mem_seps_join.mpr (.inr ⟨andOr, handOr, hsep⟩)
    exact (hseps sep hmem).resolve_left (of_decide_eq_false hnot)
  · exact of_decide_eq_true (Separated.outer_of_mem_seps_split _ sep hsep)

theorem LineTree.tokens_eq (tree : LineTree) :
    tree.tokens = tree.pipelines.yield PipelineTree.tokens ++ tree.last.toList := by
  rw [LineTree.tokens, LineTree.pipelines, Separated.yield_join]

theorem LineTree.Proper.pipelines {tree : LineTree} (hproper : tree.Proper) :
    (∀ pipeline ∈ tree.pipelines.items, PipelineTree.Proper pipeline) ∧
      ∀ sep ∈ tree.pipelines.seps, Separates sep := by
  refine ⟨fun pipeline hpipeline => ?_, fun sep hsep => ?_⟩
  · obtain ⟨andOr, handOr, hmem⟩ := Separated.mem_items_join.mp hpipeline
    exact (hproper.andOrs andOr handOr).pipelines pipeline hmem
  · rcases Separated.mem_seps_join.mp hsep with hsemi | ⟨andOr, handOr, hmem⟩
    · exact .inl (hproper.seps sep hsemi)
    · exact .inr ((hproper.andOrs andOr handOr).seps sep hmem)

/-- The grammar accepts the tokens that a tree spells, and fills the tables of that tree. -/
theorem readLine_eq_some_iff (tokens : List Token) (tables : Line) :
    readLine tokens.length tokens .first emptyLine = some tables ↔
      ∃ tree : LineTree, tree.Proper ∧ tree.tokens = tokens ∧ tree.tables = tables := by
  constructor
  · intro hread
    obtain ⟨list, last, hlist, hseps, hlast, htokens, hpasses⟩ := exists_list_of_readLine hread
    obtain ⟨hproper, hpipelines⟩ := proper_treeOf hlist hseps hlast
    refine ⟨treeOf list last, hproper, ?_, ?_⟩
    · rw [LineTree.tokens_eq, hpipelines, htokens]
      rfl
    · have hfull := readLine_tokens hlist hseps hlast hpasses .first emptyLine
      rw [← htokens, hread] at hfull
      rw [LineTree.tables, hpipelines]
      exact (Option.some.inj hfull).symm
  · rintro ⟨tree, hproper, rfl, rfl⟩
    obtain ⟨hpipelines, hseps⟩ := hproper.pipelines
    have hitems : tree.pipelines.items.length ≤ (tree.pipelines.yield PipelineTree.tokens).length :=
      Separated.length_items_le fun pipeline hpipeline =>
        PipelineTree.tokens_ne_nil (hpipelines pipeline hpipeline)
    rw [LineTree.tokens_eq]
    refine readLine_tokens hpipelines hseps hproper.last ?_ .first emptyLine
    rw [length_append]
    exact hitems.trans (Nat.le_add_right _ _)

/-! ## Ranges -/

/-- Ranges that follow one another from a place to another one. -/
def Tiles (start : ℕ) : List (ℕ × ℕ) → ℕ → Prop
  | [], stop => start = stop
  | (first, count) :: rest, stop => first = start ∧ Tiles (start + count) rest stop

theorem Tiles.concat {start stop : ℕ} {ranges : List (ℕ × ℕ)} (htiles : Tiles start ranges stop)
    (count : ℕ) : Tiles start (ranges ++ [(stop, count)]) (stop + count) := by
  induction ranges generalizing start with
  | nil =>
    cases htiles
    exact ⟨rfl, rfl⟩
  | cons range ranges ih => exact ⟨htiles.1, ih htiles.2⟩

/-- The words and the redirections are divided among the commands in order. -/
structure Divided (tables : Line) : Prop where
  words : Tiles 0 (tables.commands.map fun command => (command.wordStart, command.wordCount))
    tables.words.length
  redirects : Tiles 0
    (tables.commands.map fun command => (command.redirectStart, command.redirectCount))
    tables.redirects.length

structure Tiled (tables : Line) : Prop extends Divided tables where
  commands : Tiles 0
    (tables.pipelines.map fun pipeline => (pipeline.commandStart, pipeline.commandCount))
    tables.commands.length

theorem divided_addCommand {out : Line} (hout : Divided out) {tree : CommandTree} :
    Divided (addCommand out tree) where
  words := by
    simp only [addCommand, map_append, length_append]
    exact hout.words.concat _
  redirects := by
    simp only [addCommand, map_append, length_append]
    exact hout.redirects.concat _

theorem divided_foldl {out : Line} (hout : Divided out) {trees : List CommandTree} :
    Divided (trees.foldl addCommand out) ∧
      (trees.foldl addCommand out).commands.length = out.commands.length + trees.length := by
  induction trees generalizing out with
  | nil => exact ⟨hout, rfl⟩
  | cons tree trees ih =>
    obtain ⟨hdivided, hlength⟩ := ih (divided_addCommand hout)
    refine ⟨hdivided, ?_⟩
    rw [foldl_cons, hlength, addCommand, length_append, length_singleton, length_cons]
    omega

theorem tiled_emptyLine : Tiled emptyLine := ⟨⟨rfl, rfl⟩, rfl⟩

theorem tiled_addPipeline {out : Line} (hout : Tiled out) (join : Join) (tree : PipelineTree) :
    Tiled (addPipeline join out tree) := by
  obtain ⟨hdivided, hlength⟩ := divided_foldl hout.toDivided
  refine ⟨⟨hdivided.words, hdivided.redirects⟩, ?_⟩
  simp only [addPipeline, map_append, hlength]
  exact hout.commands.concat _

theorem tiled_addPipelines {out : Line} (hout : Tiled out) (join : Join)
    (list : Separated Token PipelineTree) : Tiled (addPipelines join out list) := by
  induction list generalizing join out with
  | single tree => exact tiled_addPipeline hout join tree
  | cons tree sep list ih => exact ih (tiled_addPipeline hout join tree) (joinAfter sep)

/-! ## Joins -/

theorem joins_addPipelines (list : Separated Token PipelineTree) :
    (addPipelines join out list).pipelines.map Pipeline.join =
      out.pipelines.map Pipeline.join ++ join :: list.seps.map joinAfter := by
  induction list generalizing join out with
  | single tree => simp [addPipelines, addPipeline, Separated.seps]
  | cons tree sep list ih =>
    rw [addPipelines, ih]
    simp [addPipeline, Separated.seps]

/-! ## Words -/

def isWord (token : Token) : Bool := token.type = .word

def targetOf (redirect : Redirect) : Token :=
  { type := .word, start := redirect.start, len := redirect.len }

/-- Every token that the tables hold: the words and the paths of the redirections. -/
def held (tables : Line) : List Token := tables.words ++ tables.redirects.map targetOf

theorem perm_command (hitems : ∀ item ∈ tree, item.Proper) :
    (tree.words ++ tree.redirects.map targetOf).Perm ((CommandTree.tokens tree).filter isWord) := by
  induction tree with
  | nil => exact List.Perm.nil
  | cons item tree ih =>
    obtain ⟨hitem, htree⟩ := forall_mem_cons.mp hitems
    cases item with
    | word token =>
      have hword : isWord token = true := decide_eq_true hitem
      rw [CommandTree.tokens_word, filter_cons_of_pos hword]
      exact (ih htree).cons token
    | redirect sign target =>
      obtain ⟨hsign, htarget⟩ := hitem
      obtain ⟨op, hop⟩ := (exists_redirectOpOf_iff sign.type).mpr hsign
      have hno : ¬ isWord sign = true := fun hword =>
        type_ne_word_of_redirectOpOf hop (of_decide_eq_true hword)
      have hyes : isWord target = true := decide_eq_true htarget
      have hsame : targetOf { op := op, start := target.start, len := target.len } = target := by
        rw [targetOf, ← htarget]
      rw [CommandTree.tokens_redirect, filter_cons_of_neg hno,
        filter_cons_of_pos hyes, CommandTree.redirects_redirect hop, map_cons, hsame]
      exact perm_middle.trans ((ih htree).cons target)

theorem perm_addCommand (hproper : tree.Proper) :
    (held (addCommand out tree)).Perm (held out ++ (CommandTree.tokens tree).filter isWord) := by
  refine List.Perm.trans ?_ ((perm_command hproper.items).append_left (held out))
  rw [perm_iff_count]
  intro token
  simp only [held, addCommand, map_append, count_append]
  omega

theorem perm_foldl {trees : List CommandTree} (hproper : ∀ tree ∈ trees, tree.Proper) :
    (held (trees.foldl addCommand out)).Perm
      (held out ++ trees.flatMap fun tree => (CommandTree.tokens tree).filter isWord) := by
  induction trees generalizing out with
  | nil => simp
  | cons tree trees ih =>
    obtain ⟨htree, htrees⟩ := forall_mem_cons.mp hproper
    rw [flatMap_cons, ← append_assoc]
    exact (ih (addCommand out tree) htrees).trans ((perm_addCommand out htree).append_right _)

theorem perm_addPipeline {tree : PipelineTree} (hproper : tree.Proper) :
    (held (addPipeline join out tree)).Perm
      (held out ++ (PipelineTree.tokens tree).filter isWord) := by
  have hseps : ∀ sep ∈ tree.seps, isWord sep = false := by
    intro sep hsep
    rw [isWord, hproper.seps sep hsep]
    rfl
  rw [PipelineTree.tokens, Separated.filter_yield hseps]
  exact perm_foldl out hproper.commands

theorem perm_addPipelines (hproper : ∀ tree ∈ list.items, PipelineTree.Proper tree) :
    (held (addPipelines join out list)).Perm
      (held out ++ list.items.flatMap fun tree => (PipelineTree.tokens tree).filter isWord) := by
  induction list generalizing join out with
  | single tree =>
    have hone := perm_addPipeline join out (hproper tree mem_cons_self)
    simpa [addPipelines, Separated.items] using hone
  | cons tree sep list ih =>
    obtain ⟨htree, htrees⟩ := forall_mem_cons.mp hproper
    rw [Separated.items, flatMap_cons, ← append_assoc]
    exact (ih (joinAfter sep) _ htrees).trans ((perm_addPipeline join out htree).append_right _)

theorem isWord_of_separates (hsep : Separates sep) : isWord sep = false := by
  unfold isWord
  rcases hsep with hsep | hsep | hsep <;> rw [hsep] <;> rfl

/-- Every word token of the line is held once by the tables of its tree. -/
theorem held_tables_perm {tree : LineTree} (hproper : tree.Proper) :
    (held tree.tables).Perm (tree.tokens.filter isWord) := by
  obtain ⟨hpipelines, hseps⟩ := hproper.pipelines
  have hlast : tree.last.toList.filter isWord = [] := by
    rw [filter_eq_nil_iff]
    intro sep hsep
    rw [isWord_of_separates (.inl (hproper.last sep (Option.mem_toList.mp hsep)))]
    exact false_ne_true
  rw [LineTree.tokens_eq, filter_append, hlast, append_nil,
    Separated.filter_yield fun sep hsep => isWord_of_separates (hseps sep hsep)]
  exact perm_addPipelines .first emptyLine hpipelines

/-! ## The parser -/

theorem visible_of_length_le {line : Text} (hline : line.length ≤ 32767) : visible line = line := by
  have hlength : lengthInt16 line.length = line.length := by
    unfold lengthInt16
    rw [Nat.mod_eq_of_lt (by omega), if_pos (by omega)]
  rw [visible, hlength, take_length]

theorem parse_eq_some_iff (line : Text) (tables : Line) :
    parse line = some tables ↔ ∃ tree : LineTree, tokenize (visible line) = some tree.tokens ∧
      tree.Proper ∧ tree.tables = tables := by
  rw [parse]
  cases htokens : tokenize (visible line) with
  | none => exact iff_of_false nofun fun ⟨tree, hnone, _⟩ => by cases hnone
  | some tokens =>
    refine (readLine_eq_some_iff tokens tables).trans (exists_congr fun tree => ?_)
    rw [Option.some_inj, eq_comm (a := tokens)]
    exact and_left_comm

def Derivable (tokens : List Token) : Prop := ∃ tree : LineTree, tree.Proper ∧ tree.tokens = tokens

/-- The parser accepts a line exactly when it has tokens that the grammar derives, and then
its tables are those of the derivation: the ranges divide the tables in order, the joins
are the separators in front of the pipelines, and every word token is held once. -/
theorem parse_follows_grammar (line : Text) (hline : line.length ≤ 32767) :
    ((parse line).isSome ↔ ∃ tokens, tokenize line = some tokens ∧ Derivable tokens) ∧
      ∀ tables, parse line = some tables →
        ∃ tree : LineTree, tokenize line = some tree.tokens ∧ tree.Proper ∧
          tables = tree.tables ∧ Tiled tables ∧
          tables.pipelines.map Pipeline.join = .first :: tree.pipelines.seps.map joinAfter ∧
          (held tables).Perm (tree.tokens.filter isWord) := by
  have hparsed := parse_eq_some_iff line
  rw [visible_of_length_le hline] at hparsed
  constructor
  · rw [Option.isSome_iff_exists]
    constructor
    · rintro ⟨tables, hparse⟩
      obtain ⟨tree, htokens, hproper, -⟩ := (hparsed tables).mp hparse
      exact ⟨tree.tokens, htokens, tree, hproper, rfl⟩
    · rintro ⟨tokens, htokens, tree, hproper, rfl⟩
      exact ⟨tree.tables, (hparsed _).mpr ⟨tree, htokens, hproper, rfl⟩⟩
  · intro tables hparse
    obtain ⟨tree, htokens, hproper, rfl⟩ := (hparsed tables).mp hparse
    refine ⟨tree, htokens, hproper, rfl, ?_, ?_, held_tables_perm hproper⟩
    · exact tiled_addPipelines tiled_emptyLine .first tree.pipelines
    · exact joins_addPipelines .first emptyLine tree.pipelines

/-- A line with a pipe, a redirection between the words and a semicolon at its end. -/
theorem parse_follows_grammar_sample :
    ∃ tree : LineTree,
      tokenize (text "a | b > c d && e;") = some tree.tokens ∧ tree.Proper ∧
        (held tree.tables).length = 5 := by
  have hparse : (parse (text "a | b > c d && e;")).isSome := by decide +kernel
  obtain ⟨tables, hsome⟩ := Option.isSome_iff_exists.mp hparse
  obtain ⟨tree, htokens, hproper, htables, -, -, hheld⟩ :=
    (parse_follows_grammar _ (by decide)).2 tables hsome
  refine ⟨tree, htokens, hproper, ?_⟩
  rw [← htables, hheld.length_eq]
  have hcount : ((tokenize (text "a | b > c d && e;")).map fun tokens =>
      (tokens.filter isWord).length) = some 5 := by decide +kernel
  rw [htokens] at hcount
  exact Option.some.inj hcount

end PdiStack.ShellGrammar
