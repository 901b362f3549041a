import PdiStack.Utility.PdiTypes
import PdiStack.Utility.StringOperations

/-!
# The shell parser

`ShellParser` reads a typed line: a tokenizer that knows quoting and escapes, then
a grammar over the tokens.  The result is a set of flat tables joined by index
ranges.  A token is a span of the line, so nothing is copied while parsing.

Text that is still to be read is a suffix of the line here, and the position of a
token is what the suffix before it is short of the line.  A line that the source
marks as malformed has no parse.
-/

namespace PdiStack.ShellParser

open StringOperations

def charTab : UInt8 := 0x09
def charBlank : UInt8 := 0x20
def charDoubleQuote : UInt8 := 0x22
def charDollar : UInt8 := 0x24
def charAmpersand : UInt8 := 0x26
def charSingleQuote : UInt8 := 0x27
def charSemicolon : UInt8 := 0x3B
def charLess : UInt8 := 0x3C
def charGreater : UInt8 := 0x3E
def charQuestion : UInt8 := 0x3F
def charBackslash : UInt8 := 0x5C
def charUnderscore : UInt8 := 0x5F
def charBar : UInt8 := 0x7C

def isBlank (char : UInt8) : Bool := char = charBlank || char = charTab

def isAlpha (char : UInt8) : Bool := (0x61 ≤ char && char ≤ 0x7A) || (0x41 ≤ char && char ≤ 0x5A)

def isAlnum (char : UInt8) : Bool := isAlpha char || (0x30 ≤ char && char ≤ 0x39)

/-- Where an operator starts, so a word knows where to end. -/
def isOperatorStart (char : UInt8) : Bool :=
  char = charBar || char = charAmpersand || char = charSemicolon || char = charLess ||
    char = charGreater

inductive TokenType where
  | word
  | pipe
  | andIf
  | orIf
  | semi
  | lt
  | gt
  | dgt
deriving DecidableEq, Repr

structure Token where
  type : TokenType
  start : ℕ
  len : ℕ
deriving DecidableEq, Repr

/-- The operator at the head of a text and its length.  A lone ampersand is no
operator, and a doubled less-than sign is one of length two. -/
def operatorAt : Text → Option (TokenType × ℕ)
  | [] => none
  | char :: rest =>
    let doubled : Bool := rest.head? = some char
    if char = charBar then
      some (if doubled then (.orIf, 2) else (.pipe, 1))
    else if char = charAmpersand then
      if doubled then some (.andIf, 2) else none
    else if char = charSemicolon then
      some (.semi, 1)
    else if char = charGreater then
      some (if doubled then (.dgt, 2) else (.gt, 1))
    else if char = charLess then
      some (.lt, if doubled then 2 else 1)
    else
      none

/-- Where the reader of a word stands. -/
inductive Quoting where
  | bare
  | single
  | double
deriving DecidableEq, Repr

/-- What follows the word at the head of a text.  A quote that is never closed
has no end. -/
def wordRest : Quoting → Text → Option Text
  | .bare, [] => some []
  | .single, [] => none
  | .double, [] => none
  | .bare, char :: rest =>
    if isBlank char then
      some (char :: rest)
    else if char = charBackslash then
      match rest with
      | [] => some []
      | _ :: rest => wordRest .bare rest
    else if char = charSingleQuote then
      wordRest .single rest
    else if char = charDoubleQuote then
      wordRest .double rest
    else if char = charAmpersand then
      if rest.head? = some charAmpersand then some (char :: rest) else wordRest .bare rest
    else if isOperatorStart char then
      some (char :: rest)
    else
      wordRest .bare rest
  | .single, char :: rest =>
    if char = charSingleQuote then wordRest .bare rest else wordRest .single rest
  | .double, char :: rest =>
    if char = charDoubleQuote then
      wordRest .bare rest
    else if char = charBackslash then
      match rest with
      | [] => none
      | _ :: rest => wordRest .double rest
    else
      wordRest .double rest

/-- The tokens of a text that ends a line of `total` bytes.  Every pass takes at
least one byte, so the length bounds the passes. -/
def tokensFrom (total : ℕ) : ℕ → Text → Option (List Token)
  | 0, _ => some []
  | passes + 1, rest =>
    let rest := rest.dropWhile isBlank
    if rest = [] then
      some []
    else
      match operatorAt rest with
      | some (type, len) =>
        (tokensFrom total passes (rest.drop len)).map
          ({ type := type, start := total - rest.length, len := len } :: ·)
      | none =>
        match wordRest .bare rest with
        | none => none
        | some after =>
          (tokensFrom total passes after).map
            ({ type := .word, start := total - rest.length
               len := rest.length - after.length } :: ·)

/-- `tokenize`; a line without a token is refused like an open quote. -/
def tokenize (line : Text) : Option (List Token) :=
  match tokensFrom line.length line.length line with
  | some [] => none
  | tokens => tokens

/-- `join_t`: what has to be true of the previous pipeline. -/
inductive Join where
  | first
  | always
  | onSuccess
  | onFailure
deriving DecidableEq, Repr

inductive RedirectOp where
  | input
  | output
  | append
deriving DecidableEq, Repr

structure Redirect where
  op : RedirectOp
  start : ℕ
  len : ℕ
deriving DecidableEq, Repr

structure Command where
  wordStart : ℕ
  wordCount : ℕ
  redirectStart : ℕ
  redirectCount : ℕ
deriving DecidableEq, Repr

structure Pipeline where
  commandStart : ℕ
  commandCount : ℕ
  join : Join
deriving DecidableEq, Repr

structure Line where
  pipelines : List Pipeline
  commands : List Command
  redirects : List Redirect
  words : List Token
deriving DecidableEq, Repr

namespace Line

def isPlain (parsed : Line) : Bool :=
  parsed.pipelines.length = 1 && parsed.commands.length = 1 && parsed.redirects.length = 0

def redirectsOf (parsed : Line) (command : Command) : List Redirect :=
  (parsed.redirects.drop command.redirectStart).take command.redirectCount

def wordsOf (parsed : Line) (command : Command) : List Token :=
  (parsed.words.drop command.wordStart).take command.wordCount

def findRedirect (parsed : Line) (index : ℕ) (op : RedirectOp) : Option Redirect :=
  match parsed.commands[index]? with
  | none => none
  | some command => (parsed.redirectsOf command).find? fun redirect => redirect.op = op

end Line

def redirectOpOf : TokenType → Option RedirectOp
  | .lt => some .input
  | .gt => some .output
  | .dgt => some .append
  | _ => none

/-- Two redirections that one command cannot have together. -/
def clashes (seen redirect : Redirect) : Bool :=
  seen.op = redirect.op || (seen.op ≠ .input && redirect.op ≠ .input)

/-- The words and redirections of one command, put into the tables.  A
redirection needs a path, and only one of each kind stands on a command. -/
def readCommand : List Token → Line → Command → Option (List Token × Line × Command)
  | [], out, command => some ([], out, command)
  | token :: rest, out, command =>
    if token.type = .word then
      readCommand rest { out with words := out.words ++ [token] }
        { command with wordCount := command.wordCount + 1 }
    else
      match redirectOpOf token.type with
      | none => some (token :: rest, out, command)
      | some op =>
        match rest with
        | [] => none
        | target :: rest =>
          let redirect : Redirect := { op := op, start := target.start, len := target.len }
          if target.type ≠ .word then
            none
          else if (out.redirectsOf command).any fun seen => clashes seen redirect then
            none
          else
            readCommand rest { out with redirects := out.redirects ++ [redirect] }
              { command with redirectCount := command.redirectCount + 1 }

/-- The commands of one pipeline.  Each pass takes at least one token. -/
def readPipeline : ℕ → List Token → Line → Pipeline → Option (List Token × Line × Pipeline)
  | 0, _, _, _ => none
  | passes + 1, tokens, out, pipeline =>
    match readCommand tokens out
        { wordStart := out.words.length, wordCount := 0
          redirectStart := out.redirects.length, redirectCount := 0 } with
    | none => none
    | some (rest, out, command) =>
      if command.wordCount = 0 then
        none
      else
        let out := { out with commands := out.commands ++ [command] }
        let pipeline := { pipeline with commandCount := pipeline.commandCount + 1 }
        match rest with
        | [] => some ([], out, pipeline)
        | token :: rest =>
          if token.type = .pipe then
            readPipeline passes rest out pipeline
          else
            some (token :: rest, out, pipeline)

def joinOf : TokenType → Option Join
  | .semi => some .always
  | .andIf => some .onSuccess
  | .orIf => some .onFailure
  | _ => none

/-- The pipelines of a line.  A trailing semicolon ends it, and any other
separator is left dangling. -/
def readLine : ℕ → List Token → Join → Line → Option Line
  | 0, _, _, _ => none
  | passes + 1, tokens, join, out =>
    match readPipeline tokens.length tokens out
        { commandStart := out.commands.length, commandCount := 0, join := join } with
    | none => none
    | some (rest, out, pipeline) =>
      let out := { out with pipelines := out.pipelines ++ [pipeline] }
      match rest with
      | [] => some out
      | token :: rest =>
        match joinOf token.type with
        | none => none
        | some join =>
          if rest = [] then
            if join = .always then some out else none
          else
            readLine passes rest join out

/-- A size as a signed number of 16 bits, and zero where that is negative. -/
def lengthInt16 (size : ℕ) : ℕ := if size % 2 ^ 16 < 2 ^ 15 then size % 2 ^ 16 else 0

/-- The part of a line that its length, cut to 16 bits, lets the parser see. -/
def visible (line : Text) : Text := line.take (lengthInt16 line.length)

/-- `parse`, with the length that `runLine` hands it. -/
def parse (line : Text) : Option Line :=
  match tokenize (visible line) with
  | none => none
  | some tokens =>
    readLine tokens.length tokens .first
      { pipelines := [], commands := [], redirects := [], words := [] }

def expandable (span : Text) : Bool := charDollar ∈ span

def int32ToString (value : ℤ) : Text :=
  (if value < 0 then text "-" else []) ++
    (Nat.toDigits 10 value.natAbs).map fun digit => digit.toNat.toUInt8

/-- What the expander reads besides the span: the last exit status and the
environment, in which an unset name is empty. -/
structure ExpandContext where
  lastExit : ℤ
  environment : Text → Text

def isNameChar (char : UInt8) : Bool := isAlnum char || char = charUnderscore

/-- The loop of `expand`.  The number says how many characters the last rewrite
has already taken. -/
def expandFrom (context : ExpandContext) (unquote : Bool) : ℕ → Bool → Bool → Text → Text
  | _, _, _, [] => []
  | taken + 1, insingle, indouble, _ :: rest =>
    expandFrom context unquote taken insingle indouble rest
  | 0, insingle, indouble, char :: rest =>
    let kept := if unquote then [] else [char]
    let next := rest.headD 0
    if char = charBackslash ∧ ¬ insingle ∧ rest ≠ [] then
      kept ++ next :: expandFrom context unquote 1 insingle indouble rest
    else if char = charSingleQuote ∧ ¬ indouble then
      kept ++ expandFrom context unquote 0 (!insingle) indouble rest
    else if char = charDoubleQuote ∧ ¬ insingle then
      kept ++ expandFrom context unquote 0 insingle (!indouble) rest
    else if char = charDollar ∧ ¬ insingle ∧ next = charQuestion then
      int32ToString context.lastExit ++ expandFrom context unquote 1 insingle indouble rest
    else if char = charDollar ∧ ¬ insingle ∧ (isAlpha next ∨ next = charUnderscore) then
      context.environment (rest.takeWhile isNameChar) ++
        expandFrom context unquote (rest.takeWhile isNameChar).length insingle indouble rest
    else
      char :: expandFrom context unquote 0 insingle indouble rest

def expand (context : ExpandContext) (unquote : Bool) (span : Text) : Text :=
  expandFrom context unquote 0 false false span

def spanOf (line : Text) (start len : ℕ) : Text := (line.drop start).take len

def joinWords (context : ExpandContext) (line : Text) (words : List Token) : Text :=
  [charBlank].intercalate
    (words.map fun word => expand context false (spanOf line word.start word.len))

/-- `commandText`: the line from the first word to the last as it was typed, or
word by word when a redirection stands between them. -/
def Line.commandText (parsed : Line) (context : ExpandContext) (line : Text) (index : ℕ) :
    Option Text :=
  match parsed.commands[index]? with
  | none => none
  | some command =>
    match (parsed.wordsOf command).head?, (parsed.wordsOf command).getLast? with
    | some firstWord, some lastWord =>
      let first := firstWord.start
      let last := lastWord.start + lastWord.len
      let contiguous := (parsed.redirectsOf command).all fun redirect =>
        ¬ (first < redirect.start ∧ redirect.start < last)
      let span := spanOf line first (last - first)
      if contiguous then
        some (if expandable span then expand context false span else span)
      else
        some (joinWords context line (parsed.wordsOf command))
    | _, _ => none

def pdiOk : ℤ := 0

def shouldRun (join : Join) (previous : ℤ) : Bool :=
  match join with
  | .onSuccess => previous = pdiOk
  | .onFailure => previous ≠ pdiOk
  | _ => true

end PdiStack.ShellParser
