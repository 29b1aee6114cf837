import Daimonos.Framework.Text

namespace Daimonos.Script

open Framework

def doubleQuote : Char := Char.ofNat 34
def singleQuote : Char := Char.ofNat 39
def backslash : Char := Char.ofNat 92

def isQuote (c : Char) : Bool := c == doubleQuote || c == singleQuote

/-- Copy the rest of a triple-quoted literal: what is copied and what is left. -/
def copyTriple (q : Char) : List Char → List Char × List Char
  | [] => ([], [])
  | [c] => ([c], [])
  | c::d::rest =>
    if c=backslash then
      let (copied, left) := copyTriple q rest
      (c::d::copied, left)
    else if c=q ∧ d=q ∧ rest.head? = some q then ([q, q, q], rest.tail)
    else
      let (copied, left) := copyTriple q (d::rest)
      (c::copied, left)

def collectRest (q : Char) : List Char → List Char × List Char
  | [] => ([], [])
  | [c] => if c=q then ([], []) else ([c], [])
  | c::d::rest =>
    if c=backslash then
      let (content, left) := collectRest q rest
      (c::d::content, left)
    else if c=q then ([], d::rest)
    else
      let (content, left) := collectRest q (d::rest)
      (c::content, left)

def collect (q : Char) : List Char → List Char × Bool × List Char
  | [] => ([], false, [])
  | [c] => if c=q then ([], false, []) else ([c], c == '\n', [])
  | c::d::rest =>
    if c=q then ([], false, d::rest)
    else if c = '\n' then
      let (content, left) := collectRest q (d::rest)
      (c::content, true, left)
    else if c=backslash then
      let (content, hasNewline, left) := collect q rest
      (c::d::content, hasNewline, left)
    else
      let (content, hasNewline, left) := collect q (d::rest)
      (c::content, hasNewline, left)

/-- The main loop; every round uses up a character, so the length of the text is fuel enough. -/
def normalizeLoop : Nat → List Char → List Char
  | 0, _ => []
  | _+1, [] => []
  | fuel+1, c::rest =>
    if c = '#' then
      (c::rest).takeWhile (· ≠ '\n') ++ normalizeLoop fuel ((c::rest).dropWhile (· ≠ '\n'))
    else if isQuote c then
      if [c, c] <+: rest then
        let (copied, left) := copyTriple c (rest.drop 2)
        [c, c, c] ++ copied ++ normalizeLoop fuel left
      else
        let (content, hasNewline, left) := collect c rest
        if hasNewline then [c, c, c] ++ content ++ [c, c, c] ++ normalizeLoop fuel left
        else [c] ++ content ++ [c] ++ normalizeLoop fuel left
    else c :: normalizeLoop fuel rest

def normalizeStringLiterals (code : List Char) : List Char := normalizeLoop code.length code

def indent : List Char := [' ', ' ', ' ', ' ']

def mainHeader : List Char := "def __daimonos_main__():\n".toList
def mainReturn : List Char := "return result\nresult = __daimonos_main__()\n".toList

def wrapTopLevelControlFlow (code : List Char) : List Char :=
  mainHeader ++ ((textLines code).map fun line => indent++line ++ ['\n']).flatten ++
    (indent++mainReturn)

/-- What the parser is given; `outsideDef` tells whether its first answer is that control flow cannot
be used outside a function. -/
def rewritten (outsideDef : List Char → Bool) (code : List Char) : List Char :=
  let code := normalizeStringLiterals code
  if outsideDef code then wrapTopLevelControlFlow code else code

/-- A string literal, or a run of other characters without white space and comments. -/
inductive Token where
  | literal (content : List Char)
  | word (chars : List Char)
  deriving DecidableEq

inductive LexState where
  | code (word : List Char)
  | comment
  /-- one quote was read, or two -/
  | opened (q : Char)
  | openedTwice (q : Char)
  | single (q : Char) (content : List Char)
  | singleEscape (q : Char) (content : List Char)
  /-- after the content a number of quotes that may end the literal -/
  | triple (q : Char) (content : List Char) (quotes : Nat)
  | tripleEscape (q : Char) (content : List Char)
  /-- a newline in a literal that must not have one -/
  | unfinished
  deriving DecidableEq

structure Lexer where
  tokens : List Token := []
  state : LexState := .code []
  deriving DecidableEq

namespace Lexer

def isBlank (c : Char) : Bool := c == ' ' || c == '\t' || c == '\r' || c == '\n'

def flush (tokens : List Token) (word : List Char) : List Token :=
  if word = [] then tokens else tokens ++ [.word word]

def feedCode (tokens : List Token) (word : List Char) (c : Char) : Lexer :=
  if isQuote c then ⟨flush tokens word,.opened c⟩
  else if c = '#' then ⟨flush tokens word,.comment⟩
  else if isBlank c then ⟨flush tokens word,.code []⟩
  else ⟨tokens,.code (word ++ [c])⟩

def feedSingle (multiline : Bool) (tokens : List Token) (q : Char) (content : List Char) (c : Char) :
    Lexer :=
  if c=q then ⟨tokens ++ [.literal content],.code []⟩
  else if c=backslash then ⟨tokens,.singleEscape q content⟩
  else if c = '\n' ∧ multiline=false then ⟨tokens,.unfinished⟩
  else ⟨tokens,.single q (content ++ [c])⟩

def feedTriple (tokens : List Token) (q : Char) (content : List Char) (quotes : Nat) (c : Char) :
    Lexer :=
  if c=q then
    if quotes=2 then ⟨tokens ++ [.literal content],.code []⟩
    else ⟨tokens,.triple q content (quotes+1)⟩
  else if c=backslash then ⟨tokens,.tripleEscape q (content ++ List.replicate quotes q)⟩
  else ⟨tokens,.triple q (content ++ List.replicate quotes q ++ [c]) 0⟩

/-- One character; `multiline` lets a literal in single quotes span lines, as scripts may, but not the
text the parser is given. -/
def feed (multiline : Bool) (l : Lexer) (c : Char) : Lexer :=
  match l.state with
  | .code word => feedCode l.tokens word c
  | .comment => if c = '\n' then ⟨l.tokens,.code []⟩ else l
  | .opened q =>
    if c=q then ⟨l.tokens,.openedTwice q⟩ else feedSingle multiline l.tokens q [] c
  | .openedTwice q =>
    if c=q then ⟨l.tokens,.triple q [] 0⟩
    else feedCode (l.tokens ++ [.literal []]) [] c
  | .single q content => feedSingle multiline l.tokens q content c
  | .singleEscape q content => ⟨l.tokens,.single q (content ++ [backslash, c])⟩
  | .triple q content quotes => feedTriple l.tokens q content quotes c
  | .tripleEscape q content => ⟨l.tokens,.triple q (content ++ [backslash, c]) 0⟩
  | .unfinished => l

section Feed

variable (m : Bool) (t : List Token) (q c : Char) (content : List Char)

@[simp] theorem feed_code (word : List Char) : feed m ⟨t,.code word⟩ c = feedCode t word c := rfl

@[simp] theorem feed_comment :
    feed m ⟨t,.comment⟩ c = if c = '\n' then ⟨t,.code []⟩ else ⟨t,.comment⟩ := rfl

@[simp] theorem feed_opened : feed m ⟨t,.opened q⟩ c =
    if c=q then ⟨t,.openedTwice q⟩ else feedSingle m t q [] c := rfl

@[simp] theorem feed_openedTwice : feed m ⟨t,.openedTwice q⟩ c =
    if c=q then ⟨t,.triple q [] 0⟩ else feedCode (t ++ [.literal []]) [] c := rfl

@[simp] theorem feed_single : feed m ⟨t,.single q content⟩ c = feedSingle m t q content c := rfl

@[simp] theorem feed_singleEscape : feed m ⟨t,.singleEscape q content⟩ c =
    ⟨t,.single q (content ++ [backslash, c])⟩ := rfl

@[simp] theorem feed_triple (quotes : Nat) : feed m ⟨t,.triple q content quotes⟩ c =
    feedTriple t q content quotes c := rfl

@[simp] theorem feed_tripleEscape : feed m ⟨t,.tripleEscape q content⟩ c =
    ⟨t,.triple q (content ++ [backslash, c]) 0⟩ := rfl

@[simp] theorem feed_unfinished : feed m ⟨t,.unfinished⟩ c = ⟨t,.unfinished⟩ := rfl

end Feed

def run (multiline : Bool) (l : Lexer) (text : List Char) : Lexer := text.foldl (feed multiline) l

def finish (l : Lexer) : List Token :=
  match l.state with
  | .code word => flush l.tokens word
  | .openedTwice _ => l.tokens ++ [.literal []]
  | _ => l.tokens

end Lexer

/-- The tokens of a script, whose literals may span lines. -/
def tokens (code : List Char) : List Token := (Lexer.run true {} code).finish

/-- The tokens of a text as the parser reads it. -/
def parserTokens (code : List Char) : List Token := (Lexer.run false {} code).finish

def Token.content? : Token → Option (List Char)
  | .literal content => some content
  | .word _ => none

def literals (tokens : List Token) : List (List Char) := tokens.filterMap Token.content?

end Daimonos.Script
