/-!
# Tokens

Source text is cut into tokens by one pass over its characters:

* each parenthesis is a token;
* a comma and the character after it, whatever it is, are a token;
* a quote opens a literal that reaches to the next quote of its kind which is
  not behind a backslash; the token keeps its quotes and its backslashes;
* spaces, tabs, line feeds, carriage returns and comments (from a semicolon to
  the end of its line) separate tokens;
* any other characters that stand together are a token, a word.

Cutting never fails.  A comma or a literal that the end of the text cuts
short is a token all the same, and is refused later.  Texts consist of Unicode
scalar values: half of a surrogate pair is no character, so that no source holds
one, and escapes that ask for one are refused.

`Token.tokenize` also wraps the tokens of a text that does not start with an
opening parenthesis in a pair of parentheses, when it is asked to.
-/

namespace DynLisp

namespace Token

/-- What the characters read so far amount to; texts are held in reverse. -/
inductive Mode where
  /-- Inside a word, or between tokens if the word is empty. -/
  | word (read : List Char)
  | comment
  /-- After a comma. -/
  | mark
  | literal (quote : Char) (read : List Char)
  /-- After a backslash in a literal. -/
  | escaped (quote : Char) (read : List Char)
  deriving DecidableEq

/-- Whether the character separates tokens without being part of one. -/
def isGap (c : Char) : Bool := c == ' ' || c == '\t' || c == '\r' || c == '\n'

/-- Whether the character opens a literal. -/
def isQuote (c : Char) : Bool := c == '"' || c == '\x27'

/-- The characters that separate tokens without being part of one. -/
def blanks : List Char := [' ', '\t', '\r', '\n']

/-- The characters that open a literal, each of which also closes its own. -/
def quotes : List Char := ['"', '\x27']

/-- The test for a gap is one for the four blanks. -/
theorem isGap_iff {c : Char} : isGap c = true ↔ c ∈ blanks := by
  simp [isGap, blanks, or_assoc]

/-- The test for a quote is one for the two quotes. -/
theorem isQuote_iff {c : Char} : isQuote c = true ↔ c ∈ quotes := by
  simp [isQuote, quotes]

/-- The token that a word makes: none if it is empty. -/
def flush (read : List Char) : List (List Char) :=
  if read.isEmpty then [] else [read.reverse]

/-- The tokens in the rest of the text. -/
def scan : Mode → List Char → List (List Char)
  | .word read, [] => flush read
  | .word read, c :: rest =>
    if isGap c then flush read ++ scan (.word []) rest
    else if c = '(' ∨ c = ')' then flush read ++ [c] :: scan (.word []) rest
    else if c = ';' then flush read ++ scan .comment rest
    else if c = ',' then flush read ++ scan .mark rest
    else if isQuote c then flush read ++ scan (.literal c [c]) rest
    else scan (.word (c :: read)) rest
  | .comment, [] => []
  | .comment, c :: rest =>
    if c = '\n' then scan (.word []) rest else scan .comment rest
  | .mark, [] => [[',']]
  | .mark, c :: rest => [',', c] :: scan (.word []) rest
  | .literal _ read, [] => [read.reverse]
  | .literal quote read, c :: rest =>
    if c = quote then (c :: read).reverse :: scan (.word []) rest
    else if c = '\\' then scan (.escaped quote (c :: read)) rest
    else scan (.literal quote (c :: read)) rest
  | .escaped _ read, [] => [read.reverse]
  | .escaped quote read, c :: rest => scan (.literal quote (c :: read)) rest

/-- The tokens of a text, as it stands. -/
def explicit (source : String) : List String :=
  (scan (.word []) source.toList).map String.ofList

/-- Wraps tokens that do not start with an opening parenthesis in a pair. -/
def wrap : List String → List String
  | [] => []
  | token :: rest =>
    if token = "(" then token :: rest
    else "(" :: (token :: rest ++ [")"])

/-- The tokens of a text, wrapped if `implicitParens` asks for it. -/
def tokenize (source : String) (implicitParens : Bool) : List String :=
  if implicitParens then wrap (explicit source) else explicit source

end Token

end DynLisp
