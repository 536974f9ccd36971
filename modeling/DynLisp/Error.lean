import DynLisp.Text.Escape
import DynLisp.Text.Quoted

/-!
# Failures

A run that does not end in a value ends in a `Halt`, which is one of four
things:

* an `Error` of the program, of one of five kinds, with its cause;
* an exit that the program asked for, with its status;
* exhaustion, when evaluations are nested too deep;
* a `Fault`, an internal promise that was not kept.  Faults are there to be
  proved absent.

`Error.message` gives the one text that belongs to each error.
-/

namespace DynLisp

/-- Why source text cannot be read. -/
inductive ParseError where
  /-- A comma with no character after it. -/
  | charExpected
  /-- A literal that does not end in its quote. -/
  | unterminated (token : String)
  | escape (cause : EscapeError)
  | unexpectedClose
  | unclosed
  deriving DecidableEq

/-- A kind of value that an operation asks for. -/
inductive Expected where
  | bool | number | list | closure | symbol | parameters | callable
  deriving DecidableEq

/-- A failure that is none of the other kinds. -/
inductive StandardError where
  /-- A closure stands where code is evaluated. -/
  | closureAsCode
  /-- A built-in function stands where code is evaluated. -/
  | nativeAsCode
  /-- The closure given to `map` takes no arguments. -/
  | mapWithoutParameters
  /-- The closure given to a fold does not take two arguments. -/
  | foldParameters
  /-- There is no first element to start from. -/
  | emptyFold
  deriving DecidableEq

/-- An error of the running program. -/
inductive Error where
  /-- The number of arguments is outside the bounds; a bound may be absent. -/
  | arity (minimum maximum : Option Nat)
  | type (expected : Expected)
  | parse (cause : ParseError)
  | unresolved (name : String)
  | standard (cause : StandardError)
  deriving DecidableEq

/-- An internal promise that was not kept. -/
inductive Fault where
  /-- A token without characters. -/
  | emptyToken
  /-- A text that should be one character. -/
  | notOneCharacter (text : String)
  /-- Arguments in a number that was ruled out before. -/
  | operands
  deriving DecidableEq

/-- Why a run ends without a value. -/
inductive Halt where
  | error (e : Error)
  | exit (status : Int)
  | exhausted
  | fault (f : Fault)
  deriving DecidableEq

/-- What is wrong with the source. -/
def ParseError.message : ParseError → String
  | .charExpected => "Expected a character after `,`."
  | .unterminated token => "Unterminated string literal " ++ token ++ "."
  | .escape cause => cause.message
  | .unexpectedClose => "Unexpected `)`."
  | .unclosed => "Couldn't find closing `)`."

/-- The name of the kind. -/
def Expected.name : Expected → String
  | .bool => "Bool"
  | .number => "Number"
  | .list => "List"
  | .closure => "Lambda"
  | .symbol => "Symbol"
  | .parameters => "Symbol || List<Symbol>"
  | .callable => "Lambda || Function"

/-- What went wrong. -/
def StandardError.message : StandardError → String
  | .closureAsCode => "Found unexpected lambda in expression position."
  | .nativeAsCode => "Found unexpected function in expression position."
  | .mapWithoutParameters => "Lambda for `map` should take at least 1 argument."
  | .foldParameters => "Lambda for `foldl`/`foldl1` should take 2 arguments."
  | .emptyFold => "List for `foldl1` is empty."

namespace Error

/-- The number of arguments asked for, in words. -/
def arityText : Option Nat → Option Nat → String
  | none, none => "None"
  | some least, none => toString least ++ "+"
  | none, some most => "Up to " ++ toString most
  | some least, some most =>
    if least = most then toString least
    else toString least ++ " to " ++ toString most

/-- The name of the error's kind. -/
def kind : Error → String
  | .arity .. => "ArgumentError"
  | .type _ => "TypeError"
  | .parse _ => "ParseError"
  | .unresolved _ => "UnresolvedReferenceError"
  | .standard _ => "StandardError"

/-- The error's description, without its kind. -/
def description : Error → String
  | .arity minimum maximum => arityText minimum maximum ++ " arguments expected."
  | .type expected => "Expected " ++ expected.name ++ "."
  | .parse cause => cause.message
  | .unresolved name => "Unresolved symbol `" ++ name ++ "`."
  | .standard cause => cause.message

/-- The error's full text. -/
def message (e : Error) : String := e.kind ++ ": " ++ e.description

end Error

/-- What was promised. -/
def Fault.message : Fault → String
  | .emptyToken => "A token holds at least one character"
  | .notOneCharacter text =>
    "Char holds exactly one character, got " ++ Text.quote text
  | .operands => "The number of arguments was checked before"

/-- Text that cannot be read. -/
abbrev Halt.parse (cause : ParseError) : Halt := .error (.parse cause)

end DynLisp
