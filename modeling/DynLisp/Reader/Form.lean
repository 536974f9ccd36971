import DynLisp.Reader.Atom

/-!
# Forms

A form is an atom, or any number of forms between parentheses, which make a
list.  Forms are read with a stack of the lists that are open, innermost
first, each in reverse; nesting is bounded by memory alone.

* `Form.parse` reads one form and gives the tokens after it;
* `Form.readAll` reads forms until the tokens run out or an error turns up; it
  gives the forms before the error together with the error;
* `Form.read` is the first form of a text.
-/

namespace DynLisp

namespace Form

/-- A complete form joins the innermost open list, or stands at the top if no
list is open. -/
def place (v : Value) : List (List Value) → Value ⊕ List (List Value)
  | [] => .inl v
  | items :: outer => .inr ((v :: items) :: outer)

/-- What one token does: it completes a form at the top, or it leaves lists
open. -/
def advance (stack : List (List Value)) (token : String) :
    Except Halt (Value ⊕ List (List Value)) :=
  if token = "(" then .ok (.inr ([] :: stack))
  else if token = ")" then
    match stack with
    | [] => .error (.parse .unexpectedClose)
    | items :: outer => .ok (place (.list items.reverse) outer)
  else
    match Atom.read token with
    | .ok v => .ok (place v stack)
    | .error h => .error h

/-- Reads up to the end of the first form at the top. -/
def readFrom (stack : List (List Value)) :
    List String → Except Halt (Value × List String)
  | [] => .error (.parse .unclosed)
  | token :: rest =>
    match advance stack token with
    | .ok (.inl v) => .ok (v, rest)
    | .ok (.inr stack) => readFrom stack rest
    | .error h => .error h

/-- Reads one form; nothing at all reads as `nil`. -/
def parse : List String → Except Halt (Value × List String)
  | [] => .ok (.nil, [])
  | tokens => readFrom [] tokens

/-- Reads forms to the end of the tokens, with some lists open. -/
def readAllFrom (stack : List (List Value)) :
    List String → List Value × Option Halt
  | [] => ([], if stack.isEmpty then none else some (.parse .unclosed))
  | token :: rest =>
    match advance stack token with
    | .ok (.inl v) =>
      let (forms, failure) := readAllFrom [] rest
      (v :: forms, failure)
    | .ok (.inr stack) => readAllFrom stack rest
    | .error h => ([], some h)

/-- All forms before the first error, and that error if there is one. -/
def readAll (tokens : List String) : List Value × Option Halt :=
  readAllFrom [] tokens

/-- The first form of a text. -/
def read (source : String) : Except Halt Value :=
  (parse (Token.tokenize source true)).map (·.1)

end Form

end DynLisp
