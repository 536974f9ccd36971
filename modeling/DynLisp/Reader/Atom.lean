import DynLisp.Error
import DynLisp.Number.Numeral
import DynLisp.Reader.Token
import DynLisp.Value.Basic

/-!
# Atoms

`Atom.read` is the value of a token other than a parenthesis.  In this order:
the three constants; a character after its comma; a string literal; a number,
if the whole token is a numeral; and otherwise a symbol with the token's name.

A literal is closed when its last character is its quote, is not also its
first, and has an even number of backslashes right before it.
-/

namespace DynLisp

/-- The character that is the whole of a text. -/
def Value.charOfText (text : String) : Except Halt Value :=
  match text.toList with
  | [c] => .ok (.char c)
  | _ => .error (.fault (.notOneCharacter text))

namespace Atom

/-- Whether a literal, read backwards, ends in its quote. -/
def closes (quote : Char) : List Char → Bool
  | last :: before =>
    last == quote && (before.takeWhile (· == '\\')).length % 2 == 0
  | [] => false

/-- The string in a literal, given with both its quotes. -/
def literal (quote : Char) (token : List Char) : Except Halt Value :=
  if 2 ≤ token.length ∧ closes quote token.reverse = true then
    match Escape.decode ((token.drop 1).dropLast) with
    | .ok text => .ok (.string (String.ofList text))
    | .error cause => .error (.parse (.escape cause))
  else .error (.parse (.unterminated (String.ofList token)))

/-- The value of a token, on characters. -/
def readChars : List Char → Except Halt Value
  | [] => .error (.fault .emptyToken)
  | ['t', 'r', 'u', 'e'] => .ok (.bool true)
  | ['f', 'a', 'l', 's', 'e'] => .ok (.bool false)
  | ['n', 'i', 'l'] => .ok .nil
  | first :: rest =>
    if first = ',' then
      if (first :: rest).length ≠ 2 then .error (.parse .charExpected)
      else Value.charOfText (String.ofList rest)
    else if Token.isQuote first then literal first (first :: rest)
    else
      match Numeral.parse? (first :: rest) with
      | some numeral => .ok (.number numeral.number)
      | none => .ok (.symbol (String.ofList (first :: rest)))

/-- The value of a token. -/
def read (token : String) : Except Halt Value := readChars token.toList

end Atom

end DynLisp
