/-!
# Escapes in string literals

Between the quotes of a string literal a backslash starts an **escape**:

* one of ten simple codes, each standing for one character;
* `\xHH`, the character with a code point of two hexadecimal digits;
* `\uHHHH`, four digits; `\u{H…}`, one to six digits.

`Escape.decode` reads the text unit by unit, a unit being a character that is
not a backslash or one escape; `Escape.unit` reads one and tells how far it
reaches.  `Escape.encode` writes a text so that it can stand between double
quotes: the backslash, the double quote and the control characters are
escaped, and all other characters stand for themselves.
-/

namespace DynLisp

/-- Why the inside of a string literal cannot be read. -/
inductive EscapeError where
  /-- A backslash is the last character. -/
  | trailing
  /-- No escape has this code. -/
  | unknown (code : Char)
  /-- Too few hexadecimal digits follow; the text from the backslash on. -/
  | digits (near : List Char)
  /-- The braces hold no code point; the text from the backslash on. -/
  | braces (near : List Char)
  /-- No character has this code point. -/
  | codePoint (value : Nat)
  deriving DecidableEq

namespace EscapeError

/-- The error's text. -/
def message : EscapeError → String
  | .trailing => "Invalid escape sequence: trailing `\\`."
  | .unknown code =>
    "Invalid escape sequence `" ++ String.ofList ['\\', code] ++ "`."
  | .digits near =>
    "Invalid escape sequence near `" ++ String.ofList near ++ "`."
  | .braces near =>
    "Invalid unicode escape near `" ++ String.ofList near ++ "`."
  | .codePoint value =>
    "Invalid unicode code point 0x" ++ String.ofList (Nat.toDigits 16 value)
      ++ "."

end EscapeError

namespace Escape

/-- The character for a simple code. -/
def simple? : Char → Option Char
  | 'n' => some '\n'
  | 't' => some '\t'
  | 'r' => some '\r'
  | '0' => some '\x00'
  | 'b' => some '\x08'
  | 'f' => some '\x0c'
  | '\\' => some '\\'
  | '"' => some '"'
  | '\x27' => some '\x27'
  | '/' => some '/'
  | _ => none

/-- The value of a hexadecimal digit. -/
def hexValue? (c : Char) : Option Nat :=
  if '0' ≤ c ∧ c ≤ '9' then some (c.toNat - '0'.toNat)
  else if 'a' ≤ c ∧ c ≤ 'f' then some (c.toNat - 'a'.toNat + 10)
  else if 'A' ≤ c ∧ c ≤ 'F' then some (c.toNat - 'A'.toNat + 10)
  else none

/-- The value of hexadecimal digits, most significant first. -/
def hexNumber? (cs : List Char) : Option Nat :=
  (cs.mapM hexValue?).map (·.foldl (fun n d => 16 * n + d) 0)

/-- The character with a code point. -/
def character (value : Nat) : Except EscapeError Char :=
  if value.isValidChar then .ok (Char.ofNat value)
  else .error (.codePoint value)

/-- The value of exactly `count` hexadecimal digits; `code` and `rest` are
what follows the backslash. -/
def hexDigits (code : Char) (count : Nat) (rest : List Char) :
    Except EscapeError Nat :=
  let digits := rest.take count
  match hexNumber? digits with
  | some value =>
    if digits.length = count then .ok value
    else .error (.digits ('\\' :: code :: digits))
  | none => .error (.digits ('\\' :: code :: digits))

/-- The code point between braces and how many digits spell it; `rest` is
what follows the opening brace. -/
def braced (rest : List Char) : Except EscapeError (Nat × Nat) :=
  let digits := rest.takeWhile (· ≠ '}')
  match hexNumber? digits with
  | some value =>
    if digits.length < rest.length ∧ 1 ≤ digits.length ∧ digits.length ≤ 6 then
      .ok (value, digits.length)
    else .error (.braces ('\\' :: 'u' :: '{' :: rest.take 7))
  | none => .error (.braces ('\\' :: 'u' :: '{' :: rest.take 7))

/-- Reads one unit that starts with `c`: the character it stands for, and how
many of the characters after `c` belong to it. -/
def unit (c : Char) (rest : List Char) : Except EscapeError (Char × Nat) :=
  if c = '\\' then
    match rest with
    | [] => .error .trailing
    | 'x' :: digits => do
      let value ← hexDigits 'x' 2 digits
      return (← character value, 3)
    | 'u' :: '{' :: digits => do
      let (value, length) ← braced digits
      return (← character value, length + 3)
    | 'u' :: digits => do
      let value ← hexDigits 'u' 4 digits
      return (← character value, 5)
    | code :: _ =>
      match simple? code with
      | some d => .ok (d, 1)
      | none => .error (.unknown code)
  else .ok (c, 0)

/-- The text that the inside of a string literal stands for. -/
def decode : List Char → Except EscapeError (List Char)
  | [] => .ok []
  | c :: rest =>
    match unit c rest with
    | .error e => .error e
    | .ok (d, used) =>
      match decode (rest.drop used) with
      | .error e => .error e
      | .ok ds => .ok (d :: ds)
termination_by cs => cs.length
decreasing_by simp only [List.length_drop, List.length_cons]; omega

/-- How a character is written between double quotes. -/
def encodeChar (c : Char) : List Char :=
  if c = '\\' then ['\\', '\\']
  else if c = '"' then ['\\', '"']
  else if c = '\n' then ['\\', 'n']
  else if c = '\t' then ['\\', 't']
  else if c = '\r' then ['\\', 'r']
  else if c = '\x00' then ['\\', '0']
  else if c = '\x08' then ['\\', 'b']
  else if c = '\x0c' then ['\\', 'f']
  else if c.toNat < 0x20 ∨ c.toNat = 0x7F then
    '\\' :: 'u' :: '{' :: (Nat.toDigits 16 c.toNat ++ ['}'])
  else [c]

/-- How a text is written between double quotes. -/
def encode (cs : List Char) : List Char := cs.flatMap encodeChar

end Escape

end DynLisp
