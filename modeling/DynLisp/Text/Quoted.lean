import DynLisp.Text.Printable

/-!
# Quoted text

`Text.quote` shows a text between quotes so that it can be told apart from
its surroundings.  The quotes are single, unless the text holds a single
quote and no double one.  The quote in use and the backslash get a backslash;
tab, line feed and carriage return have letters of their own; every other
character that is not printable is written by its code point, in two, four or
eight lower-case hexadecimal digits.
-/

namespace DynLisp

namespace Text

/-- The number in lower-case hexadecimal digits, at least `width` of them. -/
def hexadecimal (width n : Nat) : List Char :=
  let digits := Nat.toDigits 16 n
  List.replicate (width - digits.length) '0' ++ digits

/-- The quote to use around the given characters. -/
def quoteMark (cs : List Char) : Char :=
  if cs.contains '\x27' && !cs.contains '"' then '"' else '\x27'

/-- How a character is written between two quotes. -/
def quoteChar (mark c : Char) : List Char :=
  if c = mark ∨ c = '\\' then ['\\', c]
  else if c = '\t' then ['\\', 't']
  else if c = '\n' then ['\\', 'n']
  else if c = '\r' then ['\\', 'r']
  else if isPrintable c then [c]
  else if c.toNat < 0x100 then '\\' :: 'x' :: hexadecimal 2 c.toNat
  else if c.toNat < 0x10000 then '\\' :: 'u' :: hexadecimal 4 c.toNat
  else '\\' :: 'U' :: hexadecimal 8 c.toNat

/-- The text between quotes. -/
def quote (text : String) : String :=
  let cs := text.toList
  let mark := quoteMark cs
  String.ofList (mark :: (cs.flatMap (quoteChar mark) ++ [mark]))

end Text

end DynLisp
