import DynLisp.Number.Text
import DynLisp.Text.Escape
import DynLisp.Value.Basic

/-!
# Writing values

`Value.display` writes a value so that it can be read back: strings stand
between double quotes with their escapes, characters keep their mark, and
lists are written with single spaces.  Functions cannot be read back; a
placeholder stands for them.

`Value.toText` is the text that templates and printing use: it differs at the
top only, where strings and characters are written raw.

Every value has its text, however deep its lists are nested: writing is by
recursion on the value and knows no limit.
-/

namespace DynLisp

namespace Value

mutual

/-- The value as it is read, on characters. -/
def displayChars : Value → List Char
  | .bool true => ['t', 'r', 'u', 'e']
  | .bool false => ['f', 'a', 'l', 's', 'e']
  | .nil => ['n', 'i', 'l']
  | .number x => x.textChars
  | .string text => '"' :: (Escape.encode text.toList ++ ['"'])
  | .char c => [',', c]
  | .symbol name => name.toList
  | .list items => '(' :: (displayItems items ++ [')'])
  | .closure .. => "<lambda>".toList
  | .native _ => "<function>".toList

/-- Values with a space between neighbours. -/
def displayItems : List Value → List Char
  | [] => []
  | [v] => displayChars v
  | v :: w :: vs => displayChars v ++ ' ' :: displayItems (w :: vs)

end

/-- The value as it is read. -/
def display (v : Value) : String := String.ofList v.displayChars

/-- The value as it is printed. -/
def toText : Value → String
  | .string text => text
  | .char c => String.ofList [c]
  | v => v.display

end Value

end DynLisp
