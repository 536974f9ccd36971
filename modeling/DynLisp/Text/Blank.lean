/-!
# Blanks and line ends

`Text.trim` removes blanks from both ends of a text.  A blank is a character
of the Unicode property of white space (version 14) or one of the four
information separators (U+001C to U+001F).

`Text.unifyLineEnds` writes every line end as a line feed: a carriage return
with the line feed after it, if there is one, becomes a single line feed.
-/

namespace DynLisp

namespace Text

/-- Closed ranges of the blanks' code points, ascending. -/
def blankRanges : List (Nat × Nat) :=
  [(0x09, 0x0D), (0x1C, 0x20), (0x85, 0x85), (0xA0, 0xA0), (0x1680, 0x1680),
   (0x2000, 0x200A), (0x2028, 0x2029), (0x202F, 0x202F), (0x205F, 0x205F),
   (0x3000, 0x3000)]

/-- Whether the character is a blank. -/
def isBlank (c : Char) : Bool :=
  blankRanges.any fun range => range.1 ≤ c.toNat && c.toNat ≤ range.2

/-- The text without the blanks at its two ends. -/
def trim (text : String) : String :=
  String.ofList
    ((text.toList.dropWhile isBlank).reverse.dropWhile isBlank).reverse

/-- Line ends of either kind as line feeds, on characters. -/
def lineFeeds : List Char → List Char
  | '\r' :: '\n' :: rest => '\n' :: lineFeeds rest
  | '\r' :: rest => '\n' :: lineFeeds rest
  | c :: rest => c :: lineFeeds rest
  | [] => []

/-- The text with every line end written as a line feed. -/
def unifyLineEnds (text : String) : String :=
  String.ofList (lineFeeds text.toList)

end Text

end DynLisp
