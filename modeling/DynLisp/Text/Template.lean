/-!
# Templates

A template is a text with **holes**, written as an empty pair of braces.
Holes are filled from the left; a hole without a text becomes empty, and
texts without a hole are dropped.  A brace written twice is one brace, and
what fills a hole is never looked at again.
-/

namespace DynLisp

namespace Template

/-- Fills the holes of a template, on characters. -/
def fillChars : List Char → List (List Char) → List Char
  | '{' :: '{' :: rest, texts => '{' :: fillChars rest texts
  | '}' :: '}' :: rest, texts => '}' :: fillChars rest texts
  | '{' :: '}' :: rest, [] => fillChars rest []
  | '{' :: '}' :: rest, text :: texts => text ++ fillChars rest texts
  | c :: rest, texts => c :: fillChars rest texts
  | [], _ => []

/-- The template with its holes filled by the texts, in order. -/
def fill (template : String) (texts : List String) : String :=
  String.ofList (fillChars template.toList (texts.map String.toList))

end Template

end DynLisp
