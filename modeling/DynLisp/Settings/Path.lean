/-!
# Paths

A path is taken by its text alone: repeated and trailing slashes and the
component `.` vanish, and the component `..` stays.  A path of two leading
slashes is kept apart from one of a single leading slash; more count as one.
-/

namespace DynLisp

/-- A path in components. -/
structure Path where
  /-- The slashes that an absolute path starts with. -/
  anchor : String
  parts : List String
  deriving DecidableEq

namespace Path

/-- The pieces of a text between slashes. -/
def split : List Char → List (List Char)
  | [] => [[]]
  | c :: rest =>
    if c = '/' then [] :: split rest
    else
      match split rest with
      | [] => [[c]]
      | piece :: pieces => (c :: piece) :: pieces

/-- The components that the text of a path names. -/
def components (text : String) : List String :=
  ((split text.toList).map String.ofList).filter fun s => s != "" && s != "."

/-- The path that a text names. -/
def ofString (text : String) : Path :=
  let slashes := (text.toList.takeWhile (· = '/')).length
  let anchor := if slashes = 0 then "" else if slashes = 2 then "//" else "/"
  ⟨anchor, components text⟩

/-- The text of a path; the empty path is the directory at hand. -/
def text (p : Path) : String :=
  if p.anchor = "" ∧ p.parts = [] then "."
  else p.anchor ++ "/".intercalate p.parts

/-- The path without its last component. -/
def parent (p : Path) : Path := { p with parts := p.parts.dropLast }

/-- The path with further components. -/
def join (p : Path) (parts : List String) : Path :=
  { p with parts := p.parts ++ parts }

end Path

end DynLisp
