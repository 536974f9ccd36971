import DynLisp.Settings.Path

/-!
# Files

What settings can see of a file system: files with their texts, by their
components from the root.  The directories are those named, those that hold a
file, and all directories around one.  A relative path starts from the working
directory, and `..` leads to the directory around the one reached.
-/

namespace DynLisp

/-- Files and directories, by their components from the root. -/
structure FileTree where
  working : List String
  directories : List (List String)
  files : List (List String × String)

namespace FileTree

/-- Whether there is a directory at a place. -/
def holdsDirectory (t : FileTree) (place : List String) : Bool :=
  place.isEmpty ||
    (t.working :: t.directories ++ t.files.map (·.1.dropLast)).any place.isPrefixOf

/-- Where further components lead from a place. -/
def walk? (t : FileTree) (place : List String) : List String → Option (List String)
  | [] => some place
  | part :: rest =>
    if t.holdsDirectory place then
      t.walk? (if part = ".." then place.dropLast else place ++ [part]) rest
    else none

/-- Where a path leads. -/
def place? (t : FileTree) (p : Path) : Option (List String) :=
  t.walk? (if p.anchor = "" then t.working else []) p.parts

/-- Whether a path leads to a directory. -/
def isDirectory (t : FileTree) (p : Path) : Bool :=
  (t.place? p).any t.holdsDirectory

/-- The text of the file that a path leads to. -/
def fileText? (t : FileTree) (p : Path) : Option String :=
  (t.place? p).bind fun place => t.files.lookup place

end FileTree

end DynLisp
