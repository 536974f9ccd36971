import DynLisp.Settings.FileTree
import DynLisp.Text.Blank
import DynLisp.Text.Integer
import DynLisp.Text.Quoted

/-!
# Settings

Two texts from outside configure sessions: where the prelude lies, and how
deep evaluations may nest.  Blanks around them do not count, and a blank text
counts as none.

The prelude lies at a fixed place below a root, which is the configured
directory, or the directory around it if the configured path is no directory;
the library's own directory serves if none is configured.
-/

namespace DynLisp

/-- The texts that configure sessions. -/
structure Settings where
  preludePath : Option String
  recursionLimit : Option String

/-- Why a setting is refused. -/
inductive SettingError where
  /-- The limit is no integer. -/
  | limit (text : String)
  deriving DecidableEq

/-- What is wrong with a setting. -/
def SettingError.message : SettingError → String
  | .limit text => "CRISP_RECURSION_LIMIT must be an integer, got " ++ Text.quote text

/-- Which prelude a session is opened with. -/
inductive Preload where
  /-- The file that the settings lead to, if there is one. -/
  | configured
  | nothing
  | source (text : String)

/-- The prelude that a text asks for: one word asks for the configured one,
and any other text is the prelude itself. -/
def Preload.ofString (text : String) : Preload :=
  if text = "auto" then .configured else .source text

namespace Settings

/-- A setting without the blanks around it, if anything is left. -/
def given? (setting : Option String) : Option String :=
  match setting with
  | none => none
  | some text => if Text.trim text = "" then none else some (Text.trim text)

/-- The configured limit. -/
def limit (s : Settings) : Except SettingError (Option Int) :=
  match given? s.recursionLimit with
  | none => .ok none
  | some text =>
    match Text.integer? text with
    | some n => .ok (some n)
    | none => .error (.limit text)

/-- The directory that holds preludes; `standard` is the library's own. -/
def preludeRoot (s : Settings) (tree : FileTree) (standard : Path) : Path :=
  let p := ((given? s.preludePath).map Path.ofString).getD standard
  if tree.isDirectory p then p else p.parent

/-- The place of the prelude below its root. -/
def preludePlace : List String := ["std", "core.crisp"]

/-- Where the prelude should lie. -/
def preludeFile (s : Settings) (tree : FileTree) (standard : Path) : Path :=
  (s.preludeRoot tree standard).join preludePlace

/-- The prelude's source, by the settings and what the session asks for. -/
def prelude? (s : Settings) (tree : FileTree) (standard : Path) :
    Preload → Option String
  | .configured =>
    (tree.fileText? (s.preludeFile tree standard)).map Text.unifyLineEnds
  | .nothing => none
  | .source text => some text

end Settings

end DynLisp
