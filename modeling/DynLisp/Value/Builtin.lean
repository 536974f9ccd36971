/-!
# The names of the built-in functions

There are twenty built-in functions.  This module knows them by name only;
what they do is said where they are run.
-/

namespace DynLisp

/-- A built-in function. -/
inductive Builtin where
  | add | subtract | multiply | divide | remainder
  | equal | greater | greaterEq | less | lessEq
  | not
  | cons | map | foldl | foldl1
  | format | puts | print
  | assert | assertFalse
  deriving DecidableEq

namespace Builtin

/-- The built-in functions in the order in which a scope receives them. -/
def all : List Builtin :=
  [.add, .subtract, .multiply, .divide, .remainder,
   .equal, .greater, .greaterEq, .less, .lessEq,
   .not,
   .cons, .map, .foldl, .foldl1,
   .format, .puts, .print,
   .assert, .assertFalse]

/-- The name under which a program finds the function. -/
def name : Builtin → String
  | .add => "+"
  | .subtract => "-"
  | .multiply => "*"
  | .divide => "/"
  | .remainder => "%"
  | .equal => "="
  | .greater => ">"
  | .greaterEq => ">="
  | .less => "<"
  | .lessEq => "<="
  | .not => "!"
  | .cons => "cons"
  | .map => "map"
  | .foldl => "foldl"
  | .foldl1 => "foldl1"
  | .format => "format"
  | .puts => "puts"
  | .print => "print"
  | .assert => "assert"
  | .assertFalse => "assert_false"

/-- The function with the given name. -/
def ofName? (name : String) : Option Builtin := all.find? (·.name == name)

end Builtin

end DynLisp
