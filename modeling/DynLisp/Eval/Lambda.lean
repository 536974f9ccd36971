import DynLisp.Eval.Basic

/-!
# Making closures

The parameters of a closure are written as one symbol or as a list of
symbols.
-/

namespace DynLisp

namespace Value

/-- The names in a list of symbols, if there is nothing else in it. -/
def symbolNames? : List Value → Option (List String)
  | [] => some []
  | .symbol name :: rest => (symbolNames? rest).map (name :: ·)
  | _ => none

/-- The names of written parameters. -/
def parameters? : Value → Option (List String)
  | .symbol name => some [name]
  | .list items => symbolNames? items
  | _ => none

/-- The closure with the given parameters and body. -/
def lambda (parameters body : Value) : Except Halt Value :=
  match parameters.parameters? with
  | some formals => .ok (.closure formals body)
  | none => .error (.error (.type .parameters))

end Value

end DynLisp
