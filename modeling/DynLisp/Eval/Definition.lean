import DynLisp.Eval.Argument

/-!
# Names given as values

Binding names where the names come as values, as a host program gives them:
each must be a symbol.  A list of names is checked as it is used, so that
what came before a wrong one is bound and stays bound.
-/

namespace DynLisp

namespace Eval

/-- Binds a symbol in a scope. -/
def defineSymbol (scope : ScopeId) (name v : Value) : Eval Unit := do
  let name ← name.symbolName
  define scope name v

/-- Binds each key of a table in turn. -/
def update (scope : ScopeId) : Bindings Value Value → Eval Unit
  | [] => pure ()
  | (name, v) :: rest => do
    defineSymbol scope name v
    update scope rest

/-- Binds the built-in functions to their names. -/
def register (scope : ScopeId) : Eval Unit :=
  update scope (Builtin.all.map fun f => (.symbol f.name, .native f))

/-- The names of a list of symbols. -/
def symbolNames : List Value → Eval (List String)
  | [] => pure []
  | v :: rest => do
    let name ← v.symbolName
    let names ← symbolNames rest
    pure (name :: names)

/-- Opens the scope of a call whose parameters are given as values.  No scope
is opened if the numbers differ or a parameter is no symbol. -/
def bindArguments (formals args : List Value) (caller : ScopeId) :
    Eval ScopeId := do
  checkArity args.length (some formals.length) (some formals.length)
  let names ← symbolNames formals
  enter names args caller

end Eval

end DynLisp
