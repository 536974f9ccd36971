import DynLisp.Error
import DynLisp.Scope.Forest

/-!
# Running programs: the effects

A running program can bind names, open scopes and print; what it has done so
far is the `World`.  `Eval` is a computation on a world that ends in a result
or in a `Halt`; either way it leaves a world behind, so that what happened
before a failure stays.

This module holds the effects.  Everything that evaluation does to a world it
does through `define`, `enter` and `emit`.  `enter` fails if the number of
arguments is wrong, and nothing else here can fail: there is always room for one
more scope, and a text can be printed whatever its characters are.  Messages for
those who debug an interpreter are not effects of a program, and there are none.
-/

namespace DynLisp

/-- The scopes opened so far, and the text printed so far. -/
structure World where
  forest : Forest
  printed : String

/-- Nothing opened and nothing printed. -/
def World.empty : World := ⟨Forest.empty, ""⟩

/-- A computation with effects on a world. -/
abbrev Eval (α : Type) := EStateM Halt World α

namespace Eval

/-- Ends with an error of the program. -/
def fail {α : Type} (e : Error) : Eval α := throw (.error e)

/-- Ends or goes on as a computation without effects does. -/
def pureResult {α : Type} : Except Halt α → Eval α
  | .ok a => pure a
  | .error h => throw h

/-- Prints a text. -/
def emit (text : String) : Eval Unit :=
  modify fun w => { w with printed := w.printed ++ text }

/-- Binds a name in a scope. -/
def define (scope : ScopeId) (name : String) (v : Value) : Eval Unit :=
  modify fun w => { w with forest := w.forest.define scope name v }

/-- The value of a name; it is an error if the name has none. -/
def lookup (scope : ScopeId) (name : String) : Eval Value := do
  match (← get).forest.get? scope name with
  | some v => pure v
  | none => fail (.unresolved name)

/-- Opens a scope with the given bindings. -/
def openScope (outer : Option ScopeId) (bindings : Bindings String Value) :
    Eval ScopeId :=
  modifyGet fun w =>
    (w.forest.size, { w with forest := w.forest.push outer bindings })

/-- It is an error if a number of arguments is outside the bounds. -/
def checkArity (count : Nat) (minimum maximum : Option Nat) : Eval Unit :=
  if minimum.any (count < ·) || maximum.any (· < count) then
    fail (.arity minimum maximum)
  else pure ()

/-- Opens the scope of a call: each parameter is bound to the argument in its
place, the last one where a parameter is repeated.  There must be as many
arguments as parameters. -/
def enter (formals : List String) (args : List Value) (caller : ScopeId) :
    Eval ScopeId := do
  checkArity args.length (some formals.length) (some formals.length)
  openScope (some caller) (Bindings.ofList (formals.zip args))

end Eval

end DynLisp
