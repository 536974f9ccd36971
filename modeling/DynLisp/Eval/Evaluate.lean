import DynLisp.Eval.Builtin
import DynLisp.Eval.SpecialForm

/-!
# Evaluation

A value is evaluated in a scope:

* a symbol gives what its name is bound to;
* a list that starts with the name of a special form is that form;
* in any other list the head is evaluated first.  If it gives a function, the
  rest are its arguments: they are evaluated from the left, and the function
  is applied to them.  Otherwise the list is data, and its elements are
  evaluated from the left;
* the empty list and all atoms stand for themselves;
* a function in the place of code is an error, except at the head of a list,
  where it is taken as it is.

`step` says this with the evaluation of everything inside as a parameter;
`evaluate` closes the knot with a bound on how deep evaluations may nest.
Where the bound is reached the run ends, exhausted.
-/

namespace DynLisp

namespace Value

open Eval

section Step

variable (self : Value → ScopeId → Eval Value)

/-- Evaluates values from the left. -/
def evalEach (scope : ScopeId) : List Value → Eval (List Value)
  | [] => pure []
  | e :: rest => do
    let v ← self e scope
    let vs ← evalEach scope rest
    pure (v :: vs)

/-- Applies a function to evaluated arguments. -/
def apply (head : Value) (args : List Value) (scope : ScopeId) : Eval Value :=
  match head with
  | .closure formals body => Builtin.callClosure self formals body args scope
  | .native function => function.run self args scope
  | _ => fail (.type .callable)

/-- Evaluates the head of a list; a function is taken as it is. -/
def evalHead (head : Value) (scope : ScopeId) : Eval Value :=
  if head.isCallable then pure head else self head scope

/-- Evaluates a list that is no special form. -/
def evalList (head : Value) (tail : List Value) (scope : ScopeId) : Eval Value := do
  let h ← evalHead self head scope
  let vs ← evalEach self scope tail
  if h.isCallable then apply self h vs scope else pure (.list (h :: vs))

/-- Evaluates a value, given how everything inside it is evaluated. -/
def step (e : Value) (scope : ScopeId) : Eval Value :=
  match e with
  | .list [] => pure (.list [])
  | .list (head :: tail) =>
    match SpecialForm.ofHead? head with
    | some form => form.eval self tail scope
    | none => evalList self head tail scope
  | .symbol name => lookup scope name
  | .closure .. => fail (.standard .closureAsCode)
  | .native _ => fail (.standard .nativeAsCode)
  | e => pure e

end Step

/-- Evaluates a value in a scope, with at most `depth` evaluations nested. -/
def evaluate : Nat → Value → ScopeId → Eval Value
  | 0, _, _ => throw .exhausted
  | depth + 1, e, scope => step (evaluate depth) e scope

end Value

end DynLisp
