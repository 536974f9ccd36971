import DynLisp.Eval.Argument
import DynLisp.Eval.Lambda
import DynLisp.Number.Arithmetic

/-!
# Special forms

A list whose head is one of five symbols is a special form.  It receives its
operands unevaluated and decides what to evaluate.  Heads are recognised
before any look-up, so that no binding can hide a special form.

* `(if test yes no)` evaluates one of two operands, by the test;
* `(let name value)` binds a name in the scope at hand;
* `(\ parameters body)` makes a closure and evaluates nothing;
* `(fn name parameters body)` makes a closure and binds it;
* `(exit status)` ends the program; the status is optional.

Each form checks the number of its operands and their written shape before it
evaluates anything.  `self` evaluates a value in a scope.
-/

namespace DynLisp

/-- A special form. -/
inductive SpecialForm where
  | cond | bind | lambda | function | exit
  deriving DecidableEq

namespace SpecialForm

/-- The form that a name stands for at the head of a list. -/
def ofName? : String → Option SpecialForm
  | "if" => some .cond
  | "let" => some .bind
  | "\\" => some .lambda
  | "fn" => some .function
  | "exit" => some .exit
  | _ => none

/-- The form that a list with the given head is. -/
def ofHead? : Value → Option SpecialForm
  | .symbol name => ofName? name
  | _ => none

/-- How many operands a form takes. -/
def arity : SpecialForm → Option Nat × Option Nat
  | .cond => (some 3, some 3)
  | .bind => (some 2, some 2)
  | .lambda => (some 2, some 2)
  | .function => (some 3, some 3)
  | .exit => (none, some 1)

end SpecialForm

/-- The exit status that a value stands for: a finite number, its fraction
rounded off. -/
def Value.exitStatus : Value → Except Halt Int
  | .number x =>
    match x.roundAway? with
    | some status => .ok status
    | none => .error (.error (.type .number))
  | _ => .error (.error (.type .number))

namespace SpecialForm

open Eval

variable (self : Value → ScopeId → Eval Value)

/-- Evaluates a form whose operands have been counted. -/
def evalOperands (scope : ScopeId) : SpecialForm → List Value → Eval Value
  | .cond, [test, yes, no] => do
    let v ← self test scope
    let b ← v.truth
    self (if b then yes else no) scope
  | .bind, [name, value] => do
    let name ← name.symbolName
    let v ← self value scope
    define scope name v
    pure v
  | .lambda, [parameters, body] => pureResult (Value.lambda parameters body)
  | .function, [name, parameters, body] => do
    let name ← name.symbolName
    let closure ← pureResult (Value.lambda parameters body)
    define scope name closure
    pure closure
  | .exit, [] => throw (.exit 0)
  | .exit, [status] => do
    let v ← self status scope
    let status ← pureResult v.exitStatus
    throw (.exit status)
  | _, _ => throw (.fault .operands)

/-- Evaluates a form with the given operands. -/
def eval (form : SpecialForm) (operands : List Value) (scope : ScopeId) :
    Eval Value := do
  checkArity operands.length form.arity.1 form.arity.2
  evalOperands self scope form operands

end SpecialForm

end DynLisp
