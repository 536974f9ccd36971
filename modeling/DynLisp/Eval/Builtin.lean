import DynLisp.Eval.Argument
import DynLisp.Number.Summation
import DynLisp.Text.Template
import DynLisp.Value.Display

/-!
# The built-in functions

A built-in function receives evaluated arguments and the scope of its caller.
It checks the number of its arguments first and their kinds next, and only
then acts.  The three list functions that take a closure call it from that
scope; `self` evaluates the closure's body.
-/

namespace DynLisp

/-- Whether each number and the one after it stand in a relation. -/
def chained (rel : Number → Number → Bool) : List Number → Bool
  | x :: y :: rest => rel x y && chained rel (y :: rest)
  | _ => true

/-- A list in pieces of `width + 1` elements; the last piece may be short. -/
def chunks {α : Type} (width : Nat) : List α → List (List α)
  | [] => []
  | x :: xs => (x :: xs.take width) :: chunks width (xs.drop width)
termination_by xs => xs.length
decreasing_by simp only [List.length_drop, List.length_cons]; omega

namespace Builtin

open Eval

/-- How many arguments a function takes. -/
def arity : Builtin → Option Nat × Option Nat
  | .add | .subtract | .multiply | .divide | .remainder
  | .equal | .greater | .greaterEq | .less | .lessEq => (some 2, none)
  | .not => (some 1, none)
  | .cons | .map | .foldl1 => (some 2, some 2)
  | .foldl => (some 3, some 3)
  | .format | .print => (some 1, none)
  | .puts => (none, none)
  | .assert | .assertFalse => (some 1, some 1)

/-- An arithmetic function on the numbers of its arguments. -/
def arithmetic (op : List Number → Number) (args : List Value) : Eval Value := do
  let xs ← Value.amounts args
  pure (.number (op xs))

/-- A comparison of all numbers of the arguments. -/
def comparison (test : List Number → Bool) (args : List Value) : Eval Value := do
  let xs ← Value.amounts args
  pure (.bool (test xs))

/-- Whether all numbers equal the first. -/
def allEqual : List Number → Bool
  | [] => true
  | x :: xs => xs.all fun y => Number.eq y x

/-- One truth value stands alone; several make a list. -/
def ofBools : List Bool → Value
  | [b] => .bool b
  | bs => .list (bs.map .bool)

/-- The text that a template and its arguments make.  A template without
arguments is left as it is. -/
def formatted : List Value → String
  | [] => ""
  | [template] => template.toText
  | template :: args => Template.fill template.toText (args.map Value.toText)

/-- The status with which a failed assertion ends the program. -/
def assertionStatus : Int := 101

/-- Ends the program unless the truth value is the wanted one. -/
def assertion (wanted b : Bool) : Eval Value :=
  if b = wanted then pure (.bool true) else throw (.exit assertionStatus)

section Callbacks

variable (self : Value → ScopeId → Eval Value)

/-- Calls a closure: its body is evaluated in a new scope around which lies
the caller's. -/
def callClosure (formals : List String) (body : Value) (args : List Value)
    (caller : ScopeId) : Eval Value := do
  let scope ← enter formals args caller
  self body scope

/-- Calls a closure with each list of arguments in turn. -/
def callEach (formals : List String) (body : Value) (caller : ScopeId) :
    List (List Value) → Eval (List Value)
  | [] => pure []
  | args :: rest => do
    let v ← callClosure self formals body args caller
    let vs ← callEach formals body caller rest
    pure (v :: vs)

/-- Calls a closure with what the calls so far gave and each element in turn. -/
def foldFrom (formals : List String) (body : Value) (caller : ScopeId)
    (acc : Value) : List Value → Eval Value
  | [] => pure acc
  | item :: rest => do
    let acc ← callClosure self formals body [acc, item] caller
    foldFrom formals body caller acc rest

/-- Folds a list with a closure of two parameters. -/
def foldList (f start list : Value) (caller : ScopeId) : Eval Value := do
  let (formals, body) ← f.closureParts
  if formals.length = 2 then
    let items ← list.elements
    foldFrom self formals body caller start items
  else fail (.standard .foldParameters)

/-- Maps a closure over pieces of a list, each as long as the closure has
parameters. -/
def mapList (f list : Value) (caller : ScopeId) : Eval Value := do
  let (formals, body) ← f.closureParts
  let items ← list.elements
  match formals.length with
  | 0 => fail (.standard .mapWithoutParameters)
  | width + 1 => do
    let vs ← callEach self formals body caller (chunks width items)
    pure (.list vs)

/-- Runs a function whose arguments have been counted. -/
def runCounted (caller : ScopeId) : Builtin → List Value → Eval Value
  | .add, args => arithmetic Number.sum args
  | .subtract, args => arithmetic Number.difference args
  | .multiply, args => arithmetic Number.product args
  | .divide, args => arithmetic Number.quotient args
  | .remainder, args => arithmetic Number.remainder args
  | .equal, args => comparison allEqual args
  | .greater, args => comparison (chained fun x y => y.lt x) args
  | .greaterEq, args => comparison (chained fun x y => y.le x) args
  | .less, args => comparison (chained Number.lt) args
  | .lessEq, args => comparison (chained Number.le) args
  | .not, args => do
    let bs ← Value.truths args
    pure (ofBools (bs.map (!·)))
  | .cons, [head, tail] => do
    let items ← tail.elements
    pure (.list (head :: items))
  | .map, [f, list] => mapList self f list caller
  | .foldl, [f, start, list] => foldList self f start list caller
  | .foldl1, [f, list] => do
    match ← list.elements with
    | [] => fail (.standard .emptyFold)
    | start :: rest => foldList self f start (.list rest) caller
  | .format, args => pure (.string (formatted args))
  | .puts, [] => do
    emit "\n"
    pure .nil
  | .puts, args => do
    emit (formatted args ++ "\n")
    pure (.string (formatted args))
  | .print, args => do
    emit (formatted args)
    pure (.string (formatted args))
  | .assert, [arg] => do
    let b ← arg.truth
    assertion true b
  | .assertFalse, [arg] => do
    let b ← arg.truth
    assertion false b
  | _, _ => throw (.fault .operands)

/-- Runs a function on evaluated arguments. -/
def run (function : Builtin) (args : List Value) (caller : ScopeId) :
    Eval Value := do
  checkArity args.length function.arity.1 function.arity.2
  runCounted self caller function args

end Callbacks

end Builtin

end DynLisp
