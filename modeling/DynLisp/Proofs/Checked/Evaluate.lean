import DynLisp.Proofs.Checked.Exit
import DynLisp.Proofs.Checked.Form
import DynLisp.Proofs.Eval.Effect
import Mathlib.Data.List.Basic

/-!
# Evaluation, checked

A special form takes its operands apart, and most built-in functions take some of
their arguments by position; both do so after the arguments have been counted.  A
special form is found by its name first, and what it does is looked up in a table
then.  Here all of this is done by operations that have a domain, and so is finding
an exit status; the texts that are sent are read as in `Checked.readAll`.

`Checked.evaluate_eq` and `Checked.send_eq` say that nothing is different, whatever
the misuse is: the bounds on the number of arguments are those that taking them apart
needs, and the table has an entry for each form.
-/

namespace DynLisp

namespace Checked

open Eval

section Evaluation

variable (misuse : Halt) (self : Evaluator)

/-- Evaluates one of two operands, by the test. -/
def condForm (operands : List Value) (scope : ScopeId) : Eval Value := do
  checkArity operands.length (some 3) (some 3)
  let (test, yes, no) ← pureResult (triple misuse operands)
  let v ← self test scope
  let b ← v.truth
  self (if b then yes else no) scope

/-- Binds a name in the scope at hand. -/
def bindForm (operands : List Value) (scope : ScopeId) : Eval Value := do
  checkArity operands.length (some 2) (some 2)
  let (name, value) ← pureResult (pair misuse operands)
  let name ← name.symbolName
  let v ← self value scope
  define scope name v
  pure v

/-- Makes a closure. -/
def lambdaForm (operands : List Value) (_ : ScopeId) : Eval Value := do
  checkArity operands.length (some 2) (some 2)
  let (parameters, body) ← pureResult (pair misuse operands)
  pureResult (Value.lambda parameters body)

/-- Makes a closure and binds it. -/
def functionForm (operands : List Value) (scope : ScopeId) : Eval Value := do
  checkArity operands.length (some 3) (some 3)
  let (name, parameters, body) ← pureResult (triple misuse operands)
  let name ← name.symbolName
  let closure ← pureResult (Value.lambda parameters body)
  define scope name closure
  pure closure

/-- Ends the program. -/
def exitForm (operands : List Value) (scope : ScopeId) : Eval Value := do
  checkArity operands.length none (some 1)
  if operands.isEmpty then throw (.exit 0)
  else
    let operand ← pureResult (item misuse operands 0)
    let v ← self operand scope
    let status ← pureResult (exitStatus misuse v)
    throw (.exit status)

/-- What each special form does. -/
def handlers : List (SpecialForm × (List Value → ScopeId → Eval Value)) :=
  [(.cond, condForm misuse self),
   (.bind, bindForm misuse self),
   (.lambda, lambdaForm misuse),
   (.function, functionForm misuse),
   (.exit, exitForm misuse self)]

/-- Evaluates a special form. -/
def evalForm (form : SpecialForm) (operands : List Value) (scope : ScopeId) : Eval Value :=
  match (handlers misuse self).lookup form with
  | some handler => handler operands scope
  | none => throw misuse

/-- Runs a function whose arguments have been counted.  What is not listed here works
on all its arguments, from the first one on. -/
def runCounted (caller : ScopeId) : Builtin → List Value → Eval Value
  | .cons, args => do
    let (head, tail) ← pureResult (pair misuse args)
    let items ← tail.elements
    pure (.list (head :: items))
  | .map, args => do
    let f ← pureResult (item misuse args 0)
    let list ← pureResult (item misuse args 1)
    Builtin.mapList self f list caller
  | .foldl, args => do
    let f ← pureResult (item misuse args 0)
    let start ← pureResult (item misuse args 1)
    let list ← pureResult (item misuse args 2)
    Builtin.foldList self f start list caller
  | .foldl1, args => do
    let list ← pureResult (item misuse args 1)
    let items ← list.elements
    if items.isEmpty then fail (.standard .emptyFold)
    else
      let f ← pureResult (item misuse args 0)
      let start ← pureResult (item misuse items 0)
      Builtin.foldList self f start (.list (items.drop 1)) caller
  | .puts, args =>
    if args.isEmpty then do
      emit "\n"
      pure .nil
    else do
      let _ ← pureResult (item misuse args 0)
      Builtin.runCounted self caller .puts args
  | .assert, args => do
    let arg ← pureResult (item misuse args 0)
    let b ← arg.truth
    Builtin.assertion true b
  | .assertFalse, args => do
    let arg ← pureResult (item misuse args 0)
    let b ← arg.truth
    Builtin.assertion false b
  | function, args => do
    let _ ← pureResult (item misuse args 0)
    Builtin.runCounted self caller function args

/-- Runs a function on evaluated arguments. -/
def run (function : Builtin) (args : List Value) (caller : ScopeId) : Eval Value := do
  checkArity args.length function.arity.1 function.arity.2
  runCounted misuse self caller function args

/-- Applies a function to evaluated arguments. -/
def apply (head : Value) (args : List Value) (scope : ScopeId) : Eval Value :=
  match head with
  | .closure formals body => Builtin.callClosure self formals body args scope
  | .native function => run misuse self function args scope
  | _ => fail (.type .callable)

/-- Evaluates a list that is no special form. -/
def evalList (head : Value) (tail : List Value) (scope : ScopeId) : Eval Value := do
  let h ← Value.evalHead self head scope
  let vs ← Value.evalEach self scope tail
  if h.isCallable then apply misuse self h vs scope else pure (.list (h :: vs))

/-- Evaluates a value, given how everything inside it is evaluated. -/
def step (e : Value) (scope : ScopeId) : Eval Value :=
  match e with
  | .list [] => pure (.list [])
  | .list (head :: tail) =>
    match SpecialForm.ofHead? head with
    | some form => evalForm misuse self form tail scope
    | none => evalList misuse self head tail scope
  | e => Value.step self e scope

end Evaluation

variable (misuse : Halt)

/-- Evaluates a value in a scope, with at most `depth` evaluations nested. -/
def evaluate : Nat → Value → ScopeId → Eval Value
  | 0, _, _ => throw .exhausted
  | depth + 1, e, scope => step misuse (evaluate depth) e scope

/-- Evaluates every form of a text in a scope; nothing at all gives `nil`. -/
def send (depth : Nat) (code : String) (scope : ScopeId) : Eval Value := do
  let (forms, failure) := readAll misuse (Token.tokenize code true)
  let v ← forms.foldlM (fun _ form => evaluate misuse depth form scope) .nil
  match failure with
  | none => pure v
  | some h => throw h

/-- Evaluates the first form of a text in a scope. -/
def sendFirst (depth : Nat) (code : String) (scope : ScopeId) : Eval Value := do
  let (form, _) ← pureResult (parse misuse (Token.tokenize code true))
  evaluate misuse depth form scope

variable {misuse} {self : Evaluator} {α : Type}

/-- What is done after counting matters only where the count is in the bounds. -/
theorem checkArity_bind_congr {count : Nat} (bounds : Option Nat × Option Nat)
    {k l : Unit → Eval α} (h : ¬Miscounts count bounds → k () = l ()) :
    (checkArity count bounds.1 bounds.2 >>= k) = checkArity count bounds.1 bounds.2 >>= l := by
  obtain ⟨r, hr, hok, -⟩ := checkArity_gives count bounds
  rw [hr]
  cases r with
  | error halt => rfl
  | ok u => exact h (hok u rfl)

/-- **Special forms** take apart as many operands as there are. -/
theorem evalForm_eq (form : SpecialForm) (operands : List Value) (scope : ScopeId) :
    evalForm misuse self form operands scope = form.eval self operands scope := by
  cases form with
  | cond =>
      refine checkArity_bind_congr (some 3, some 3) fun hcount => ?_
      obtain ⟨test, yes, no, rfl⟩ := exists_triple hcount
      rfl
  | bind =>
      refine checkArity_bind_congr (some 2, some 2) fun hcount => ?_
      obtain ⟨name, value, rfl⟩ := exists_pair hcount
      rfl
  | lambda =>
      refine checkArity_bind_congr (some 2, some 2) fun hcount => ?_
      obtain ⟨parameters, body, rfl⟩ := exists_pair hcount
      rfl
  | function =>
      refine checkArity_bind_congr (some 3, some 3) fun hcount => ?_
      obtain ⟨name, parameters, body, rfl⟩ := exists_triple hcount
      rfl
  | exit =>
      refine checkArity_bind_congr (none, some 1) fun hcount => ?_
      rcases operands with _ | ⟨operand, _ | ⟨_, _⟩⟩
      case nil => rfl
      case cons.nil =>
        show (self operand scope >>= _) = self operand scope >>= _
        refine bind_congr fun v => ?_
        rw [exitStatus_eq]
      case cons.cons => exact absurd (by simp [Miscounts]) hcount

/-- **Built-in functions** look for arguments only where there are some. -/
theorem run_eq (function : Builtin) (args : List Value) (caller : ScopeId) :
    run misuse self function args caller = function.run self args caller := by
  refine checkArity_bind_congr function.arity fun hcount => ?_
  cases function with
  | cons | map =>
      obtain ⟨first, second, rfl⟩ := exists_pair hcount
      rfl
  | foldl =>
      obtain ⟨f, start, list, rfl⟩ := exists_triple hcount
      rfl
  | foldl1 =>
      obtain ⟨f, list, rfl⟩ := exists_pair hcount
      show (list.elements >>= _) = list.elements >>= _
      refine bind_congr fun items => ?_
      cases items <;> rfl
  | assert | assertFalse =>
      obtain ⟨arg, rfl⟩ := List.length_eq_one_iff.mp (eq_of_not_miscounts hcount)
      rfl
  | puts => cases args <;> rfl
  | _ =>
      obtain ⟨first, rest, rfl⟩ := exists_first hcount
      rfl

/-- Applying a value does what it does unchecked. -/
theorem apply_eq (head : Value) (args : List Value) (scope : ScopeId) :
    apply misuse self head args scope = Value.apply self head args scope := by
  cases head with
  | native function => exact run_eq function args scope
  | _ => rfl

theorem step_eq (e : Value) (scope : ScopeId) :
    step misuse self e scope = Value.step self e scope := by
  cases e with
  | list items =>
      cases items with
      | nil => rfl
      | cons head tail =>
          rw [step, Value.step]
          cases SpecialForm.ofHead? head with
          | some form => exact evalForm_eq form tail scope
          | none =>
              refine bind_congr fun h => bind_congr fun vs => ?_
              rw [apply_eq]
  | _ => rfl

/-- **Evaluation needs no operation outside of its domain**: by induction on how deep
evaluations may nest. -/
theorem evaluate_eq (depth : Nat) : evaluate misuse depth = Value.evaluate depth := by
  funext e scope
  induction depth generalizing e scope with
  | zero => rfl
  | succ depth ih =>
      have hself : evaluate misuse depth = Value.evaluate depth := by
        funext e scope
        exact ih e scope
      rw [evaluate, Value.evaluate, hself, step_eq]

/-- Evaluating forms in turn is a fold over them. -/
theorem evalForms_eq_foldlM (depth : Nat) (scope : ScopeId) (last : Value)
    (forms : List Value) :
    evalForms depth scope last forms =
      forms.foldlM (fun _ form => Value.evaluate depth form scope) last := by
  induction forms generalizing last with
  | nil => rfl
  | cons form rest ih =>
      rw [evalForms, List.foldlM_cons]
      exact bind_congr fun v => ih v

/-- **Sending a text needs no operation outside of its domain.** -/
theorem send_eq (depth : Nat) (code : String) (scope : ScopeId) :
    send misuse depth code scope = Eval.send depth code scope := by
  have hread : readAll misuse (Token.tokenize code true) =
      Form.readAll (Token.tokenize code true) :=
    readAll_eq fun token => Token.ne_empty_of_mem_tokenize
  rw [send, Eval.send, hread, evaluate_eq]
  obtain ⟨forms, failure⟩ := Form.readAll (Token.tokenize code true)
  have hforms := (evalForms_eq_foldlM depth scope .nil forms).symm
  cases failure with
  | none => exact congrArg (· >>= fun v => pure v) hforms
  | some h => exact congrArg (· >>= fun _ => throw h) hforms

/-- Nor does sending it for its first form. -/
theorem sendFirst_eq (depth : Nat) (code : String) (scope : ScopeId) :
    sendFirst misuse depth code scope = Eval.sendFirst depth code scope := by
  have hread : parse misuse (Token.tokenize code true) = Form.parse (Token.tokenize code true) :=
    parse_eq fun token => Token.ne_empty_of_mem_tokenize
  rw [sendFirst, Eval.sendFirst, hread, evaluate_eq]

end Checked

end DynLisp
