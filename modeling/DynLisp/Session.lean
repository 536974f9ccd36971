import DynLisp.Eval.Definition
import DynLisp.Eval.Evaluate
import DynLisp.Reader.Form

/-!
# Sessions

A session is a world with one root scope, in which the built-in functions are
bound and every text that is sent is evaluated.  What a send binds stays for
the next, also when the send fails.

* `Eval.send` evaluates the forms of a text one after the other and gives the
  last value.  An error in the text counts only when it is reached: the forms
  before it are evaluated.
* `Eval.sendFirst` evaluates the first form only.
* `World.perform` runs one computation in a world and reports how it ended and
  what it printed.

A session has one limit: how deep evaluations may nest (`sessionDepth`).  Only
evaluations count.  Reading a text and writing a value are not counted, however
deep their lists are nested; they always come to an end of their own.
-/

namespace DynLisp

/-- How a computation ended, and what it printed on the way. -/
structure Report (α : Type) where
  result : Except Halt α
  printed : String

/-- Runs a computation; the world keeps its effects, however it ends. -/
def World.perform {α : Type} (w : World) (action : Eval α) : Report α × World :=
  match action { w with printed := "" } with
  | .ok a w => (⟨.ok a, w.printed⟩, w)
  | .error h w => (⟨.error h, w.printed⟩, w)

namespace Eval

/-- Evaluates forms in turn; the last value, or the one given if there are no
forms. -/
def evalForms (depth : Nat) (scope : ScopeId) (last : Value) :
    List Value → Eval Value
  | [] => pure last
  | form :: rest => do
    let v ← Value.evaluate depth form scope
    evalForms depth scope v rest

/-- Evaluates every form of a text in a scope; nothing at all gives `nil`. -/
def send (depth : Nat) (code : String) (scope : ScopeId) : Eval Value := do
  let (forms, failure) := Form.readAll (Token.tokenize code true)
  let v ← evalForms depth scope .nil forms
  match failure with
  | none => pure v
  | some h => throw h

/-- Evaluates the first form of a text in a scope. -/
def sendFirst (depth : Nat) (code : String) (scope : ScopeId) : Eval Value := do
  let (form, _) ← pureResult (Form.parse (Token.tokenize code true))
  Value.evaluate depth form scope

/-- Opens a root scope that holds the built-in functions. -/
def openRoot : Eval ScopeId := do
  let scope ← openScope none []
  register scope
  pure scope

/-- Opens a session and evaluates its prelude, if it has one. -/
def openSession (depth : Nat) (prelude : Option String) : Eval ScopeId := do
  let scope ← openRoot
  match prelude with
  | none => pure scope
  | some code => do
    let _ ← send depth code scope
    pure scope

end Eval

/-- How deep evaluations may nest in a session: a thousand levels, or as many as
the configuration asks for, if these are more. -/
def sessionDepth : Option Int → Nat
  | none => 1000
  | some limit => max 1000 limit.toNat

namespace Forest

/-- Whether a name is bound to the built-in function of that name. -/
def holdsBuiltin (binding : String × Value) : Bool :=
  match Builtin.ofName? binding.1 with
  | some f => decide (binding.2 = .native f)
  | none => false

/-- The bindings of a scope that a program has made, sorted by name. -/
def userBindings (f : Forest) (scope : ScopeId) : List (String × Value) :=
  ((f.bindings scope).filter fun b => !holdsBuiltin b).mergeSort
    fun a b => decide (a.1 ≤ b.1)

end Forest

end DynLisp
