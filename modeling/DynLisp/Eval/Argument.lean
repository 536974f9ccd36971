import DynLisp.Eval.Basic

/-!
# Arguments of the right kind

What an operation takes from its arguments: a value of the kind it asks for,
or else the error that names this kind.
-/

namespace DynLisp

namespace Value

/-- The name of a symbol. -/
def symbolName : Value → Eval String
  | .symbol name => pure name
  | _ => Eval.fail (.type .symbol)

/-- A truth value. -/
def truth : Value → Eval Bool
  | .bool b => pure b
  | _ => Eval.fail (.type .bool)

/-- A number. -/
def amount : Value → Eval Number
  | .number x => pure x
  | _ => Eval.fail (.type .number)

/-- The elements of a list. -/
def elements : Value → Eval (List Value)
  | .list items => pure items
  | _ => Eval.fail (.type .list)

/-- The parameters and the body of a closure. -/
def closureParts : Value → Eval (List String × Value)
  | .closure formals body => pure (formals, body)
  | _ => Eval.fail (.type .closure)

/-- Truth values, from the first argument on. -/
def truths : List Value → Eval (List Bool)
  | [] => pure []
  | v :: rest => do
    let b ← v.truth
    let bs ← truths rest
    pure (b :: bs)

/-- Numbers, from the first argument on. -/
def amounts : List Value → Eval (List Number)
  | [] => pure []
  | v :: rest => do
    let x ← v.amount
    let xs ← amounts rest
    pure (x :: xs)

end Value

end DynLisp
