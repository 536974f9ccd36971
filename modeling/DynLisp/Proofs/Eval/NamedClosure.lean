import DynLisp.Proofs.Eval.Limit
import DynLisp.Proofs.Eval.Refusal

/-!
# Naming a closure

There are two ways to make a closure and bind it to a name: the form that does both at once,
and a binding whose value is a lambda.  They are written differently and checked in places of
their own, and they come to the same.

* `Value.Spells` — the names that written parameters stand for;
* `World.NamesClosure` — what comes of naming a closure, said on its own: it is bound and
  given, or nothing happens but the error of the first demand that is not met, the name's
  before the parameters';
* `Value.evaluate_function`, `Value.evaluate_boundLambda` — either form, with enough nested
  evaluations left, comes to that;
* `function_is_lambda_bound` — so both forms end alike and leave the same world, and the first
  one needs one nested evaluation less.
-/

namespace DynLisp

open Eval Demand

namespace Value

/-- `(fn name parameters body)` -/
def functionCode (name parameters body : Value) : Value :=
  .list [.symbol "fn", name, parameters, body]

/-- `(let name (\ parameters body))` -/
def boundLambdaCode (name parameters body : Value) : Value :=
  .list [.symbol "let", name, .list [.symbol "\\", parameters, body]]

/-- Written parameters and their names: one symbol alone, or a list of symbols. -/
inductive Spells : Value → List String → Prop
  | one (name : String) : Spells (.symbol name) [name]
  | many (names : List String) : Spells (.list (names.map .symbol)) names

theorem parameters?_eq_some_iff {parameters : Value} {formals : List String} :
    parameters.parameters? = some formals ↔ parameters.Spells formals := by
  constructor
  · intro h
    cases parameters with
    | symbol name =>
        cases h
        exact .one name
    | list items =>
        rw [symbolNames?_eq_some_iff.mp h]
        exact .many formals
    | _ => cases h
  · intro h
    cases h with
    | one name => rfl
    | many names => exact symbolNames?_eq_some_iff.mpr rfl

end Value

open Value

/-- **What comes of naming a closure.**  With a symbol for the name and symbols for the
parameters, the closure is bound in the scope, and given.  Otherwise the forest stays as it
is, and the first of the two that is not what it should be decides on the error.  Nothing is
printed. -/
inductive World.NamesClosure (w : World) (scope : ScopeId) (name parameters body : Value) :
    Report Value × World → Prop
  | bound {n : String} {formals : List String} (hname : name = .symbol n)
      (hparameters : parameters.Spells formals) :
      NamesClosure w scope name parameters body
        (⟨.ok (.closure formals body), ""⟩,
          ⟨w.forest.define scope n (.closure formals body), ""⟩)
  | refused {e : Error}
      (hunmet : FirstUnmet [kind .symbol name, kind .parameters parameters] e) :
      NamesClosure w scope name parameters body (⟨.error (.error e), ""⟩, ⟨w.forest, ""⟩)

namespace Value

variable {name parameters body : Value} {scope : ScopeId}

/-- Checks a name, makes a closure, and binds it. -/
def nameClosure (name parameters body : Value) (scope : ScopeId) : Eval Value := do
  let n ← name.symbolName
  let closure ← pureResult (lambda parameters body)
  define scope n closure
  pure closure

theorem nameClosure_perform (w : World) :
    w.NamesClosure scope name parameters body
      (w.perform (nameClosure name parameters body scope)) := by
  cases name with
  | symbol n =>
      unfold nameClosure lambda
      cases hparameters : parameters.parameters? with
      | some formals => exact .bound rfl (parameters?_eq_some_iff.mp hparameters)
      | none =>
          refine .refused (.later ⟨n, rfl⟩ (.here ?_))
          intro hmet
          obtain ⟨formals, hsome⟩ := is_parameters_iff.mp hmet
          rw [hparameters] at hsome
          cases hsome
  | _ =>
      refine .refused (.here ?_)
      intro hmet
      obtain ⟨n, hname⟩ := hmet
      cases hname

/-- The form that does both at once needs no evaluation but its own. -/
theorem evaluate_function (depth : Nat) :
    evaluate (depth + 1) (functionCode name parameters body) scope =
      nameClosure name parameters body scope := rfl

/-- The binding evaluates its value, which is a lambda and evaluates nothing more. -/
theorem evaluate_boundLambda (depth : Nat) :
    evaluate (depth + 2) (boundLambdaCode name parameters body) scope =
      nameClosure name parameters body scope := by
  have hvalue : evaluate (depth + 1) (.list [.symbol "\\", parameters, body]) scope =
      pureResult (lambda parameters body) := rfl
  have hbinding : evaluate (depth + 2) (boundLambdaCode name parameters body) scope =
      (do
        let n ← name.symbolName
        let v ← evaluate (depth + 1) (.list [.symbol "\\", parameters, body]) scope
        define scope n v
        pure v) := rfl
  rw [hbinding, hvalue]
  rfl

/-- A run that is not exhausted comes to what it comes to under any larger limit. -/
theorem perform_of_not_exhausted {limit larger : Nat} {e : Value} {w : World}
    (h : limit ≤ larger)
    (hlimit : (w.perform (evaluate limit e scope)).1.result ≠ .error .exhausted) :
    w.perform (evaluate limit e scope) = w.perform (evaluate larger e scope) :=
  (((evaluate_prolongs h e scope).goesOn w).1 hlimit).symm

end Value

/-- Naming a closure does not exhaust anything. -/
theorem World.NamesClosure.ne_exhausted {w : World} {scope : ScopeId}
    {name parameters body : Value} {outcome : Report Value × World}
    (h : w.NamesClosure scope name parameters body outcome) :
    outcome.1.result ≠ .error .exhausted := by
  cases h with
  | bound hname hparameters => nofun
  | refused hunmet => nofun

/-- **A function is a lambda that is bound.**  Whatever stands for the name, the parameters and
the body, the two forms come to the same wherever there is stack enough for both: the same
closure or the same error, the same bindings in the same order in every scope, and nothing
printed.  What they come to is a closure with these parameters and this body, bound under the
name; or the error of the first of name and parameters that is not what it should be, and no
change.  One nested evaluation is enough for the one and two are enough for the other. -/
theorem function_is_lambda_bound {depth deeper : Nat} {name parameters body : Value}
    {scope : ScopeId} {w : World}
    (hfunction : (w.perform (evaluate depth (functionCode name parameters body) scope)).1.result ≠
      .error .exhausted)
    (hbinding : (w.perform
      (evaluate deeper (boundLambdaCode name parameters body) scope)).1.result ≠
        .error .exhausted) :
    w.perform (evaluate depth (functionCode name parameters body) scope) =
        w.perform (evaluate deeper (boundLambdaCode name parameters body) scope) ∧
      w.NamesClosure scope name parameters body
        (w.perform (evaluate depth (functionCode name parameters body) scope)) ∧
      ∀ left,
        (w.perform (evaluate (left + 1) (functionCode name parameters body) scope)).1.result ≠
          .error .exhausted ∧
        (w.perform (evaluate (left + 2) (boundLambdaCode name parameters body) scope)).1.result ≠
          .error .exhausted := by
  have hshort := perform_of_not_exhausted (Nat.le_add_right depth 1) hfunction
  have hlong := perform_of_not_exhausted (Nat.le_add_right deeper 2) hbinding
  rw [evaluate_function] at hshort
  rw [evaluate_boundLambda] at hlong
  have hnamed : w.NamesClosure scope name parameters body
      (w.perform (nameClosure name parameters body scope)) := nameClosure_perform w
  refine ⟨hshort.trans hlong.symm, hshort ▸ hnamed, fun left => ?_⟩
  rw [evaluate_function, evaluate_boundLambda]
  exact ⟨hnamed.ne_exhausted, hnamed.ne_exhausted⟩

/-- A function with one parameter twice, under a name that is bound already. -/
theorem repeated_parameter_is_lambda_bound :
    let w : World := ⟨⟨#[⟨none, [("f", .nil), ("g", .nil)]⟩]⟩, ""⟩
    let parameters : Value := .list [.symbol "x", .symbol "x"]
    (w.perform (evaluate 1 (functionCode (.symbol "f") parameters .nil) 0)).1.result ≠
        .error .exhausted ∧
      (w.perform (evaluate 2 (boundLambdaCode (.symbol "f") parameters .nil) 0)).1.result ≠
        .error .exhausted ∧
      w.perform (evaluate 1 (functionCode (.symbol "f") parameters .nil) 0) =
        w.perform (evaluate 2 (boundLambdaCode (.symbol "f") parameters .nil) 0) ∧
      w.NamesClosure 0 (.symbol "f") parameters .nil
        (⟨.ok (.closure ["x", "x"] .nil), ""⟩,
          ⟨⟨#[⟨none, [("f", .closure ["x", "x"] .nil), ("g", .nil)]⟩]⟩, ""⟩) := by
  intro w parameters
  have hfunction : (w.perform
      (evaluate 1 (functionCode (.symbol "f") parameters .nil) 0)).1.result ≠
        .error .exhausted := nofun
  have hbinding : (w.perform
      (evaluate 2 (boundLambdaCode (.symbol "f") parameters .nil) 0)).1.result ≠
        .error .exhausted := nofun
  obtain ⟨hsame, hnamed, -⟩ := function_is_lambda_bound hfunction hbinding
  exact ⟨hfunction, hbinding, hsame, hnamed⟩

end DynLisp
