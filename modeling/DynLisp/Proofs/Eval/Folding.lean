import DynLisp.Proofs.Eval.Calls

/-!
# Folds split at any point

A fold carries nothing from one element to the next but the value that the last call
gave.  So it can be stopped anywhere and started again with that value.

* `foldFrom_eq_foldlM` — calling with one element after the other is a fold of calls;
* `apply_foldl_append`, `apply_foldl1_cons` — as computations: a fold over two lists put
  together, and a fold that starts from the first element;
* `folds_split` — the same as it is reported, with both parts of the fold started in the
  world in which the whole is, because no call leaves a trace in a scope that was there.
-/

namespace DynLisp

open Eval

/-- Calling with one element after the other is a fold of calls. -/
theorem Builtin.foldFrom_eq_foldlM (self : Evaluator) (formals : List String) (body : Value)
    (caller : ScopeId) (acc : Value) (items : List Value) :
    Builtin.foldFrom self formals body caller acc items =
      items.foldlM
        (fun acc item => Builtin.callClosure self formals body [acc, item] caller) acc := by
  induction items generalizing acc with
  | nil => rfl
  | cons item rest ih =>
      rw [Builtin.foldFrom, List.foldlM_cons]
      exact bind_congr fun next => ih next

section Applied

variable (self : Evaluator) (f : Value) (env : ScopeId)

/-- **A fold over two lists put together** goes on where the fold over the first ends;
what is no closure of two parameters is refused before either. -/
theorem apply_foldl_append (start : Value) (xs ys : List Value) :
    Value.apply self (.native .foldl) [f, start, .list (xs ++ ys)] env = (do
      let middle ← Value.apply self (.native .foldl) [f, start, .list xs] env
      Value.apply self (.native .foldl) [f, middle, .list ys] env) := by
  have hfold : ∀ start items, Value.apply self (.native .foldl) [f, start, .list items] env =
      Builtin.foldList self f start (.list items) env := fun _ _ => rfl
  simp only [hfold, Builtin.foldList]
  cases f with
  | closure formals body =>
      simp only [Value.closureParts, Value.elements, pure_bind]
      split
      · simp only [Builtin.foldFrom_eq_foldlM, List.foldlM_append]
      · rfl
  | _ => rfl

/-- **A fold that starts from the first element** is the fold over the others, whatever
comes of it. -/
theorem apply_foldl1_cons (first : Value) (rest : List Value) :
    Value.apply self (.native .foldl1) [f, .list (first :: rest)] env =
      Value.apply self (.native .foldl) [f, first, .list rest] env := rfl

end Applied

/-- **Folds split at any point.**  Folding over two lists put together is folding over the
one and, if that gives a value, folding over the other from this value: as a computation,
and as reports that are both made from the world as it is, for no scope that is there
changes.  Folding from the first element on is folding over the rest from it, errors
included. -/
theorem folds_split (depth : Nat) (f : Value) {w : World} {env : ScopeId}
    (henv : env < w.forest.size) :
    let foldl : Value → List Value → Eval Value := fun start items =>
      Value.apply (Value.evaluate depth) (.native .foldl) [f, start, .list items] env
    (∀ start xs ys,
      foldl start (xs ++ ys) = (foldl start xs >>= fun middle => foldl middle ys) ∧
      (w.perform (foldl start (xs ++ ys))).1 =
        (w.perform (foldl start xs)).1.andThen (fun middle => (w.perform (foldl middle ys)).1) ∧
      w.forest.Extends (w.perform (foldl start (xs ++ ys))).2.forest) ∧
    ∀ first rest,
      Value.apply (Value.evaluate depth) (.native .foldl1) [f, .list (first :: rest)] env =
        foldl first rest := by
  intro foldl
  have hcalls : ∀ start items, Calls env (foldl start items) :=
    fun start items => apply_calls depth (.native .foldl) [f, start, .list items] env
  refine ⟨fun start xs ys => ?_, fun first rest => apply_foldl1_cons _ f env first rest⟩
  have hsplit : foldl start (xs ++ ys) = foldl start xs >>= fun middle => foldl middle ys :=
    apply_foldl_append _ f env start xs ys
  refine ⟨hsplit, ?_, (hcalls start (xs ++ ys)).extends w⟩
  rw [hsplit]
  exact (hcalls start xs).report_bind henv fun middle => hcalls middle ys

/-- A closure that prints what it is given, and exits at the third element: the fold over
the first two gives the second, and the fold over the others from there ends the whole. -/
theorem exit_in_second_part_ends_fold :
    let w : World := ⟨Forest.empty.push none [], ""⟩
    let body : Value := .list [.symbol "if", .symbol "x",
      .list [.native .print, .symbol "acc"], .list [.symbol "exit"]]
    let f : Value := .closure ["acc", "x"] body
    0 < w.forest.size ∧
      (w.perform (Value.apply (Value.evaluate 3) (.native .foldl)
          [f, .string "a", .list [.bool true, .bool true, .bool false, .bool true]] 0)).1 =
        ⟨.error (.exit 0), "aa"⟩ := by
  intro w body f
  have henv : 0 < w.forest.size := by decide
  refine ⟨henv, ?_⟩
  obtain ⟨hsplit, -⟩ := folds_split 3 f henv
  have hreport := (hsplit (.string "a") [.bool true, .bool true]
    [.bool false, .bool true]).2.1
  refine hreport.trans ?_
  simp only [w, body, f]
  with_unfolding_all rfl

end DynLisp
