import DynLisp.Proofs.Eval.Effect
import DynLisp.Proofs.Scope.Lookup

/-!
# Quiet runs

A run is quiet if it prints nothing and leaves all scopes alone that are there.  It can
still open scopes of its own, as calls do.

* `Eval.Quietly m w r` — started in `w`, the run `m` is quiet and ends like `r`;
* `Eval.Quietly.bind`, `callClosure_quietly`, `foldFrom_quietly` — runs in a row, calls and
  folds of calls; a fold of quiet calls gives what folding with their results gives;
* `evaluate_symbol`, `evaluate_call` — names that have a value, and calls of built-in
  functions by their names.
-/

namespace DynLisp

namespace Eval

variable {α β : Type}

/-- **A quiet run.**  Started in the world, the computation ends like `r`, has printed
nothing, and has left every scope as it was that was there. -/
def Quietly (m : Eval α) (w : World) (r : Except Halt α) : Prop :=
  ∃ f, w.forest.Extends f ∧ m w = pureResult r { w with forest := f }

variable {w : World} {r : Except Halt α}

/-- A run that leaves the world as it is is quiet. -/
theorem quietly_of_apply {m : Eval α} (h : m w = pureResult r w) : Quietly m w r :=
  ⟨w.forest, Forest.Extends.refl _, h⟩

theorem Quietly.congr {m n : Eval α} {v : World} (h : Quietly n v r) (hmn : m w = n v)
    (hforest : w.forest.Extends v.forest) (hprinted : v.printed = w.printed) :
    Quietly m w r := by
  obtain ⟨f, hf, hrun⟩ := h
  refine ⟨f, hforest.trans hf, ?_⟩
  rw [hmn, hrun, hprinted]

/-- Of two quiet runs in a row, the second one starts with more scopes. -/
theorem Quietly.bind {m : Eval β} {k : β → Eval α} {b : β} (hm : Quietly m w (.ok b))
    (hk : ∀ f, w.forest.Extends f → Quietly (k b) { w with forest := f } r) :
    Quietly (m >>= k) w r := by
  obtain ⟨f, hf, hrun⟩ := hm
  refine (hk f hf).congr ?_ hf rfl
  rw [bind_apply, hrun]
  rfl

/-- A quiet run that fails is the end. -/
theorem Quietly.bind_of_error {m : Eval β} {h : Halt} (hm : Quietly m w (.error h))
    (k : β → Eval α) : Quietly (m >>= k) w (.error h) := by
  obtain ⟨f, hf, hrun⟩ := hm
  refine ⟨f, hf, ?_⟩
  rw [bind_apply, hrun]
  rfl

/-- What a host program gets to see of a quiet run. -/
theorem Quietly.perform {m : Eval α} (h : Quietly m { w with printed := "" } r) :
    (w.perform m).1 = ⟨r, ""⟩ ∧ w.forest.Extends (w.perform m).2.forest := by
  obtain ⟨f, hf, hrun⟩ := h
  cases r with
  | ok a => exact ⟨congrArg Prod.fst (perform_of_ok hrun), perform_of_ok hrun ▸ hf⟩
  | error e => exact ⟨congrArg Prod.fst (perform_of_error hrun), perform_of_error hrun ▸ hf⟩

end Eval

open Eval

section Calls

variable {self : Evaluator} {formals : List String} {body : Value} {caller : ScopeId}

/-- **A call is quiet** if the body is, in the scope of the call. -/
theorem callClosure_quietly {args : List Value} {w : World} {r : Except Halt Value}
    (hlen : args.length = formals.length)
    (h : Quietly (self body w.forest.size)
      { w with
        forest := w.forest.push (some caller) (Bindings.ofList (formals.zip args)) } r) :
    Quietly (Builtin.callClosure self formals body args caller) w r := by
  refine h.congr ?_ (Forest.extends_push _ _ _) rfl
  rw [Builtin.callClosure_apply, if_pos hlen]

/-- **A fold is quiet** if its calls are, in every world with more scopes, and gives what
folding with their results gives.  By induction on the list. -/
theorem foldFrom_quietly {w : World} {result : Value → Value → Except Halt Value}
    (hcall : ∀ f, w.forest.Extends f → ∀ acc item,
      Quietly (Builtin.callClosure self formals body [acc, item] caller)
        { w with forest := f } (result acc item))
    (acc : Value) (items : List Value) :
    Quietly (Builtin.foldFrom self formals body caller acc items) w
      (items.foldlM result acc) := by
  induction items generalizing w acc with
  | nil => exact quietly_of_apply rfl
  | cons item rest ih =>
      have hfirst := hcall w.forest (Forest.Extends.refl _) acc item
      rw [Builtin.foldFrom, List.foldlM_cons]
      cases hresult : result acc item with
      | error h =>
          rw [hresult] at hfirst
          exact hfirst.bind_of_error _
      | ok next =>
          rw [hresult] at hfirst
          refine hfirst.bind fun f hf => ih (fun g hg => ?_) next
          exact hcall g (hf.trans hg)

end Calls

namespace Value

variable {depth : Nat} {s : ScopeId} {w : World}

/-- A name gives the value that it has. -/
theorem evaluate_symbol {name : String} {v : Value} (h : w.forest.get? s name = some v) :
    evaluate (depth + 1) (.symbol name) s w = .ok v w := by
  show lookup s name w = _
  rw [lookup_apply, h]

/-- Values that are evaluated one by one, where nothing happens to the world. -/
theorem evalEach_cons {self : Evaluator} {e v : Value} {es vs : List Value}
    (h : self e s w = .ok v w) (hrest : evalEach self s es w = .ok vs w) :
    evalEach self s (e :: es) w = .ok (v :: vs) w := by
  rw [evalEach, bind_apply, h]
  dsimp only
  rw [bind_apply, hrest]
  rfl

/-- **A built-in function called by its name** is run on the values of the operands. -/
theorem evaluate_call (function : Builtin) {operands args : List Value}
    (hname : w.forest.get? s function.name = some (.native function))
    (hoperands : evalEach (evaluate (depth + 1)) s operands w = .ok args w) :
    evaluate (depth + 2) (.list (.symbol function.name :: operands)) s w =
      function.run (evaluate (depth + 1)) args s w := by
  have hform : SpecialForm.ofHead? (.symbol function.name) = none := by
    cases function <;> rfl
  have hsymbol : evaluate (depth + 1) (.symbol function.name) s w =
      .ok (.native function) w := evaluate_symbol hname
  have hhead : evalHead (evaluate (depth + 1)) (.symbol function.name) s w =
      .ok (.native function) w := hsymbol
  show step (evaluate (depth + 1)) _ s w = _
  unfold step
  dsimp only
  rw [hform]
  dsimp only
  rw [evalList, bind_apply, hhead]
  dsimp only
  rw [bind_apply, hoperands]
  rfl

end Value

end DynLisp
