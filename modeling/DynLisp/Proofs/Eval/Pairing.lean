import DynLisp.Proofs.Eval.Traversal

/-!
# Pairs of runs

A `Pairing` is a relation between computations that holds of every computation
without effects and itself, of every deed and itself, and of two sequences if it
holds of their parts.  Then it holds of all that the language does with any two
evaluators that it holds of:

* `Pairing.step_rel` — one step with the one and one step with the other;
* `Pairing.apply_rel` — applying a function;
* `Pairing.evalForms_rel`, `Pairing.send_rel` — the forms of a text in turn.

What two evaluations have in common, under two limits or behind two printed texts, is
shown by giving the pairing, and by an induction on the limit that takes one step at a
time.
-/

namespace DynLisp

open Eval

/-- A relation between computations that sequences and deeds respect. -/
structure Pairing extends Congruence where
  emit : ∀ text, rel (emit text) (emit text)
  define : ∀ s name v, rel (define s name v) (define s name v)
  lookup : ∀ s name, rel (lookup s name) (lookup s name)
  enter : ∀ formals args caller,
    rel (enter formals args caller) (enter formals args caller)

namespace Pairing

variable (P : Pairing)

/-- A value and itself. -/
theorem pure {α : Type} (a : α) : P.rel (Pure.pure a) (Pure.pure a) := P.still (.ok a)

/-- A failure and itself. -/
theorem throw {α : Type} (h : Halt) :
    P.rel (MonadExcept.throw h : Eval α) (MonadExcept.throw h) := P.still (.error h)

section Evaluators

variable {P} {one other : Evaluator} (hself : ∀ e s, P.rel (one e s) (other e s))
  (s : ScopeId)
include hself

/-- A call opens a scope and evaluates the body there. -/
theorem callClosure_rel (formals : List String) (body : Value) (args : List Value) :
    P.rel (Builtin.callClosure one formals body args s)
      (Builtin.callClosure other formals body args s) :=
  P.bind (P.enter formals args s) fun scope _ => hself body scope

/-- The walk through two runs from the same scope, whatever the values are. -/
def traversal : Traversal one other s s where
  sorts := .anything
  inside := P.judgement
  outside := P.judgement
  weaken h := h
  emit text := ⟨P.emit text, fun _ _ => trivial⟩
  call _ _ := ⟨callClosure_rel hself s _ _ _, fun _ _ => trivial⟩
  evaluate _ := ⟨hself _ s, fun _ _ => trivial⟩
  lookup _ := ⟨P.lookup s _, fun _ _ => trivial⟩
  define _ _ _ := ⟨P.define s _ _, fun _ _ => trivial⟩
  misplaced _ _ h := ⟨P.throw h, fun _ _ => trivial⟩

/-- Applying a function with two evaluators is related if the evaluators are. -/
theorem apply_rel (head : Value) (args : List Value) :
    P.rel (Value.apply one head args s) (Value.apply other head args s) := by
  have hargs : ∀ a ∈ args, Sorts.anything.Data a := fun _ _ => trivial
  have hrefused : P.judgement.holds (fun _ => True) (fail (.type .callable) : Eval Value)
      (fail (.type .callable)) := ⟨P.throw _, fun _ _ => trivial⟩
  exact ((traversal hself s).applyAny trivial hargs hrefused).1

/-- **One step** with two evaluators is related if the evaluators are. -/
theorem step_rel (e : Value) : P.rel (Value.step one e s) (Value.step other e s) := by
  have hcode : (traversal hself s).sorts.Code e := trivial
  exact ((traversal hself s).step hcode).1

end Evaluators

section Texts

variable {P} {limit larger : Nat}
  (h : ∀ e s, P.rel (Value.evaluate limit e s) (Value.evaluate larger e s)) (s : ScopeId)
include h

/-- Forms that are evaluated in turn under two limits are related if evaluating is. -/
theorem evalForms_rel (last : Value) (forms : List Value) :
    P.rel (evalForms limit s last forms) (evalForms larger s last forms) := by
  induction forms generalizing last with
  | nil => exact P.pure _
  | cons form rest ih => exact P.bind (h form s) fun v _ => ih v

/-- **Sending a text** under two limits is related if evaluating is. -/
theorem send_rel (code : String) : P.rel (send limit code s) (send larger code s) := by
  unfold send
  refine P.bind (evalForms_rel h s _ _) fun v _ => ?_
  split
  · exact P.pure _
  · exact P.throw _

end Texts

end Pairing

end DynLisp
