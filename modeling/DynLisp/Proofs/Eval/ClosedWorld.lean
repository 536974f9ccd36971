import DynLisp.Proofs.Eval.Traversal
import DynLisp.Proofs.Scope.Contents

/-!
# The closed world

Code and data are of one type, and yet they never mix.  In a **settled** world
every value that is bound anywhere is settled: no part of it is a symbol, and
the closures in it have bodies that were written down.  Evaluating what was
written down, in a settled world, gives a settled value and leaves a settled
world; and where it fails, the failure is one that programs are meant to see
(`Halt.Proper`).

* `World.Settled.define`, `World.Settled.push`, `World.Settled.get?` — the three
  ways in which an evaluation touches bindings;
* `Eval.Ensures Q m` — started in a settled world, `m` keeps it settled, gives
  what satisfies `Q`, and fails properly;
* `evaluate_ensures` — evaluating written code ensures a settled value: by
  induction on how deep evaluations may nest.

Written code holds no functions, so that none can stand in its way; and settled
data holds no symbols, so that what a call brings to its body is never taken for
code.  The two meet in one point only: the body of a settled closure is written.
-/

namespace DynLisp

/-- Every value that is bound anywhere is settled. -/
def World.Settled (w : World) : Prop :=
  ∀ s name v, (name, v) ∈ w.forest.bindings s → v.Settled

namespace World.Settled

variable {w : World}

theorem empty : World.empty.Settled := by
  intro s name v h
  cases h

/-- A settled value may be bound. -/
theorem define (h : w.Settled) (s : ScopeId) (name : String) {v : Value}
    (hv : v.Settled) : World.Settled { w with forest := w.forest.define s name v } := by
  intro t other u hu
  rcases Forest.mem_bindings_define hu with rfl | hold
  · exact hv
  · exact h t other u hold

/-- A scope may be opened with settled values. -/
theorem push (h : w.Settled) (outer : Option ScopeId) {table : Bindings String Value}
    (htable : ∀ binding ∈ table, binding.2.Settled) :
    World.Settled { w with forest := w.forest.push outer table } := by
  intro t name v hv
  rcases Forest.mem_bindings_push hv with hnew | hold
  · exact htable _ hnew
  · exact h t name v hold

/-- Whatever is found is settled. -/
theorem get? (h : w.Settled) {s : ScopeId} {name : String} {v : Value}
    (hv : w.forest.get? s name = some v) : v.Settled := by
  obtain ⟨t, ht⟩ := Forest.exists_mem_of_get? hv
  exact h t name v ht

end World.Settled

namespace Eval

variable {α β : Type}

/-- An end of a run in a settled world: with a result that satisfies `Q`, or with
a proper failure. -/
inductive Sound (Q : α → Prop) : EStateM.Result Halt World α → Prop
  | ok {a : α} {w : World} (ha : Q a) (hw : w.Settled) : Sound Q (.ok a w)
  | error {h : Halt} {w : World} (hh : h.Proper) (hw : w.Settled) : Sound Q (.error h w)

/-- Started in a settled world, the computation has a sound end. -/
def Ensures (Q : α → Prop) (m : Eval α) : Prop := ∀ w, w.Settled → Sound Q (m w)

/-- A value that satisfies what is wanted. -/
theorem ensures_pure {a : α} {Q : α → Prop} (h : Q a) : Ensures Q (pure a) :=
  fun _ hw => .ok h hw

/-- A proper failure. -/
theorem ensures_throw {h : Halt} (hproper : h.Proper) (Q : α → Prop) :
    Ensures Q (throw h : Eval α) := fun _ hw => .error hproper hw

/-- What touches no world keeps it settled. -/
theorem Gives.ensures {m : Eval α} {Q : α → Prop} (h : Gives m Q) : Ensures Q m := by
  obtain ⟨r, rfl, hr, hproper⟩ := h
  cases r with
  | ok a => exact ensures_pure (hr a rfl)
  | error h => exact ensures_throw (hproper h rfl) Q

/-- **One computation after another**: the second one starts in the settled world that the
first one leaves. -/
theorem Ensures.bind {m : Eval α} {k : α → Eval β} {P : α → Prop} {Q : β → Prop}
    (hm : Ensures P m) (hk : ∀ a, P a → Ensures Q (k a)) : Ensures Q (m >>= k) := by
  intro w hw
  have hfirst := hm w hw
  rw [bind_apply]
  cases hrun : m w with
  | ok a v =>
      rw [hrun] at hfirst
      cases hfirst with
      | ok ha hv => exact hk a ha v hv
  | error h v =>
      rw [hrun] at hfirst
      cases hfirst with
      | error hh hv => exact .error hh hv

/-- Printing leaves bindings alone. -/
theorem emit_ensures (text : String) : Ensures (fun _ => True) (emit text) :=
  fun _ hw => .ok trivial hw

/-- Binding a settled value. -/
theorem define_ensures (s : ScopeId) (name : String) {v : Value} (hv : v.Settled) :
    Ensures (fun _ => True) (define s name v) :=
  fun _ hw => .ok trivial (hw.define s name hv)

/-- Looking up gives a settled value, or the proper failure that there is none. -/
theorem lookup_ensures (s : ScopeId) (name : String) :
    Ensures Value.Settled (lookup s name) := by
  intro w hw
  rw [lookup_apply]
  cases hget : w.forest.get? s name with
  | some v => exact .ok (hw.get? hget) hw
  | none => exact .error trivial hw

/-- Opening a scope with settled values. -/
theorem openScope_ensures (outer : Option ScopeId) {table : Bindings String Value}
    (htable : ∀ binding ∈ table, binding.2.Settled) :
    Ensures (fun _ => True) (openScope outer table) :=
  fun _ hw => .ok trivial (hw.push outer htable)

end Eval

open Eval

/-- What is said in a closed world, of one run: it keeps the world settled, gives what it
is to give, and fails properly. -/
def soundly : Judgement where
  holds Q m _ := Ensures Q m
  gives := Gives.ensures
  bind := Ensures.bind

/-- Code is what was written, and data what is settled.  No code is a function. -/
def Sorts.closed : Sorts where
  Code := Value.Written
  Data := Value.Settled
  head hcode _ := Value.written_list_iff.mp hcode _ List.mem_cons_self
  tail hcode _ he := Value.written_list_iff.mp hcode _ (List.mem_cons_of_mem _ he)
  atom := Value.settled_of_standsForItself
  list := Value.settled_list_iff
  closure := Value.settled_closure
  callable hcode hcallable := absurd hcallable (Bool.eq_false_iff.mp hcode.self)

section Evaluation

variable {self : Evaluator}
  (hself : ∀ e s, e.Written → Ensures Value.Settled (self e s)) (s : ScopeId)

include hself

/-- A call brings its arguments to a body that was written. -/
theorem callClosure_ensures {formals : List String} {body : Value} (hbody : body.Written)
    {args : List Value} (hargs : ∀ a ∈ args, a.Settled) :
    Ensures Value.Settled (Builtin.callClosure self formals body args s) := by
  have htable : ∀ binding ∈ Bindings.ofList (formals.zip args), binding.2.Settled := by
    intro binding hmem
    obtain ⟨formal, hpair⟩ := Bindings.mem_ofList hmem
    exact hargs _ (List.of_mem_zip hpair).2
  intro w hw
  rw [Builtin.callClosure_apply]
  by_cases hlen : args.length = formals.length
  · rw [if_pos hlen]
    exact hself body _ hbody _ (hw.push (some s) htable)
  · rw [if_neg hlen]
    exact .error trivial hw

/-- The walk through one run in a settled world. -/
def closedTraversal : Traversal self self s s where
  sorts := .closed
  inside := soundly
  outside := soundly
  weaken h := h
  emit := emit_ensures
  call hclosure hargs := callClosure_ensures hself s hclosure.body hargs
  evaluate hcode := hself _ s hcode
  lookup _ := lookup_ensures s _
  define _ _ hv := define_ensures s _ hv
  misplaced hcode hcallable _ := absurd hcallable (Bool.eq_false_iff.mp hcode.self)

end Evaluation

/-- **Written code gives settled data**, in every settled world: by induction on how
deep evaluations may nest. -/
theorem evaluate_ensures (depth : Nat) {e : Value} (he : e.Written) (s : ScopeId) :
    Ensures Value.Settled (Value.evaluate depth e s) := by
  induction depth generalizing e s with
  | zero => exact ensures_throw (by trivial) _
  | succ depth ih => exact (closedTraversal (fun e s he => ih he s) s).step he

end DynLisp
