import DynLisp.Proofs.Eval.Agreement
import DynLisp.Proofs.Eval.Isolation

/-!
# Only what is visible matters

The scopes of a run are a chain of tables that are written to while the run
goes on, and every call opens a new one around its caller's.  To a program all
this is one flat map from names to values: what it does depends on what the
names mean, and not on where they are bound.

* `simulates_evaluate` — code that refers to certain names only does the same
  in two worlds that are alike in these names: it ends in the same way, prints
  the same, and leaves worlds that are alike again;
* `evaluate_depends_on_lookups` — the case of all names, and of the body of a
  closure.

A callee sees a fresh scope over its caller's.  The fresh scopes of the two
runs are alike because the callers' are; when the callee is done, the callers'
scopes are alike again because no call has written to them (`isolation`).
-/

namespace DynLisp

open Eval

/-- The same code over these names does the same from any two alike scopes. -/
def Simulates (names : String → Prop) (self : Value → ScopeId → Eval Value) :
    Prop :=
  ∀ e s t, e.RefersOnly names →
    Agree (World.Alike names s t) (Value.HoldsOnly names) (self e s) (self e t)

section Effects

variable {names : String → Prop} {s t : ScopeId}

/-- Printing the same in worlds that are alike. -/
theorem emit_agree (text : String) :
    Agree (World.Alike names s t) (fun _ => True) (emit text) (emit text) := by
  intro v w hvw
  refine .ok trivial ⟨?_, hvw.forest⟩
  show v.printed ++ text = w.printed ++ text
  rw [hvw.printed]

/-- Binding the same in worlds that are alike. -/
theorem define_agree (name : String) {u : Value} (hu : u.HoldsOnly names) :
    Agree (World.Alike names s t) (fun _ => True) (define s name u)
      (define t name u) := by
  intro v w hvw
  exact .ok trivial ⟨hvw.printed, hvw.forest.define_both name hu⟩

/-- Looking up one of the names in worlds that are alike. -/
theorem lookup_agree {name : String} (hname : names name) :
    Agree (World.Alike names s t) (Value.HoldsOnly names) (lookup s name)
      (lookup t name) := by
  intro v w hvw
  rw [lookup_apply, lookup_apply, ← hvw.forest.get?_eq name hname]
  cases hget : v.forest.get? s name with
  | some u => exact .ok (hvw.forest.holdsOnly name u hname hget) hvw
  | none => exact .error hvw

end Effects

/-- The bindings of a call hold arguments only. -/
theorem holdsOnly_of_bound {names : String → Prop} (formals : List String)
    {args : List Value} (hargs : ∀ a ∈ args, a.HoldsOnly names) (name : String)
    (v : Value) (hv : (Bindings.ofList (formals.zip args)).get? name = some v) :
    v.HoldsOnly names := by
  rw [Bindings.ofList, Bindings.get?_insertAll] at hv
  simp only [Bindings.get?, Option.or_none] at hv
  obtain ⟨before, after, hsplit, -⟩ := List.lookup_eq_some_iff.mp hv
  have hmem : (name, v) ∈ formals.zip args := by
    rw [← List.mem_reverse, hsplit]
    simp
  exact hargs v (List.of_mem_zip hmem).2

/-- What is said of runs from two alike scopes. -/
def alikeRuns (names : String → Prop) (s t : ScopeId) : Judgement where
  holds := Agree (World.Alike names s t)
  gives := Gives.agree
  bind := Agree.bind

/-- Code that refers to these names only, and data in which all closures do. -/
def Sorts.referring (names : String → Prop) : Sorts where
  Code := Value.RefersOnly names
  Data := Value.HoldsOnly names
  head := Value.RefersOnly.of_head
  tail hcode _ he := hcode.of_mem_tail he
  atom := Value.holdsOnly_of_standsForItself
  list := Value.holdsOnly_list_iff
  closure := Value.holdsOnly_closure_iff.mpr
  callable hcode _ := hcode.1

section Evaluation

variable {names : String → Prop} {self : Evaluator} (hself : Simulates names self)
  (hbounds : isolation.Bounds self) (s t : ScopeId)

include hself hbounds

/-- **A call** from alike scopes: inside of it the fresh scopes are alike, and when it is
over the callers' are, as it has not changed them. -/
theorem callClosure_agree {formals : List String} {body : Value}
    (hbody : body.RefersOnly names) {args : List Value}
    (hargs : ∀ a ∈ args, a.HoldsOnly names) :
    Agree (World.Alike names s t) (Value.HoldsOnly names)
      (Builtin.callClosure self formals body args s)
      (Builtin.callClosure self formals body args t) := by
  intro v w hvw
  have hkeepv := Footprint.callClosure_moves hbounds formals body s args v
  have hkeepw := Footprint.callClosure_moves hbounds formals body t args w
  -- Inside the call the fresh scopes are alike; what they say about the two
  -- printed texts is all that is still of use when the call is over.
  have hinside : SameEnd (fun v w => v.printed = w.printed) (Value.HoldsOnly names)
      (Builtin.callClosure self formals body args s v)
      (Builtin.callClosure self formals body args t w) := by
    rw [Builtin.callClosure_apply, Builtin.callClosure_apply]
    by_cases hlen : args.length = formals.length
    · rw [if_pos hlen, if_pos hlen]
      have hfresh := hvw.enter (holdsOnly_of_bound formals hargs)
      have hend := hself body _ _ hbody _ _ hfresh
      refine hend.transport ?_
      intro halike
      exact halike.printed
    · rw [if_neg hlen, if_neg hlen]
      exact .error hvw.printed
  exact hinside.transport fun hprinted =>
    ⟨hprinted, hvw.forest.extends_both hkeepv hkeepw⟩

/-- The walk through two runs from alike scopes. -/
def alikeTraversal : Traversal self self s t where
  sorts := .referring names
  inside := alikeRuns names s t
  outside := alikeRuns names s t
  weaken h := h
  emit := emit_agree
  call hclosure hargs :=
    callClosure_agree hself hbounds s t (Value.holdsOnly_closure_iff.mp hclosure) hargs
  evaluate hcode := hself _ s t hcode
  lookup hcode := lookup_agree (hcode.2 _ .symbol)
  define _ _ hv := define_agree _ hv
  misplaced _ _ h := agree_throw h _

/-- Applying a function does the same from alike scopes. -/
theorem apply_agree {head : Value} {args : List Value}
    (hhead : head.HoldsOnly names) (hargs : ∀ a ∈ args, a.HoldsOnly names) :
    Agree (World.Alike names s t) (Value.HoldsOnly names)
      (Value.apply self head args s) (Value.apply self head args t) :=
  (alikeTraversal hself hbounds s t).applyAny hhead hargs (agree_throw _ _)

end Evaluation

/-- **Code does the same in alike worlds**: by induction on how deep evaluations
may nest. -/
theorem simulates_evaluate (names : String → Prop) (depth : Nat) :
    Simulates names (Value.evaluate depth) := by
  induction depth with
  | zero => exact fun _ _ _ _ => agree_throw _ _
  | succ depth ih =>
      intro e s t he
      exact (alikeTraversal ih (Footprint.bounds_evaluate depth) s t).step he

/-- Runs that come to the same end are reported alike. -/
theorem perform_eq_of_sameEnd {α : Type} {names : String → Prop} {s t : ScopeId}
    {Q : α → Prop} {m n : Eval α} {v w : World}
    (h : SameEnd (World.Alike names s t) Q (m { v with printed := "" })
      (n { w with printed := "" })) :
    (v.perform m).1 = (w.perform n).1 ∧
      (v.perform m).2.forest.Alike names s t (w.perform n).2.forest := by
  cases hv : m { v with printed := "" } <;> cases hw : n { w with printed := "" } <;>
    rw [hv, hw] at h <;> cases h
  case ok.ok.ok ha halike =>
    rw [perform_of_ok hv, perform_of_ok hw, halike.printed]
    exact ⟨rfl, halike.forest⟩
  case error.error.error halike =>
    rw [perform_of_error hv, perform_of_error hw, halike.printed]
    exact ⟨rfl, halike.forest⟩

/-- Scopes from which every name has the same value are alike in all names. -/
theorem Forest.alike_of_get?_eq {f g : Forest} {s t : ScopeId} (hs : s < f.size)
    (ht : t < g.size) (hget : ∀ name, f.get? s name = g.get? t name) :
    f.Alike (fun _ => True) s t g where
  left := hs
  right := ht
  get?_eq := fun name _ => hget name
  holdsOnly := fun _ v _ _ => (Value.refersOnly_true v).1

/-- **Only visible bindings matter.**  When every name has the same value from
two scopes, whatever chains of scopes lie behind them, then evaluating from
either is reported alike, result and printed text, and afterwards every name
again has the same value from both.  A call of a closure is the evaluation of
its body in any scope from which the parameters have the arguments as values —
the last one where a parameter is repeated — and all other names are as they
are for the caller. -/
theorem evaluate_depends_on_lookups (depth : Nat) {v w : World} {s t : ScopeId}
    (hs : s < v.forest.size) (ht : t < w.forest.size) :
    ((∀ name, v.forest.get? s name = w.forest.get? t name) → ∀ e,
      (v.perform (Value.evaluate depth e s)).1 =
        (w.perform (Value.evaluate depth e t)).1 ∧
      ∀ name, (v.perform (Value.evaluate depth e s)).2.forest.get? s name =
        (w.perform (Value.evaluate depth e t)).2.forest.get? t name) ∧
    ∀ (formals : List String) (args : List Value) (body : Value),
      args.length = formals.length →
      (∀ name, w.forest.get? t name =
        ((formals.zip args).reverse.lookup name).or (v.forest.get? s name)) →
      (v.perform (Value.apply (Value.evaluate depth) (.closure formals body) args s)).1 =
        (w.perform (Value.evaluate depth body t)).1 := by
  constructor
  · intro hget e
    have halike := Forest.alike_of_get?_eq hs ht hget
    have hend := simulates_evaluate (fun _ => True) depth e s t
      (Value.refersOnly_true e) { v with printed := "" } { w with printed := "" }
      ⟨rfl, halike⟩
    obtain ⟨hreport, hlater⟩ := perform_eq_of_sameEnd hend
    exact ⟨hreport, fun name => hlater.get?_eq name trivial⟩
  · intro formals args body hlen hget
    -- The scope that the call opens is a third one, alike with `t`.
    let called : World :=
      { v with forest :=
          v.forest.push (some s) (Bindings.ofList (formals.zip args)) }
    have hcalled : ∀ name,
        called.forest.get? v.forest.size name = w.forest.get? t name := by
      intro name
      rw [hget name]
      show (v.forest.push _ _).get? _ _ = _
      rw [Forest.get?_push_self _ hs, Bindings.ofList, Bindings.get?_insertAll]
      simp only [Bindings.get?, Option.or_none]
    have halike := Forest.alike_of_get?_eq (f := called.forest) (by simp [called]) ht
      hcalled
    have hend := simulates_evaluate (fun _ => True) depth body v.forest.size t
      (Value.refersOnly_true body) { called with printed := "" }
      { w with printed := "" } ⟨rfl, halike⟩
    have hcall : v.perform
          (Value.apply (Value.evaluate depth) (.closure formals body) args s) =
        called.perform (Value.evaluate depth body v.forest.size) := by
      rw [World.perform, World.perform, Value.apply, Builtin.callClosure_apply,
        if_pos hlen]
    rw [hcall]
    exact (perform_eq_of_sameEnd hend).1

/-- A root scope, and a scope that hides a name of its root: `x` is true from
both, and a call whose repeated parameter `x` gets true last sees the same. -/
theorem shadowed_name_depends_on_lookups :
    let v : World := ⟨Forest.empty.push none [("x", .bool true)], ""⟩
    let w : World :=
      ⟨(Forest.empty.push none [("x", .nil)]).push (some 0) [("x", .bool true)], ""⟩
    let code : Value := .list [.symbol "let", .symbol "y", .symbol "x"]
    (∀ name, v.forest.get? 0 name = w.forest.get? 1 name) ∧
      (v.perform (Value.evaluate 3 code 0)).1 =
        (w.perform (Value.evaluate 3 code 1)).1 ∧
      (v.perform (Value.apply (Value.evaluate 3) (.closure ["x", "x"] code)
          [.nil, .bool true] 0)).1 =
        (w.perform (Value.evaluate 3 code 1)).1 := by
  intro v w code
  have hv : ∀ name, v.forest.get? 0 name =
      if "x" = name then some (.bool true) else none := by
    intro name
    rw [Forest.get?_step]
    simp [v, Forest.bindings, Forest.outer?, Forest.push, Forest.empty, Bindings.get?]
  have hroot : ∀ name, (Forest.empty.push none [("x", Value.nil)]).get? 0 name =
      if "x" = name then some .nil else none := by
    intro name
    rw [Forest.get?_step]
    simp [Forest.bindings, Forest.outer?, Forest.push, Forest.empty, Bindings.get?]
  have hw : ∀ name, w.forest.get? 1 name =
      if "x" = name then some (.bool true) else none := by
    intro name
    have hcaller : 0 < (Forest.empty.push none [("x", Value.nil)]).size := by decide
    have hstep := Forest.get?_push_self [("x", Value.bool true)] hcaller name
    rw [hroot name] at hstep
    refine hstep.trans ?_
    by_cases hx : "x" = name
    · simp [Bindings.get?, hx]
    · simp [Bindings.get?, hx]
  have hboth := evaluate_depends_on_lookups 3 (v := v) (w := w) (s := 0) (t := 1)
    (by decide) (by decide)
  refine ⟨fun name => (hv name).trans (hw name).symm, ?_, ?_⟩
  · exact (hboth.1 (fun name => (hv name).trans (hw name).symm) code).1
  · refine hboth.2 ["x", "x"] [.nil, .bool true] code rfl ?_
    intro name
    rw [hw name, hv name]
    by_cases hx : "x" = name
    · subst hx
      decide
    · have hne : (name == "x") = false := by simpa using Ne.symm hx
      simp [List.lookup_cons, hx, hne]

end DynLisp
