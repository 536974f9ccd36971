import DynLisp.Proofs.Eval.Effect
import DynLisp.Proofs.Value.Part
import DynLisp.Proofs.Value.Reference

/-!
# The walk through the evaluator

Two evaluators run the same code side by side, from a scope each.  Whatever is to be
shown of the two runs, the way leads through the same constructs: the special forms, the
built-in functions, the calls of closures, and lists of values.  This module walks it once,
for everything that can be said of computations and carried along.

* A `Judgement` is what is said of two computations and of what they give.  It holds
  where no world is touched, and of two computations in a row if it holds of each.
* `Sorts` tells which values may stand as code and which may be passed around as data.
* A `Traversal` has a judgement for evaluating **inside** of a scope and one for calling
  from it, which keeps **outside**; and it says that the two evaluators, the deeds of an
  evaluation and the calls of closures satisfy them.

Then one step satisfies the judgement (`Traversal.step`), and so does applying a function
(`Traversal.apply`) or any other value (`Traversal.applyAny`).  A statement about single
runs has the same evaluator on both sides.  A statement about all runs follows by an
induction on how deep evaluations may nest, which takes one step at a time.  When a
construct of the language changes, its lemma here does.
-/

namespace DynLisp

open Eval

/-- What can be said of two computations and of what they give. -/
structure Judgement where
  holds : ∀ {α : Type}, (α → Prop) → Eval α → Eval α → Prop
  gives : ∀ {α : Type} {m : Eval α} {Q : α → Prop}, Gives m Q → holds Q m m
  bind : ∀ {α β : Type} {m n : Eval α} {k l : α → Eval β} {P : α → Prop}
    {Q : β → Prop}, holds P m n → (∀ a, P a → holds Q (k a) (l a)) →
    holds Q (m >>= k) (n >>= l)

namespace Judgement

variable (J : Judgement) {α γ : Type}

/-- The same value on both sides. -/
theorem pure {a : α} {Q : α → Prop} (h : Q a) : J.holds Q (Pure.pure a) (Pure.pure a) :=
  J.gives (gives_pure h)

/-- The same proper failure on both sides. -/
theorem throw {h : Halt} (hproper : h.Proper) (Q : α → Prop) :
    J.holds Q (MonadExcept.throw h : Eval α) (MonadExcept.throw h) :=
  J.gives (gives_throw hproper Q)

/-- Computations in turn give a list of what each of them gives. -/
theorem mapM {f g : γ → Eval α} {Q : α → Prop} {xs : List γ}
    (h : ∀ x ∈ xs, J.holds Q (f x) (g x)) :
    J.holds (fun ys => ∀ y ∈ ys, Q y) (xs.mapM f) (xs.mapM g) := by
  induction xs with
  | nil => exact J.pure nofun
  | cons x rest ih =>
      obtain ⟨hx, hrest⟩ := List.forall_mem_cons.mp h
      rw [List.mapM_cons, List.mapM_cons]
      refine J.bind hx fun y hy => J.bind (ih hrest) fun ys hys => ?_
      exact J.pure (List.forall_mem_cons.mpr ⟨hy, hys⟩)

end Judgement

/-- A relation between computations that does not speak of what they give.  It holds of
two computations in a row if it holds of the first parts, and of the second parts for all
that one of the first can give. -/
structure Congruence where
  rel : ∀ {α : Type}, Eval α → Eval α → Prop
  still : ∀ {α : Type} (r : Except Halt α), rel (pureResult r) (pureResult r)
  bind : ∀ {α β : Type} {m n : Eval α} {k l : α → Eval β}, rel m n →
    (∀ a, Yields m a ∨ Yields n a → rel (k a) (l a)) → rel (m >>= k) (n >>= l)

/-- The relation, and what is said of everything that the two computations can give. -/
def Congruence.judgement (C : Congruence) : Judgement where
  holds Q m n := C.rel m n ∧ ∀ a, Yields m a ∨ Yields n a → Q a
  gives h := by
    refine ⟨?_, fun a hyields => hyields.elim h.of_yields h.of_yields⟩
    obtain ⟨r, rfl, -⟩ := h
    exact C.still r
  bind hm hk := by
    refine ⟨C.bind hm.1 fun a ha => (hk a (hm.2 a ha)).1, ?_⟩
    intro b hyields
    rcases hyields with hb | hb
    · obtain ⟨a, ha, hb⟩ := hb.of_bind
      exact (hk a (hm.2 a (.inl ha))).2 b (.inl hb)
    · obtain ⟨a, ha, hb⟩ := hb.of_bind
      exact (hk a (hm.2 a (.inr ha))).2 b (.inr hb)

/-- Which values may stand as code and which may be passed around as data.  Code is made
of code, but for the heads of special forms; and data of data, but for the bodies of
closures, which are code. -/
structure Sorts where
  Code : Value → Prop
  Data : Value → Prop
  head : ∀ {head : Value} {tail : List Value}, Code (.list (head :: tail)) →
    SpecialForm.ofHead? head = none → Code head
  tail : ∀ {head : Value} {tail : List Value}, Code (.list (head :: tail)) →
    ∀ e ∈ tail, Code e
  atom : ∀ {v : Value}, (∀ items, v ≠ .list items) → v.StandsForItself → Data v
  list : ∀ {items : List Value}, Data (.list items) ↔ ∀ v ∈ items, Data v
  closure : ∀ {formals : List String} {body : Value}, Code body → Data (.closure formals body)
  callable : ∀ {v : Value}, Code v → v.isCallable = true → Data v

namespace Sorts

/-- Any value may be code, and any value may be data. -/
def anything : Sorts where
  Code _ := True
  Data _ := True
  head _ _ := trivial
  tail _ _ _ := trivial
  atom _ _ := trivial
  list := ⟨fun _ _ _ => trivial, fun _ => trivial⟩
  closure _ := trivial
  callable _ _ := trivial

variable (S : Sorts)

/-- One truth value or a list of them is data. -/
theorem ofBools (bs : List Bool) : S.Data (Builtin.ofBools bs) := by
  unfold Builtin.ofBools
  split
  · exact S.atom nofun trivial
  · refine S.list.mpr fun v hv => ?_
    obtain ⟨b, -, rfl⟩ := List.mem_map.mp hv
    exact S.atom nofun trivial

/-- A closure that is made is data if its body is code. -/
theorem made {body closure : Value} (h : ∃ formals, closure = .closure formals body)
    (hbody : S.Code body) : S.Data closure := by
  obtain ⟨formals, rfl⟩ := h
  exact S.closure hbody

end Sorts

/-- **What a walk needs.**  Evaluating code, with `one` in the scope `s` and with `other` in
the scope `t`, satisfies the judgement for the inside and gives data; so do looking up and
binding what the code names.  Calling a closure with data satisfies the judgement for the
outside, and so does printing.  What holds outside holds inside. -/
structure Traversal (one other : Evaluator) (s t : ScopeId) where
  sorts : Sorts
  inside : Judgement
  outside : Judgement
  weaken : ∀ {α : Type} {m n : Eval α} {Q : α → Prop}, outside.holds Q m n →
    inside.holds Q m n
  emit : ∀ text, outside.holds (fun _ => True) (emit text) (emit text)
  call : ∀ {formals : List String} {body : Value} {args : List Value},
    sorts.Data (.closure formals body) → (∀ a ∈ args, sorts.Data a) →
    outside.holds sorts.Data (Builtin.callClosure one formals body args s)
      (Builtin.callClosure other formals body args t)
  evaluate : ∀ {e : Value}, sorts.Code e → inside.holds sorts.Data (one e s) (other e t)
  lookup : ∀ {name : String}, sorts.Code (.symbol name) →
    inside.holds sorts.Data (lookup s name) (lookup t name)
  define : ∀ {e : Value} {name : String} {v : Value}, sorts.Code e → e.Lets name →
    sorts.Data v → inside.holds (fun _ => True) (define s name v) (define t name v)
  misplaced : ∀ {v : Value}, sorts.Code v → v.isCallable = true → ∀ h : Halt,
    inside.holds sorts.Data (throw h) (throw h)

namespace Traversal

variable {one other : Evaluator} {s t : ScopeId} (T : Traversal one other s t)

/-! ### Calls -/

section Calls

variable {formals : List String} {body : Value}
  (hclosure : T.sorts.Data (.closure formals body))
include hclosure

/-- A closure is called with one list of arguments after the other. -/
theorem callEach {argLists : List (List Value)}
    (hargs : ∀ args ∈ argLists, ∀ a ∈ args, T.sorts.Data a) :
    T.outside.holds (fun vs => ∀ v ∈ vs, T.sorts.Data v)
      (Builtin.callEach one formals body s argLists)
      (Builtin.callEach other formals body t argLists) := by
  rw [Builtin.callEach_eq_mapM, Builtin.callEach_eq_mapM]
  exact T.outside.mapM fun args hmem => T.call hclosure (hargs args hmem)

/-- What a call gives goes into the next one: by induction on the elements. -/
theorem foldFrom {items : List Value} (hitems : ∀ v ∈ items, T.sorts.Data v) {acc : Value}
    (hacc : T.sorts.Data acc) :
    T.outside.holds T.sorts.Data (Builtin.foldFrom one formals body s acc items)
      (Builtin.foldFrom other formals body t acc items) := by
  induction items generalizing acc with
  | nil => exact T.outside.pure hacc
  | cons item rest ih =>
      obtain ⟨hitem, hrest⟩ := List.forall_mem_cons.mp hitems
      have hargs : ∀ a ∈ [acc, item], T.sorts.Data a := by simpa using ⟨hacc, hitem⟩
      exact T.outside.bind (T.call hclosure hargs) fun next hnext => ih hrest hnext

end Calls

/-! ### Built-in functions -/

/-- Folding a list calls the function on data only. -/
theorem foldList {f start list : Value} (hf : T.sorts.Data f) (hstart : T.sorts.Data start)
    (hlist : T.sorts.Data list) :
    T.outside.holds T.sorts.Data (Builtin.foldList one f start list s)
      (Builtin.foldList other f start list t) := by
  refine T.outside.bind (T.outside.gives f.closureParts_gives) fun parts hparts => ?_
  subst hparts
  obtain ⟨formals, body⟩ := parts
  dsimp only
  split
  · refine T.outside.bind (T.outside.gives list.elements_gives) fun items hitems => ?_
    subst hitems
    exact T.foldFrom hf (T.sorts.list.mp hlist) hstart
  · exact T.outside.throw (by trivial) _

/-- So does mapping a list. -/
theorem mapList {f list : Value} (hf : T.sorts.Data f) (hlist : T.sorts.Data list) :
    T.outside.holds T.sorts.Data (Builtin.mapList one f list s)
      (Builtin.mapList other f list t) := by
  refine T.outside.bind (T.outside.gives f.closureParts_gives) fun parts hparts => ?_
  subst hparts
  obtain ⟨formals, body⟩ := parts
  refine T.outside.bind (T.outside.gives list.elements_gives) fun items hitems => ?_
  subst hitems
  split
  · exact T.outside.throw (by trivial) _
  · next width _ =>
    have hargs : ∀ args ∈ chunks width items, ∀ a ∈ args, T.sorts.Data a :=
      fun args hmem a ha => T.sorts.list.mp hlist a (mem_of_mem_chunks hmem ha)
    exact T.outside.bind (T.callEach hf hargs) fun vs hvs =>
      T.outside.pure (T.sorts.list.mpr hvs)

/-- **A built-in function** makes data of data, does what calls do, and prints. -/
theorem runs {function : Builtin} {args : List Value}
    {run : Evaluator → ScopeId → Eval Value} (h : Builtin.Runs function args run)
    (hcount : ¬Miscounts args.length function.arity) (hargs : ∀ a ∈ args, T.sorts.Data a) :
    T.outside.holds T.sorts.Data (run one s) (run other t) := by
  cases h with
  | arithmetic op args =>
      refine T.outside.gives ((Builtin.arithmetic_gives op args).mono fun v hv => ?_)
      obtain ⟨x, rfl⟩ := hv
      exact T.sorts.atom nofun trivial
  | comparison test args =>
      refine T.outside.gives ((Builtin.comparison_gives test args).mono fun v hv => ?_)
      obtain ⟨b, rfl⟩ := hv
      exact T.sorts.atom nofun trivial
  | negation args =>
      exact T.outside.gives ((Value.truths_gives args).bind fun bs _ =>
        gives_pure (T.sorts.ofBools _))
  | cons head tail =>
      refine T.outside.bind (T.outside.gives tail.elements_gives) fun items hitems => ?_
      subst hitems
      have htail := T.sorts.list.mp (hargs (.list items) (by simp))
      have hhead := hargs head (by simp)
      exact T.outside.pure (T.sorts.list.mpr (List.forall_mem_cons.mpr ⟨hhead, htail⟩))
  | map f list => exact T.mapList (hargs f (by simp)) (hargs list (by simp))
  | foldl f start list =>
      exact T.foldList (hargs f (by simp)) (hargs start (by simp)) (hargs list (by simp))
  | foldl1 f list =>
      refine T.outside.bind (T.outside.gives list.elements_gives) fun items hlist => ?_
      subst hlist
      have hitems := T.sorts.list.mp (hargs (.list items) (by simp))
      cases items with
      | nil => exact T.outside.throw (by trivial) _
      | cons start rest =>
          obtain ⟨hstart, hrest⟩ := List.forall_mem_cons.mp hitems
          exact T.foldList (hargs f (by simp)) hstart (T.sorts.list.mpr hrest)
  | format args => exact T.outside.pure (T.sorts.atom nofun trivial)
  | newline =>
      exact T.outside.bind (T.emit _) fun _ _ => T.outside.pure (T.sorts.atom nofun trivial)
  | print text args =>
      exact T.outside.bind (T.emit text) fun _ _ => T.outside.pure (T.sorts.atom nofun trivial)
  | assertion wanted arg =>
      refine T.outside.gives (arg.truth_gives.bind fun b _ => ?_)
      refine (Builtin.assertion_gives wanted b).mono fun v hv => ?_
      subst hv
      exact T.sorts.atom nofun trivial
  | miscounted hmiscount => exact absurd hmiscount hcount

/-- **Applying a function** keeps outside. -/
theorem apply {head : Value} {args : List Value} (hcallable : head.isCallable = true)
    (hhead : T.sorts.Data head) (hargs : ∀ a ∈ args, T.sorts.Data a) :
    T.outside.holds T.sorts.Data (Value.apply one head args s)
      (Value.apply other head args t) := by
  cases head with
  | closure formals body => exact T.call hhead hargs
  | native function =>
      refine T.outside.bind (T.outside.gives (checkArity_gives _ _)) fun _ hcount => ?_
      exact T.runs (Builtin.runs_runCounted function args) hcount hargs
  | _ => cases hcallable

/-- **Applying any value** keeps outside if the failure does with which a value is
refused that is no function. -/
theorem applyAny {head : Value} {args : List Value} (hhead : T.sorts.Data head)
    (hargs : ∀ a ∈ args, T.sorts.Data a)
    (hrefused : T.outside.holds T.sorts.Data (fail (.type .callable)) (fail (.type .callable))) :
    T.outside.holds T.sorts.Data (Value.apply one head args s)
      (Value.apply other head args t) := by
  cases hcallable : head.isCallable with
  | true => exact T.apply hcallable hhead hargs
  | false =>
      rw [Value.apply_of_not_callable hcallable, Value.apply_of_not_callable hcallable]
      exact hrefused

/-! ### Evaluation -/

/-- Operands that are code have values that are data. -/
theorem evalEach {es : List Value} (hes : ∀ e ∈ es, T.sorts.Code e) :
    T.inside.holds (fun vs => ∀ v ∈ vs, T.sorts.Data v) (Value.evalEach one s es)
      (Value.evalEach other t es) := by
  rw [Value.evalEach_eq_mapM, Value.evalEach_eq_mapM]
  exact T.inside.mapM fun e he => T.evaluate (hes e he)

/-- **A special form** evaluates operands, and the name that it binds is one that the list
lets. -/
theorem operands {form : SpecialForm} {operands : List Value}
    {run : Evaluator → ScopeId → Eval Value} (h : SpecialForm.Runs form operands run)
    (hcount : ¬Miscounts operands.length form.arity)
    (hcode : T.sorts.Code (.list (.symbol form.keyword :: operands))) :
    T.inside.holds T.sorts.Data (run one s) (run other t) := by
  have hoperands := T.sorts.tail hcode
  cases h with
  | cond test yes no =>
      refine T.inside.bind (T.evaluate (hoperands test (by simp))) fun v _ => ?_
      refine T.inside.bind (T.inside.gives v.truth_gives) fun b _ => T.evaluate ?_
      cases b with
      | true => exact hoperands yes (by simp)
      | false => exact hoperands no (by simp)
  | bind target value =>
      refine T.inside.bind (T.inside.gives target.symbolName_gives) fun name hname => ?_
      subst hname
      refine T.inside.bind (T.evaluate (hoperands value (by simp))) fun v hv => ?_
      exact T.inside.bind (T.define hcode (.bind value) hv) fun _ _ => T.inside.pure hv
  | lambda parameters body =>
      refine T.inside.gives ((Value.lambda_gives parameters body).mono fun closure hmade => ?_)
      exact T.sorts.made hmade (hoperands body (by simp))
  | function target parameters body =>
      refine T.inside.bind (T.inside.gives target.symbolName_gives) fun name hname => ?_
      subst hname
      have hlambda := Value.lambda_gives parameters body
      refine T.inside.bind (T.inside.gives hlambda) fun closure hmade => ?_
      have hdata := T.sorts.made hmade (hoperands body (by simp))
      exact T.inside.bind (T.define hcode (.function parameters body) hdata) fun _ _ =>
        T.inside.pure hdata
  | leave => exact T.inside.throw (by trivial) _
  | exit status =>
      refine T.inside.bind (T.evaluate (hoperands status (by simp))) fun v _ => ?_
      exact T.inside.gives (v.exitStatus_gives.bind fun _ _ => gives_throw (by trivial) _)
  | miscounted hmiscount => exact absurd hmiscount hcount

/-- A list that is no special form evaluates its elements and may end in a call, which
keeps outside. -/
theorem evalList {head : Value} {tail : List Value} (hhead : T.sorts.Code head)
    (htail : ∀ e ∈ tail, T.sorts.Code e) :
    T.inside.holds T.sorts.Data (Value.evalList one head tail s)
      (Value.evalList other head tail t) := by
  have hvalue : T.inside.holds T.sorts.Data (Value.evalHead one head s)
      (Value.evalHead other head t) := by
    unfold Value.evalHead
    split
    · next hcallable => exact T.inside.pure (T.sorts.callable hhead hcallable)
    · exact T.evaluate hhead
  refine T.inside.bind hvalue fun h hh => T.inside.bind (T.evalEach htail) fun vs hvs => ?_
  split
  · next hcallable => exact T.weaken (T.apply hcallable hh hvs)
  · exact T.inside.pure (T.sorts.list.mpr (List.forall_mem_cons.mpr ⟨hh, hvs⟩))

/-- **One step** from code to data stays inside: by cases on the code. -/
theorem step {e : Value} (hcode : T.sorts.Code e) :
    T.inside.holds T.sorts.Data (Value.step one e s) (Value.step other e t) := by
  cases e with
  | list items =>
      cases items with
      | nil => exact T.inside.pure (T.sorts.list.mpr nofun)
      | cons head tail =>
          unfold Value.step
          dsimp only
          cases hform : SpecialForm.ofHead? head with
          | none => exact T.evalList (T.sorts.head hcode hform) (T.sorts.tail hcode)
          | some form =>
              have hhead := SpecialForm.eq_of_ofHead? hform
              subst hhead
              refine T.inside.bind (T.inside.gives (checkArity_gives _ _)) fun _ hcount => ?_
              exact T.operands (SpecialForm.runs_evalOperands form tail) hcount hcode
  | symbol name => exact T.lookup hcode
  | closure formals body => exact T.misplaced hcode rfl _
  | native function => exact T.misplaced hcode rfl _
  | _ => exact T.inside.pure (T.sorts.atom nofun trivial)

end Traversal

end DynLisp
