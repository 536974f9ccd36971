import DynLisp.Proofs.Eval.Quiet
import DynLisp.Proofs.Session.Prelude
import Mathlib.Data.List.Nodup
import Mathlib.Logic.Function.Iterate

/-!
# The list functions of the prelude

The prelude writes `sum`, `product`, `length` and `reverse` as folds over their list with
a closure written in place.  What such a closure is called with hides what its callers
call so, and nothing that they have bound can hide the names that the closure gives to its
own arguments.

* `fold_quietly` — calling a function that folds its list is folding with what one step
  gives, from every scope that sees `foldl` and what the step uses;
* `foldlM_prepended`, `foldlM_counted`, `foldlM_combined_numbers`,
  `foldlM_combined_refused` — what such folds come to;
* `prelude_list_functions` — reversing, counting, adding up and multiplying, from every
  scope that sees the names (`Forest.SeesPrelude`).
-/

namespace DynLisp

open Eval

/-! ### Folds in the prelude -/

section Folds

variable {depth : Nat} {element : String} {step start : Value} {used : Builtin}
  {result : Value → Value → Except Halt Value} (hacc : element ≠ "acc")
  (hstart : ∀ s v, Value.evaluate (depth + 2) start s v = .ok start v)
  (hstep : ∀ (v : World) (s : ScopeId) (acc item : Value),
    v.forest.get? s "acc" = some acc → v.forest.get? s element = some item →
    v.forest.get? s used.name = some (.native used) →
    Value.evaluate (depth + 2) step s v = pureResult (result acc item) v)
include hacc hstart hstep

/-- **The code of a fold** gives what folding with the results of its step gives, in every
scope that sees `foldl`, the list, and the one function that the step uses. -/
theorem foldCode_quietly (hfree : used.name ∉ ["acc", element]) {w : World} {s : ScopeId}
    (hs : s < w.forest.size) (hfoldl : w.forest.get? s "foldl" = some (.native .foldl))
    {items : List Value} (hxs : w.forest.get? s "xs" = some (.list items))
    (hused : w.forest.get? s used.name = some (.native used)) :
    Quietly (Value.evaluate (depth + 3) (foldCode element step start) s) w
      (items.foldlM result start) := by
  have hoperands : Value.evalEach (Value.evaluate (depth + 2)) s
      [.list [.symbol "\\", .list [.symbol "acc", .symbol element], step], start, .symbol "xs"]
      w = .ok [.closure ["acc", element] step, start, .list items] w :=
    Value.evalEach_cons rfl (Value.evalEach_cons (hstart _ _)
      (Value.evalEach_cons (Value.evaluate_symbol hxs) rfl))
  have hrun : Value.evaluate (depth + 3) (foldCode element step start) s w =
      Builtin.foldFrom (Value.evaluate (depth + 2)) ["acc", element] step s start items w :=
    Value.evaluate_call .foldl hfoldl hoperands
  have hnodup : ["acc", element].Nodup := by simpa using Ne.symm hacc
  -- Each call opens its scope around the fold's own, where more scopes may be open by now;
  -- its two names are found there first, and everything else as the fold sees it.
  refine (foldFrom_quietly (fun f hf acc item => callClosure_quietly rfl
    (quietly_of_apply ?_)) start items).congr hrun (Forest.Extends.refl _) rfl
  have hcaller : s < f.size := Nat.lt_of_lt_of_le hs hf.1
  have husedHere : f.get? s used.name = some (.native used) := (hf.get?_eq hs _).trans hused
  exact hstep _ _ acc item (Forest.get?_push_zip_of_nodup hcaller hnodup (i := 0) rfl rfl)
    (Forest.get?_push_zip_of_nodup hcaller hnodup (i := 1) rfl rfl)
    ((Forest.get?_push_zip_of_free hcaller hfree).trans husedHere)

/-- **A function of the prelude** that folds its list, called from a scope that sees
`foldl` and the one function that the step uses: the calls hide other names only. -/
theorem fold_quietly (hfree : used.name ∉ ["acc", element, "xs"]) {w : World} {env : ScopeId}
    (henv : env < w.forest.size) (hfoldl : w.forest.get? env "foldl" = some (.native .foldl))
    (hused : w.forest.get? env used.name = some (.native used)) (items : List Value) :
    Quietly (Value.apply (Value.evaluate (depth + 3))
        (.closure ["xs"] (foldCode element step start)) [.list items] env) w
      (items.foldlM result start) := by
  have hinner : used.name ∉ ["acc", element] := fun hmem =>
    hfree (List.mem_append_left ["xs"] hmem)
  have houter : used.name ∉ ["xs"] := fun hmem =>
    hfree (List.mem_append_right ["acc", element] hmem)
  refine callClosure_quietly rfl (foldCode_quietly hacc hstart hstep hinner ?_ ?_ ?_ ?_)
  · rw [Forest.size_push]
    exact Nat.lt_succ_self _
  · exact (Forest.get?_push_zip_of_free henv (by decide)).trans hfoldl
  · exact Forest.get?_push_zip_of_nodup henv (List.nodup_singleton "xs") (i := 0) rfl rfl
  · exact (Forest.get?_push_zip_of_free henv houter).trans hused

end Folds

/-! ### What the folds make of their lists -/

/-- An operation on two values that are to be numbers. -/
def combined (op : List Number → Number) : Value → Value → Except Halt Value
  | .number x, .number y => .ok (.number (op [x, y]))
  | _, _ => .error (.error (.type .number))

/-- A list with a value in front. -/
def prepended : Value → Value → Except Halt Value
  | .list items, item => .ok (.list (item :: items))
  | _, _ => .error (.error (.type .list))

/-- A built-in operation, called with two values. -/
theorem Builtin.arithmetic_pair (op : List Number → Number) (x y : Value) (w : World) :
    Builtin.arithmetic op [x, y] w = pureResult (combined op x y) w := by
  cases x with
  | number a => cases y <;> rfl
  | _ => rfl

section Results

variable (op : List Number → Number)

/-- Putting elements in front, one by one, reverses them. -/
theorem foldlM_prepended (items front : List Value) :
    items.foldlM prepended (.list front) = .ok (.list (items.reverse ++ front)) := by
  induction items generalizing front with
  | nil => rfl
  | cons item rest ih =>
      rw [List.reverse_cons, List.append_assoc]
      exact ih (item :: front)

/-- Taking one more for every element, whatever it is. -/
theorem foldlM_counted (items : List Value) (n unit : Number) :
    items.foldlM (fun acc _ => combined op acc (.number unit)) (.number n) =
      .ok (.number ((fun n => op [n, unit])^[items.length] n)) := by
  induction items generalizing n with
  | nil => rfl
  | cons item rest ih => exact ih (op [n, unit])

/-- Numbers are taken together from the left. -/
theorem foldlM_combined_numbers (ns : List Number) (n : Number) :
    (ns.map Value.number).foldlM (combined op) (.number n) =
      .ok (.number (ns.foldl (fun n m => op [n, m]) n)) := by
  induction ns generalizing n with
  | nil => rfl
  | cons m rest ih => exact ih (op [n, m])

/-- What is no number is refused, wherever it stands. -/
theorem foldlM_combined_refused {items : List Value} {v : Value} (hv : v ∈ items)
    (hnumber : ∀ n, v ≠ .number n) (n : Number) :
    items.foldlM (combined op) (.number n) = .error (.error (.type .number)) := by
  induction items generalizing n with
  | nil => cases hv
  | cons item rest ih =>
      cases item with
      | number m =>
          exact ih ((List.mem_cons.mp hv).resolve_left (hnumber m)) (op [n, m])
      | _ => rfl

end Results

/-! ### The list functions -/

/-- The names of the list functions, and those that they are written with. -/
def listNames : List String :=
  ["reverse", "length", "sum", "product", "foldl", "cons", "+", "*"]

/-- These names mean in the scope what they mean in a session with the standard prelude. -/
def Forest.SeesPrelude (f : Forest) (s : ScopeId) : Prop :=
  ∀ name ∈ listNames, f.get? s name = World.standard.forest.get? 0 name

/-- Calls the function that a name means, seen from a scope. -/
def Eval.callNamed (depth : Nat) (name : String) (args : List Value) (s : ScopeId) :
    Eval Value := do
  let f ← lookup s name
  Value.apply (Value.evaluate depth) f args s

section ListFunctions

variable {w : World} {env : ScopeId} (hsees : w.forest.SeesPrelude env)

namespace Forest.SeesPrelude

include hsees

theorem native (function : Builtin) (h : function.name ∈ listNames) :
    w.forest.get? env function.name = some (.native function) :=
  (hsees _ h).trans (get?_standard_native function)

theorem lt_size : env < w.forest.size :=
  lt_size_of_get? (hsees.native .foldl (by decide))

/-- What the scope sees, it sees when more scopes are open. -/
theorem extended {f : Forest} (hf : w.forest.Extends f) : f.SeesPrelude env :=
  fun name hname => (hf.get?_eq hsees.lt_size name).trans (hsees name hname)

end Forest.SeesPrelude

include hsees

/-- **A list function, called by its name**, gives what folding with the results of its
step gives. -/
theorem callNamed_fold_quietly {depth : Nat} {name element : String} {step start : Value}
    (used : Builtin) {result : Value → Value → Except Halt Value}
    (hfunction : ⟨name, "xs", foldCode element step start⟩ ∈ preludeFunctions)
    (hname : name ∈ listNames) (hused : used.name ∈ listNames)
    (hacc : element ≠ "acc") (hfree : used.name ∉ ["acc", element, "xs"])
    (hstart : ∀ s v, Value.evaluate (depth + 2) start s v = .ok start v)
    (hstep : ∀ (v : World) (s : ScopeId) (acc item : Value),
      v.forest.get? s "acc" = some acc → v.forest.get? s element = some item →
      v.forest.get? s used.name = some (.native used) →
      Value.evaluate (depth + 2) step s v = pureResult (result acc item) v)
    (items : List Value) :
    Quietly (callNamed (depth + 3) name [.list items] env) w (items.foldlM result start) := by
  have hmeans : w.forest.get? env name =
      some (.closure ["xs"] (foldCode element step start)) :=
    (hsees name hname).trans (get?_standard_function hfunction)
  refine (fold_quietly hacc hstart hstep hfree hsees.lt_size
    (hsees.native .foldl (by decide)) (hsees.native used hused) items).congr ?_
    (Forest.Extends.refl _) rfl
  rw [callNamed, bind_apply, lookup_apply, hmeans]

/-- Reversing is putting the elements in front of each other. -/
theorem reverse_quietly (depth : Nat) (xs : List Value) :
    Quietly (callNamed (depth + 3) "reverse" [.list xs] env) w (.ok (.list xs.reverse)) := by
  have hfold := foldlM_prepended xs []
  rw [List.append_nil] at hfold
  rw [← hfold]
  refine callNamed_fold_quietly hsees .cons (List.mem_of_getElem? (i := 5) rfl)
    (by decide) (by decide) (by decide) (by decide) (fun _ _ => rfl) ?_ xs
  intro v s acc item hacc hitem hcons
  refine (Value.evaluate_call .cons hcons (Value.evalEach_cons (Value.evaluate_symbol hitem)
    (Value.evalEach_cons (Value.evaluate_symbol hacc) rfl))).trans ?_
  cases acc <;> rfl

/-- The length is got by adding one for every element. -/
theorem length_quietly (depth : Nat) (xs : List Value) :
    Quietly (callNamed (depth + 3) "length" [.list xs] env) w
      (.ok (.number ((fun n => Number.sum [n, .one])^[xs.length] .zero))) := by
  rw [← foldlM_counted]
  refine callNamed_fold_quietly hsees .add (List.mem_of_getElem? (i := 4) rfl)
    (by decide) (by decide) (by decide) (by decide) (fun _ _ => rfl) ?_ xs
  intro v s acc item hacc _ hadd
  exact (Value.evaluate_call .add hadd (Value.evalEach_cons (Value.evaluate_symbol hacc)
    (Value.evalEach_cons rfl rfl))).trans (Builtin.arithmetic_pair Number.sum acc _ v)

/-- Adding up and multiplying take what there is so far together with each element. -/
theorem total_quietly (depth : Nat) {name : String} (function : Builtin)
    {op : List Number → Number} {start : Number}
    (hfunction : ⟨name, "xs", foldCode "x"
      (.list [.symbol function.name, .symbol "acc", .symbol "x"]) (.number start)⟩ ∈
        preludeFunctions)
    (hname : name ∈ listNames) (hused : function.name ∈ listNames)
    (hfree : function.name ∉ ["acc", "x", "xs"])
    (hrun : ∀ self x y s, function.run self [x, y] s = Builtin.arithmetic op [x, y])
    (xs : List Value) :
    Quietly (callNamed (depth + 3) name [.list xs] env) w
      (xs.foldlM (combined op) (.number start)) := by
  refine callNamed_fold_quietly hsees function hfunction hname hused (by decide) hfree
    (fun _ _ => rfl) ?_ xs
  intro v s acc item hacc hitem hop
  refine (Value.evaluate_call function hop (Value.evalEach_cons (Value.evaluate_symbol hacc)
    (Value.evalEach_cons (Value.evaluate_symbol hitem) rfl))).trans ?_
  rw [hrun, Builtin.arithmetic_pair]

theorem sum_quietly (depth : Nat) (xs : List Value) :
    Quietly (callNamed (depth + 3) "sum" [.list xs] env) w
      (xs.foldlM (combined Number.sum) (.number .zero)) :=
  total_quietly hsees depth .add (List.mem_of_getElem? (i := 2) rfl) (by decide)
    (by decide) (by decide) (fun _ _ _ _ => rfl) xs

theorem product_quietly (depth : Nat) (xs : List Value) :
    Quietly (callNamed (depth + 3) "product" [.list xs] env) w
      (xs.foldlM (combined Number.product) (.number .one)) :=
  total_quietly hsees depth .multiply (List.mem_of_getElem? (i := 3) rfl)
    (by decide) (by decide) (by decide) (fun _ _ _ _ => rfl) xs

end ListFunctions

/-- **The list functions of the prelude** work from every scope that sees them and what
they are written with, whatever else is bound there.  They print nothing and change no
scope.  Reversing gives the elements in reverse order, and reversing twice the list
itself; the length is zero with one added as often as there are elements; adding up and
multiplying go from the left, from zero and from one, and refuse a list with anything in
it that is no number. -/
theorem prelude_list_functions {depth : Nat} (hdepth : 3 ≤ depth) {w : World}
    {env : ScopeId} (hsees : w.forest.SeesPrelude env) :
    let call : String → List Value → Eval Value := fun name args =>
      callNamed depth name args env
    (∀ xs,
      Quietly (call "reverse" [.list xs]) w (.ok (.list xs.reverse)) ∧
      Quietly (call "reverse" [.list xs] >>= fun ys => call "reverse" [ys]) w
        (.ok (.list xs))) ∧
    (∀ n xs, xs.length = n →
      Quietly (call "length" [.list xs]) w
        (.ok (.number ((fun m => Number.sum [m, .one])^[n] .zero)))) ∧
    (∀ ns : List Number,
      Quietly (call "sum" [.list (ns.map .number)]) w
        (.ok (.number (ns.foldl (fun m n => Number.sum [m, n]) .zero))) ∧
      Quietly (call "product" [.list (ns.map .number)]) w
        (.ok (.number (ns.foldl (fun m n => Number.product [m, n]) .one)))) ∧
    ∀ xs, (∃ v ∈ xs, ∀ n, v ≠ .number n) →
      ∃ e : Error, e.message = "TypeError: Expected Number." ∧
        Quietly (call "sum" [.list xs]) w (.error (.error e)) ∧
        Quietly (call "product" [.list xs]) w (.error (.error e)) := by
  obtain ⟨depth, rfl⟩ := Nat.exists_eq_add_of_le' hdepth
  intro call
  refine ⟨fun xs => ⟨reverse_quietly hsees depth xs, ?_⟩, fun n xs hlength => ?_,
    fun ns => ⟨?_, ?_⟩, fun xs ⟨v, hv, hnumber⟩ => ⟨.type .number, by decide, ?_, ?_⟩⟩
  · -- The first call may have opened scopes, from which the prelude is still seen.
    refine (reverse_quietly hsees depth xs).bind fun f hf => ?_
    have hagain := reverse_quietly (w := { w with forest := f }) (hsees.extended hf) depth
      xs.reverse
    rwa [List.reverse_reverse] at hagain
  · exact hlength ▸ length_quietly hsees depth xs
  · exact foldlM_combined_numbers Number.sum ns .zero ▸ sum_quietly hsees depth _
  · exact foldlM_combined_numbers Number.product ns .one ▸ product_quietly hsees depth _
  · exact foldlM_combined_refused Number.sum hv hnumber .zero ▸ sum_quietly hsees depth xs
  · exact foldlM_combined_refused Number.product hv hnumber .one ▸
      product_quietly hsees depth xs

/-- A call in a session with the standard prelude may have bound all the names that the
list functions give to their own arguments: reversing works from its scope, and adding up
finds what is no number. -/
theorem prelude_sees_past_callers_names :
    let f := World.standard.forest
    let hidden := Bindings.ofList
      (["acc", "x", "xs", "_"].zip [Value.nil, .nil, .nil, .nil])
    let w : World := ⟨f.push (some 0) hidden, ""⟩
    3 ≤ 3 ∧ w.forest.SeesPrelude f.size ∧
      (w.perform (callNamed 3 "reverse" [.list [.native .add, .nil]] f.size)).1 =
        ⟨.ok (.list [.nil, .native .add]), ""⟩ ∧
      ∃ e : Error, e.message = "TypeError: Expected Number." ∧
        (w.perform (callNamed 3 "sum" [.list [.number .one, .nil]] f.size)).1 =
          ⟨.error (.error e), ""⟩ := by
  intro f hidden w
  have hroot : 0 < f.size := Forest.lt_size_of_get? (get?_standard_native .add)
  have hfree : ∀ name ∈ listNames, name ∉ ["acc", "x", "xs", "_"] := by decide
  have hsees : w.forest.SeesPrelude f.size := fun name hname =>
    Forest.get?_push_zip_of_free hroot (hfree name hname)
  obtain ⟨hreverse, -, -, hrefused⟩ := prelude_list_functions (Nat.le_refl 3) hsees
  obtain ⟨e, hmessage, hsum, -⟩ := hrefused [.number .one, .nil]
    ⟨.nil, List.mem_of_getElem? (i := 1) rfl, fun n hn => by cases hn⟩
  exact ⟨Nat.le_refl 3, hsees, (Quietly.perform (w := w) (hreverse [.native .add, .nil]).1).1,
    e, hmessage, (Quietly.perform (w := w) hsum).1⟩

end DynLisp
