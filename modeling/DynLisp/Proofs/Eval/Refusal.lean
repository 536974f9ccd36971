import DynLisp.Proofs.Eval.Effect
import Mathlib.Tactic.ByContra

/-!
# Refused calls

Before an operation does anything, it makes demands on what it is given: so many operands
or arguments, a name here, a list there.  A call that does not meet them is refused, and
nothing has happened then.

* `SpecialForm.demands`, `Builtin.demands` — all that the special forms and the built-in
  functions demand, in the order in which they look;
* `Demand.FirstUnmet` — the first demand that is not met decides on the error;
* `Eval.Refuses` — an error that comes without any evaluation, from every scope and in
  every world, which stays as it is;
* `refused_calls_have_no_effect` — calls are refused with the error of the first unmet
  demand, and no others are refused.

`Guards demands call` carries the proofs: it is built up from the end of a computation,
check by check, in the order of the source.
-/

namespace DynLisp

/-- The value is of a kind that an operation asks for. -/
def Value.Is (v : Value) : Expected → Prop
  | .bool => ∃ b, v = .bool b
  | .number => ∃ x, v = .number x
  | .list => ∃ items, v = .list items
  | .closure => ∃ formals body, v = .closure formals body
  | .symbol => ∃ name, v = .symbol name
  | .parameters =>
      (∃ name, v = .symbol name) ∨ ∃ names : List String, v = .list (names.map .symbol)
  | .callable => v.isCallable = true

/-- What has to hold before an operation acts, and the error if it does not. -/
structure Demand where
  holds : Prop
  error : Error

namespace Demand

/-- A number of operands or arguments within bounds, of which each may be absent. -/
def count (n : Nat) (bounds : Option Nat × Option Nat) : Demand where
  holds := (∀ least ∈ bounds.1, least ≤ n) ∧ ∀ most ∈ bounds.2, n ≤ most
  error := .arity bounds.1 bounds.2

/-- A value of a certain kind. -/
def kind (expected : Expected) (v : Value) : Demand where
  holds := v.Is expected
  error := .type expected

/-- A closure with as many parameters as a condition asks for. -/
def parameterCount (condition : Nat → Prop) (cause : StandardError) (f : Value) : Demand where
  holds := ∃ formals body, f = .closure formals body ∧ condition formals.length
  error := .standard cause

/-- The closure of a fold takes what there is so far and one element. -/
def twoParameters : Value → Demand := parameterCount (· = 2) .foldParameters

/-- A list from which a fold can start. -/
def nonempty (list : Value) : Demand where
  holds := list ≠ .list []
  error := .standard .emptyFold

/-- **The first demand that is not met**, and its error. -/
inductive FirstUnmet : List Demand → Error → Prop
  | here {d : Demand} {rest : List Demand} (h : ¬d.holds) : FirstUnmet (d :: rest) d.error
  | later {d : Demand} {rest : List Demand} {e : Error} (h : d.holds)
      (hrest : FirstUnmet rest e) : FirstUnmet (d :: rest) e

/-- There is a first unmet demand exactly if some demand is unmet. -/
theorem exists_firstUnmet_iff {demands : List Demand} :
    (∃ e, FirstUnmet demands e) ↔ ∃ d ∈ demands, ¬d.holds := by
  constructor
  · rintro ⟨e, h⟩
    induction h with
    | here h => exact ⟨_, List.mem_cons_self, h⟩
    | later _ _ ih =>
        obtain ⟨d, hmem, hunmet⟩ := ih
        exact ⟨d, List.mem_cons_of_mem _ hmem, hunmet⟩
  · rintro ⟨d, hmem, hunmet⟩
    induction demands with
    | nil => cases hmem
    | cons first rest ih =>
        by_cases hfirst : first.holds
        · have hne : d ≠ first := fun heq => hunmet (heq ▸ hfirst)
          obtain ⟨e, hrest⟩ := ih ((List.mem_cons.mp hmem).resolve_left hne)
          exact ⟨e, .later hfirst hrest⟩
        · exact ⟨first.error, .here hfirst⟩

/-- The error is that of one of the demands. -/
theorem FirstUnmet.exists_mem {demands : List Demand} {e : Error} (h : FirstUnmet demands e) :
    ∃ d ∈ demands, d.error = e := by
  induction h with
  | here _ => exact ⟨_, List.mem_cons_self, rfl⟩
  | later _ _ ih =>
      obtain ⟨d, hmem, herror⟩ := ih
      exact ⟨d, List.mem_cons_of_mem _ hmem, herror⟩

end Demand

open Demand

/-- What the operands of a form have to be, their number apart. -/
def SpecialForm.shape : SpecialForm → List Value → List Demand
  | .bind, [name, _] => [kind .symbol name]
  | .lambda, [parameters, _] => [kind .parameters parameters]
  | .function, [name, parameters, _] => [kind .symbol name, kind .parameters parameters]
  | _, _ => []

/-- All that a form demands. -/
def SpecialForm.demands (form : SpecialForm) (operands : List Value) : List Demand :=
  count operands.length form.arity :: form.shape operands

/-- The first piece of a list that is mapped is as long as the closure has parameters. -/
def Demand.firstPiece : Value → Value → List Demand
  | .closure formals _, .list items => [{
      holds := items = [] ∨ formals.length ≤ items.length
      error := .arity (some formals.length) (some formals.length) }]
  | _, _ => []

/-- What the arguments of a function have to be, their number apart. -/
def Builtin.shape : Builtin → List Value → List Demand
  | .add, args | .subtract, args | .multiply, args | .divide, args | .remainder, args
  | .equal, args | .greater, args | .greaterEq, args | .less, args | .lessEq, args =>
    args.map (kind .number)
  | .not, args => args.map (kind .bool)
  | .cons, [_, tail] => [kind .list tail]
  | .map, [f, list] =>
    [kind .closure f, kind .list list, parameterCount (· ≠ 0) .mapWithoutParameters f] ++
      firstPiece f list
  | .foldl, [f, _, list] => [kind .closure f, twoParameters f, kind .list list]
  | .foldl1, [f, list] => [kind .list list, nonempty list, kind .closure f, twoParameters f]
  | .assert, [arg] | .assertFalse, [arg] => [kind .bool arg]
  | _, _ => []

/-- All that a function demands. -/
def Builtin.demands (function : Builtin) (args : List Value) : List Demand :=
  count args.length function.arity :: function.shape args

namespace Eval

variable {β : Type} {call : Evaluator → ScopeId → Eval Value} {d : Demand}
  {rest : List Demand}

/-- **A refused call.**  Whatever the evaluator is, and from every scope and in every world,
the call ends with the error and leaves the world as it is.  An evaluator could end every run
that asks it for anything, so it is not asked. -/
def Refuses (call : Evaluator → ScopeId → Eval Value) (e : Error) : Prop :=
  ∀ self scope w, call self scope w = .error (.error e) w

/-- The call is refused where a demand is not met, and not where all of them are. -/
structure Guards (demands : List Demand) (call : Evaluator → ScopeId → Eval Value) : Prop where
  unmet : ∀ e, FirstUnmet demands e → Refuses call e
  met : (∀ d ∈ demands, d.holds) → ∀ e, ¬Refuses call e

/-- The evaluator that is exhausted at once. -/
def spent : Evaluator := fun _ _ => throw .exhausted

/-- Without demands, one run that does not end with an error is enough. -/
theorem guards_nil (h : ∀ e, call spent 0 .empty ≠ .error (.error e) .empty) :
    Guards [] call where
  unmet := fun _ hunmet => nomatch hunmet
  met := fun _ e hrefuses => h e (hrefuses spent 0 .empty)

/-- Guarded calls are refused exactly where a demand is not met. -/
theorem Guards.refused_iff {demands : List Demand} (h : Guards demands call) :
    (∃ d ∈ demands, ¬d.holds) ↔ ∃ e, Refuses call e := by
  constructor
  · intro hunmet
    obtain ⟨e, hfirst⟩ := exists_firstUnmet_iff.mpr hunmet
    exact ⟨e, h.unmet e hfirst⟩
  · rintro ⟨e, hrefuses⟩
    by_contra hnone
    exact h.met (fun d hd => not_not.mp fun hunmet => hnone ⟨d, hd, hunmet⟩) e hrefuses

/-- One more demand in front. -/
theorem guards_cons (hunmet : ¬d.holds → Refuses call d.error)
    (hmet : d.holds → Guards rest call) : Guards (d :: rest) call where
  unmet := by
    intro e h
    cases h with
    | here h => exact hunmet h
    | later h hrest => exact (hmet h).unmet e hrest
  met := by
    intro hall
    have hfirst := hall d List.mem_cons_self
    exact (hmet hfirst).met fun d hd => hall d (List.mem_cons_of_mem _ hd)

/-- The computation checks a demand: it fails with the error, or it gives what satisfies
`Q`. -/
structure Checks (d : Demand) (m : Eval β) (Q : β → Prop) : Prop where
  unmet : ¬d.holds → m = fail d.error
  met : d.holds → ∃ b, m = pure b ∧ Q b

/-- **A check in front** of a call. -/
theorem Checks.guards {m : Eval β} {Q : β → Prop}
    {k : β → Evaluator → ScopeId → Eval Value} (hm : Checks d m Q)
    (hk : ∀ b, Q b → Guards rest (k b)) :
    Guards (d :: rest) fun self scope => m >>= fun b => k b self scope := by
  refine guards_cons ?_ ?_
  · intro hunmet self scope w
    rw [hm.unmet hunmet]
    rfl
  · intro hmet
    obtain ⟨b, hb, hQ⟩ := hm.met hmet
    rw [hb]
    exact hk b hQ

/-- The same check of one value after the other. -/
theorem guards_mapM {kindOf : Value → Demand} {check : Value → Eval β}
    {Q : Value → β → Prop} (hcheck : ∀ v, Checks (kindOf v) (check v) (Q v))
    (args : List Value) {k : List β → Evaluator → ScopeId → Eval Value}
    (hk : ∀ bs, Guards [] (k bs)) :
    Guards (args.map kindOf) fun self scope => args.mapM check >>= fun bs => k bs self scope := by
  induction args generalizing k with
  | nil => exact hk []
  | cons v rest ih =>
      simp only [List.mapM_cons, bind_assoc, pure_bind]
      exact (hcheck v).guards fun b _ => ih fun bs => hk (b :: bs)

/-- Counting checks the number of operands. -/
theorem checkArity_checks (n : Nat) (bounds : Option Nat × Option Nat) :
    Checks (.count n bounds) (checkArity n bounds.1 bounds.2) fun _ => ¬Miscounts n bounds := by
  have hbounds : (Demand.count n bounds).holds ↔ ¬Miscounts n bounds := by
    obtain ⟨least, most⟩ := bounds
    cases least <;> cases most <;> simp [Demand.count, Miscounts]
  refine ⟨fun hunmet => ?_, fun hmet => ?_⟩
  · exact if_pos (not_not.mp fun h => hunmet (hbounds.mpr h))
  · exact ⟨(), if_neg (hbounds.mp hmet), hbounds.mp hmet⟩

end Eval

open Eval

namespace Value

theorem symbolName_checks (v : Value) :
    Checks (kind .symbol v) v.symbolName fun name => v = .symbol name := by
  cases v with
  | symbol name => exact ⟨fun h => absurd ⟨name, rfl⟩ h, fun _ => ⟨name, rfl, rfl⟩⟩
  | _ => exact ⟨fun _ => rfl, fun ⟨_, h⟩ => nomatch h⟩

theorem truth_checks (v : Value) : Checks (kind .bool v) v.truth fun b => v = .bool b := by
  cases v with
  | bool b => exact ⟨fun h => absurd ⟨b, rfl⟩ h, fun _ => ⟨b, rfl, rfl⟩⟩
  | _ => exact ⟨fun _ => rfl, fun ⟨_, h⟩ => nomatch h⟩

theorem amount_checks (v : Value) :
    Checks (kind .number v) v.amount fun x => v = .number x := by
  cases v with
  | number x => exact ⟨fun h => absurd ⟨x, rfl⟩ h, fun _ => ⟨x, rfl, rfl⟩⟩
  | _ => exact ⟨fun _ => rfl, fun ⟨_, h⟩ => nomatch h⟩

theorem elements_checks (v : Value) :
    Checks (kind .list v) v.elements fun items => v = .list items := by
  cases v with
  | list items => exact ⟨fun h => absurd ⟨items, rfl⟩ h, fun _ => ⟨items, rfl, rfl⟩⟩
  | _ => exact ⟨fun _ => rfl, fun ⟨_, h⟩ => nomatch h⟩

theorem closureParts_checks (v : Value) :
    Checks (kind .closure v) v.closureParts fun parts => v = .closure parts.1 parts.2 := by
  cases v with
  | closure formals body =>
      exact ⟨fun h => absurd ⟨formals, body, rfl⟩ h,
        fun _ => ⟨(formals, body), rfl, rfl⟩⟩
  | _ => exact ⟨fun _ => rfl, fun ⟨_, _, h⟩ => nomatch h⟩

/-- Taking numbers from arguments is the same check of each in turn. -/
theorem amounts_eq_mapM (args : List Value) : amounts args = args.mapM amount := by
  induction args with
  | nil => rfl
  | cons v rest ih => rw [amounts, ih, List.mapM_cons]

/-- So is taking truth values. -/
theorem truths_eq_mapM (args : List Value) : truths args = args.mapM truth := by
  induction args with
  | nil => rfl
  | cons v rest ih => rw [truths, ih, List.mapM_cons]

/-- There is nothing but symbols in a list if it has names. -/
theorem symbolNames?_eq_some_iff {items : List Value} {names : List String} :
    symbolNames? items = some names ↔ items = names.map .symbol := by
  induction items generalizing names with
  | nil => cases names <;> simp [symbolNames?]
  | cons v rest ih =>
      cases v <;> cases names <;> simp [symbolNames?, ih]
      exact and_comm

/-- Parameters are a symbol or a list of symbols, which is what can be taken from them. -/
theorem is_parameters_iff {v : Value} :
    v.Is .parameters ↔ ∃ formals, v.parameters? = some formals := by
  cases v with
  | symbol name => exact ⟨fun _ => ⟨[name], rfl⟩, fun _ => .inl ⟨name, rfl⟩⟩
  | list items =>
      refine ⟨?_, fun ⟨names, h⟩ => .inr ⟨names, ?_⟩⟩
      · rintro (⟨_, h⟩ | ⟨names, h⟩)
        · cases h
        · exact ⟨names, symbolNames?_eq_some_iff.mpr (Value.list.inj h)⟩
      · rw [symbolNames?_eq_some_iff.mp h]
  | _ =>
      exact ⟨fun h => h.elim (fun ⟨_, h⟩ => nomatch h) fun ⟨_, h⟩ => (nomatch h),
        fun ⟨_, h⟩ => nomatch h⟩

/-- Making a closure checks the parameters only. -/
theorem lambda_checks (parameters body : Value) :
    Checks (kind .parameters parameters) (pureResult (lambda parameters body)) fun _ => True := by
  unfold lambda
  cases hformals : parameters.parameters? with
  | some formals =>
      refine ⟨fun h => absurd (is_parameters_iff.mpr ⟨formals, hformals⟩) h, fun _ => ?_⟩
      exact ⟨.closure formals body, rfl, trivial⟩
  | none =>
      refine ⟨fun _ => rfl, fun h => ?_⟩
      obtain ⟨formals, hsome⟩ := is_parameters_iff.mp h
      rw [hformals] at hsome
      cases hsome

end Value

/-- **A special form** is refused where its demands are not met. -/
theorem SpecialForm.guards (form : SpecialForm) (operands : List Value) :
    Guards (form.demands operands) fun self => form.eval self operands := by
  refine (checkArity_checks operands.length form.arity).guards
    (k := fun _ self scope => form.evalOperands self scope operands) fun _ hcount => ?_
  cases form with
  | cond =>
      obtain ⟨test, yes, no, rfl⟩ := exists_triple hcount
      exact guards_nil fun e h => nomatch h
  | bind =>
      obtain ⟨name, value, rfl⟩ := exists_pair hcount
      exact name.symbolName_checks.guards fun _ _ => guards_nil fun e h => nomatch h
  | lambda =>
      obtain ⟨parameters, body, rfl⟩ := exists_pair hcount
      show Guards [kind .parameters parameters] fun _ _ => pureResult (Value.lambda parameters body)
      rw [← bind_pure (pureResult (Value.lambda parameters body))]
      exact (parameters.lambda_checks body).guards fun _ _ => guards_nil fun e h => nomatch h
  | function =>
      obtain ⟨name, parameters, body, rfl⟩ := exists_triple hcount
      exact name.symbolName_checks.guards fun _ _ =>
        (parameters.lambda_checks body).guards fun _ _ => guards_nil fun e h => nomatch h
  | exit =>
      rcases operands with _ | ⟨status, _ | ⟨_, _⟩⟩
      case nil => exact guards_nil fun e h => nomatch h
      case cons.nil => exact guards_nil fun e h => nomatch h
      case cons.cons => exact absurd (by simp [Miscounts, arity]) hcount

namespace Builtin

/-- Arithmetic wants numbers, from left to right. -/
theorem arithmetic_guards (op : List Number → Number) (args : List Value) :
    Guards (args.map (kind .number)) fun _ _ => arithmetic op args := by
  unfold arithmetic
  rw [Value.amounts_eq_mapM]
  exact guards_mapM Value.amount_checks args fun _ => guards_nil fun e h => nomatch h

/-- So do comparisons. -/
theorem comparison_guards (test : List Number → Bool) (args : List Value) :
    Guards (args.map (kind .number)) fun _ _ => comparison test args := by
  unfold comparison
  rw [Value.amounts_eq_mapM]
  exact guards_mapM Value.amount_checks args fun _ => guards_nil fun e h => nomatch h

/-- An assertion wants a truth value. -/
theorem assertion_guards (wanted : Bool) (arg : Value) :
    Guards [kind .bool arg] fun _ _ => arg.truth >>= assertion wanted := by
  refine arg.truth_checks.guards fun b _ => guards_nil fun e h => ?_
  unfold assertion at h
  split at h <;> cases h

section Callbacks

variable {formals : List String} (body : Value)

/-- A call that has as many arguments as parameters asks the evaluator. -/
theorem callClosure_spent {args : List Value} (hlen : args.length = formals.length)
    (k : Value → Eval Value) (caller : ScopeId) (w : World) :
    ∃ v, (callClosure spent formals body args caller >>= k) w = .error .exhausted v := by
  rw [bind_apply, callClosure_apply, if_pos hlen]
  exact ⟨_, rfl⟩

/-- A fold that starts is not refused: it gives the value to start from, or it calls. -/
theorem foldFrom_guards (hlen : formals.length = 2) (start : Value) (items : List Value) :
    Guards [] fun self caller => foldFrom self formals body caller start items := by
  refine guards_nil fun e h => ?_
  cases items with
  | nil => cases h
  | cons item rest =>
      have hargs : [start, item].length = formals.length := hlen.symm
      obtain ⟨v, hspent⟩ := callClosure_spent body hargs (foldFrom spent formals body 0 · rest)
        0 .empty
      cases hspent.symm.trans h

/-- What a fold demands of its closure, and then what is demanded of its list. -/
theorem foldList_guards (f start list : Value) {rest : List Demand}
    (hlist : ∀ formals body, formals.length = 2 →
      Guards rest fun self caller => list.elements >>= foldFrom self formals body caller start) :
    Guards (kind .closure f :: twoParameters f :: rest) fun self => foldList self f start list := by
  refine f.closureParts_checks.guards fun ⟨formals, body⟩ hf => ?_
  refine guards_cons (fun hunmet self scope w => ?_) fun hmet => ?_
  · have hcount : formals.length ≠ 2 := fun h => hunmet ⟨formals, body, hf, h⟩
    dsimp only
    rw [if_neg hcount]
    rfl
  · obtain ⟨_, _, heq, hcount⟩ := hmet
    cases hf.symm.trans heq
    dsimp only at hcount ⊢
    simp only [if_pos hcount]
    exact hlist _ _ hcount

/-- Mapping begins with the first piece, if there is one.  The call is refused if this piece
is too short for it, and asks the evaluator otherwise. -/
theorem callEach_guards (width : Nat) (hlen : formals.length = width + 1) (items : List Value) :
    Guards (firstPiece (.closure formals body) (.list items)) fun self caller =>
      callEach self formals body caller (chunks width items) >>= fun vs => pure (.list vs) := by
  cases items with
  | nil =>
      refine guards_cons (fun hunmet => absurd (.inl rfl) hunmet) fun _ => guards_nil fun e h => ?_
      rw [chunks] at h
      cases h
  | cons item rest =>
      have hpiece : (item :: rest.take width).length = min width rest.length + 1 := by
        rw [List.length_cons, List.length_take]
      simp only [chunks, callEach, bind_assoc]
      refine guards_cons (fun hunmet self caller w => ?_) fun hmet => guards_nil fun e h => ?_
      · have hshort : ¬formals.length ≤ rest.length + 1 := fun h => hunmet (.inr h)
        rw [bind_apply, callClosure_apply, if_neg (by omega)]
        rfl
      · have hlong : formals.length ≤ rest.length + 1 := hmet.resolve_left (List.cons_ne_nil _ _)
        obtain ⟨v, hspent⟩ := callClosure_spent body
          (show (item :: rest.take width).length = formals.length by omega) _ 0 .empty
        cases hspent.symm.trans h

/-- Mapping wants a closure with parameters, and then a list. -/
theorem mapList_guards (f list : Value) :
    Guards (Builtin.shape .map [f, list]) fun self => mapList self f list := by
  refine f.closureParts_checks.guards fun ⟨formals, body⟩ hf => ?_
  refine list.elements_checks.guards fun items hitems => ?_
  subst hf hitems
  cases formals with
  | nil =>
      refine guards_cons (fun _ self scope w => rfl) fun hmet => ?_
      obtain ⟨_, _, heq, hcount⟩ := hmet
      cases heq
      exact absurd rfl hcount
  | cons first others =>
      refine guards_cons (fun hunmet => ?_) fun _ => callEach_guards body others.length rfl items
      exact absurd ⟨first :: others, body, rfl, Nat.succ_ne_zero _⟩ hunmet

end Callbacks

/-- **A built-in function** is refused where its demands are not met. -/
theorem guards (function : Builtin) (args : List Value) :
    Guards (function.demands args) fun self => function.run self args := by
  refine (checkArity_checks args.length function.arity).guards
    (k := fun _ self caller => runCounted self caller function args) fun _ hcount => ?_
  cases function with
  | add | subtract | multiply | divide | remainder => exact arithmetic_guards _ args
  | equal | greater | greaterEq | less | lessEq => exact comparison_guards _ args
  | not =>
      show Guards (args.map (kind .bool)) fun _ _ => Value.truths args >>= _
      rw [Value.truths_eq_mapM]
      exact guards_mapM (fun v => v.truth_checks) args fun _ => guards_nil fun e h => nomatch h
  | cons =>
      obtain ⟨head, tail, rfl⟩ := exists_pair hcount
      exact tail.elements_checks.guards fun _ _ => guards_nil fun e h => nomatch h
  | map =>
      obtain ⟨f, list, rfl⟩ := exists_pair hcount
      exact mapList_guards f list
  | foldl =>
      obtain ⟨f, start, list, rfl⟩ := exists_triple hcount
      exact foldList_guards f start list fun formals body hlen =>
        list.elements_checks.guards fun items _ => foldFrom_guards body hlen start items
  | foldl1 =>
      obtain ⟨f, list, rfl⟩ := exists_pair hcount
      refine list.elements_checks.guards fun items hitems => ?_
      subst hitems
      cases items with
      | nil => exact guards_cons (fun _ self scope w => rfl) fun hmet => absurd rfl hmet
      | cons start rest =>
          have hnonempty : (nonempty (.list (start :: rest))).holds := fun h => nomatch h
          exact guards_cons (fun hunmet => absurd hnonempty hunmet) fun _ =>
            foldList_guards f start (.list rest) fun formals body hlen =>
              foldFrom_guards body hlen start rest
  | format => exact guards_nil fun e h => nomatch h
  | puts => cases args <;> exact guards_nil fun e h => nomatch h
  | print => exact guards_nil fun e h => nomatch h
  | assert | assertFalse =>
      obtain ⟨arg, rfl⟩ := List.length_eq_one_iff.mp (eq_of_not_miscounts hcount)
      exact assertion_guards _ arg

end Builtin

/-- A special form is written with its name as the head of a list. -/
theorem SpecialForm.step_eq (form : SpecialForm) (operands : List Value) (self : Evaluator) :
    Value.step self (.list (.symbol form.keyword :: operands)) = form.eval self operands := by
  have hform : ofHead? (.symbol form.keyword) = some form := ofName?_eq_some_iff.mpr rfl
  funext scope
  simp only [Value.step, hform]

/-- A form complains about the number or about the type of its operands. -/
theorem SpecialForm.kind_of_firstUnmet {form : SpecialForm} {operands : List Value} {e : Error}
    (h : FirstUnmet (form.demands operands) e) :
    e.kind = "ArgumentError" ∨ e.kind = "TypeError" := by
  obtain ⟨d, hmem, rfl⟩ := h.exists_mem
  rcases List.mem_cons.mp hmem with rfl | hshape
  · exact .inl rfl
  · unfold shape at hshape
    split at hshape <;> simp only [List.mem_cons, List.not_mem_nil, or_false] at hshape
    · exact .inr (hshape ▸ rfl)
    · exact .inr (hshape ▸ rfl)
    · rcases hshape with rfl | rfl <;> exact .inr rfl

/-- **Refused calls have no effect.**  A special form or a built-in function with a demand that
is not met ends with the error of the first such demand.  It does so without evaluating
anything, and leaves the world exactly as it is: nothing is printed, no scope is opened, and
no binding changes.  Where all demands are met, the call is not refused. -/
theorem refused_calls_have_no_effect :
    (∀ (form : SpecialForm) (operands : List Value),
      let call : Value := .list (.symbol form.keyword :: operands)
      ((∃ d ∈ form.demands operands, ¬d.holds) ↔
        ∃ e, Refuses (fun self => Value.step self call) e) ∧
      ∀ e, FirstUnmet (form.demands operands) e →
        (e.kind = "ArgumentError" ∨ e.kind = "TypeError") ∧
        Refuses (fun self => Value.step self call) e ∧
        ∀ depth scope w, Value.evaluate (depth + 1) call scope w = .error (.error e) w) ∧
    ∀ (function : Builtin) (args : List Value),
      ((∃ d ∈ function.demands args, ¬d.holds) ↔
        ∃ e, Refuses (fun self => Value.apply self (.native function) args) e) ∧
      ∀ e, FirstUnmet (function.demands args) e →
        Refuses (fun self => Value.apply self (.native function) args) e := by
  refine ⟨fun form operands => ?_, fun function args => ?_⟩
  · have hguards := form.guards operands
    simp only [form.step_eq]
    refine ⟨hguards.refused_iff, fun e hfirst => ?_⟩
    have hrefuses := hguards.unmet e hfirst
    refine ⟨SpecialForm.kind_of_firstUnmet hfirst, hrefuses, fun depth scope w => ?_⟩
    rw [Value.evaluate, form.step_eq]
    exact hrefuses _ scope w
  · have hguards := function.guards args
    exact ⟨hguards.refused_iff, hguards.unmet⟩

/-- A name that is none is refused before the parameters are looked at, and a fold with a
closure of one parameter before its list is. -/
theorem unnamed_function_and_narrow_fold_refused :
    (∀ depth scope w, Value.evaluate (depth + 1)
      (.list [.symbol "fn", .list [.symbol "puts"], .nil, .nil]) scope w =
        .error (.error (.type .symbol)) w) ∧
    Refuses (fun self => Value.apply self (.native .foldl)
      [.closure ["x"] (.list [.symbol "puts", .symbol "x"]), .nil, .nil])
      (.standard .foldParameters) := by
  obtain ⟨hforms, hfunctions⟩ := refused_calls_have_no_effect
  constructor
  · have hcount : (count 3 (SpecialForm.arity .function)).holds := by
      simp [count, SpecialForm.arity]
    have hname : ¬(kind .symbol (.list [.symbol "puts"])).holds := by
      rintro ⟨_, h⟩
      cases h
    exact ((hforms .function [.list [.symbol "puts"], .nil, .nil]).2 _
      (.later hcount (.here hname))).2.2
  · have hcount : (count 3 (Builtin.arity .foldl)).holds := by
      simp [count, Builtin.arity]
    refine (hfunctions .foldl _).2 _ (.later hcount (.later ⟨_, _, rfl⟩ (.here ?_)))
    rintro ⟨_, _, heq, hlen⟩
    cases heq
    cases hlen

end DynLisp
