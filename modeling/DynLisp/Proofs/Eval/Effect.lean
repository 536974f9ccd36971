import DynLisp.Session

/-!
# What computations do to the world

A computation leaves a world behind however it ends (`Eval.after`).  Most of
the small computations that an evaluation is made of touch no world at all:
they check an argument and give a part of it, or they fail, and then with a
failure that programs are meant to see (`Halt.Proper`).  `Eval.Gives m Q` says
this of `m`, and that whatever it gives satisfies `Q`; there is one such lemma
for each of them, and no later proof looks inside them again.

`SpecialForm.Runs` and `Builtin.Runs` list what the special forms and the
built-in functions do, one constructor for each behaviour.  They are seen from
all scopes at once and with all evaluators at once, so that a proof about one
run and a proof about two runs side by side split into the same named cases.
-/

namespace DynLisp

/-- How a value is evaluated in a scope. -/
abbrev Evaluator := Value → ScopeId → Eval Value

/-- The failures that a program is meant to see.  The others are broken promises
and the three errors for a value in a place that only code of a host program
could put it in. -/
def Halt.Proper : Halt → Prop
  | .error (.standard .closureAsCode) => False
  | .error (.standard .nativeAsCode) => False
  | .error (.type .callable) => False
  | .fault _ => False
  | _ => True

namespace Eval

variable {α β : Type}

/-- The world that a computation leaves behind, however it ends. -/
def after (m : Eval α) (w : World) : World :=
  match m w with
  | .ok _ v => v
  | .error _ v => v

/-- How two computations in a row are run. -/
theorem bind_apply (m : Eval α) (k : α → Eval β) (w : World) :
    (m >>= k) w =
      match m w with
      | .ok a v => k a v
      | .error h v => .error h v := by
  show EStateM.bind m k w = _
  unfold EStateM.bind
  cases m w <;> rfl

/-- How a run is reported that ends in a value. -/
theorem perform_of_ok {m : Eval α} {w w' : World} {a : α}
    (h : m { w with printed := "" } = .ok a w') :
    w.perform m = (⟨.ok a, w'.printed⟩, w') := by
  rw [World.perform, h]

/-- How a run is reported that ends in a failure. -/
theorem perform_of_error {m : Eval α} {w w' : World} {h : Halt}
    (hrun : m { w with printed := "" } = .error h w') :
    w.perform m = (⟨.error h, w'.printed⟩, w') := by
  rw [World.perform, hrun]

/-- The computation touches no world; what it gives satisfies `Q`, and if it
fails, the failure is proper. -/
def Gives (m : Eval α) (Q : α → Prop) : Prop :=
  ∃ r : Except Halt α, m = pureResult r ∧ (∀ a, r = .ok a → Q a) ∧
    ∀ h, r = .error h → h.Proper

/-- A value is given in any world. -/
theorem gives_pure {a : α} {Q : α → Prop} (h : Q a) : Gives (pure a) Q :=
  ⟨.ok a, rfl, fun _ hb => Except.ok.inj hb ▸ h, fun _ hb => nomatch hb⟩

/-- A proper failure is one in any world. -/
theorem gives_throw {h : Halt} (hproper : h.Proper) (Q : α → Prop) :
    Gives (throw h : Eval α) Q :=
  ⟨.error h, rfl, fun _ hb => (nomatch hb), fun _ hb => Except.error.inj hb ▸ hproper⟩

/-- A proper error likewise. -/
theorem gives_fail {e : Error} (hproper : (Halt.error e).Proper) (Q : α → Prop) :
    Gives (fail e : Eval α) Q :=
  gives_throw hproper Q

/-- One computation after another touches no world if neither does. -/
theorem Gives.bind {m : Eval α} {k : α → Eval β} {P : α → Prop} {Q : β → Prop}
    (hm : Gives m P) (hk : ∀ a, P a → Gives (k a) Q) : Gives (m >>= k) Q := by
  obtain ⟨r, rfl, hr, hproper⟩ := hm
  cases r with
  | error h => exact gives_throw (hproper h rfl) Q
  | ok a => exact hk a (hr a rfl)

/-- What is known of the results can be weakened. -/
theorem Gives.mono {m : Eval α} {P Q : α → Prop} (h : Gives m P) (hPQ : ∀ a, P a → Q a) :
    Gives m Q := by
  obtain ⟨r, hrun, hr, hproper⟩ := h
  exact ⟨r, hrun, fun a ha => hPQ a (hr a ha), hproper⟩

/-- There is a world in which the computation gives the result. -/
def Yields (m : Eval α) (a : α) : Prop := ∃ w v, m w = .ok a v

/-- What two computations in a row give, the second one gives for a result of the first. -/
theorem Yields.of_bind {m : Eval α} {k : α → Eval β} {b : β} (h : Yields (m >>= k) b) :
    ∃ a, Yields m a ∧ Yields (k a) b := by
  obtain ⟨w, v, hrun⟩ := h
  rw [bind_apply] at hrun
  cases hm : m w with
  | ok a u =>
      rw [hm] at hrun
      exact ⟨a, ⟨w, u, hm⟩, u, v, hrun⟩
  | error e u =>
      rw [hm] at hrun
      cases hrun

/-- What is known of the results is true of each of them. -/
theorem Gives.of_yields {m : Eval α} {Q : α → Prop} {a : α} (h : Gives m Q)
    (ha : Yields m a) : Q a := by
  obtain ⟨r, rfl, hr, -⟩ := h
  obtain ⟨w, v, hrun⟩ := ha
  cases r with
  | ok b =>
      cases hrun
      exact hr a rfl
  | error e => cases hrun

/-- The number is outside the bounds. -/
def Miscounts (count : Nat) (bounds : Option Nat × Option Nat) : Prop :=
  (bounds.1.any (count < ·) || bounds.2.any (· < count)) = true

/-- Counting arguments. -/
theorem checkArity_gives (count : Nat) (bounds : Option Nat × Option Nat) :
    Gives (checkArity count bounds.1 bounds.2) fun _ => ¬Miscounts count bounds := by
  unfold checkArity
  split
  · exact gives_fail (by trivial) _
  · next h => exact gives_pure h

/-- Where both bounds are the same, the count is this one. -/
theorem eq_of_not_miscounts {count n : Nat} (h : ¬Miscounts count (some n, some n)) :
    count = n := by
  simp only [Miscounts, Option.any_some, Bool.or_eq_true, decide_eq_true_eq] at h
  omega

/-- Two operands. -/
theorem exists_pair {items : List Value} (h : ¬Miscounts items.length (some 2, some 2)) :
    ∃ a b, items = [a, b] := by
  match items, eq_of_not_miscounts h with
  | [a, b], _ => exact ⟨a, b, rfl⟩

/-- Three operands. -/
theorem exists_triple {items : List Value} (h : ¬Miscounts items.length (some 3, some 3)) :
    ∃ a b c, items = [a, b, c] := by
  match items, eq_of_not_miscounts h with
  | [a, b, c], _ => exact ⟨a, b, c, rfl⟩

/-- Where there is a lower bound, there is a first one. -/
theorem exists_first {items : List Value} {least : Nat} {most : Option Nat}
    (h : ¬Miscounts items.length (some (least + 1), most)) :
    ∃ a rest, items = a :: rest := by
  cases items with
  | nil => exact absurd (by simp [Miscounts]) h
  | cons a rest => exact ⟨a, rest, rfl⟩

/-- Where only a least number of arguments is asked for, enough of them pass. -/
theorem checkArity_of_le {count least : Nat} (h : least ≤ count) :
    checkArity count (some least) none = pure () := by
  refine if_neg ?_
  simpa using h

/-- Looking up a name. -/
theorem lookup_apply (s : ScopeId) (name : String) (w : World) :
    lookup s name w =
      match w.forest.get? s name with
      | some v => .ok v w
      | none => .error (.error (.unresolved name)) w := by
  rw [lookup, bind_apply]
  show (match w.forest.get? s name with
    | some v => pure v
    | none => fail (.unresolved name) : Eval Value) w = _
  cases w.forest.get? s name <;> rfl

/-- The error for a call with another number of arguments than parameters. -/
def arityHalt (formals : List String) : Halt :=
  .error (.arity (some formals.length) (some formals.length))

/-- Where a certain number of arguments is asked for, no other number passes. -/
theorem checkArity_apply (count n : Nat) (w : World) :
    checkArity count (some n) (some n) w =
      if count = n then .ok () w else .error (.error (.arity (some n) (some n))) w := by
  by_cases hcount : count = n
  · simp only [checkArity, hcount, Option.any_some, Nat.lt_irrefl, if_true]
    rfl
  · have hbounds : (decide (count < n) || decide (n < count)) = true := by
      simp only [Bool.or_eq_true, decide_eq_true_eq]
      omega
    simp only [checkArity, Option.any_some, hbounds, hcount, if_true, if_false]
    rfl

/-- **Opening the scope of a call.**  With as many arguments as parameters the
next scope is opened around them; otherwise nothing happens but the error. -/
theorem enter_apply (formals : List String) (args : List Value) (caller : ScopeId)
    (w : World) :
    enter formals args caller w =
      if args.length = formals.length then
        .ok w.forest.size
          { w with forest :=
              w.forest.push (some caller) (Bindings.ofList (formals.zip args)) }
      else .error (arityHalt formals) w := by
  rw [enter, bind_apply, checkArity_apply]
  by_cases hlen : args.length = formals.length
  · rw [if_pos hlen, if_pos hlen]
    rfl
  · rw [if_neg hlen, if_neg hlen]
    rfl

end Eval

namespace Value

open Eval

theorem symbolName_gives (v : Value) :
    Gives v.symbolName fun name => v = .symbol name := by
  cases v with
  | symbol name => exact gives_pure rfl
  | _ => exact gives_fail (by trivial) _

theorem truth_gives (v : Value) : Gives v.truth fun b => v = .bool b := by
  cases v with
  | bool b => exact gives_pure rfl
  | _ => exact gives_fail (by trivial) _

theorem amount_gives (v : Value) : Gives v.amount fun x => v = .number x := by
  cases v with
  | number x => exact gives_pure rfl
  | _ => exact gives_fail (by trivial) _

theorem elements_gives (v : Value) :
    Gives v.elements fun items => v = .list items := by
  cases v with
  | list items => exact gives_pure rfl
  | _ => exact gives_fail (by trivial) _

theorem closureParts_gives (v : Value) :
    Gives v.closureParts fun parts => v = .closure parts.1 parts.2 := by
  cases v with
  | closure formals body => exact gives_pure rfl
  | _ => exact gives_fail (by trivial) _

/-- Truth values from the first argument on: the arguments are these values. -/
theorem truths_gives (args : List Value) :
    Gives (truths args) fun bs => args = bs.map .bool := by
  induction args with
  | nil => exact gives_pure rfl
  | cons v rest ih =>
      refine (truth_gives v).bind fun b hb => ih.bind fun bs hbs => gives_pure ?_
      rw [hb, hbs, List.map_cons]

/-- Numbers from the first argument on: the arguments are these numbers. -/
theorem amounts_gives (args : List Value) :
    Gives (amounts args) fun xs => args = xs.map .number := by
  induction args with
  | nil => exact gives_pure rfl
  | cons v rest ih =>
      refine (amount_gives v).bind fun x hx => ih.bind fun xs hxs => gives_pure ?_
      rw [hx, hxs, List.map_cons]

/-- Arguments that are numbers give these numbers. -/
theorem amounts_numbers (xs : List Number) : amounts (xs.map .number) = pure xs := by
  induction xs with
  | nil => rfl
  | cons x rest ih =>
      rw [List.map_cons, amounts, ih]
      rfl

/-- One argument that is no number is enough for an error. -/
theorem amounts_of_mem {args : List Value} {v : Value} (hmem : v ∈ args)
    (hother : ∀ x, v ≠ .number x) : amounts args = fail (.type .number) := by
  induction args with
  | nil => cases hmem
  | cons u rest ih =>
      cases u with
      | number x =>
          rcases List.mem_cons.mp hmem with rfl | hrest
          · exact absurd rfl (hother x)
          · rw [amounts, ih hrest]
            rfl
      | _ => rfl

/-- Making a closure. -/
theorem lambda_gives (parameters body : Value) :
    Gives (pureResult (lambda parameters body)) fun closure =>
      ∃ formals, closure = .closure formals body := by
  unfold lambda
  cases parameters.parameters? with
  | some formals => exact gives_pure ⟨formals, rfl⟩
  | none => exact gives_fail (by trivial) _

/-- The status that a value stands for. -/
theorem exitStatus_gives (v : Value) :
    Gives (pureResult v.exitStatus) fun _ => True := by
  cases v with
  | number x =>
      simp only [exitStatus]
      cases x.roundAway? with
      | some status => exact gives_pure trivial
      | none => exact gives_fail (by trivial) _
  | _ => exact gives_fail (by trivial) _

end Value

namespace SpecialForm

/-- The name under which a form is written. -/
def keyword : SpecialForm → String
  | .cond => "if"
  | .bind => "let"
  | .lambda => "\\"
  | .function => "fn"
  | .exit => "exit"

/-- A special form is found by its own keyword only. -/
theorem ofName?_eq_some_iff {name : String} {form : SpecialForm} :
    ofName? name = some form ↔ name = form.keyword := by
  constructor
  · intro h
    unfold ofName? at h
    split at h
    case h_6 => cases h
    all_goals
      cases h
      rfl
  · intro h
    rw [h]
    cases form <;> rfl

/-- A special form is named by a symbol, its keyword. -/
theorem eq_of_ofHead? {head : Value} {form : SpecialForm}
    (h : ofHead? head = some form) : head = .symbol form.keyword := by
  cases head with
  | symbol name => rw [ofName?_eq_some_iff.mp h]
  | _ => cases h

open Eval

/-- **What the special forms do** with their operands, with any evaluator and from
any scope. -/
inductive Runs : SpecialForm → List Value → (Evaluator → ScopeId → Eval Value) → Prop
  | cond (test yes no : Value) : Runs .cond [test, yes, no] fun self scope => do
      let v ← self test scope
      let b ← v.truth
      self (if b then yes else no) scope
  | bind (target value : Value) : Runs .bind [target, value] fun self scope => do
      let name ← target.symbolName
      let v ← self value scope
      define scope name v
      pure v
  | lambda (parameters body : Value) : Runs .lambda [parameters, body] fun _ _ =>
      pureResult (Value.lambda parameters body)
  | function (target parameters body : Value) :
      Runs .function [target, parameters, body] fun _ scope => do
        let name ← target.symbolName
        let closure ← pureResult (Value.lambda parameters body)
        define scope name closure
        pure closure
  | leave : Runs .exit [] fun _ _ => throw (.exit 0)
  | exit (status : Value) : Runs .exit [status] fun self scope => do
      let v ← self status scope
      let status ← pureResult v.exitStatus
      throw (.exit status)
  | miscounted {form : SpecialForm} {operands : List Value}
      (hcount : Miscounts operands.length form.arity) :
      Runs form operands fun _ _ => throw (.fault .operands)

/-- Every form does one of these things with any operands. -/
theorem runs_evalOperands (form : SpecialForm) (operands : List Value) :
    Runs form operands fun self scope => form.evalOperands self scope operands := by
  cases form with
  | cond =>
      rcases operands with _ | ⟨test, _ | ⟨yes, _ | ⟨no, _ | ⟨_, _⟩⟩⟩⟩
      case cons.cons.cons.nil => exact .cond test yes no
      all_goals exact .miscounted (by simp [Miscounts, arity])
  | bind =>
      rcases operands with _ | ⟨target, _ | ⟨value, _ | ⟨_, _⟩⟩⟩
      case cons.cons.nil => exact .bind target value
      all_goals exact .miscounted (by simp [Miscounts, arity])
  | lambda =>
      rcases operands with _ | ⟨parameters, _ | ⟨body, _ | ⟨_, _⟩⟩⟩
      case cons.cons.nil => exact .lambda parameters body
      all_goals exact .miscounted (by simp [Miscounts, arity])
  | function =>
      rcases operands with _ | ⟨target, _ | ⟨parameters, _ | ⟨body, _ | ⟨_, _⟩⟩⟩⟩
      case cons.cons.cons.nil => exact .function target parameters body
      all_goals exact .miscounted (by simp [Miscounts, arity])
  | exit =>
      rcases operands with _ | ⟨status, _ | ⟨_, _⟩⟩
      case nil => exact .leave
      case cons.nil => exact .exit status
      all_goals exact .miscounted (by simp [Miscounts, arity])

end SpecialForm

/-- The pieces of a list hold elements of the list only. -/
theorem mem_of_mem_chunks {α : Type} {width : Nat} {xs piece : List α} {x : α}
    (hpiece : piece ∈ chunks width xs) (hx : x ∈ piece) : x ∈ xs := by
  fun_induction chunks width xs with
  | case1 => cases hpiece
  | case2 y ys ih =>
      rcases List.mem_cons.mp hpiece with rfl | hrest
      · rcases List.mem_cons.mp hx with rfl | htake
        · exact List.mem_cons_self
        · exact List.mem_cons_of_mem _ (List.mem_of_mem_take htake)
      · exact List.mem_cons_of_mem _ (List.mem_of_mem_drop (ih hrest))

/-- What cannot be called cannot be applied. -/
theorem Value.apply_of_not_callable {head : Value} (h : head.isCallable = false)
    (self : Evaluator) (args : List Value) (scope : ScopeId) :
    Value.apply self head args scope = Eval.fail (.type .callable) := by
  cases head with
  | closure formals body => cases h
  | native function => cases h
  | _ => rfl

/-- Elements are evaluated one after the other. -/
theorem Value.evalEach_eq_mapM (self : Evaluator) (s : ScopeId) (es : List Value) :
    Value.evalEach self s es = es.mapM fun e => self e s := by
  induction es with
  | nil => rfl
  | cons e rest ih => rw [Value.evalEach, ih, List.mapM_cons]

namespace Builtin

open Eval

/-- A closure is called with one list of arguments after the other. -/
theorem callEach_eq_mapM (self : Evaluator) (formals : List String) (body : Value)
    (caller : ScopeId) (argLists : List (List Value)) :
    callEach self formals body caller argLists =
      argLists.mapM fun args => callClosure self formals body args caller := by
  induction argLists with
  | nil => rfl
  | cons args rest ih => rw [callEach, ih, List.mapM_cons]

/-- **Calling a closure** is opening the scope of the call and evaluating the
body there. -/
theorem callClosure_apply (self : Value → ScopeId → Eval Value)
    (formals : List String) (body : Value) (args : List Value) (caller : ScopeId)
    (w : World) :
    callClosure self formals body args caller w =
      if args.length = formals.length then
        self body w.forest.size
          { w with forest :=
              w.forest.push (some caller) (Bindings.ofList (formals.zip args)) }
      else .error (arityHalt formals) w := by
  rw [callClosure, bind_apply, enter_apply]
  by_cases hlen : args.length = formals.length
  · simp only [hlen, if_true]
  · simp only [hlen, if_false]

/-- An assertion that passes gives true. -/
theorem assertion_gives (wanted b : Bool) :
    Gives (assertion wanted b) fun v => v = .bool true := by
  unfold assertion
  split
  · exact gives_pure rfl
  · exact gives_throw (by trivial) _

/-- Arithmetic gives a number. -/
theorem arithmetic_gives (op : List Number → Number) (args : List Value) :
    Gives (arithmetic op args) fun v => ∃ x, v = .number x :=
  (Value.amounts_gives args).bind fun xs _ => gives_pure ⟨op xs, rfl⟩

/-- A comparison gives a truth value. -/
theorem comparison_gives (test : List Number → Bool) (args : List Value) :
    Gives (comparison test args) fun v => ∃ b, v = .bool b :=
  (Value.amounts_gives args).bind fun xs _ => gives_pure ⟨test xs, rfl⟩

/-- **What the built-in functions do** with their arguments, with any evaluator and
called from any scope. -/
inductive Runs (function : Builtin) :
    List Value → (Evaluator → ScopeId → Eval Value) → Prop
  | arithmetic (op : List Number → Number) (args : List Value) :
      Runs function args fun _ _ => arithmetic op args
  | comparison (test : List Number → Bool) (args : List Value) :
      Runs function args fun _ _ => comparison test args
  | negation (args : List Value) : Runs function args fun _ _ => do
      let bs ← Value.truths args
      pure (ofBools (bs.map (!·)))
  | cons (head tail : Value) : Runs function [head, tail] fun _ _ => do
      let items ← tail.elements
      pure (.list (head :: items))
  | map (f list : Value) : Runs function [f, list] fun self => mapList self f list
  | foldl (f start list : Value) :
      Runs function [f, start, list] fun self => foldList self f start list
  | foldl1 (f list : Value) : Runs function [f, list] fun self caller => do
      match ← list.elements with
      | [] => fail (.standard .emptyFold)
      | start :: rest => foldList self f start (.list rest) caller
  | format (args : List Value) :
      Runs function args fun _ _ => pure (.string (formatted args))
  | newline : Runs function [] fun _ _ => do
      emit "\n"
      pure .nil
  | print (text : String) (args : List Value) : Runs function args fun _ _ => do
      emit text
      pure (.string (formatted args))
  | assertion (wanted : Bool) (arg : Value) : Runs function [arg] fun _ _ => do
      let b ← arg.truth
      assertion wanted b
  | miscounted {args : List Value} (hcount : Miscounts args.length function.arity) :
      Runs function args fun _ _ => throw (.fault .operands)

/-- Every function does one of these things with any arguments. -/
theorem runs_runCounted (function : Builtin) (args : List Value) :
    Runs function args fun self caller => runCounted self caller function args := by
  cases function with
  | add | subtract | multiply | divide | remainder => exact .arithmetic _ args
  | equal | greater | greaterEq | less | lessEq => exact .comparison _ args
  | not => exact .negation args
  | cons =>
      rcases args with _ | ⟨head, _ | ⟨tail, _ | ⟨_, _⟩⟩⟩
      case cons.cons.cons.nil => exact .cons head tail
      all_goals exact .miscounted (by simp [Miscounts, arity])
  | map =>
      rcases args with _ | ⟨f, _ | ⟨list, _ | ⟨_, _⟩⟩⟩
      case cons.cons.nil => exact .map f list
      all_goals exact .miscounted (by simp [Miscounts, arity])
  | foldl =>
      rcases args with _ | ⟨f, _ | ⟨start, _ | ⟨list, _ | ⟨_, _⟩⟩⟩⟩
      case cons.cons.cons.nil => exact .foldl f start list
      all_goals exact .miscounted (by simp [Miscounts, arity])
  | foldl1 =>
      rcases args with _ | ⟨f, _ | ⟨list, _ | ⟨_, _⟩⟩⟩
      case cons.cons.nil => exact .foldl1 f list
      all_goals exact .miscounted (by simp [Miscounts, arity])
  | format => exact .format args
  | puts =>
      cases args with
      | nil => exact .newline
      | cons first rest => exact .print _ _
  | print => exact .print _ args
  | assert | assertFalse =>
      rcases args with _ | ⟨arg, _ | ⟨_, _⟩⟩
      case cons.nil => exact .assertion _ arg
      all_goals exact .miscounted (by simp [Miscounts, arity])

end Builtin

end DynLisp
