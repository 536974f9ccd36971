import DynLisp.Eval.Evaluate
import DynLisp.Proofs.Eval.Effect
import DynLisp.Proofs.Number.LeftFold

/-!
# Arithmetic functions as left folds

Four of the five arithmetic functions are left folds: one more number is put to the result of
the others, and so a call is made of calls with two numbers.  Addition regroups its terms when
they are many, and this can be seen in the rounding.

* `Builtin.apply_numbers` — an arithmetic function computes a number from numbers;
* `Builtin.calls_step_iff`, `Builtin.calls_nest_iff` — what is said of calls is said of these
  computations;
* `arithmetic_folds_left_where_sums_do` — for which numbers of arguments the law holds.
-/

namespace DynLisp

open Number

theorem Eval.pure_inj {α : Type} {a b : α} (h : (pure a : Eval α) = pure b) : a = b := by
  have hrun := congrFun h World.empty
  cases hrun
  rfl

namespace Builtin

open Eval

/-- What an arithmetic function computes from the numbers of its arguments. -/
def total? : Builtin → Option (List Number → Number)
  | .add => some Number.sum
  | .subtract => some Number.difference
  | .multiply => some Number.product
  | .divide => some Number.quotient
  | .remainder => some Number.remainder
  | _ => none

variable {function : Builtin} {op : List Number → Number}

/-- The five operations have a total for a list of numbers. -/
theorem exists_total (h : function ∈ [.add, .subtract, .multiply, .divide, .remainder]) :
    ∃ op, function.total? = some op := by
  simp only [List.mem_cons, List.not_mem_nil, or_false] at h
  rcases h with rfl | rfl | rfl | rfl | rfl <;> exact ⟨_, rfl⟩

/-- An arithmetic function has a result for all numbers, if they are two or more. -/
theorem apply_numbers (h : function.total? = some op) (xs : List Number) (hlen : 2 ≤ xs.length)
    (self : Evaluator) (caller : ScopeId) :
    Value.apply self (.native function) (xs.map .number) caller = pure (.number (op xs)) := by
  have harithmetic : ∀ total, arithmetic total (xs.map .number) = pure (.number (total xs)) := by
    intro total
    rw [arithmetic, Value.amounts_numbers]
    rfl
  have hrun : Value.apply self (.native function) (xs.map .number) caller = (do
      checkArity (xs.map Value.number).length (some 2) none
      arithmetic op (xs.map .number)) := by
    cases function <;> cases h <;> rfl
  rw [hrun, List.length_map, checkArity_of_le hlen, harithmetic]
  rfl

/-- Calls with two numbers, from the left. -/
theorem foldlM_apply (h : function.total? = some op) (first : Number) (rest : List Number)
    (self : Evaluator) (caller : ScopeId) :
    rest.foldlM (fun acc x => Value.apply self (.native function) [acc, .number x] caller)
      (.number first) = pure (.number (rest.foldl (fun acc x => op [acc, x]) first)) := by
  induction rest generalizing first with
  | nil => rfl
  | cons x rest ih =>
      have hpair := apply_numbers h [first, x] (Nat.le_refl 2) self caller
      rw [List.foldlM_cons, List.foldl_cons, ← ih (op [first, x])]
      exact congrArg (· >>= _) hpair

/-- One more argument is put to the result of the others, in calls as in numbers. -/
theorem calls_step_iff (h : function.total? = some op) {n : Nat} (hn : 2 ≤ n) :
    (∀ (xs : List Number) (x : Number), xs.length = n → ∃ r,
      (∀ self caller, Value.apply self (.native function) (xs.map .number) caller =
        pure (.number r)) ∧
      ∀ self caller, Value.apply self (.native function) ((xs ++ [x]).map .number) caller =
        Value.apply self (.native function) [.number r, .number x] caller) ↔ StepsAt op n := by
  have hpair := fun r x => apply_numbers h [r, x] (Nat.le_refl 2)
  have hmore : ∀ (xs : List Number) (x : Number), xs.length = n → 2 ≤ (xs ++ [x]).length := by
    intro xs x hlen
    rw [List.length_append]
    omega
  constructor
  · intro hcalls xs x hlen
    obtain ⟨r, hresult, hstep⟩ := hcalls xs x hlen
    have hr := (apply_numbers h _ (by omega) (Value.evaluate 0) 0).symm.trans
      (hresult (Value.evaluate 0) 0)
    have hx := ((apply_numbers h _ (hmore xs x hlen) (Value.evaluate 0) 0).symm.trans
      (hstep (Value.evaluate 0) 0)).trans (hpair r x (Value.evaluate 0) 0)
    rw [Value.number.inj (pure_inj hx), Value.number.inj (pure_inj hr)]
  · intro hsteps xs x hlen
    refine ⟨op xs, apply_numbers h _ (by omega), fun self caller => ?_⟩
    rw [apply_numbers h _ (hmore xs x hlen), hsteps xs x hlen]
    exact (hpair _ x self caller).symm

/-- A call is made of calls with two arguments, in calls as in numbers. -/
theorem calls_nest_iff (h : function.total? = some op) {n : Nat} (hn : 2 ≤ n) :
    (∀ (first : Number) (rest : List Number), rest.length + 1 = n → ∀ self caller,
      Value.apply self (.native function) ((first :: rest).map .number) caller =
        rest.foldlM (fun acc x => Value.apply self (.native function) [acc, .number x] caller)
          (.number first)) ↔ NestsAt op n := by
  have hall : ∀ (first : Number) (rest : List Number), rest.length + 1 = n →
      2 ≤ (first :: rest).length := by
    intro first rest hlen
    rw [List.length_cons]
    omega
  constructor
  · intro hcalls first rest hlen
    have hnested := hcalls first rest hlen (Value.evaluate 0) 0
    rw [apply_numbers h _ (hall first rest hlen), foldlM_apply h] at hnested
    exact Value.number.inj (pure_inj hnested)
  · intro hnests first rest hlen self caller
    rw [apply_numbers h _ (hall first rest hlen), foldlM_apply h, hnests first rest hlen]

/-- One more number is put to the result of the others; in sums only where they go on. -/
theorem stepsAt_iff (h : function.total? = some op) {n : Nat} (hn : 2 ≤ n) :
    StepsAt op n ↔ (function = .add → SumGoesOn n) := by
  cases function <;> cases h
  case add => exact (sum_stepsAt_iff hn).trans ⟨fun h _ => h, fun h => h rfl⟩
  case subtract => exact iff_of_true (foldFirst_stepsAt sub (by omega)) (nomatch ·)
  case multiply => exact iff_of_true (product_stepsAt n) (nomatch ·)
  case divide => exact iff_of_true (foldFirst_stepsAt div (by omega)) (nomatch ·)
  case remainder => exact iff_of_true (foldFirst_stepsAt rem (by omega)) (nomatch ·)

/-- The result comes from results for two, but for sums of eight and more. -/
theorem nestsAt_iff (h : function.total? = some op) {n : Nat} (hn : 2 ≤ n) :
    NestsAt op n ↔ (function = .add → n < 8) := by
  by_cases hadd : function = .add
  · subst hadd
    cases h
    exact (sum_nestsAt_iff hn).trans ⟨fun h _ => h, fun h => h rfl⟩
  · refine iff_of_true (nestsAt_of_steps hn fun k hlow _ => ?_) fun h => absurd h hadd
    exact (stepsAt_iff h hlow).mpr fun h => absurd h hadd

end Builtin

open Builtin Eval

/-- **Arithmetic functions fold from the left where sums do.**  With two or more numbers, an
arithmetic function has a result.  Put to one more number, this is the result for all of them,
whatever the numbers are, exactly if the function is not addition or the sum goes on with one
more term.  A call is made of calls with two arguments from the left, whatever the numbers
are, exactly if the function is not addition or there are fewer than eight. -/
theorem arithmetic_folds_left_where_sums_do {function : Builtin}
    (h : function ∈ [.add, .subtract, .multiply, .divide, .remainder]) {n : Nat} (hn : 2 ≤ n) :
    ((∀ (xs : List Number) (x : Number), xs.length = n → ∃ r,
        (∀ self caller, Value.apply self (.native function) (xs.map .number) caller =
          pure (.number r)) ∧
        ∀ self caller, Value.apply self (.native function) ((xs ++ [x]).map .number) caller =
          Value.apply self (.native function) [.number r, .number x] caller) ↔
      (function = .add → SumGoesOn n)) ∧
    ((∀ (first : Number) (rest : List Number), rest.length + 1 = n → ∀ self caller,
        Value.apply self (.native function) ((first :: rest).map .number) caller =
          rest.foldlM (fun acc x => Value.apply self (.native function) [acc, .number x] caller)
            (.number first)) ↔
      (function = .add → n < 8)) := by
  obtain ⟨op, htotal⟩ := exists_total h
  exact ⟨(calls_step_iff htotal hn).trans (stepsAt_iff htotal hn),
    (calls_nest_iff htotal hn).trans (nestsAt_iff htotal hn)⟩

/-- Three numbers are added as two and one more, and nine ones are subtracted two at a time. -/
theorem three_added_and_nine_subtracted :
    (∃ r, (∀ self caller, Value.apply self (.native .add) [.number big, .number .one] caller =
        pure (.number r)) ∧
      ∀ self caller,
        Value.apply self (.native .add) [.number big, .number .one, .number .one] caller =
          Value.apply self (.native .add) [.number r, .number .one] caller) ∧
    ∀ self caller,
      Value.apply self (.native .subtract)
          (.number .one :: List.replicate 8 (.number .one)) caller =
        (List.replicate 8 Number.one).foldlM
          (fun acc x => Value.apply self (.native .subtract) [acc, .number x] caller)
          (.number .one) := by
  obtain ⟨hadd, -⟩ := @arithmetic_folds_left_where_sums_do .add (by decide) 2 (Nat.le_refl 2)
  obtain ⟨-, hsubtract⟩ :=
    @arithmetic_folds_left_where_sums_do .subtract (by decide) 9 (by decide)
  exact ⟨hadd.mpr (fun _ => .inl (by decide)) [big, .one] .one rfl,
    hsubtract.mpr (nomatch ·) .one (List.replicate 8 .one) rfl⟩

/-- **A sum that is regrouped.**  Seven ones after a great number are added up in part before
they meet it, but the sum of seven terms and one more loses each of them. -/
theorem eight_terms_are_regrouped :
    (∀ self caller, Value.apply self (.native .add)
      (.number big :: List.replicate 6 (.number .one)) caller = pure (.number big)) ∧
    ∀ self caller, Value.apply self (.native .add)
      (.number big :: List.replicate 6 (.number .one) ++ [.number .one]) caller ≠
        Value.apply self (.native .add) [.number big, .number .one] caller := by
  have hseven : Number.sum (big :: List.replicate 6 .one) = big := by decide +kernel
  have height : Number.sum (big :: List.replicate 7 .one) ≠ Number.sum [big, .one] := by
    decide +kernel
  have hadd : total? .add = some Number.sum := rfl
  constructor
  · intro self caller
    have hrun := apply_numbers hadd (big :: List.replicate 6 .one) (by decide) self caller
    rwa [hseven] at hrun
  · intro self caller hsame
    have hall := apply_numbers hadd (big :: List.replicate 7 .one) (by decide) self caller
    have hpair := apply_numbers hadd [big, .one] (by decide) self caller
    exact height (Value.number.inj (pure_inj (hall.symm.trans (hsame.trans hpair))))

end DynLisp
