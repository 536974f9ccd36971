import DynLisp.Proofs.Eval.Effect
import DynLisp.Proofs.Number.Order
import Mathlib.Data.List.Chain
import Mathlib.Data.List.Perm.Basic
import Mathlib.Data.Set.List

/-!
# Comparisons of many numbers

Four comparisons look at neighbours, and equality at the first number and each of the
others.  That is enough: the exact values stand in the relation pair by pair.

* `chained_iff_pairwise` — a transitive relation between neighbours is one between all;
* `Builtin.allEqual_iff_pairwise` — being equal to the first is being equal to each other;
* `Builtin.Compares` — a function is the comparison of a relation;
* `Builtin.Compares.run_congr` — the same arguments in two orders;
* `comparisons_hold_between_all_pairs` — what the five functions answer.

What is not a number stands in no relation, so that a list with it and with something else
does not compare in any way.
-/

namespace DynLisp

open Number (Line Stand)

namespace Number

variable {rel : Line → Line → Prop} {x y z : Number}

/-- Where the relation of values is transitive, so is the one of numbers. -/
theorem Stand.trans (h : ∀ a b c, rel a b → rel b c → rel a c) (hxy : Stand rel x y)
    (hyz : Stand rel y z) : Stand rel x z := by
  obtain ⟨a, b, hx, hy, hab⟩ := hxy
  obtain ⟨b', c, hy', hz, hbc⟩ := hyz
  cases hy.symm.trans hy'
  exact ⟨a, c, hx, hz, h a b c hab hbc⟩

theorem Stand.flip (h : Stand rel x y) : Stand (fun a b => rel b a) y x := by
  obtain ⟨a, b, hx, hy, hab⟩ := h
  exact ⟨b, a, hy, hx, hab⟩

/-- The relation the other way around is that of the numbers the other way around. -/
theorem stand_flip_iff : Stand (fun a b => rel b a) y x ↔ Stand rel x y :=
  ⟨Stand.flip, Stand.flip⟩

/-- Equality does not depend on the order. -/
theorem stand_eq_comm : Stand (· = ·) x y ↔ Stand (· = ·) y x := by
  simp only [Stand]
  constructor <;> rintro ⟨a, b, hx, hy, rfl⟩ <;> exact ⟨a, a, hy, hx, rfl⟩

/-- What is not a number stands in no relation. -/
theorem Stand.ne_nan (h : Stand rel x y) : x ≠ .nan ∧ y ≠ .nan := by
  obtain ⟨a, b, hx, hy, -⟩ := h
  constructor <;> rintro rfl
  · cases hx
  · cases hy

end Number

/-! ### Chains -/

/-- Comparing neighbours is the library's notion of a chain. -/
theorem chained_iff_isChain {test : Number → Number → Bool} {xs : List Number} :
    chained test xs = true ↔ xs.IsChain fun x y => test x y = true := by
  induction xs with
  | nil => exact ⟨fun _ => .nil, fun _ => rfl⟩
  | cons x rest ih =>
      cases rest with
      | nil => exact ⟨fun _ => .singleton x, fun _ => rfl⟩
      | cons y rest => rw [chained, Bool.and_eq_true, ih, List.isChain_cons_cons]

/-- **Neighbours stand for all pairs**, if the relation is transitive. -/
theorem chained_iff_pairwise {test : Number → Number → Bool} {rel : Line → Line → Prop}
    (htest : ∀ x y, test x y = true ↔ Stand rel x y)
    (htrans : ∀ a b c, rel a b → rel b c → rel a c) (xs : List Number) :
    chained test xs = true ↔ xs.Pairwise (Stand rel) := by
  have : Trans (Stand rel) (Stand rel) (Stand rel) := ⟨Number.Stand.trans htrans⟩
  simp only [chained_iff_isChain, htest, List.isChain_iff_pairwise]

/-- What is not a number cannot be in a list of which every two numbers stand in a relation. -/
theorem not_pairwise_of_nan {rel : Line → Line → Prop} {xs : List Number}
    (hlen : 2 ≤ xs.length) (hmem : .nan ∈ xs) : ¬xs.Pairwise (Stand rel) := by
  match xs, hlen with
  | x :: y :: rest, _ =>
      intro hpairs
      have hfirst : ∀ z ∈ y :: rest, Stand rel x z := (List.pairwise_cons.mp hpairs).1
      rcases List.mem_cons.mp hmem with rfl | hrest
      · exact (hfirst y List.mem_cons_self).ne_nan.1 rfl
      · exact (hfirst .nan hrest).ne_nan.2 rfl

namespace Builtin

open Eval

/-- **Being equal to the first** is being equal to each other. -/
theorem allEqual_iff_pairwise (xs : List Number) :
    allEqual xs = true ↔ xs.Pairwise (Stand (· = ·)) := by
  cases xs with
  | nil => exact ⟨fun _ => .nil, fun _ => rfl⟩
  | cons x rest =>
      have hfirst : allEqual (x :: rest) = true ↔ ∀ y ∈ rest, Stand (· = ·) x y := by
        simp only [allEqual, List.all_eq_true, Number.eq_iff]
        exact forall₂_congr fun y _ => Number.stand_eq_comm
      rw [hfirst, List.pairwise_cons]
      refine ⟨fun h => ⟨h, ?_⟩, fun h => h.1⟩
      refine List.pairwise_of_forall_mem_list fun y hy z hz => ?_
      exact (Number.stand_eq_comm.mp (h y hy)).trans (fun _ _ _ => Eq.trans) (h z hz)

/-! ### Arguments -/

/-- Arguments are numbers all of them, or there is one that is none. -/
theorem numbers_or_other (args : List Value) :
    (∃ xs : List Number, xs.map .number = args) ∨ ∃ v ∈ args, ∀ x, v ≠ .number x := by
  by_cases h : ∃ v ∈ args, ∀ x, v ≠ .number x
  · exact .inr h
  · have hargs : args ∈ Set.range (List.map Value.number) := by
      rw [Set.range_list_map]
      intro v hmem
      by_contra hother
      exact h ⟨v, hmem, fun x heq => hother ⟨x, heq.symm⟩⟩
    exact .inl hargs

/-- On numbers a comparison gives what its test says. -/
theorem comparison_numbers (test : List Number → Bool) (xs : List Number) :
    comparison test (xs.map .number) = pure (.bool (test xs)) := by
  rw [comparison, Value.amounts_numbers]
  rfl

/-- **The same arguments in two orders.**  If they are numbers, the two tests decide; if not,
they are refused in both orders. -/
theorem comparison_congr {test test' : List Number → Bool} {args args' : List Value}
    (hperm : args.Perm args')
    (h : ∀ xs ys : List Number, xs.map .number = args → ys.map .number = args' →
      test xs = test' ys) :
    comparison test args = comparison test' args' := by
  rcases numbers_or_other args with ⟨xs, rfl⟩ | ⟨v, hmem, hother⟩
  · rcases numbers_or_other args' with ⟨ys, rfl⟩ | ⟨v, hmem, hother⟩
    · rw [comparison_numbers, comparison_numbers, h xs ys rfl rfl]
    · obtain ⟨x, -, rfl⟩ := List.mem_map.mp (hperm.mem_iff.mpr hmem)
      exact absurd rfl (hother x)
  · rw [comparison, comparison, Value.amounts_of_mem hmem hother,
      Value.amounts_of_mem (hperm.mem_iff.mp hmem) hother]
    rfl

/-! ### The five functions -/

/-- The relation that a comparison is named after. -/
def relation? : Builtin → Option (Line → Line → Prop)
  | .less => some (· < ·)
  | .lessEq => some (· ≤ ·)
  | .greater => some (· > ·)
  | .greaterEq => some (· ≥ ·)
  | .equal => some (· = ·)
  | _ => none

/-- A function is the comparison of a relation: it refuses what a comparison refuses, and
else tells whether every two numbers stand in the relation, in the order of the arguments. -/
structure Compares (function : Builtin) (rel : Line → Line → Prop)
    (test : List Number → Bool) : Prop where
  run_eq : ∀ self args caller, function.run self args caller = (do
    checkArity args.length (some 2) none
    comparison test args)
  test_iff : ∀ xs, test xs = true ↔ xs.Pairwise (Stand rel)

/-- Each of the comparisons compares by some test. -/
theorem exists_compares (function : Builtin) {rel : Line → Line → Prop}
    (h : function.relation? = some rel) : ∃ test, Compares function rel test := by
  cases function <;> cases h
  case equal => exact ⟨allEqual, fun _ _ _ => rfl, allEqual_iff_pairwise⟩
  case less =>
    exact ⟨_, fun _ _ _ => rfl,
      chained_iff_pairwise (fun _ _ => Number.lt_iff) fun _ _ _ => lt_trans⟩
  case lessEq =>
    exact ⟨_, fun _ _ _ => rfl,
      chained_iff_pairwise (fun _ _ => Number.le_iff) fun _ _ _ => le_trans⟩
  case greater =>
    exact ⟨_, fun _ _ _ => rfl, chained_iff_pairwise
      (fun _ _ => Number.lt_iff.trans Number.stand_flip_iff) fun _ _ _ => gt_trans⟩
  case greaterEq =>
    exact ⟨_, fun _ _ _ => rfl, chained_iff_pairwise
      (fun _ _ => Number.le_iff.trans Number.stand_flip_iff) fun _ _ _ => ge_trans⟩

section Compares

variable {function function' : Builtin} {rel rel' : Line → Line → Prop}
  {test test' : List Number → Bool}

/-- With two numbers or more it gives what the test says. -/
theorem Compares.run_numbers (h : Compares function rel test) {xs : List Number}
    (hlen : 2 ≤ xs.length) (self : Evaluator) (caller : ScopeId) :
    function.run self (xs.map .number) caller = pure (.bool (test xs)) := by
  rw [h.run_eq, List.length_map, checkArity_of_le hlen, comparison_numbers]
  rfl

/-- **Comparisons of the same arguments in two orders** are the same, if the two orders of
numbers stand together in the two relations. -/
theorem Compares.run_congr (h : Compares function rel test) (h' : Compares function' rel' test')
    {args args' : List Value} (hperm : args.Perm args')
    (hiff : ∀ xs ys : List Number, xs.map .number = args → ys.map .number = args' →
      (xs.Pairwise (Stand rel) ↔ ys.Pairwise (Stand rel'))) (self : Evaluator)
    (caller : ScopeId) : function.run self args caller = function'.run self args' caller := by
  rw [h.run_eq, h'.run_eq, hperm.length_eq]
  congr 1
  funext _
  refine comparison_congr hperm fun xs ys hxs hys => ?_
  rw [Bool.eq_iff_iff, h.test_iff, h'.test_iff, hiff xs ys hxs hys]

/-- A comparison of the arguments in reverse is the comparison of the converse relation. -/
theorem Compares.run_reverse (h : Compares function rel test)
    (h' : Compares function' (fun a b => rel b a) test') (args : List Value) (self : Evaluator)
    (caller : ScopeId) :
    function.run self args caller = function'.run self args.reverse caller := by
  refine h.run_congr h' (List.reverse_perm args).symm (fun xs ys hxs hys => ?_) self caller
  have hreverse : ys = xs.reverse := by
    rw [← hxs, ← List.map_reverse] at hys
    exact List.map_injective_iff.mpr (fun _ _ => Value.number.inj) hys
  simp only [hreverse, List.pairwise_reverse, Number.stand_flip_iff]

/-- A comparison of a symmetric relation takes its arguments in any order. -/
theorem Compares.run_perm (h : Compares function rel test) (hsymm : ∀ a b, rel a b → rel b a)
    {args args' : List Value} (hperm : args.Perm args') (self : Evaluator) (caller : ScopeId) :
    function.run self args caller = function.run self args' caller := by
  refine h.run_congr h hperm (fun xs ys hxs hys => List.Perm.pairwise_iff ?_ ?_) self caller
  · rintro _ _ ⟨a, b, hx, hy, hab⟩
    exact ⟨b, a, hy, hx, hsymm a b hab⟩
  · rw [← hxs, ← hys, List.map_perm_map_iff fun _ _ => Value.number.inj] at hperm
    exact hperm

end Compares

end Builtin

/-- **Comparisons hold between all pairs.**  Given two numbers or more, a comparison answers
that exactly if every number stands in its relation to every later one; for equality, that is
to every other one.  What is not a number makes all five answer no.  Whatever the arguments
are, equality takes them in any order, and a comparison with "greater" is the one with "less"
of the arguments in reverse: the same answers, and the same errors. -/
theorem comparisons_hold_between_all_pairs :
    (∀ (function : Builtin) rel, function.relation? = some rel →
      ∀ xs : List Number, 2 ≤ xs.length → ∃ b,
        (∀ self caller,
          Value.apply self (.native function) (xs.map .number) caller = pure (.bool b)) ∧
        (b = true ↔ ∀ i j (hi : i < xs.length) (hj : j < xs.length), i < j →
          Stand rel xs[i] xs[j]) ∧
        (function = .equal → (b = true ↔
          ∀ i j (hi : i < xs.length) (hj : j < xs.length), i ≠ j →
            Stand (· = ·) xs[i] xs[j])) ∧
        (.nan ∈ xs → b = false)) ∧
    (∀ (args args' : List Value), args.Perm args' → ∀ self caller,
      Value.apply self (.native .equal) args caller =
        Value.apply self (.native .equal) args' caller) ∧
    ∀ (args : List Value) self caller,
      Value.apply self (.native .greater) args caller =
        Value.apply self (.native .less) args.reverse caller ∧
      Value.apply self (.native .greaterEq) args caller =
        Value.apply self (.native .lessEq) args.reverse caller := by
  refine ⟨fun function rel hrel xs hlen => ?_, fun args args' hperm => ?_, fun args => ?_⟩
  · obtain ⟨test, hcompares⟩ := function.exists_compares hrel
    refine ⟨test xs, hcompares.run_numbers hlen, ?_, ?_, fun hnan => ?_⟩
    · rw [hcompares.test_iff, List.pairwise_iff_getElem]
    · rintro rfl
      cases hrel
      -- Equality does not depend on which of the two places comes first.
      rw [hcompares.test_iff, List.pairwise_iff_getElem]
      refine ⟨fun h i j hi hj hne => ?_, fun h i j hi hj hlt => h i j hi hj (Nat.ne_of_lt hlt)⟩
      rcases Nat.lt_or_gt_of_ne hne with hlt | hgt
      · exact h i j hi hj hlt
      · exact Number.stand_eq_comm.mp (h j i hj hi hgt)
    · rw [Bool.eq_false_iff, ne_eq, hcompares.test_iff]
      exact not_pairwise_of_nan hlen hnan
  · obtain ⟨test, hequal⟩ := Builtin.exists_compares .equal rfl
    exact hequal.run_perm (fun _ _ => Eq.symm) hperm
  · obtain ⟨_, hgreater⟩ := Builtin.exists_compares .greater rfl
    obtain ⟨_, hless⟩ := Builtin.exists_compares .less rfl
    obtain ⟨_, hgreaterEq⟩ := Builtin.exists_compares .greaterEq rfl
    obtain ⟨_, hlessEq⟩ := Builtin.exists_compares .lessEq rfl
    exact fun self caller => ⟨hgreater.run_reverse hless args self caller,
      hgreaterEq.run_reverse hlessEq args self caller⟩

/-- Zero is at most the negative zero, and both are at most one, but one is not less than a
zero two places behind it; what is not a number does not equal itself across a third one; and
the same arguments, of which one is a text, are refused in two orders. -/
theorem zeros_and_nan_and_text_compared :
    (∀ self caller, Value.apply self (.native .lessEq)
      [.number .zero, .number Number.zero.neg, .number .one] caller = pure (.bool true)) ∧
    (∀ self caller, Value.apply self (.native .less)
      [.number .zero, .number .one, .number Number.zero.neg] caller = pure (.bool false)) ∧
    (∀ self caller, Value.apply self (.native .equal)
      [.number .nan, .number .one, .number .nan] caller = pure (.bool false)) ∧
    ∀ self caller, Value.apply self (.native .equal)
      [.string "a", .number .zero, .number .one] caller =
      Value.apply self (.native .equal) [.number .one, .string "a", .number .zero] caller := by
  obtain ⟨hnumbers, hperm, -⟩ := comparisons_hold_between_all_pairs
  have hlen : ∀ x y z : Number, 2 ≤ [x, y, z].length := fun _ _ _ => by simp
  refine ⟨?_, ?_, ?_, hperm _ _ (.trans (.cons _ (.swap _ _ _)) (.swap _ _ _))⟩
  · obtain ⟨b, hrun, hpairs, -⟩ :=
      hnumbers .lessEq _ rfl [.zero, Number.zero.neg, .one] (hlen ..)
    have hall : ∀ i j : Fin 3, i < j →
        ([.zero, Number.zero.neg, .one] : List Number)[i].le
          ([.zero, Number.zero.neg, .one] : List Number)[j] = true := by decide
    have htrue : b = true :=
      hpairs.mpr fun i j hi hj hlt => Number.le_iff.mp (hall ⟨i, hi⟩ ⟨j, hj⟩ hlt)
    exact htrue ▸ hrun
  · obtain ⟨b, hrun, hpairs, -⟩ :=
      hnumbers .less _ rfl [.zero, .one, Number.zero.neg] (hlen ..)
    have hlast : ([.zero, .one, Number.zero.neg] : List Number)[0].lt
        ([.zero, .one, Number.zero.neg] : List Number)[2] = false := by decide
    have hfalse : b = false := by
      refine Bool.eq_false_iff.mpr fun htrue => ?_
      have hstand := hpairs.mp htrue 0 2 (by simp) (by simp) Nat.two_pos
      exact Bool.false_ne_true (hlast.symm.trans (Number.lt_iff.mpr hstand))
    exact hfalse ▸ hrun
  · obtain ⟨b, hrun, -, -, hnan⟩ := hnumbers .equal _ rfl [.nan, .one, .nan] (hlen ..)
    exact hnan List.mem_cons_self ▸ hrun

end DynLisp
