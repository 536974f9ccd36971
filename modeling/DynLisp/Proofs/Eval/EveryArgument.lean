import DynLisp.Eval.Evaluate
import DynLisp.Proofs.Eval.LeftFold
import DynLisp.Proofs.Number.PairwiseSum
import Mathlib.Algebra.BigOperators.Intervals

/-!
# Every argument once

Rounding decides what a long sum comes to, but not which arguments it is made of.

A call of addition is the value of an expression, the one that the scheme of long sums makes of
the arguments (`PairwiseSum`), and every argument has its place in it exactly once
(`addition_uses_every_argument_once`).
-/

namespace DynLisp

universe u

open Builtin

/-- **Every argument once.**  For two and more arguments there is an expression of additions in
which every argument has its place exactly once.  Whatever the addition is, the recursion of the
scheme ends with exactly one total, and the value of the expression is this total added to zero.
If the addition is associative and commutative, then the value is the sum of all arguments.
With the addition of numbers it is the result of the call. -/
theorem addition_uses_every_argument_once {n : Nat} (hn : 2 ≤ n) :
    ∃ tree : SumTree (Fin n), (∀ i, tree.places.count i = 1) ∧
      (∀ {α : Type u} (add : α → α → α) (zero : α) (x : Fin n → α), ∃ total,
        (∀ r, PairwiseSum add (List.ofFn x) r ↔ r = total) ∧
          tree.eval add zero x = add zero total) ∧
      (∀ {M : Type u} [AddCommMonoid M] (x : Fin n → M),
        tree.eval (· + ·) 0 x = ∑ i, x i) ∧
      ∀ (x : Fin n → Number) self caller,
        Value.apply self (.native .add) ((List.ofFn x).map .number) caller =
          pure (.number (tree.eval Number.add Number.zero x)) := by
  have hpos : 0 < n := by omega
  obtain ⟨tree, hperm, hscheme⟩ := exists_sumTree hpos
  have hroot : (SumTree.add .zero tree).places.Perm (List.finRange n) := hperm
  refine ⟨.add .zero tree, SumTree.count_of_perm hroot, ?_, SumTree.eval_of_perm hroot, ?_⟩
  · intro α add zero x
    have htotal := hscheme.eval add zero x
    refine ⟨tree.eval add zero x, fun r => ⟨fun hr => hr.unique htotal, ?_⟩, rfl⟩
    rintro rfl
    exact htotal
  · intro x self caller
    have hlen : (List.ofFn x).length = n := List.length_ofFn
    have hne : List.ofFn x ≠ [] := by rwa [← List.length_pos_iff, hlen]
    have htotal : blockSum Number.add .zero (List.ofFn x) = tree.eval Number.add .zero x :=
      (pairwiseSum_blockSum hne).unique (hscheme.eval Number.add .zero x)
    have hcall : total? .add = some Number.sum := rfl
    rw [apply_numbers hcall _ (by rwa [hlen]), Number.sum, htotal]
    rfl

/-- The numbers below three hundred are added in four blocks, of 72, 72, 72 and 84 terms. -/
theorem three_hundred_arguments_used_once : 2 ≤ 300 ∧
    ∃ tree : SumTree (Fin 300), (∀ i, tree.places.count i = 1) ∧
      (∀ r, PairwiseSum (· + ·) (List.ofFn fun i : Fin 300 => i.val) r ↔ r = 44850) ∧
      ∀ self caller, Value.apply self (.native .add)
        ((List.ofFn fun i : Fin 300 => Number.ofNat i.val).map .number) caller =
          pure (.number (tree.eval Number.add Number.zero fun i => Number.ofNat i.val)) := by
  obtain ⟨tree, honce, hscheme, hsum, hcall⟩ :=
    addition_uses_every_argument_once (show 2 ≤ 300 by decide)
  refine ⟨by decide, tree, honce, ?_, hcall fun i => Number.ofNat i.val⟩
  obtain ⟨total, hends, hvalue⟩ := hscheme (· + ·) 0 fun i => i.val
  have htotal : ∑ i : Fin 300, i.val = 44850 := by
    rw [Fin.sum_univ_eq_sum_range fun i => i, Finset.sum_range_id]
  rw [hsum, htotal, Nat.zero_add] at hvalue
  rwa [← hvalue] at hends

end DynLisp
