import DynLisp.Eval.SpecialForm
import DynLisp.Proofs.Checked.Operation
import DynLisp.Proofs.Number.Whole

/-!
# The exit status, checked

The status of a number is found in four steps: one half is added to the magnitude,
the fraction is dropped, the whole number is made a number again to take the sign,
and that is made a whole number.  Each of the last three has no result for some
numbers, and the one check in front of them is that the number to start from is
finite.  It is enough because one half more than a finite magnitude is finite
(`Number.add_half`) and the whole part of a magnitude is one
(`Rank.exists_whole_part`).
-/

namespace DynLisp

/-- The magnitude of a number with the sign of another one. -/
def Number.withSign : Number → Number → Number
  | .signed _ r, .signed n _ => .signed n r
  | x, _ => x

namespace Checked

/-- The exit status that a value stands for. -/
def exitStatus (misuse : Halt) : Value → Except Halt Int
  | .number x =>
    if x.isFinite then do
      let whole ← floor misuse (x.abs.add .half)
      let rounded ← ofWhole misuse whole
      truncate misuse (rounded.withSign x)
    else throw (.error (.type .number))
  | _ => throw (.error (.type .number))

variable {misuse : Halt}

theorem floor_signed {r : Rank} (h : r ≠ Rank.infinite) :
    floor misuse (.signed false r) = .ok ((r.units / Rank.one : Nat) : Int) := by
  simp only [floor, Number.units?, if_neg h, Bool.false_eq_true, if_false, Int.natCast_ediv]

/-- The whole part of a magnitude is a number. -/
theorem ofWhole_whole_part (misuse : Halt) {r : Rank} (h : r ≠ Rank.infinite) :
    ∃ s : Rank, s ≠ Rank.infinite ∧ s.units = r.units / Rank.one * Rank.one ∧
      ofWhole misuse ((r.units / Rank.one : Nat) : Int) = .ok (.signed false s) := by
  obtain ⟨s, hfinite, hunits⟩ := Rank.exists_whole_part h
  refine ⟨s, hfinite, hunits, ?_⟩
  have hround : Number.ofInt (((r.units / Rank.one : Nat) : Int) * Rank.one) = .signed false s := by
    have hsign : ¬(((r.units / Rank.one : Nat) : Int) * Rank.one < 0) := by
      rw [← Int.natCast_mul]
      omega
    have hnearest := Rank.nearest_units_one s
    rw [hunits] at hnearest
    rw [Number.ofInt, Number.ofUnits, decide_eq_false hsign, ← Int.natCast_mul,
      Int.natAbs_natCast, hnearest]
  rw [ofWhole, hround, if_pos (Number.isFinite_signed hfinite)]

/-- A whole number of wholes has no fraction to lose. -/
theorem truncate_signed {negative : Bool} {s : Rank} {n : Nat} (h : s ≠ Rank.infinite)
    (hunits : s.units = n * Rank.one) :
    truncate misuse (.signed negative s) = .ok (if negative then -(n : Int) else n) := by
  have hone : (Rank.one : Int) ≠ 0 := Int.natCast_ne_zero.mpr (Nat.ne_of_gt Rank.one_pos)
  simp only [truncate, Number.units?, if_neg h, hunits]
  cases negative with
  | false =>
      rw [if_neg Bool.false_ne_true, if_neg Bool.false_ne_true, Int.natCast_mul,
        Int.mul_tdiv_cancel _ hone]
  | true =>
      rw [if_pos rfl, if_pos rfl, Int.natCast_mul, ← Int.neg_mul, Int.mul_tdiv_cancel _ hone]

/-- What the status of a finite number is: the whole part of the number with one half
added, with the sign. -/
theorem roundAway?_signed {negative : Bool} {r s : Rank} (h : r ≠ Rank.infinite)
    (hs : s ≠ Rank.infinite) (hhalf : (Number.signed false r).add .half = .signed false s) :
    (Number.signed negative r).roundAway? =
      some (if negative then -((s.units / Rank.one : Nat) : Int)
        else ((s.units / Rank.one : Nat) : Int)) := by
  simp only [Number.roundAway?, if_neg h, hhalf, Number.units?, if_neg hs, Option.map_some,
    Bool.false_eq_true, if_false, Int.natCast_ediv]

/-- The steps for a finite number. -/
theorem exitStatus_signed {negative : Bool} {r s : Rank} (h : r ≠ Rank.infinite)
    (hs : s ≠ Rank.infinite) (hhalf : (Number.signed false r).add .half = .signed false s) :
    exitStatus misuse (.number (.signed negative r)) =
      .ok (if negative then -((s.units / Rank.one : Nat) : Int)
        else ((s.units / Rank.one : Nat) : Int)) := by
  obtain ⟨t, ht, hunits, hwhole⟩ := ofWhole_whole_part misuse hs
  have habs : (Number.signed negative r).abs = .signed false r := rfl
  have hsign : (Number.signed false t).withSign (.signed negative r) = .signed negative t := rfl
  rw [exitStatus, if_pos (Number.isFinite_signed h), habs, hhalf, floor_signed hs, ok_bind,
    hwhole, ok_bind, hsign,
    truncate_signed ht hunits]

/-- **Finding the exit status needs no operation outside of its domain.** -/
theorem exitStatus_eq (v : Value) : exitStatus misuse v = v.exitStatus := by
  cases v with
  | number x =>
      cases x with
      | nan => rfl
      | signed negative r =>
          by_cases h : r = Rank.infinite
          · subst h
            rfl
          · obtain ⟨s, hs, hhalf⟩ := Number.add_half h
            rw [exitStatus_signed h hs hhalf, Value.exitStatus, roundAway?_signed h hs hhalf]
  | _ => rfl

end Checked

end DynLisp
