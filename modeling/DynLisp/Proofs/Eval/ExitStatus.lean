import DynLisp.Eval.Evaluate
import DynLisp.Number.Bits
import DynLisp.Proofs.Checked.Exit
import DynLisp.Proofs.Number.HalfAway
import DynLisp.Proofs.Number.ReadBack

/-!
# The exit status of a number

A program that exits with a finite number ends with a status near to it.  The status is the
whole number nearest to it, of two the one farther from zero, unless the number `Overshoots`;
there it is one farther (`Value.exit_status_rounds_away_unless_it_overshoots`).

The sign is put aside and back (`Value.exitStatus_neg`), so that what is to be shown is about
magnitudes: their whole part after one half is added and the sum rounded (`Rank.status`).
-/

namespace DynLisp

/-- The status of a magnitude. -/
def Rank.status (r : Rank) : Nat := (nearest (r.units + one / 2) 1).units / one

theorem Rank.status_mono {r s : Rank} (h : r ≤ s) : r.status ≤ s.status := by
  have hunits : r.units + one / 2 ≤ s.units + one / 2 :=
    Nat.add_le_add_right (units_strictMono.monotone h) _
  have hrounded := units_strictMono.monotone (nearest_mono hunits)
  exact Nat.div_le_div_right hrounded

theorem Rank.status_zero {r : Rank} (h : r.val = 0) : r.status = 0 := by
  obtain rfl : r = ⟨0, Nat.zero_lt_succ _⟩ := Fin.ext h
  decide +kernel

/-- The status of a magnitude is the whole number nearest to it, or the next one where the
magnitude overshoots. -/
theorem Rank.status_cases {r : Rank} (h : r ≠ infinite) :
    (Overshoots r.units ∧ RoundsAway r.units (r.status - 1 : Int)) ∨
    (¬Overshoots r.units ∧ RoundsAway r.units r.status) := by
  have hstatus : r.status = rounded (r.units + one / 2) / one := by
    rw [status, units_nearest (Number.add_half_eq h).1]
  have hwhole := RoundsAway.whole_part r.units
  rcases r.whole_rounded_cases with ⟨hover, heq⟩ | ⟨hnot, heq⟩
  · refine .inl ⟨hover, ?_⟩
    rw [hstatus, heq, Int.natCast_add, Int.natCast_one, Int.add_sub_cancel]
    exact hwhole
  · refine .inr ⟨hnot, ?_⟩
    rw [hstatus, heq]
    exact hwhole

namespace Value

open Eval

variable {x y : Number} {m n u : Int}

/-- The status of a finite number is the one of its magnitude, with the sign. -/
theorem exitStatus_signed {negative : Bool} {r : Rank} (h : r ≠ Rank.infinite) :
    (number (.signed negative r)).exitStatus =
      .ok (if negative then -(r.status : Int) else r.status) := by
  obtain ⟨hfinite, hhalf⟩ := Number.add_half_eq h
  rw [exitStatus, Checked.roundAway?_signed h hfinite hhalf]
  rfl

/-- Only finite numbers have a status. -/
theorem exitStatus_eq_ok_iff :
    (number x).exitStatus = .ok n ↔ ∃ negative r, r ≠ Rank.infinite ∧
      x = .signed negative r ∧ n = if negative then -(r.status : Int) else r.status := by
  constructor
  · intro h
    cases x with
    | nan => cases h
    | signed negative r =>
        by_cases hinfinite : r = Rank.infinite
        · subst hinfinite
          cases h
        · rw [exitStatus_signed hinfinite] at h
          exact ⟨negative, r, hinfinite, rfl, (Except.ok.inj h).symm⟩
  · rintro ⟨negative, r, hfinite, rfl, rfl⟩
    exact exitStatus_signed hfinite

theorem exists_of_units? (h : x.units? = some u) : ∃ negative r, r ≠ Rank.infinite ∧
    x = .signed negative r ∧ u = if negative then -(r.units : Int) else r.units := by
  cases x with
  | nan => cases h
  | signed negative r =>
      simp only [Number.units?] at h
      by_cases hinfinite : r = Rank.infinite
      · rw [if_pos hinfinite] at h
        cases h
      · rw [if_neg hinfinite] at h
        exact ⟨negative, r, hinfinite, rfl, (Option.some.inj h).symm⟩

/-- **The other sign** gives the other status. -/
theorem exitStatus_neg (h : (number x).exitStatus = .ok n) :
    (number x.neg).exitStatus = .ok (-n) := by
  obtain ⟨negative, r, hfinite, rfl, rfl⟩ := exitStatus_eq_ok_iff.mp h
  refine exitStatus_eq_ok_iff.mpr ⟨!negative, r, hfinite, rfl, ?_⟩
  cases negative <;> simp

/-- **Greater numbers** do not have less statuses. -/
theorem exitStatus_mono (hx : (number x).exitStatus = .ok m)
    (hy : (number y).exitStatus = .ok n) (h : x.le y = true) : m ≤ n := by
  obtain ⟨p, r, -, rfl, rfl⟩ := exitStatus_eq_ok_iff.mp hx
  obtain ⟨q, s, -, rfl, rfl⟩ := exitStatus_eq_ok_iff.mp hy
  have hkeys : Rank.signed p r ≤ Rank.signed q s := of_decide_eq_true h
  unfold Rank.signed at hkeys
  cases p <;> cases q <;> simp only [Bool.false_eq_true, if_false, if_true] at hkeys ⊢
  · have hle : r.val ≤ s.val := by omega
    exact Int.ofNat_le.mpr (Rank.status_mono hle)
  · -- Only zero is at most a number with a minus sign.
    have hzero : r.val = 0 ∧ s.val = 0 := by omega
    rw [Rank.status_zero hzero.1, Rank.status_zero hzero.2]
    exact Int.le_refl 0
  · exact Int.le_trans (Int.neg_nonpos_of_nonneg (Int.natCast_nonneg _)) (Int.natCast_nonneg _)
  · have hle : s.val ≤ r.val := by omega
    exact Int.neg_le_neg (Int.ofNat_le.mpr (Rank.status_mono hle))

/-- The status of a number whose exact value is known. -/
theorem exitStatus_cases (h : x.units? = some u) : ∃ n, (number x).exitStatus = .ok n ∧
    ((Overshoots u ∧ RoundsAway u (n - u.sign)) ∨ (¬Overshoots u ∧ RoundsAway u n)) := by
  obtain ⟨negative, r, hfinite, rfl, rfl⟩ := exists_of_units? h
  refine ⟨_, exitStatus_signed hfinite, ?_⟩
  have hcases := Rank.status_cases hfinite
  have hsign : Overshoots r.units → (r.units : Int).sign = 1 := fun hover =>
    Int.sign_eq_one_of_pos (by have hne := hover.ne_zero; omega)
  cases negative with
  | false =>
      simp only [Bool.false_eq_true, if_false]
      exact hcases.imp_left fun ⟨hover, hnear⟩ => ⟨hover, by rwa [hsign hover]⟩
  | true =>
      simp only [if_true, Overshoots.neg_iff, RoundsAway.neg_iff]
      refine hcases.imp_left fun ⟨hover, hnear⟩ => ⟨hover, ?_⟩
      rw [Int.sign_neg, hsign hover, neg_sub_neg, ← Int.neg_sub, RoundsAway.neg_iff]
      exact hnear

/-- What is one away from the right whole number is not the right one. -/
theorem roundsAway_iff (h : (Overshoots u ∧ RoundsAway u (n - u.sign)) ∨
    (¬Overshoots u ∧ RoundsAway u n)) : RoundsAway u n ↔ ¬Overshoots u := by
  rcases h with ⟨hover, hnear⟩ | ⟨hnot, hnear⟩
  · refine iff_of_false (fun hround => ?_) (not_not_intro hover)
    have hsame := hround.unique hnear
    have hsign := Int.sign_eq_zero_iff_zero.not.mpr hover.ne_zero
    omega
  · exact iff_of_true hnear hnot

/-- The form that exits does so with the status of its operand. -/
theorem evaluate_exit (h : (number x).exitStatus = .ok n) (depth : Nat) (scope : ScopeId)
    (w : World) : evaluate (depth + 2) (.list [.symbol "exit", .number x]) scope w =
      .error (.exit n) w := by
  have hform : evaluate (depth + 2) (.list [.symbol "exit", .number x]) scope =
      (do
        let status ← pureResult (number x).exitStatus
        throw (.exit status)) := rfl
  rw [hform, h]
  rfl

/-- **The exit status rounds half away from zero unless it overshoots.**  Every finite number
has a status, with which the form that exits ends the program.  It is the whole number
nearest to the number, of two the one farther from zero, exactly if the number does not
overshoot; if it does, it is one farther from zero than that.  For whole numbers, the status is
the number itself but for odd ones with 53 digits.  The number with the other sign has the
other status, and greater numbers do not have less statuses, without exception. -/
theorem exit_status_rounds_away_unless_it_overshoots (h : x.units? = some u) :
    ∃ n, (number x).exitStatus = .ok n ∧
      (∀ depth scope w, evaluate (depth + 2) (.list [.symbol "exit", .number x]) scope w =
        .error (.exit n) w) ∧
      (RoundsAway u n ↔ ¬Overshoots u) ∧ (Overshoots u → RoundsAway u (n - u.sign)) ∧
      (∀ m, x.toInt? = some m →
        (n = m ↔ ¬(2 ^ 52 < m.natAbs ∧ m.natAbs < 2 ^ 53 ∧ m.natAbs % 2 = 1))) ∧
      (number x.neg).exitStatus = .ok (-n) ∧
      ∀ y m, (number y).exitStatus = .ok m → x.le y = true → n ≤ m := by
  obtain ⟨n, hstatus, hcases⟩ := exitStatus_cases h
  have hiff := roundsAway_iff hcases
  refine ⟨n, hstatus, evaluate_exit hstatus, hiff, ?_, fun m hwhole => ?_, exitStatus_neg hstatus,
    fun y m => exitStatus_mono hstatus⟩
  · exact fun hover => hcases.elim And.right fun h => absurd hover h.1
  · cases (Number.units?_of_toInt? hwhole).symm.trans h
    rw [← Overshoots.whole_iff, ← hiff]
    exact ⟨fun heq => heq ▸ .self n, fun hround => hround.unique (.self m)⟩

/-- The number just below one half has a status one farther from zero than it should have,
and the status of three is three and not less than this one. -/
theorem below_half_and_three_have_statuses :
    (∃ u n, (Number.ofBits 0x3fdfffffffffffff).units? = some u ∧
      (number (.ofBits 0x3fdfffffffffffff)).exitStatus = .ok n ∧
      RoundsAway u (n - u.sign) ∧ n ≤ 3) ∧
    (number (.ofBits 0x4008000000000000)).exitStatus = .ok 3 := by
  have hthree : (number (.ofBits 0x4008000000000000)).exitStatus = .ok 3 := by
    obtain ⟨u, hunits⟩ := Option.isSome_iff_exists.mp
      (by decide +kernel : (Number.ofBits 0x4008000000000000).units?.isSome = true)
    obtain ⟨n, hstatus, -, -, -, hwhole, -⟩ :=
      exit_status_rounds_away_unless_it_overshoots hunits
    rw [hstatus, (hwhole 3 (by decide +kernel)).mpr (by decide)]
  have hlast : ((Number.ofBits 0x3fdfffffffffffff).units?.any fun (u : Int) =>
      decide (2 ^ 54 * u.natAbs = (2 ^ 53 - 1) * Rank.one)) = true := by decide +kernel
  rw [Option.any_eq_true] at hlast
  obtain ⟨u, hunits, hover⟩ := hlast
  obtain ⟨n, hstatus, -, -, hnear, -, -, hmono⟩ :=
    exit_status_rounds_away_unless_it_overshoots hunits
  exact ⟨⟨u, n, hunits, hstatus, hnear (.belowHalf (of_decide_eq_true hover)),
    hmono _ 3 hthree (by decide +kernel)⟩, hthree⟩

/-- **The numbers that are not rounded as they should be**: the one just below one half, to
which zero is nearer than one, and the least odd number with 53 digits, which is not its own
status. -/
theorem below_half_and_odd_overshoot :
    (∃ u, (Number.ofBits 0x3fdfffffffffffff).units? = some u ∧
      (number (.ofBits 0x3fdfffffffffffff)).exitStatus = .ok 1 ∧ ¬RoundsAway u 1) ∧
    (Number.ofBits 0x4330000000000001).toInt? = some (2 ^ 52 + 1) ∧
      (number (.ofBits 0x4330000000000001)).exitStatus = .ok (2 ^ 52 + 2) := by
  have hone : (Number.ofBits 0x3fdfffffffffffff).roundAway? = some 1 := by decide +kernel
  have hnext : (Number.ofBits 0x4330000000000001).roundAway? = some (2 ^ 52 + 2) := by
    decide +kernel
  have hzero : ((Number.ofBits 0x3fdfffffffffffff).units?.any fun (u : Int) =>
      decide ((u - 0 * Rank.one).natAbs < (u - 1 * Rank.one).natAbs)) = true := by decide +kernel
  refine ⟨?_, by decide +kernel, by rw [exitStatus, hnext]⟩
  rw [Option.any_eq_true] at hzero
  obtain ⟨u, hunits, hnearer⟩ := hzero
  refine ⟨u, hunits, by rw [exitStatus, hone], fun hround => ?_⟩
  exact Nat.not_le_of_lt (of_decide_eq_true hnearer) (hround.nearest 0)

end Value

end DynLisp
