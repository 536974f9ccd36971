import DynLisp.Number.Decimal
import Mathlib.Algebra.Group.Nat.Defs

/-!
# Rounding what is a magnitude already

Rounding takes a fraction of units to the nearest magnitude.  A fraction that
*is* a magnitude comes out unchanged (`Rank.nearest_units`), and it does not
matter how the fraction is written (`Rank.nearest_mul_right`).

From there: a decimal that names a magnitude exactly reads as this magnitude
(`Decimal.rank_exact`, `Rank.ofDecimal_whole`), zeros may be moved between the
digits and the exponent (`Rank.ofDecimal_shift`), and the shortest decimal of a
magnitude always reads as this magnitude (`Decimal.rank_shortest`).
-/

namespace DynLisp

namespace Rank

theorem one_pos : 0 < one := by
  have hshift : ∀ k : Nat, 0 < 1 <<< k := by
    intro k
    rw [Nat.shiftLeft_eq, Nat.one_mul]
    exact Nat.two_pow_pos k
  exact hshift 1074

/-- A quotient that is whole is not rounded. -/
theorem roundDiv_mul (m : Nat) {q : Nat} (hq : 0 < q) : roundDiv (m * q) q = m := by
  have hwhole : m * q / q = m := Nat.mul_div_cancel m hq
  have hrest : m * q % q = 0 := Nat.mul_mod_left m q
  simp only [roundDiv, hwhole, hrest]
  rw [if_pos (by omega)]

/-- A common factor does not matter for the rounded quotient. -/
theorem roundDiv_mul_right (p q : Nat) {c : Nat} (hc : 0 < c) :
    roundDiv (p * c) (q * c) = roundDiv p q := by
  have hwhole : p * c / (q * c) = p / q := Nat.mul_div_mul_right p q hc
  have hrest : p * c % (q * c) = p % q * c := Nat.mul_mod_mul_right c p q
  have hless : 2 * (p % q * c) < q * c ↔ 2 * (p % q) < q := by
    rw [← Nat.mul_assoc, Nat.mul_lt_mul_right hc]
  have hmore : q * c < 2 * (p % q * c) ↔ q < 2 * (p % q) := by
    rw [← Nat.mul_assoc, Nat.mul_lt_mul_right hc]
  simp only [roundDiv, hwhole, hrest, hless, hmore]

/-- A quotient is rounded to one of the two whole numbers around it. -/
theorem roundDiv_eq_or (p q : Nat) : roundDiv p q = p / q ∨ roundDiv p q = p / q + 1 := by
  unfold roundDiv
  grind

/-- **How the fraction is written does not matter.** -/
theorem nearest_mul_right (p q : Nat) {c : Nat} (hc : 0 < c) :
    nearest (p * c) (q * c) = nearest p q := by
  have hquotient : p * c / (q * c) = p / q := Nat.mul_div_mul_right p q hc
  have hscale : ∀ s : Nat, (q * c) <<< s = (q <<< s) * c := by
    intro s
    rw [Nat.shiftLeft_eq, Nat.shiftLeft_eq, Nat.mul_right_comm]
  simp only [nearest, hquotient, hscale, roundDiv_mul_right p _ hc]

/-- The significand of a rank: its value is the significand with its shift. -/
def significand (r : Rank) : Nat := r.val - r.shift * 0x10000000000000

/-- A magnitude is its significand, shifted. -/
theorem units_eq (r : Rank) : r.units = r.significand * 2 ^ r.shift :=
  Nat.shiftLeft_eq _ _

/-- The place of a magnitude is told by its shift and its significand. -/
theorem shift_add_significand (r : Rank) :
    r.shift * 0x10000000000000 + r.significand = r.val := by
  have hle : r.shift * 0x10000000000000 ≤ r.val := by
    unfold shift
    omega
  unfold significand
  omega

/-- A significand has at most 53 digits. -/
theorem significand_lt (r : Rank) : r.significand < 2 ^ 53 := by
  unfold significand shift
  omega

/-- A significand with a shift has all its 53 digits. -/
theorem le_significand {r : Rank} (h : r.shift ≠ 0) : 2 ^ 52 ≤ r.significand := by
  unfold significand
  unfold shift at h ⊢
  omega

/-- The leading binary digit of a value has the weight that its shift gives it. -/
theorem log2_units_sub (r : Rank) : r.units.log2 - 52 = r.shift := by
  have hlt := r.significand_lt
  by_cases hshift : r.shift = 0
  · rw [units_eq, hshift, Nat.pow_zero, Nat.mul_one]
    by_cases hzero : r.significand = 0
    · rw [hzero]
      rfl
    · have hlog : r.significand.log2 < 53 := (Nat.log2_lt hzero).mpr hlt
      omega
  · have hge := le_significand hshift
    have hunits : r.units ≠ 0 := by
      rw [units_eq]
      exact Nat.mul_ne_zero (by omega) (Nat.pos_iff_ne_zero.mp (Nat.two_pow_pos _))
    have hlog : r.units.log2 = 52 + r.shift := by
      rw [Nat.log2_eq_iff hunits, units_eq]
      constructor
      · rw [Nat.pow_add]
        exact Nat.mul_le_mul_right _ hge
      · rw [show 52 + r.shift + 1 = 53 + r.shift by omega, Nat.pow_add]
        exact Nat.mul_lt_mul_of_pos_right hlt (Nat.two_pow_pos _)
    omega

/-- **What is a magnitude already** stays what it is. -/
theorem nearest_units (r : Rank) {q : Nat} (hq : 0 < q) :
    nearest (r.units * q) q = r := by
  have hquotient : r.units * q / q = r.units := Nat.mul_div_cancel _ hq
  have hscale : r.units * q = r.significand * (q * 2 ^ r.shift) := by
    rw [units_eq, Nat.mul_assoc, Nat.mul_comm (2 ^ r.shift) q]
  have hpos : 0 < q * 2 ^ r.shift := Nat.mul_pos hq (Nat.two_pow_pos _)
  simp only [nearest, hquotient, log2_units_sub, Nat.shiftLeft_eq]
  rw [hscale, roundDiv_mul _ hpos, shift_add_significand]
  apply Fin.ext
  show min r.val (2047 * 0x10000000000000) = r.val
  have hlast := r.isLt
  omega

/-- A magnitude is the nearest one to its own units. -/
theorem nearest_units_one (r : Rank) : nearest r.units 1 = r := by
  have hround := nearest_units r Nat.one_pos
  rwa [Nat.mul_one] at hround

/-- No other magnitude than zero has no units. -/
theorem eq_zero_of_units {r : Rank} (h : r.units = 0) : r = ofNat 0 := by
  have hround := nearest_units_one r
  rw [h] at hround
  exact hround.symm

/-- A whole number of wholes that is a magnitude reads as this magnitude. -/
theorem ofDecimal_whole {r : Rank} {n : Nat} (h : n * one = r.units) :
    ofDecimal n 0 = r := by
  simp only [ofDecimal, Nat.pow_eq]
  by_cases hzero : n = 0
  · rw [if_pos hzero]
    rw [hzero, Nat.zero_mul] at h
    exact (eq_zero_of_units h.symm).symm
  · rw [if_neg hzero, if_neg (by decide), if_neg (by omega)]
    have hround := nearest_units_one r
    rw [← h] at hround
    simpa using hround

/-- **Zeros at the end** of the digits may be moved into the exponent, as long as
neither is out of range. -/
theorem ofDecimal_shift (digits e : Nat) (he : e < 16) :
    ofDecimal (digits * 10 ^ (e + 1)) (-1) = ofDecimal digits e := by
  simp only [ofDecimal, Nat.pow_eq]
  by_cases hzero : digits = 0
  · simp [hzero]
  · have hten : digits * 10 ^ (e + 1) ≠ 0 :=
      Nat.mul_ne_zero hzero (Nat.pos_iff_ne_zero.mp (Nat.pow_pos (by decide)))
    rw [if_neg hten, if_neg (by decide), if_neg (by omega), if_neg hzero,
      if_neg (by omega), if_neg (by omega)]
    have hone : (10 : Nat) ^ (-1 : Int).toNat = 1 := rfl
    have hleft : digits * 10 ^ (e + 1) * 10 ^ (-1 : Int).toNat * one =
        digits * 10 ^ e * one * 10 := by
      rw [hone, Nat.mul_one, Nat.pow_succ, ← Nat.mul_assoc, Nat.mul_right_comm]
    have hright : (10 : Nat) ^ (- -1 : Int).toNat = 1 * 10 := rfl
    have hnone : (10 : Nat) ^ (-(e : Int)).toNat = 1 := by
      rw [show (-(e : Int)).toNat = 0 by omega, Nat.pow_zero]
    rw [hleft, hright, nearest_mul_right _ _ (by decide), hnone, Int.toNat_natCast]

/-- A magnitude in units, written with as many decimal places as one whole has
binary places, reads as this magnitude. -/
theorem ofDecimal_units {r : Rank} {k : Nat} (hk : one = 1 <<< k) (h : r.units ≠ 0) :
    ofDecimal (r.units * Nat.pow 5 k) (-k) = r := by
  have hdigits : r.units * 5 ^ k ≠ 0 :=
    Nat.mul_ne_zero h (Nat.pos_iff_ne_zero.mp (Nat.pow_pos (by decide)))
  have hlog : k ≤ (r.units * 5 ^ k).log2 := by
    have hfive : 2 ^ k ≤ 5 ^ k := Nat.pow_le_pow_left (by decide) k
    rw [Nat.le_log2 hdigits]
    exact Nat.le_trans hfive (Nat.le_mul_of_pos_left _ (Nat.pos_of_ne_zero h))
  have hnone : (10 : Nat) ^ (-(k : Int)).toNat = 1 := by
    rw [show (-(k : Int)).toNat = 0 by omega, Nat.pow_zero]
  have hten : (10 : Nat) ^ (- -(k : Int)).toNat = 5 ^ k * 2 ^ k := by
    rw [← Nat.mul_pow, Int.neg_neg, Int.toNat_natCast]
  simp only [ofDecimal, Nat.pow_eq]
  rw [if_neg hdigits, if_neg (by omega), if_neg (by omega), hnone, hten, hk,
    Nat.shiftLeft_eq, Nat.one_mul, Nat.mul_one, Nat.mul_assoc]
  exact nearest_units r (Nat.mul_pos (Nat.pow_pos (by decide)) (Nat.two_pow_pos k))

end Rank

namespace Decimal

/-- The decimal expansion of a magnitude reads as this magnitude. -/
theorem rank_exact {r : Rank} (h : r.units ≠ 0) : (exact r).rank = r := by
  -- The number of places gets a name, so that no tactic computes its powers.
  obtain ⟨k, hk⟩ : ∃ k, k = 1074 := ⟨1074, rfl⟩
  have hone : Rank.one = 1 <<< k := by
    rw [hk, Rank.one]
  have hplaces : (-1074 : Int) = -(k : Int) := by omega
  simp only [rank, exact]
  rw [hplaces, ← hk]
  exact Rank.ofDecimal_units hone h

/-- What is found on a grid was rounded before it was taken. -/
theorem rank_of_onGrid? {r : Rank} {e : Int} {d : Decimal} (h : onGrid? r e = some d) :
    d.rank = r := by
  simp only [onGrid?] at h
  generalize r.units * Nat.pow 10 (-e).toNat = p at h
  generalize Nat.pow 10 e.toNat * Rank.one = q at h
  by_cases hlower : (⟨p / q, e⟩ : Decimal).rank = r
  · rw [if_pos hlower] at h
    by_cases hupper : (⟨p / q + 1, e⟩ : Decimal).rank = r
    · rw [if_pos hupper] at h
      cases h
      rcases Rank.roundDiv_eq_or p q with hdown | hup
      · rw [hdown]
        exact hlower
      · rw [hup]
        exact hupper
    · rw [if_neg hupper] at h
      cases h
      exact hlower
  · rw [if_neg hlower] at h
    by_cases hupper : (⟨p / q + 1, e⟩ : Decimal).rank = r
    · rw [if_pos hupper] at h
      cases h
      exact hupper
    · rw [if_neg hupper] at h
      cases h

/-- **The shortest decimal** of a magnitude reads as this magnitude. -/
theorem rank_shortest (r : Rank) : (shortest r).rank = r := by
  unfold shortest
  by_cases hzero : r.units = 0
  · rw [if_pos hzero, Rank.eq_zero_of_units hzero]
    rfl
  · rw [if_neg hzero]
    cases hfound : (List.range 19).findSome? fun (i : Nat) => onGrid? r (leading r - i) with
    | none => exact rank_exact hzero
    | some d =>
        obtain ⟨i, -, hgrid⟩ := List.exists_of_findSome?_eq_some hfound
        exact rank_of_onGrid? hgrid

end Decimal

end DynLisp
