import DynLisp.Proofs.Number.Order
import DynLisp.Proofs.Number.Whole
import Mathlib.Data.Nat.Log

/-!
# Rounding whole numbers of units

A value that is rounded keeps its 53 leading binary digits; the rest is rounded off, to
nearest with ties to even (`Rank.rounded`).  If the result is finite, this is the value of
the magnitude that rounding gives (`Rank.units_nearest`).

* `Rank.rounded_mul_two_pow` — rounding looks at the digits and not at their place;
* `Rank.rounded_of_le` — 53 digits stay as they are;
* `Rank.rounded_eq` — more digits lose the last ones;
* `Rank.nearest_mono` — rounding respects the order.
-/

namespace DynLisp

namespace Rank

/-- The 53 leading binary digits of a value, the rest rounded off. -/
def rounded (p : Nat) : Nat := roundDiv p (2 ^ (p.log2 - 52)) * 2 ^ (p.log2 - 52)

/-- Rounded quotients are in the order of the numerators. -/
theorem roundDiv_mono {p p' : Nat} (h : p ≤ p') (q : Nat) : roundDiv p q ≤ roundDiv p' q := by
  have hwhole : p / q ≤ p' / q := Nat.div_le_div_right h
  rcases Nat.lt_or_eq_of_le hwhole with hless | hsame
  · have hup := roundDiv_eq_or p q
    have hdown := roundDiv_eq_or p' q
    omega
  · have hsplit := Nat.div_add_mod p q
    have hsplit' := Nat.div_add_mod p' q
    rw [← hsame] at hsplit'
    have hrest : p % q ≤ p' % q := by omega
    simp only [roundDiv, ← hsame]
    grind

/-- If there are digits to round off, the leading ones are 53. -/
theorem le_lead {p : Nat} (h : p.log2 - 52 ≠ 0) : 2 ^ 52 ≤ p / 2 ^ (p.log2 - 52) := by
  have hpos : p ≠ 0 := by
    rintro rfl
    exact h rfl
  rw [Nat.le_div_iff_mul_le (Nat.two_pow_pos _), ← Nat.pow_add,
    show 52 + (p.log2 - 52) = p.log2 by omega]
  exact Nat.log2_self_le hpos

/-- The place of the magnitude that is nearest to a number of units. -/
theorem val_nearest (p : Nat) : (nearest p 1).val =
    min ((p.log2 - 52) * 0x10000000000000 + roundDiv p (2 ^ (p.log2 - 52)))
      (2047 * 0x10000000000000) := by
  simp only [nearest, ofNat, Nat.div_one, Nat.shiftLeft_eq, Nat.one_mul]

/-- **What is rounded to a finite magnitude** has the value of its leading digits.  If they
are rounded up to a 54th digit, the shift of the magnitude takes this up. -/
theorem units_nearest {p : Nat} (h : nearest p 1 ≠ infinite) :
    (nearest p 1).units = rounded p := by
  have hval := val_nearest p
  rw [ne_infinite_iff] at h
  rw [rounded]
  have hlead := lead_lt p
  have hlow := le_lead (p := p)
  have hdigits := roundDiv_eq_or p (2 ^ (p.log2 - 52))
  generalize p.log2 - 52 = t at *
  generalize roundDiv p (2 ^ t) = digits at *
  generalize p / 2 ^ t = lead at *
  have hvalue : (nearest p 1).val = t * 0x10000000000000 + digits := by omega
  rw [units_eq]
  unfold significand shift
  rw [hvalue]
  by_cases hcarry : digits = 2 ^ 53
  · rw [show (t * 0x10000000000000 + digits) / 0x10000000000000 - 1 = t + 1 by omega,
      show t * 0x10000000000000 + digits - (t + 1) * 0x10000000000000 = 2 ^ 52 by omega,
      hcarry, Nat.pow_succ 2 t]
    omega
  · rw [show (t * 0x10000000000000 + digits) / 0x10000000000000 - 1 = t by omega,
      Nat.add_sub_cancel_left]

/-- **Rounding respects the order.** -/
theorem nearest_mono {p p' : Nat} (h : p ≤ p') : nearest p 1 ≤ nearest p' 1 := by
  rw [Fin.le_def, val_nearest, val_nearest]
  have hlog : p.log2 - 52 ≤ p'.log2 - 52 := by
    rw [Nat.log2_eq_log_two, Nat.log2_eq_log_two]
    exact Nat.sub_le_sub_right (Nat.log_mono_right h) 52
  have hlead := lead_lt p
  have hup := roundDiv_eq_or p (2 ^ (p.log2 - 52))
  have hdown := roundDiv_eq_or p' (2 ^ (p'.log2 - 52))
  rcases Nat.lt_or_eq_of_le hlog with hless | hsame
  · have hlead' := le_lead (p := p') (by omega)
    omega
  · have hdigits := roundDiv_mono h (2 ^ (p'.log2 - 52))
    rw [hsame]
    omega

/-- Rounding keeps 53 digits. -/
theorem rounded_eq_of_log2 {p e : Nat} (h : p.log2 - 52 = e) :
    rounded p = roundDiv p (2 ^ e) * 2 ^ e := by
  rw [rounded, h]

/-- **Digits to spare** are rounded off. -/
theorem rounded_eq {p e : Nat} (hlow : 2 ^ 52 * 2 ^ e ≤ p) (hhigh : p < 2 ^ 53 * 2 ^ e) :
    rounded p = roundDiv p (2 ^ e) * 2 ^ e := by
  refine rounded_eq_of_log2 ?_
  rw [← Nat.pow_add] at hlow hhigh
  have hpos : p ≠ 0 := Nat.pos_iff_ne_zero.mp (Nat.lt_of_lt_of_le (Nat.two_pow_pos _) hlow)
  have hlog : p.log2 = 52 + e :=
    (Nat.log2_eq_iff hpos).mpr ⟨hlow, by rwa [show 52 + e + 1 = 53 + e by omega]⟩
  omega

/-- What has a divisor for its digits to spare stays as it is. -/
theorem rounded_of_dvd {p : Nat} (h : 2 ^ (p.log2 - 52) ∣ p) : rounded p = p := by
  obtain ⟨m, hm⟩ := h
  have hround := roundDiv_mul m (Nat.two_pow_pos (p.log2 - 52))
  rw [Nat.mul_comm m, ← hm] at hround
  rw [rounded, hround, Nat.mul_comm, ← hm]

/-- **Up to 53 digits** stay as they are, and so does the first number with 54. -/
theorem rounded_of_le {p : Nat} (h : p ≤ 2 ^ 53) : rounded p = p := by
  refine rounded_of_dvd ?_
  rcases Nat.lt_or_eq_of_le h with hlt | rfl
  · have hlog : p.log2 - 52 = 0 := by
      by_cases hzero : p = 0
      · rw [hzero]
        rfl
      · have hless := (Nat.log2_lt hzero).mpr hlt
        omega
    rw [hlog]
    exact Nat.one_dvd p
  · rw [Nat.log2_two_pow]
    exact Nat.pow_dvd_pow 2 (by decide)

/-- **Rounding looks at the digits** and not at their place. -/
theorem rounded_mul_two_pow (p k : Nat) : rounded (p * 2 ^ k) = rounded p * 2 ^ k := by
  by_cases hzero : p = 0
  · rw [hzero, Nat.zero_mul, rounded_of_le (Nat.zero_le _), Nat.zero_mul]
  have hlog : (p * 2 ^ k).log2 = p.log2 + k := by
    rw [Nat.log2_eq_iff (Nat.mul_ne_zero hzero (Nat.pos_iff_ne_zero.mp (Nat.two_pow_pos k)))]
    constructor
    · rw [Nat.pow_add]
      exact Nat.mul_le_mul_right _ (Nat.log2_self_le hzero)
    · rw [show p.log2 + k + 1 = p.log2 + 1 + k by omega, Nat.pow_add]
      exact Nat.mul_lt_mul_of_pos_right Nat.lt_log2_self (Nat.two_pow_pos k)
  by_cases hspare : 52 ≤ p.log2
  · rw [rounded_eq_of_log2 (e := p.log2 - 52 + k) (by omega), Nat.pow_add,
      roundDiv_mul_right _ _ (Nat.two_pow_pos k), ← Nat.mul_assoc, rounded]
  · have hshort : rounded p = p := by
      refine rounded_of_dvd ?_
      rw [Nat.sub_eq_zero_of_le (by omega)]
      exact Nat.one_dvd p
    rw [hshort]
    refine rounded_of_dvd (Nat.dvd_mul_left_of_dvd (Nat.pow_dvd_pow 2 ?_) p)
    omega

end Rank

end DynLisp
