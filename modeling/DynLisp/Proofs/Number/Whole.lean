import DynLisp.Number.Arithmetic
import DynLisp.Proofs.Number.Rounding

/-!
# Whole numbers among the magnitudes

What dropping the fraction of a number needs to know about the magnitudes.

* `Rank.exists_units` — a significand of 53 digits with a shift is the value of a
  finite magnitude;
* `Rank.exists_whole_part` — so is the whole part of any finite magnitude;
* `Rank.nearest_ne_infinite` — what is less than half a step above the largest
  finite magnitude is not rounded to infinity;
* `Number.add_half_eq` — so one half can be added to every finite magnitude.

Shifts are kept as variables throughout; the powers of two that they stand for are
never computed.
-/

namespace DynLisp

namespace Rank

/-- How many units one is. -/
theorem one_eq : one = 2 ^ 1074 := by
  have hshift : ∀ k : Nat, 1 <<< k = 2 ^ k := fun k => by
    rw [Nat.shiftLeft_eq, Nat.one_mul]
  exact hshift 1074

/-- One whole is two to a power, and so is one half. -/
theorem exists_one_eq : ∃ k, k + 1 = 1074 ∧ one = 2 ^ (k + 1) := by
  obtain ⟨k, hk⟩ : ∃ k, 1074 = k + 1 := ⟨1073, rfl⟩
  exact ⟨k, hk.symm, by rw [one_eq, hk]⟩

/-- The finite magnitudes are those with a place below the last. -/
theorem ne_infinite_iff {r : Rank} : r ≠ infinite ↔ r.val < 2047 * 0x10000000000000 := by
  have hlast := r.isLt
  constructor
  · intro h
    have hval : r.val ≠ 2047 * 0x10000000000000 := fun heq => h (Fin.ext heq)
    omega
  · rintro h rfl
    exact Nat.lt_irrefl _ h

/-- The greatest shift of a finite magnitude. -/
theorem shift_le {r : Rank} (h : r ≠ infinite) : r.shift ≤ 2045 := by
  have hval := ne_infinite_iff.mp h
  unfold shift
  omega

/-- The largest value with a shift that is not greater than the given one. -/
theorem units_le {r : Rank} {k : Nat} (h : r.shift ≤ k) :
    r.units ≤ (2 ^ 53 - 1) * 2 ^ k := by
  have hsignificand : r.significand ≤ 2 ^ 53 - 1 := Nat.le_sub_one_of_lt r.significand_lt
  rw [units_eq]
  exact Nat.mul_le_mul hsignificand (Nat.pow_le_pow_right Nat.two_pos h)

/-- **A significand with a shift** is the value of a magnitude: by induction on the
shift, which is lowered for as long as the significand has digits to spare. -/
theorem exists_units {m k : Nat} (hm : m < 2 ^ 53) (hk : k ≤ 2045) :
    ∃ r : Rank, r ≠ infinite ∧ r.units = m * 2 ^ k := by
  induction k generalizing m with
  | zero =>
      refine ⟨⟨m, by omega⟩, ne_infinite_iff.mpr (by show m < _; omega), ?_⟩
      have hshift : shift ⟨m, by omega⟩ = 0 := by
        show m / 0x10000000000000 - 1 = 0
        omega
      rw [units, hshift, Nat.shiftLeft_eq, Nat.zero_mul]
      rfl
  | succ k ih =>
      by_cases hspare : m < 2 ^ 52
      · obtain ⟨r, hfinite, hunits⟩ := ih (m := 2 * m) (by omega) (by omega)
        refine ⟨r, hfinite, ?_⟩
        rw [hunits, Nat.pow_succ, Nat.mul_comm 2 m, Nat.mul_assoc, Nat.mul_comm 2]
      · have hval : (k + 1) * 0x10000000000000 + m < 2047 * 0x10000000000000 := by omega
        refine ⟨⟨(k + 1) * 0x10000000000000 + m, by omega⟩, ne_infinite_iff.mpr hval, ?_⟩
        have hshift : shift ⟨(k + 1) * 0x10000000000000 + m, by omega⟩ = k + 1 := by
          show ((k + 1) * 0x10000000000000 + m) / 0x10000000000000 - 1 = k + 1
          omega
        rw [units, hshift, Nat.shiftLeft_eq]
        congr 1
        show (k + 1) * 0x10000000000000 + m - (k + 1) * 0x10000000000000 = m
        omega

/-- **The whole part** of a magnitude is a magnitude.  A magnitude with a large
shift has no fraction; below that the whole part has no more digits than the
significand. -/
theorem exists_whole_part {r : Rank} (h : r ≠ infinite) :
    ∃ s : Rank, s ≠ infinite ∧ s.units = r.units / one * one := by
  obtain ⟨k, hk, hone⟩ : ∃ k, k ≤ 2045 ∧ one = 2 ^ k := ⟨1074, by decide, one_eq⟩
  rw [hone]
  by_cases hshift : k ≤ r.shift
  · have hdvd : 2 ^ k ∣ r.units := by
      rw [units_eq]
      exact Nat.dvd_mul_left_of_dvd (Nat.pow_dvd_pow 2 hshift) _
    exact ⟨r, h, (Nat.div_mul_cancel hdvd).symm⟩
  · have hwhole : r.units / 2 ^ k ≤ r.significand := by
      refine Nat.div_le_of_le_mul ?_
      rw [units_eq, Nat.mul_comm (2 ^ k)]
      exact Nat.mul_le_mul_left _ (Nat.pow_le_pow_right Nat.two_pos (by omega))
    exact exists_units (Nat.lt_of_le_of_lt hwhole r.significand_lt) hk

/-- The leading digits are at most 53. -/
theorem lead_lt (p : Nat) : p / 2 ^ (p.log2 - 52) < 2 ^ 53 := by
  refine Nat.div_lt_of_lt_mul (Nat.lt_of_lt_of_le (Nat.lt_log2_self (n := p)) ?_)
  rw [← Nat.pow_add]
  exact Nat.pow_le_pow_right Nat.two_pos (by omega)

/-- **What rounds to a finite magnitude**: everything that is less than half a step
above the largest one.  The leading part is in order below the last shift; with the
last shift the significand must not be rounded up beyond its digits. -/
theorem nearest_ne_infinite {p k : Nat} (hk : k ≤ 2045)
    (h : 2 * p < (2 ^ 54 - 1) * 2 ^ k) : nearest p 1 ≠ infinite := by
  have hlog : p.log2 - 52 ≤ k := by
    by_cases hzero : p = 0
    · rw [hzero]
      exact Nat.zero_le k
    · have hlt : p < 2 ^ (53 + k) := by
        rw [Nat.pow_add]
        omega
      have hlog := (Nat.log2_lt hzero).mpr hlt
      omega
  have hlead := lead_lt p
  have hround : (p.log2 - 52) * 0x10000000000000 + roundDiv p (2 ^ (p.log2 - 52)) <
      2047 * 0x10000000000000 := by
    rcases Nat.lt_or_eq_of_le hlog with hlt | heq
    · have hcarry := roundDiv_eq_or p (2 ^ (p.log2 - 52))
      omega
    · rw [heq] at hlead ⊢
      have hkeep : roundDiv p (2 ^ k) < 2 ^ 53 := by
        have hsplit := Nat.div_add_mod p (2 ^ k)
        by_cases htop : p / 2 ^ k = 2 ^ 53 - 1
        · rw [htop] at hsplit
          have hdown : 2 * (p % 2 ^ k) < 2 ^ k := by omega
          simp only [roundDiv, if_pos hdown]
          exact hlead
        · have hcarry := roundDiv_eq_or p (2 ^ k)
          omega
      omega
  rw [ne_infinite_iff]
  simp only [nearest, Nat.div_one, Nat.shiftLeft_eq, Nat.one_mul]
  exact Nat.lt_of_le_of_lt (Nat.min_le_left _ _) hround

/-- One half is the value of a magnitude. -/
theorem exists_half :
    ∃ r : Rank, r ≠ infinite ∧ r.units = one / 2 ∧ nearest one 2 = r := by
  obtain ⟨k, hk, hone⟩ := exists_one_eq
  rw [Nat.pow_succ] at hone
  obtain ⟨r, hfinite, hunits⟩ := exists_units (m := 1) (by decide) (by omega : k ≤ 2045)
  rw [Nat.one_mul] at hunits
  refine ⟨r, hfinite, by omega, ?_⟩
  rw [hone, ← hunits]
  exact nearest_units r Nat.two_pos

end Rank

namespace Number

theorem isFinite_signed {negative : Bool} {r : Rank} (h : r ≠ Rank.infinite) :
    (signed negative r).isFinite = true :=
  bne_iff_ne.mpr h

/-- **One half more** than a finite magnitude is a finite magnitude. -/
theorem add_half_eq {r : Rank} (h : r ≠ Rank.infinite) :
    Rank.nearest (r.units + Rank.one / 2) 1 ≠ Rank.infinite ∧
      add (.signed false r) half = .signed false (Rank.nearest (r.units + Rank.one / 2) 1) := by
  obtain ⟨t, hfinite, hunits, ht⟩ := Rank.exists_half
  have hhalf : half = .signed false t := by
    rw [half, ofUnits, ht]
  rw [← hunits]
  obtain ⟨k, hk, hone⟩ := Rank.exists_one_eq
  constructor
  · have hshift := Rank.shift_le h
    have hbound := Rank.units_le (Nat.le_max_left r.shift 1075)
    have hsmall : 2 ^ (k + 1) < 2 ^ max r.shift 1075 :=
      Nat.pow_lt_pow_right Nat.one_lt_two (by omega)
    exact Rank.nearest_ne_infinite (k := max r.shift 1075) (by omega) (by omega)
  · have hhalfpos : 0 < t.units := by
      have hpos := Nat.two_pow_pos k
      rw [Nat.pow_succ] at hone
      omega
    have hsome : (r.units : Int) + t.units ≠ 0 := by omega
    have hsign : ¬(r.units : Int) + t.units < 0 := by omega
    have habs : ((r.units : Int) + t.units).natAbs = r.units + t.units := by omega
    rw [hhalf]
    simp only [add, if_neg h, if_neg hfinite, Bool.false_eq_true, if_false, if_neg hsome, ofInt,
      ofUnits, decide_eq_false hsign, habs]

/-- One half added to a finite magnitude is finite. -/
theorem add_half {r : Rank} (h : r ≠ Rank.infinite) :
    ∃ s : Rank, s ≠ Rank.infinite ∧ add (.signed false r) half = .signed false s :=
  ⟨_, add_half_eq h⟩

end Number

end DynLisp
