import DynLisp.Proofs.Number.Nearest
import Mathlib.Algebra.Order.Ring.Int

/-!
# Adding one half and dropping the fraction

The whole number nearest to a magnitude, the greater one of two equally near, is the whole
part of the magnitude with one half added.  Here the sum is rounded before its fraction is
dropped, and that can carry it over the next whole number.

A magnitude is a significand of 53 digits with a shift, so its sum with one half comes down
to a number of a few digits more, of which `Rank.rounded` keeps 53:

* `Rank.whole_add_half_small` — a magnitude with a shift up to that of one half;
* `Rank.whole_add_half_large` — a magnitude with a greater shift;
* `Rank.whole_rounded_cases` — so the whole part is right, unless the magnitude `Overshoots`.

Two kinds of magnitudes overshoot: the one just below one half, and the odd numbers that use
all their digits for the whole.
-/

namespace DynLisp

/-- The whole number nearest to a value in units, of two equally near ones the one farther
from zero. -/
structure RoundsAway (u n : Int) : Prop where
  nearest : ∀ m : Int, (u - n * Rank.one).natAbs ≤ (u - m * Rank.one).natAbs
  farther : ∀ m : Int, m ≠ n → (u - m * Rank.one).natAbs = (u - n * Rank.one).natAbs →
    m.natAbs < n.natAbs

/-- The values that one half, once added, carries too far: one half without its last digit,
and the odd numbers with 53 digits. -/
inductive Overshoots (u : Int) : Prop
  | belowHalf (h : 2 ^ 54 * u.natAbs = (2 ^ 53 - 1) * Rank.one)
  | odd (n : Nat) (hlow : 2 ^ 52 < n) (hhigh : n < 2 ^ 53) (hodd : n % 2 = 1)
      (h : u.natAbs = n * Rank.one)

namespace RoundsAway

variable {u n m : Int}

/-- There is one such whole number. -/
theorem unique (hn : RoundsAway u n) (hm : RoundsAway u m) : n = m := by
  by_contra hne
  have hsame := Nat.le_antisymm (hn.nearest m) (hm.nearest n)
  have hless := hm.farther n hne hsame
  have hmore := hn.farther m (Ne.symm hne) hsame.symm
  omega

/-- The whole number for the value with the other sign. -/
theorem neg (h : RoundsAway u n) : RoundsAway (-u) (-n) := by
  have hflip : ∀ k : Int, (-u - -k * Rank.one).natAbs = (u - k * Rank.one).natAbs := by
    intro k
    rw [Int.neg_mul, ← Int.natAbs_neg]
    congr 1
    omega
  have hback : ∀ k : Int, (-u - k * Rank.one).natAbs = (u - -k * Rank.one).natAbs := fun k => by
    rw [← hflip (-k), Int.neg_neg]
  constructor
  · intro k
    rw [hflip, hback]
    exact h.nearest _
  · intro k hne hsame
    rw [hflip, hback] at hsame
    have hless := h.farther (-k) (by omega) hsame
    omega

theorem neg_iff : RoundsAway (-u) (-n) ↔ RoundsAway u n :=
  ⟨fun h => Int.neg_neg u ▸ Int.neg_neg n ▸ h.neg, neg⟩

/-- A whole number is the one nearest to itself. -/
theorem self (m : Int) : RoundsAway (m * Rank.one) m := by
  have hpos := Rank.one_pos
  constructor
  · intro k
    rw [Int.sub_self]
    exact Nat.zero_le _
  · intro k hne hsame
    rw [Int.sub_self, Int.natAbs_zero, Int.natAbs_eq_zero, ← Int.sub_mul] at hsame
    rcases Int.mul_eq_zero.mp hsame with hzero | hzero <;> omega

/-- What is left of a value is at least minus one half and less than one half, and every step
to another whole number is worth two halves. -/
theorem of_rest {half : Int} (hone : (Rank.one : Int) = half * 2) (hu : 0 ≤ u)
    (hlow : -half ≤ u - n * Rank.one) (hhigh : u - n * Rank.one < half) : RoundsAway u n := by
  have hpos : 0 < half := by omega
  have hdist : ∀ m : Int, u - m * Rank.one = u - n * Rank.one - (m - n) * (half * 2) := by
    intro m
    rw [hone, Int.sub_mul]
    omega
  have habove : ∀ m : Int, n < m → half * 2 ≤ (m - n) * (half * 2) := fun m hm =>
    le_mul_of_one_le_left (by omega) (by omega)
  have hbelow : ∀ m : Int, m < n - 1 → (m - n) * (half * 2) ≤ -2 * (half * 2) := fun m hm =>
    Int.mul_le_mul_of_nonneg_right (by omega) (by omega)
  have hnext : (n - 1 - n) * (half * 2) = -(half * 2) := by
    rw [show n - 1 - n = -1 by omega, Int.neg_one_mul]
  constructor
  · intro m
    rcases Int.lt_trichotomy m n with hless | rfl | hmore
    · rcases Int.lt_or_eq_of_le (Int.le_sub_one_of_lt hless) with hfar | rfl
      · have hstep := hbelow m hfar
        rw [hdist m]
        omega
      · rw [hdist (n - 1), hnext]
        omega
    · exact Nat.le_refl _
    · have hstep := habove m hmore
      rw [hdist m]
      omega
  · intro m hne hsame
    rw [hdist m] at hsame
    rcases Int.lt_or_gt_of_ne hne with hless | hmore
    · rcases Int.lt_or_eq_of_le (Int.le_sub_one_of_lt hless) with hfar | rfl
      · have hstep := hbelow m hfar
        omega
      · -- A tie with the whole number below: then the value is above zero, and so is `n`.
        rw [hnext] at hsame
        have hsome : 0 < n * Rank.one := by omega
        have hn : 0 < n := pos_of_mul_pos_left hsome (Int.natCast_nonneg _)
        omega
    · have hstep := habove m hmore
      omega

/-- **One half more, without the fraction**, is the whole number nearest to a magnitude. -/
theorem whole_part (p : Nat) : RoundsAway p ((p + Rank.one / 2) / Rank.one : Nat) := by
  obtain ⟨k, -, hone⟩ := Rank.exists_one_eq
  rw [Nat.pow_succ] at hone
  have hcast : (Rank.one : Int) = (2 ^ k : Nat) * 2 := by
    rw [hone, Int.natCast_mul]
    rfl
  have hsplit := Nat.div_add_mod' (p + Rank.one / 2) Rank.one
  have hrest := Nat.mod_lt (p + Rank.one / 2) Rank.one_pos
  have hleft : ((p + Rank.one / 2) / Rank.one * Rank.one : Nat) =
      (((p + Rank.one / 2) / Rank.one : Nat) * Rank.one : Int) := Int.natCast_mul _ _
  exact of_rest hcast (Int.natCast_nonneg p) (by omega) (by omega)

end RoundsAway

namespace Overshoots

variable {u : Int}

theorem neg_iff : Overshoots (-u) ↔ Overshoots u := by
  constructor
  · rintro (h | ⟨n, hlow, hhigh, hodd, h⟩)
    · exact .belowHalf (Int.natAbs_neg u ▸ h)
    · exact .odd n hlow hhigh hodd (Int.natAbs_neg u ▸ h)
  · rintro (h | ⟨n, hlow, hhigh, hodd, h⟩)
    · exact .belowHalf ((Int.natAbs_neg u).symm ▸ h)
    · exact .odd n hlow hhigh hodd ((Int.natAbs_neg u).symm ▸ h)

/-- Zero does not overshoot. -/
theorem ne_zero (h : Overshoots u) : u ≠ 0 := by
  have hpos := Rank.one_pos
  rintro rfl
  rcases h with h | ⟨n, hlow, -, -, h⟩
  · rw [Int.natAbs_zero] at h
    omega
  · have hsome := Nat.mul_pos (Nat.lt_of_le_of_lt (Nat.zero_le _) hlow) hpos
    rw [← h, Int.natAbs_zero] at hsome
    exact Nat.lt_irrefl 0 hsome

/-- Of the whole numbers, the odd ones with 53 digits overshoot. -/
theorem whole_iff {m : Int} : Overshoots (m * Rank.one) ↔
    2 ^ 52 < m.natAbs ∧ m.natAbs < 2 ^ 53 ∧ m.natAbs % 2 = 1 := by
  have hone : Rank.one ≠ 0 := Nat.pos_iff_ne_zero.mp Rank.one_pos
  have habs : (m * Rank.one : Int).natAbs = m.natAbs * Rank.one := by
    rw [Int.natAbs_mul, Int.natAbs_natCast]
  constructor
  · rintro (h | ⟨n, hlow, hhigh, hodd, h⟩)
    · rw [habs, ← Nat.mul_assoc, Nat.mul_left_inj hone] at h
      omega
    · rw [habs, Nat.mul_left_inj hone] at h
      exact h ▸ ⟨hlow, hhigh, hodd⟩
  · rintro ⟨hlow, hhigh, hodd⟩
    exact .odd m.natAbs hlow hhigh hodd habs

end Overshoots

namespace Rank

/-! A magnitude with a shift up to that of one half: in the weight of its last digit, one half
is two to some power `g`, and one whole is twice that. -/

/-- If one half has up to 53 digits, the whole part stays.  Unless the sum is not rounded at all,
it is above 2⁵³, which is a number of wholes, by less than one half, and so it is not rounded to
the next whole. -/
theorem whole_add_short_half {m g : Nat} (hm : m < 2 ^ 53) (hg : g < 53) :
    rounded (m + 2 ^ g) / 2 ^ (g + 1) = (m + 2 ^ g) / 2 ^ (g + 1) := by
  by_cases hshort : m + 2 ^ g ≤ 2 ^ 53
  · rw [rounded_of_le hshort]
  · have hpow := Nat.pow_succ 2 g
    have hle : 2 ^ g ≤ 2 ^ 52 := Nat.pow_le_pow_right Nat.two_pos (by omega)
    have hround := rounded_eq (p := m + 2 ^ g) (e := 1) (by omega) (by omega)
    have hdigits := roundDiv_eq_or (m + 2 ^ g) (2 ^ 1)
    obtain ⟨c, hc⟩ : 2 ^ (g + 1) ∣ 2 ^ 53 := Nat.pow_dvd_pow 2 (by omega)
    have hwhole : ∀ p, 2 ^ 53 ≤ p → p < 2 ^ 53 + 2 ^ (g + 1) → p / 2 ^ (g + 1) = c := by
      intro p hlow hhigh
      rw [hc, Nat.mul_comm] at hlow hhigh
      rw [Nat.div_eq_iff (Nat.two_pow_pos _)]
      omega
    rw [hwhole _ (by omega) (by omega), hwhole _ (by omega) (by omega)]

/-- If one half has 54 digits, the sum is less than one whole, and it is rounded to one whole
only if the magnitude is one half without its last digit. -/
theorem whole_add_next_half {m : Nat} (hm : m + 1 < 2 ^ 53) :
    rounded (m + 2 ^ 53) / 2 ^ 54 = (m + 2 ^ 53) / 2 ^ 54 := by
  have hround := rounded_eq (p := m + 2 ^ 53) (e := 1) (by omega) (by omega)
  have hdigits : roundDiv (m + 2 ^ 53) (2 ^ 1) ≤ 2 ^ 53 - 1 := by
    have hle : m + 2 ^ 53 ≤ (2 ^ 53 - 1) * 2 ^ 1 := by omega
    have hmono := roundDiv_mono hle (2 ^ 1)
    rwa [roundDiv_mul _ (Nat.two_pow_pos 1)] at hmono
  omega

/-- If one half has more digits, the magnitude is less than one quarter, and the sum is not
rounded to one whole. -/
theorem whole_add_long_half {m e : Nat} (hm : m < 2 ^ 53) :
    rounded (m + 2 ^ (52 + (e + 2))) / 2 ^ (52 + (e + 2) + 1) =
      (m + 2 ^ (52 + (e + 2))) / 2 ^ (52 + (e + 2) + 1) := by
  have hpow := Nat.pow_succ 2 (52 + (e + 2))
  have hsplit := Nat.pow_add 2 52 (e + 2)
  have hpos := Nat.two_pow_pos e
  have hshift : 2 ^ (e + 2) = 2 ^ e * 4 := by
    rw [Nat.pow_add]
  have hround := rounded_eq (p := m + 2 ^ (52 + (e + 2))) (e := e + 2) (by omega) (by omega)
  have hdigits := roundDiv_eq_or (m + 2 ^ (52 + (e + 2))) (2 ^ (e + 2))
  have hlead : (m + 2 ^ (52 + (e + 2))) / 2 ^ (e + 2) ≤ 2 ^ 51 + 2 ^ 52 := by
    rw [hsplit, Nat.add_mul_div_right _ _ (Nat.two_pow_pos _)]
    refine Nat.add_le_add_right (Nat.div_le_of_le_mul ?_) _
    omega
  have hless : rounded (m + 2 ^ (52 + (e + 2))) < 2 ^ (52 + (e + 2) + 1) := by
    rw [hround]
    calc roundDiv (m + 2 ^ (52 + (e + 2))) (2 ^ (e + 2)) * 2 ^ (e + 2)
        ≤ (2 ^ 51 + 2 ^ 52 + 1) * 2 ^ (e + 2) := Nat.mul_le_mul_right _ (by omega)
      _ < 2 ^ (52 + (e + 2) + 1) := by omega
  rw [Nat.div_eq_of_lt hless, Nat.div_eq_of_lt (by omega)]

/-- **A magnitude with a shift up to that of one half** has the right whole part with one half
added, unless it is one half without its last digit. -/
theorem whole_add_half_small {m g : Nat} (hm : m < 2 ^ 53) (h : ¬(g = 53 ∧ m + 1 = 2 ^ 53)) :
    rounded (m + 2 ^ g) / 2 ^ (g + 1) = (m + 2 ^ g) / 2 ^ (g + 1) := by
  rcases Nat.lt_trichotomy g 53 with hless | rfl | hmore
  · exact whole_add_short_half hm hless
  · exact whole_add_next_half (by omega)
  · obtain ⟨e, rfl⟩ : ∃ e, g = 52 + (e + 2) := ⟨g - 54, by omega⟩
    exact whole_add_long_half hm

/-- **A magnitude with a greater shift**, with one half added: only with the least such shift
is one half not less than half of the last digit, and the tie goes to the even one. -/
theorem whole_add_half_large {m j : Nat} (hlow : 2 ^ 52 ≤ m) (hm : m < 2 ^ 53) :
    rounded (m * 2 ^ (j + 1) + 1) / 2 = if j = 0 ∧ m % 2 = 1 then m + 1 else m * 2 ^ j := by
  have hpow := Nat.pow_succ 2 j
  have hpos := Nat.two_pow_pos j
  have hround := rounded_eq (p := m * 2 ^ (j + 1) + 1) (e := j + 1)
    (Nat.le_succ_of_le (Nat.mul_le_mul_right _ hlow)) (by
      have hnext : (m + 1) * 2 ^ (j + 1) ≤ 2 ^ 53 * 2 ^ (j + 1) := Nat.mul_le_mul_right _ hm
      rw [Nat.add_mul] at hnext
      omega)
  have hwhole : (m * 2 ^ (j + 1) + 1) / 2 ^ (j + 1) = m := by
    rw [Nat.mul_comm, Nat.mul_add_div (Nat.two_pow_pos _), Nat.div_eq_of_lt (by omega),
      Nat.add_zero]
  have hrest : (m * 2 ^ (j + 1) + 1) % 2 ^ (j + 1) = 1 := by
    rw [Nat.mul_comm, Nat.mul_add_mod, Nat.mod_eq_of_lt (by omega)]
  rw [hround]
  simp only [roundDiv, hwhole, hrest]
  by_cases htie : j = 0
  · subst htie
    split_ifs <;> omega
  · obtain ⟨i, rfl⟩ := Nat.exists_eq_succ_of_ne_zero htie
    have hless : 2 * 1 < 2 ^ (i + 1 + 1) := by
      have hpos' := Nat.two_pow_pos i
      omega
    rw [if_pos hless, if_neg (fun h => htie h.1), hpow, ← Nat.mul_assoc,
      Nat.mul_div_cancel _ Nat.two_pos]

/-- With a shift up to that of one half, only one half without its last digit overshoots. -/
theorem overshoots_small {m k g : Nat} (hm : m < 2 ^ 53) (hone : one = 2 ^ (g + 1) * 2 ^ k) :
    Overshoots (m * 2 ^ k : Nat) ↔ g = 53 ∧ m + 1 = 2 ^ 53 := by
  have hpos := Nat.two_pow_pos k
  constructor
  · rintro (h | ⟨n, hlow, -, -, h⟩)
    · rw [Int.natAbs_natCast, hone, ← Nat.mul_assoc, ← Nat.mul_assoc,
        Nat.mul_left_inj (Nat.pos_iff_ne_zero.mp hpos), Nat.pow_succ 2 g] at h
      have hless : g ≤ 53 := by
        by_contra hmore
        have hle : 2 ^ 54 ≤ 2 ^ g := Nat.pow_le_pow_right Nat.two_pos (by omega)
        omega
      rcases Nat.lt_or_eq_of_le hless with hlt | rfl
      · obtain ⟨c, hc⟩ : 2 ^ g * 2 ∣ 2 ^ 53 := Nat.pow_dvd_pow 2 (by omega : g + 1 ≤ 53)
        have heven : 2 * (c * m) * (2 ^ g * 2) = (2 ^ 53 - 1) * (2 ^ g * 2) := by
          rw [← h, show 2 ^ 54 = 2 ^ 53 * 2 from rfl, hc]
          ac_rfl
        have hpow := Nat.two_pow_pos g
        have hcancel := Nat.eq_of_mul_eq_mul_right (by omega) heven
        omega
      · exact ⟨rfl, by omega⟩
    · rw [Int.natAbs_natCast, hone, ← Nat.mul_assoc,
        Nat.mul_left_inj (Nat.pos_iff_ne_zero.mp hpos), Nat.pow_succ 2 g] at h
      have hmore : n * 2 ≤ n * (2 ^ g * 2) :=
        Nat.mul_le_mul_left _ (Nat.le_mul_of_pos_left 2 (Nat.two_pow_pos g))
      omega
  · rintro ⟨rfl, hlast⟩
    refine .belowHalf ?_
    rw [Int.natAbs_natCast, hone, show m = 2 ^ 53 - 1 by omega, Nat.mul_left_comm]

/-- With a greater shift, only odd numbers overshoot. -/
theorem overshoots_large {m k j : Nat} (hlow : 2 ^ 52 ≤ m) (hm : m < 2 ^ 53)
    (hone : one = 2 ^ (k + 1)) :
    Overshoots (m * 2 ^ (k + 1 + j) : Nat) ↔ j = 0 ∧ m % 2 = 1 := by
  have hpos := Nat.two_pow_pos (k + 1)
  have hscale : m * 2 ^ (k + 1 + j) = m * 2 ^ j * 2 ^ (k + 1) := by
    rw [Nat.add_comm, Nat.pow_add, Nat.mul_assoc]
  have hgrow : j ≠ 0 → m * 2 ≤ m * 2 ^ j := fun hj =>
    Nat.mul_le_mul_left _ (Nat.pow_le_pow_right Nat.two_pos (Nat.pos_of_ne_zero hj))
  have hle : m ≤ m * 2 ^ j := Nat.le_mul_of_pos_right m (Nat.two_pow_pos j)
  rw [hscale]
  constructor
  · rintro (h | ⟨n, -, hhigh, hodd, h⟩)
    · rw [Int.natAbs_natCast, hone, ← Nat.mul_assoc,
        Nat.mul_left_inj (Nat.pos_iff_ne_zero.mp hpos)] at h
      omega
    · rw [Int.natAbs_natCast, hone, Nat.mul_left_inj (Nat.pos_iff_ne_zero.mp hpos)] at h
      obtain rfl : j = 0 := by
        by_contra hj
        have hmore := hgrow hj
        omega
      rw [Nat.pow_zero, Nat.mul_one] at h
      exact ⟨rfl, h ▸ hodd⟩
  · rintro ⟨rfl, hodd⟩
    refine .odd m (by omega) hm hodd ?_
    rw [Int.natAbs_natCast, hone, Nat.pow_zero, Nat.mul_one]

/-- What the rounded sum of a value and one half can be. -/
def WholeCases (u : Nat) : Prop :=
  (Overshoots u ∧ rounded (u + one / 2) / one = (u + one / 2) / one + 1) ∨
    (¬Overshoots u ∧ rounded (u + one / 2) / one = (u + one / 2) / one)

/-- The cases where one half is among the digits of the value or in front of them. -/
theorem wholeCases_small {m k g : Nat} (hm : m < 2 ^ 53) (hone : one = 2 ^ (g + 1) * 2 ^ k) :
    WholeCases (m * 2 ^ k) := by
  have hhalf : one / 2 = 2 ^ g * 2 ^ k := by
    rw [hone, Nat.pow_succ 2 g, Nat.mul_right_comm, Nat.mul_div_cancel _ Nat.two_pos]
  rw [WholeCases, hhalf, overshoots_small hm hone, ← Nat.add_mul, rounded_mul_two_pow, hone,
    Nat.mul_div_mul_right _ _ (Nat.two_pow_pos k), Nat.mul_div_mul_right _ _ (Nat.two_pow_pos k)]
  by_cases hlast : g = 53 ∧ m + 1 = 2 ^ 53
  · refine .inl ⟨hlast, ?_⟩
    obtain ⟨rfl, hlast⟩ := hlast
    obtain rfl : m = 2 ^ 53 - 1 := by omega
    decide +kernel
  · exact .inr ⟨hlast, whole_add_half_small hm hlast⟩

/-- The cases where one half is beyond the last digit. -/
theorem wholeCases_large {m k j : Nat} (hlow : 2 ^ 52 ≤ m) (hm : m < 2 ^ 53)
    (hone : one = 2 ^ (k + 1)) : WholeCases (m * 2 ^ (k + 1 + j)) := by
  have hhalf : one / 2 = 2 ^ k := by
    rw [hone, Nat.pow_succ 2 k, Nat.mul_div_cancel _ Nat.two_pos]
  have hsum : m * 2 ^ (k + 1 + j) + 2 ^ k = (m * 2 ^ (j + 1) + 1) * 2 ^ k := by
    rw [Nat.add_mul, Nat.one_mul, Nat.mul_assoc, ← Nat.pow_add,
      show k + 1 + j = j + 1 + k by omega]
  have hwhole : (m * 2 ^ (j + 1) + 1) / 2 = m * 2 ^ j := by
    rw [Nat.pow_succ, ← Nat.mul_assoc]
    omega
  rw [WholeCases, hhalf, overshoots_large hlow hm hone, hsum, rounded_mul_two_pow, hone,
    show 2 ^ (k + 1) = 2 * 2 ^ k from Nat.pow_succ', Nat.mul_div_mul_right _ _ (Nat.two_pow_pos k),
    Nat.mul_div_mul_right _ _ (Nat.two_pow_pos k), whole_add_half_large hlow hm, hwhole]
  by_cases htie : j = 0 ∧ m % 2 = 1
  · refine .inl ⟨htie, ?_⟩
    rw [if_pos htie, htie.1, Nat.pow_zero, Nat.mul_one]
  · exact .inr ⟨htie, if_neg htie⟩

/-- **The whole part of the rounded sum** of a magnitude and one half is the one of the exact
sum, or the next one where the magnitude overshoots. -/
theorem whole_rounded_cases (r : Rank) : WholeCases r.units := by
  obtain ⟨k, -, hone⟩ := exists_one_eq
  have hm := r.significand_lt
  rw [units_eq]
  rcases Nat.lt_or_ge k r.shift with hlarge | hsmall
  · -- One half is beyond the last digit.
    obtain ⟨j, hj⟩ : ∃ j, r.shift = k + 1 + j := Nat.exists_eq_add_of_le hlarge
    rw [hj]
    exact wholeCases_large (le_significand (by omega)) hm hone
  · -- One half is among the digits or in front of them.
    obtain ⟨g, hg⟩ := Nat.exists_eq_add_of_le hsmall
    refine wholeCases_small (g := g) hm ?_
    rw [hone, ← Nat.pow_add, show g + 1 + r.shift = k + 1 by omega]

end Rank

end DynLisp
