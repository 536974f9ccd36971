import DynLisp.Proofs.Number.Whole
import Mathlib.Algebra.Order.Group.Defs
import Mathlib.Algebra.Order.Group.Int
import Mathlib.Data.Int.ConditionallyCompleteOrder
import Mathlib.Order.ConditionallyCompleteLattice.Basic
import Mathlib.Order.Fin.Basic
import Mathlib.Order.WithBot

/-!
# The order of numbers

Numbers compare by their signed ranks.  Ranks are in the order of the magnitudes that they
stand for (`Rank.units_strictMono`), so numbers compare as their exact values do: those of
finite numbers in units, with one value below and one above all of them for the infinities
(`Number.value?`).  What is not a number has no value and stands in no relation.

* `Number.Stand` — the exact values of two numbers stand in a relation;
* `Number.lt_iff`, `Number.le_iff`, `Number.eq_iff` — the three comparisons.
-/

namespace DynLisp

/-- Where the values of numbers lie: whole numbers of units, and one value below and one
above all of them. -/
abbrev Number.Line := WithBot (WithTop Int)

namespace Rank

open Number (Line)

/-- **Greater ranks have greater values.**  With the same shift the significand decides; a
greater shift outweighs every significand, because it comes with all 53 digits. -/
theorem units_strictMono : StrictMono units := by
  intro r s hlt
  have hval : r.val < s.val := hlt
  have hr := r.shift_add_significand
  have hs := s.shift_add_significand
  rw [units_eq, units_eq]
  by_cases hshift : r.shift = s.shift
  · rw [hshift]
    exact Nat.mul_lt_mul_of_pos_right (by omega) (Nat.two_pow_pos _)
  · have hless : r.shift < s.shift := by
      unfold shift at hshift ⊢
      omega
    calc r.significand * 2 ^ r.shift
        < 2 ^ 53 * 2 ^ r.shift :=
          Nat.mul_lt_mul_of_pos_right r.significand_lt (Nat.two_pow_pos _)
      _ = 2 ^ 52 * 2 ^ (r.shift + 1) := by
          rw [Nat.pow_succ 2 r.shift, Nat.mul_comm (2 ^ r.shift), ← Nat.mul_assoc,
            ← Nat.pow_succ]
      _ ≤ 2 ^ 52 * 2 ^ s.shift :=
          Nat.mul_le_mul_left _ (Nat.pow_le_pow_right Nat.two_pos hless)
      _ ≤ s.significand * 2 ^ s.shift := Nat.mul_le_mul_right _ (le_significand (by omega))

/-- A magnitude other than zero has units. -/
theorem units_pos {r : Rank} (h : 0 < r.val) : 0 < r.units := by
  refine Nat.pos_of_ne_zero fun hzero => ?_
  rw [eq_zero_of_units hzero] at h
  exact Nat.lt_irrefl 0 h

/-- The place of a magnitude with a sign among all signed magnitudes. -/
def signed (negative : Bool) (r : Rank) : Int := if negative then -(r.val : Int) else r.val

/-- The exact value of a magnitude with a sign: in units, or beyond all units. -/
def value (negative : Bool) (r : Rank) : Line :=
  if r = infinite then if negative then ⊥ else ((⊤ : WithTop Int) : Line)
  else ((if negative then -(r.units : Int) else r.units : Int) : WithTop Int)

variable {m n : Bool} {r s : Rank}

/-- The exact value of a finite magnitude: its units, with the sign. -/
theorem value_of_ne (h : r ≠ infinite) :
    value n r = (((if n then -(r.units : Int) else r.units : Int) : WithTop Int) : Line) :=
  if_neg h

/-- Signed magnitudes in order have exact values in order. -/
theorem value_lt_value (h : signed m r < signed n s) : value m r < value n s := by
  have hlast : (infinite : Rank).val = 2047 * 0x10000000000000 := rfl
  unfold signed at h
  rcases eq_or_ne r infinite with rfl | hr <;> rcases eq_or_ne s infinite with rfl | hs
  · cases m <;> cases n <;> simp_all [value]
  · have hs' := ne_infinite_iff.mp hs
    rw [value_of_ne hs]
    cases m with
    | false => cases n <;> simp only [Bool.false_eq_true, if_false, if_true] at h <;> omega
    | true => exact WithBot.bot_lt_coe _
  · have hr' := ne_infinite_iff.mp hr
    rw [value_of_ne hr]
    cases n with
    | false => exact WithBot.coe_lt_coe.mpr (WithTop.coe_lt_top _)
    | true => cases m <;> simp only [Bool.false_eq_true, if_false, if_true] at h <;> omega
  · have hless : r.val < s.val → r.units < s.units := fun hlt => units_strictMono hlt
    have hmore : s.val < r.val → s.units < r.units := fun hlt => units_strictMono hlt
    have hr' : 0 < r.val → 0 < r.units := units_pos
    have hs' : 0 < s.val → 0 < s.units := units_pos
    rw [value_of_ne hr, value_of_ne hs, WithBot.coe_lt_coe, WithTop.coe_lt_coe]
    cases m <;> cases n <;> simp only [Bool.false_eq_true, if_false, if_true] at h ⊢ <;> omega

/-- Signed magnitudes in the same place have the same exact value: only the two zeros are
different and share their place. -/
theorem value_eq_value (h : signed m r = signed n s) : value m r = value n s := by
  have hzero : ∀ n,
      value n ⟨0, Nat.zero_lt_succ _⟩ = value false ⟨0, Nat.zero_lt_succ _⟩ := by
    intro n
    cases n <;> rfl
  unfold signed at h
  by_cases hsign : m = n
  · have hval : r = s := by
      subst hsign
      apply Fin.ext
      cases m <;> simp only [Bool.false_eq_true, if_false, if_true] at h <;> omega
    rw [hsign, hval]
  · have hvals : r.val = 0 ∧ s.val = 0 := by
      cases m <;> cases n
      · exact absurd rfl hsign
      · simp only [Bool.false_eq_true, if_false, if_true] at h
        omega
      · simp only [Bool.false_eq_true, if_false, if_true] at h
        omega
      · exact absurd rfl hsign
    have hr : r = ⟨0, Nat.zero_lt_succ _⟩ := Fin.ext hvals.1
    have hs : s = ⟨0, Nat.zero_lt_succ _⟩ := Fin.ext hvals.2
    rw [hr, hs, hzero m, hzero n]

/-- **Signed places are in the order of the exact values.** -/
theorem value_lt_value_iff : value m r < value n s ↔ signed m r < signed n s := by
  refine ⟨fun h => Int.not_le.mp fun hle => ?_, value_lt_value⟩
  rcases Int.lt_or_eq_of_le hle with hlt | heq
  · exact lt_asymm h (value_lt_value hlt)
  · exact h.ne (value_eq_value heq).symm

/-- The same for less or equal. -/
theorem value_le_value_iff : value m r ≤ value n s ↔ signed m r ≤ signed n s := by
  rw [← not_lt, value_lt_value_iff, Int.not_lt]

end Rank

namespace Number

/-- The exact value of a number. -/
def value? : Number → Option Line
  | .nan => none
  | .signed negative r => some (Rank.value negative r)

/-- The exact values of two numbers stand in a relation. -/
def Stand (rel : Line → Line → Prop) (x y : Number) : Prop :=
  ∃ a b, x.value? = some a ∧ y.value? = some b ∧ rel a b

/-- A comparison of ranks is a comparison of exact values. -/
theorem compareBy_iff {test : Int → Int → Bool} {rel : Line → Line → Prop}
    (h : ∀ m r n s, test (Rank.signed m r) (Rank.signed n s) = true ↔
      rel (Rank.value m r) (Rank.value n s)) (x y : Number) :
    compareBy test x y = true ↔ Stand rel x y := by
  cases x with
  | nan => exact ⟨fun h => (nomatch h), fun ⟨_, _, h, _⟩ => nomatch h⟩
  | signed m r =>
      cases y with
      | nan => exact ⟨fun h => (nomatch h), fun ⟨_, _, _, h, _⟩ => nomatch h⟩
      | signed n s =>
          refine (h m r n s).trans ⟨fun hrel => ⟨_, _, rfl, rfl, hrel⟩, ?_⟩
          rintro ⟨_, _, hx, hy, hrel⟩
          cases hx
          cases hy
          exact hrel

/-- **Less** is less of the exact values. -/
theorem lt_iff {x y : Number} : x.lt y = true ↔ Stand (· < ·) x y :=
  compareBy_iff (fun _ _ _ _ => decide_eq_true_iff.trans Rank.value_lt_value_iff.symm) x y

/-- **Less or equal** likewise. -/
theorem le_iff {x y : Number} : x.le y = true ↔ Stand (· ≤ ·) x y :=
  compareBy_iff (fun _ _ _ _ => decide_eq_true_iff.trans Rank.value_le_value_iff.symm) x y

/-- **Equal** numbers have the same exact value, so the two zeros are equal. -/
theorem eq_iff {x y : Number} : x.eq y = true ↔ Stand (· = ·) x y := by
  refine compareBy_iff (fun m r n s => beq_iff_eq.trans ?_) x y
  rw [Int.eq_iff_le_and_ge, ← Rank.value_le_value_iff, ← Rank.value_le_value_iff,
    ← le_antisymm_iff]

end Number

end DynLisp
