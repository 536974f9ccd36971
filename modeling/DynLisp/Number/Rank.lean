/-!
# Magnitudes and rounding

The magnitudes of binary64 numbers are numbered in increasing order: rank 0
is zero, rank 1 the least positive magnitude, and the last rank is infinity.
Every finite magnitude is a whole number of **units**, one unit being the
least positive magnitude (two to the power −1074), so that exact arithmetic
on magnitudes is arithmetic on natural numbers.

* `Rank.units` — the value of a rank, in units;
* `Rank.nearest` — the rank nearest to a fraction of naturals, in units; a
  value halfway between two ranks goes to the even one, and a value beyond
  the largest finite magnitude by half a step or more goes to infinity.

A rank with leading part `e` (its quotient by 2⁵², which is `0x10000000000000`)
and `e ≥ 1` stands for `(2⁵² + f) · 2^(e−1)` units, `f` being the remainder;
below 2⁵² a rank is its own value.  So with `s = e − 1` (zero for both smallest
leading parts) the value is `rank − s · 2⁵²`, shifted by `s`, throughout.
-/

namespace DynLisp

/-- A magnitude by its place in the order of all magnitudes. -/
abbrev Rank := Fin (2047 * 0x10000000000000 + 1)

namespace Rank

/-- The rank of infinity, the last one. -/
def infinite : Rank := Fin.last (2047 * 0x10000000000000)

/-- The rank with the given number; numbers past the last rank give infinity. -/
def ofNat (n : Nat) : Rank :=
  ⟨min n (2047 * 0x10000000000000), Nat.lt_succ_of_le (Nat.min_le_right ..)⟩

/-- Units in one whole. -/
def one : Nat := 1 <<< 1074

/-- The shift of a rank: its value is a multiple of two to this power. -/
def shift (r : Rank) : Nat := r.val / 0x10000000000000 - 1

/-- The value of a finite rank, in units. -/
def units (r : Rank) : Nat := (r.val - r.shift * 0x10000000000000) <<< r.shift

/-- The whole number nearest to `p / q`; of two equally near ones, the even. -/
def roundDiv (p q : Nat) : Nat :=
  let whole := p / q
  let rest := p % q
  if 2 * rest < q then whole
  else if q < 2 * rest then whole + 1
  else if whole % 2 = 0 then whole
  else whole + 1

/-- The rank nearest to `p / q` units.  The quotient has 53 leading binary
digits of weight `2 ^ s`; rounding to that weight may carry into the next
leading part, and the carry is the right rank because ranks are consecutive. -/
def nearest (p q : Nat) : Rank :=
  let s := (p / q).log2 - 52
  ofNat (s * 0x10000000000000 + roundDiv p (q <<< s))

end Rank

end DynLisp
