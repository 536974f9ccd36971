import DynLisp.Number.Numeral

/-!
# The shortest decimal of a magnitude

Of the decimals that round to a given magnitude, `Decimal.shortest` has the
fewest digits, and among those it is the nearest one; of two equally near
ones it has the even last digit.

It looks at coarse decimal grids first.  On each grid only the two points
next to the magnitude matter, and whether one of them will do is settled by
rounding it (`Rank.ofDecimal`).  Seventeen digits always suffice; were no grid
to have a point, the exact decimal expansion would be the answer, so that
the answer rounds to the magnitude in any case.
-/

namespace DynLisp

/-- The number `digits` times ten to the power `exponent`. -/
structure Decimal where
  digits : Nat
  exponent : Int
  deriving DecidableEq

namespace Decimal

/-- The magnitude nearest to the decimal. -/
def rank (d : Decimal) : Rank := Rank.ofDecimal d.digits d.exponent

/-- The best multiple of ten to the power `e` among the two next to the
magnitude, if one of them rounds to it. -/
def onGrid? (r : Rank) (e : Int) : Option Decimal :=
  let p := r.units * Nat.pow 10 (-e).toNat
  let q := Nat.pow 10 e.toNat * Rank.one
  let lower : Decimal := ⟨p / q, e⟩
  let upper : Decimal := ⟨p / q + 1, e⟩
  if lower.rank = r then
    if upper.rank = r then some ⟨Rank.roundDiv p q, e⟩ else some lower
  else if upper.rank = r then some upper
  else none

/-- An exponent of ten that the magnitude's leading digit has or falls one
short of, from the number of its binary digits. -/
def leading (r : Rank) : Int :=
  ((r.units.log2 : Int) - 1074) * 30103 / 100000 + 1

/-- The decimal expansion of the magnitude. -/
def exact (r : Rank) : Decimal := ⟨r.units * Nat.pow 5 1074, -1074⟩

/-- The shortest decimal that rounds to a finite magnitude. -/
def shortest (r : Rank) : Decimal :=
  if r.units = 0 then ⟨0, 0⟩
  else
    ((List.range 19).findSome? fun (i : Nat) => onGrid? r (leading r - i)).getD
      (exact r)

end Decimal

end DynLisp
