import DynLisp.Number.Basic

/-!
# Arithmetic

Each operation takes the exact result and rounds it once, to nearest with
ties to even.  The exact result of a sum or a remainder is a whole number of
units; that of a product or a quotient is a fraction of units.

Infinities and zeros follow binary64: an operation without a limit (infinity
minus infinity, zero times infinity, zero over zero, a remainder by zero or
of infinity) gives `nan`; a sum that is exactly zero is negative only when
both operands are negative zeros; products and quotients carry the product of
the signs; a remainder carries the sign of its dividend.

`Number.roundAway?` is the whole number got by adding one half to the
magnitude and dropping the fraction.  The addition rounds like every other,
so the result is not always the whole number nearest to the operand.
-/

namespace DynLisp

namespace Number

/-- The number with the given exact value in units, rounded. -/
def ofInt (u : Int) : Number := ofUnits (decide (u < 0)) u.natAbs 1

/-- The sum. -/
def add : Number → Number → Number
  | .nan, _ => .nan
  | _, .nan => .nan
  | .signed m r, .signed n s =>
    if r = Rank.infinite then
      if s = Rank.infinite ∧ m ≠ n then .nan else .signed m r
    else if s = Rank.infinite then .signed n s
    else
      let u : Int := if m then -(r.units : Int) else r.units
      let v : Int := if n then -(s.units : Int) else s.units
      if u + v = 0 then .signed (m && n) (Rank.ofNat 0) else ofInt (u + v)

/-- The difference: the sum with the second operand's sign turned. -/
def sub (x y : Number) : Number := add x y.neg

/-- The product. -/
def mul : Number → Number → Number
  | .nan, _ => .nan
  | _, .nan => .nan
  | .signed m r, .signed n s =>
    if r = Rank.infinite ∨ s = Rank.infinite then
      if r.units = 0 ∨ s.units = 0 then .nan else infinity (m != n)
    else ofUnits (m != n) (r.units * s.units) Rank.one

/-- The quotient. -/
def div : Number → Number → Number
  | .nan, _ => .nan
  | _, .nan => .nan
  | .signed m r, .signed n s =>
    if r = Rank.infinite then
      if s = Rank.infinite then .nan else infinity (m != n)
    else if s = Rank.infinite then .signed (m != n) (Rank.ofNat 0)
    else if s.units = 0 then
      if r.units = 0 then .nan else infinity (m != n)
    else ofUnits (m != n) (r.units * Rank.one) s.units

/-- The remainder of the quotient cut off at the point. -/
def rem : Number → Number → Number
  | .nan, _ => .nan
  | _, .nan => .nan
  | .signed m r, .signed _ s =>
    if r = Rank.infinite ∨ s.units = 0 then .nan
    else if s = Rank.infinite then .signed m r
    else ofUnits m (r.units % s.units) 1

/-- One half. -/
def half : Number := ofUnits false Rank.one 2

/-- The magnitude plus one half, without its fraction and with the number's
sign; nothing for infinities and `nan`. -/
def roundAway? (x : Number) : Option Int :=
  match x with
  | .nan => none
  | .signed n r =>
    if r = Rank.infinite then none
    else
      (add (.signed false r) half).units?.map fun u =>
        let whole := u / (Rank.one : Int)
        if n then -whole else whole

end Number

end DynLisp
