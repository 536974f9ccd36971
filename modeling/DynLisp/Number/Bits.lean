import DynLisp.Number.Basic

/-!
# The bits of a number

In the binary64 interchange format the topmost of 64 bits is the sign and the
others are the rank of the magnitude; ranks past infinity stand for `nan`.
-/

namespace DynLisp

namespace Number

/-- The number with the given 64 bits. -/
def ofBits (bits : Nat) : Number :=
  if h : bits % 0x8000000000000000 < 2047 * 0x10000000000000 + 1 then
    .signed (bits / 0x8000000000000000 % 2 == 1) ⟨bits % 0x8000000000000000, h⟩
  else .nan

/-- The 64 bits of a number, unless it is `nan`, which has many. -/
def toBits? : Number → Option Nat
  | .nan => none
  | .signed negative r => some ((if negative then 0x8000000000000000 else 0) + r.val)

end Number

end DynLisp
