import DynLisp.Number.Arithmetic
import DynLisp.Number.Decimal

/-!
# The text of a number

A finite number is written with the fewest digits that identify it
(`Decimal.shortest`): positionally when the exponent of its leading digit is
at least −4 and below 16, and otherwise as one digit, a fraction if there is
one, and a signed exponent of at least two digits.

Two printers share this layout.  `Number.text` writes whole numbers as plain
integers, all digits, and both zeros as `0`; `Number.inspect` keeps a point
in positional numbers and the sign of zero, so that a number can be told
apart from an integer.
-/

namespace DynLisp

namespace Decimal

/-- A decimal with its point in place; a whole number ends in a point and a
zero. -/
def positional (digits : List Char) (exponent : Int) : List Char :=
  if 0 ≤ exponent then
    digits ++ List.replicate exponent.toNat '0' ++ ['.', '0']
  else
    let places := (-exponent).toNat
    if places < digits.length then
      digits.take (digits.length - places) ++
        '.' :: digits.drop (digits.length - places)
    else
      '0' :: '.' :: (List.replicate (places - digits.length) '0' ++ digits)

/-- A decimal with one digit before the point, by the exponent of that
digit. -/
def scientific (digits : List Char) (lead : Int) : List Char :=
  let sign := if lead < 0 then '-' else '+'
  let size := Nat.toDigits 10 lead.natAbs
  let fraction := if digits.length ≤ 1 then [] else '.' :: digits.drop 1
  digits.take 1 ++ fraction ++
    'e' :: sign :: (List.replicate (2 - size.length) '0' ++ size)

/-- A decimal in the layout that its size asks for. -/
def layout (d : Decimal) : List Char :=
  let digits := Nat.toDigits 10 d.digits
  let lead := d.exponent + digits.length - 1
  if -4 ≤ lead ∧ lead < 16 then positional digits d.exponent
  else scientific digits lead

end Decimal

namespace Number

/-- A minus sign, for a negative number. -/
def signText (negative : Bool) : List Char := if negative then ['-'] else []

/-- An integer in plain digits. -/
def integerText (n : Int) : List Char :=
  signText (decide (n < 0)) ++ Nat.toDigits 10 n.natAbs

/-- The number as the language writes it, on characters. -/
def textChars : Number → List Char
  | .nan => ['N', 'a', 'N']
  | .signed negative r =>
    if r = Rank.infinite then signText negative ++ ['i', 'n', 'f']
    else
      match (Number.signed negative r).toInt? with
      | some n => integerText n
      | none => signText negative ++ (Decimal.shortest r).layout

/-- The number as the language writes it. -/
def text (x : Number) : String := String.ofList x.textChars

/-- The number with its point and its sign kept. -/
def inspect : Number → String
  | .nan => "nan"
  | .signed negative r =>
    String.ofList <| signText negative ++
      if r = Rank.infinite then ['i', 'n', 'f']
      else (Decimal.shortest r).layout

end Number

end DynLisp
