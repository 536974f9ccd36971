import DynLisp.Number.Basic
import DynLisp.Text.DecimalDigit

/-!
# Numerals

A numeral is an optional minus sign; digits, with a point before, after or
among them; and an optional exponent, marked `e` or `E`, with an optional
sign and at least one digit.  There is at least one digit beside the point,
and digits may be of any script.

`Numeral.parse?` reads one, and `Numeral.number` is the number nearest to the
decimal fraction that it spells.  `Rank.ofDecimal` does the rounding.  It
answers decimals far out of range without computing them: from ten to the
power 310 on a magnitude is infinite, and one below ten to the power −325 is
zero, because half the least positive magnitude is greater.
-/

namespace DynLisp

/-- The parts of a written number. -/
structure Numeral where
  negative : Bool
  /-- The digits before the point. -/
  whole : List Nat
  /-- The digits after the point. -/
  fraction : List Nat
  exponent : Int
  deriving DecidableEq

/-- The magnitude nearest to `digits` times ten to the power `exponent`. -/
def Rank.ofDecimal (digits : Nat) (exponent : Int) : Rank :=
  if digits = 0 then Rank.ofNat 0
  else if 310 ≤ exponent then Rank.infinite
  else if exponent + digits.log2 < -326 then Rank.ofNat 0
  else
    Rank.nearest (digits * Nat.pow 10 exponent.toNat * Rank.one)
      (Nat.pow 10 (-exponent).toNat)

namespace Numeral

/-- The number that a numeral stands for. -/
def number (n : Numeral) : Number :=
  .signed n.negative
    (Rank.ofDecimal (Text.digitsValue (n.whole ++ n.fraction))
      (n.exponent - n.fraction.length))

/-- The leading digits and what follows them. -/
def spanDigits : List Char → List Nat × List Char
  | [] => ([], [])
  | c :: cs =>
    match Text.digitValue? c with
    | some d => ((d :: (spanDigits cs).1), (spanDigits cs).2)
    | none => ([], c :: cs)

/-- A number of at least one digit, with nothing after it. -/
def digits? (cs : List Char) : Option Nat :=
  match spanDigits cs with
  | (d :: ds, []) => some (Text.digitsValue (d :: ds))
  | _ => none

/-- The exponent with its mark, or nothing at all. -/
def exponent? : List Char → Option Int
  | [] => some 0
  | mark :: rest =>
    if mark = 'e' ∨ mark = 'E' then
      match rest with
      | '-' :: ds => (digits? ds).map fun n => -(n : Int)
      | '+' :: ds => (digits? ds).map fun n => (n : Int)
      | ds => (digits? ds).map fun n => (n : Int)
    else none

/-- The leading minus sign, if there is one, and what follows it. -/
def spanSign : List Char → Bool × List Char
  | '-' :: rest => (true, rest)
  | cs => (false, cs)

/-- The digits after a point, if there is one, and what follows them. -/
def spanFraction : List Char → List Nat × List Char
  | '.' :: rest => spanDigits rest
  | cs => ([], cs)

/-- Reads a text that is a numeral from its first to its last character. -/
def parse? (cs : List Char) : Option Numeral :=
  let (negative, body) := spanSign cs
  let (whole, afterWhole) := spanDigits body
  let (fraction, rest) := spanFraction afterWhole
  if whole = [] ∧ fraction = [] then none
  else (exponent? rest).map fun e => ⟨negative, whole, fraction, e⟩

end Numeral

end DynLisp
