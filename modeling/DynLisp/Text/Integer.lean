import DynLisp.Text.DecimalDigit

/-!
# Integers in settings

An integer is an optional sign and decimal digits of any script, with single
underscores allowed between digits, and at most 4300 digits.
-/

namespace DynLisp

namespace Text

/-- The digits of an integer without its sign. -/
def groupedDigits? : List Char → Option (List Nat)
  | [] => none
  | [c] => (digitValue? c).map ([·])
  | c :: '_' :: rest => do
    let d ← digitValue? c
    let ds ← groupedDigits? rest
    return d :: ds
  | c :: rest => do
    let d ← digitValue? c
    let ds ← groupedDigits? rest
    return d :: ds

/-- The value of an integer without its sign. -/
def unsigned? (cs : List Char) : Option Nat :=
  match groupedDigits? cs with
  | some ds => if ds.length ≤ 4300 then some (digitsValue ds) else none
  | none => none

/-- The integer that a text spells. -/
def integer? (text : String) : Option Int :=
  match text.toList with
  | '-' :: cs => (unsigned? cs).map fun n => -(n : Int)
  | '+' :: cs => (unsigned? cs).map fun n => (n : Int)
  | cs => (unsigned? cs).map fun n => (n : Int)

end Text

end DynLisp
