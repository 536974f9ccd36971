import DynLisp.Number.Rank

/-!
# Numbers

A number of the language is a binary64 value: a signed magnitude, possibly
infinite, or the one value that is not a number.  Zero has two signs.

The view of a finite number is its exact value in units (`Number.units?`);
the view of a number in comparisons is its signed rank (`Number.key?`), which
identifies the two zeros and puts every pair of numbers in order.
-/

namespace DynLisp

/-- A binary64 value. -/
inductive Number where
  | nan
  | signed (negative : Bool) (magnitude : Rank)
  deriving DecidableEq

namespace Number

/-- Positive zero. -/
def zero : Number := .signed false (Rank.ofNat 0)

/-- An infinity of the given sign. -/
def infinity (negative : Bool) : Number := .signed negative Rank.infinite

/-- The number nearest to `p / q` units, with the given sign. -/
def ofUnits (negative : Bool) (p q : Nat) : Number :=
  .signed negative (Rank.nearest p q)

/-- The number nearest to a natural number. -/
def ofNat (n : Nat) : Number := ofUnits false (n * Rank.one) 1

/-- One, where a product starts. -/
def one : Number := ofNat 1

instance : Inhabited Number := ⟨zero⟩

/-- The number with the other sign. -/
def neg : Number → Number
  | .nan => .nan
  | .signed n r => .signed (!n) r

/-- The number without its sign. -/
def abs : Number → Number
  | .nan => .nan
  | .signed _ r => .signed false r

/-- Neither infinite nor the value that is not a number. -/
def isFinite : Number → Bool
  | .nan => false
  | .signed _ r => r != Rank.infinite

/-- The exact value of a finite number, in units. -/
def units? : Number → Option Int
  | .nan => none
  | .signed n r =>
    if r = Rank.infinite then none
    else some (if n then -(r.units : Int) else r.units)

/-- The whole number that a finite number equals, if it equals one. -/
def toInt? (x : Number) : Option Int :=
  x.units?.bind fun u =>
    if u.natAbs % Rank.one = 0 then some (u / (Rank.one : Int)) else none

/-- The signed rank, by which numbers compare; the two zeros share theirs. -/
def key? : Number → Option Int
  | .nan => none
  | .signed n r => some (if n then -(r.val : Int) else r.val)

/-- Whether two numbers have signed ranks that stand in a relation. -/
def compareBy (rel : Int → Int → Bool) (x y : Number) : Bool :=
  match x.key?, y.key? with
  | some a, some b => rel a b
  | _, _ => false

/-- Numeric equality: the zeros are equal, and what is not a number differs
even from itself. -/
def eq (x y : Number) : Bool := compareBy (fun a b => a == b) x y

/-- Strictly below. -/
def lt (x y : Number) : Bool := compareBy (fun a b => decide (a < b)) x y

/-- Below or equal. -/
def le (x y : Number) : Bool := compareBy (fun a b => decide (a ≤ b)) x y

end Number

end DynLisp
