import DynLisp.Number.Arithmetic

/-!
# Sums of many numbers

A sum of many terms is added up in a tree of a fixed shape, which keeps the
rounding errors of long sums small.  The shape depends on the number of
terms alone:

* fewer than eight terms are added from the left;
* up to 128 terms are dealt out in turn to eight lanes, each lane is added
  from the left, neighbouring lanes are added in pairs until one total is
  left, and the terms after the last full round are added to it one by one;
* more terms are cut in two near the middle, at a multiple of eight, and the
  totals of both parts are added.

`blockSum` takes the addition as an argument, so that the shape can be
studied with an addition that obeys the laws of arithmetic.
-/

namespace DynLisp

section Shape

variable {α : Type} (add : α → α → α) (zero : α)

/-- Adds from the left, starting with the first term. -/
def foldFirst : List α → α
  | [] => zero
  | x :: xs => xs.foldl add x

/-- Adds each full round of eight terms to the lanes; gives the lanes and the
terms after the last full round. -/
def deal (lanes : List α) : List α → List α × List α
  | a :: b :: c :: d :: e :: f :: g :: h :: rest =>
    deal (List.zipWith add lanes [a, b, c, d, e, f, g, h]) rest
  | rest => (lanes, rest)

/-- Adds neighbours in pairs. -/
def pairUp : List α → List α
  | x :: y :: rest => add x y :: pairUp rest
  | rest => rest

/-- The total of eight lanes, and then of the terms after the last round. -/
def laneSum (xs : List α) : α :=
  let (lanes, rest) := deal add (xs.take 8) (xs.drop 8)
  foldFirst add zero (pairUp add (pairUp add (pairUp add lanes)) ++ rest)

/-- Where a long sum is cut: the greatest multiple of eight up to its middle. -/
def cutPoint (n : Nat) : Nat := n / 2 - n / 2 % 8

/-- The total of the terms, added up in the tree described above. -/
def blockSum (xs : List α) : α :=
  if xs.length < 8 then foldFirst add zero xs
  else if xs.length ≤ 128 then laneSum add zero xs
  else
    add (blockSum (xs.take (cutPoint xs.length)))
      (blockSum (xs.drop (cutPoint xs.length)))
termination_by xs.length
decreasing_by
  all_goals simp only [List.length_take, List.length_drop, cutPoint]; omega

end Shape

namespace Number

/-- The sum of a list of numbers; the total joins a positive zero, so that it
is never a negative zero. -/
def sum (xs : List Number) : Number := add zero (blockSum add zero xs)

/-- The product of a list of numbers, from one and from the left. -/
def product (xs : List Number) : Number := xs.foldl mul one

/-- Subtracts each further number from the first. -/
def difference (xs : List Number) : Number := foldFirst sub zero xs

/-- Divides the first number by each further one in turn. -/
def quotient (xs : List Number) : Number := foldFirst div zero xs

/-- Takes remainders by each further number in turn. -/
def remainder (xs : List Number) : Number := foldFirst rem zero xs

end Number

end DynLisp
