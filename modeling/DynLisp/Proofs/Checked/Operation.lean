import DynLisp.Error
import DynLisp.Number.Arithmetic
import DynLisp.Number.Numeral

/-!
# Operations outside of their domains

Some operations are meant for a part of their arguments only: a list has no element
behind its end, and what is not finite has no whole part.  Here such an operation
ends with a given failure, the **misuse**, wherever it is used outside of its domain.

A computation that is built from these operations and comes out the same *for every
misuse* uses none of them outside of its domain, because two different misuses would
give two different results.  This is what the modules beside this one prove of
reading and evaluating: each operation is behind a check that keeps it in its
domain.
-/

namespace DynLisp

namespace Checked

variable (misuse : Halt)

/-- The element at a position. -/
def item {α : Type} (items : List α) (i : Nat) : Except Halt α :=
  match items[i]? with
  | some a => .ok a
  | none => .error misuse

/-- The two elements of a list. -/
def pair {α : Type} : List α → Except Halt (α × α)
  | [a, b] => .ok (a, b)
  | _ => .error misuse

/-- The three elements of a list. -/
def triple {α : Type} : List α → Except Halt (α × α × α)
  | [a, b, c] => .ok (a, b, c)
  | _ => .error misuse

/-- The one character of a text. -/
def single : List Char → Except Halt Char
  | [c] => .ok c
  | _ => .error misuse

/-- The number that hexadecimal digits spell, of which there must be one. -/
def hexadecimal (digits : List Char) : Except Halt Nat :=
  if digits = [] then .error misuse
  else
    match Escape.hexNumber? digits with
    | some n => .ok n
    | none => .error misuse

/-- The character with a code point. -/
def character (value : Nat) : Except Halt Char :=
  if value.isValidChar then .ok (Char.ofNat value) else .error misuse

/-- The number that a numeral stands for. -/
def decimal (text : List Char) : Except Halt Number :=
  match Numeral.parse? text with
  | some numeral => .ok numeral.number
  | none => .error misuse

/-- The greatest whole number that is not above a number. -/
def floor (x : Number) : Except Halt Int :=
  match x.units? with
  | some u => .ok (u / (Rank.one : Int))
  | none => .error misuse

/-- The number nearest to a whole number, unless that is too large. -/
def ofWhole (n : Int) : Except Halt Number :=
  if (Number.ofInt (n * Rank.one)).isFinite then .ok (Number.ofInt (n * Rank.one))
  else .error misuse

/-- A number without its fraction. -/
def truncate (x : Number) : Except Halt Int :=
  match x.units? with
  | some u => .ok (u.tdiv (Rank.one : Int))
  | none => .error misuse

variable {misuse}

theorem ok_bind {ε α β : Type} (a : α) (k : α → Except ε β) :
    (Except.ok a >>= k) = k a := rfl

/-- An element that is there is found at its index. -/
theorem item_of_drop {α : Type} {items rest : List α} {i : Nat} {a : α}
    (h : items.drop i = a :: rest) : item misuse items i = .ok a := by
  have hget : items[i]? = some a := by
    rw [← List.head?_drop, h, List.head?_cons]
  simp only [item, hget]

/-- Where there is an element, one more of them can be dropped. -/
theorem drop_succ_of_drop {α : Type} {items rest : List α} {i : Nat} {a : α}
    (h : items.drop i = a :: rest) : items.drop (i + 1) = rest := by
  rw [← List.drop_drop, h, List.drop_succ_cons, List.drop_zero]

/-- Where the digits are hexadecimal, and there are some, the conversion gives their
value. -/
theorem hexadecimal_of_value {digits : List Char} {n : Nat} (hsome : digits ≠ [])
    (h : Escape.hexNumber? digits = some n) : hexadecimal misuse digits = .ok n := by
  rw [hexadecimal, if_neg hsome, h]

end Checked

end DynLisp
