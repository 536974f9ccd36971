/-!
# Bindings in order

A table of values by key that remembers in which order the keys first came.
Binding a key again changes its value and not its place.
-/

namespace DynLisp

/-- Keys with their values, oldest key first; no key occurs twice. -/
abbrev Bindings (κ α : Type) := List (κ × α)

namespace Bindings

variable {κ α : Type} [DecidableEq κ]

/-- The value of a key. -/
def get? : Bindings κ α → κ → Option α
  | [], _ => none
  | (k, a) :: rest, key => if k = key then some a else get? rest key

/-- Binds a key: in its place if it has one, and otherwise at the end. -/
def insert : Bindings κ α → κ → α → Bindings κ α
  | [], key, value => [(key, value)]
  | (k, a) :: rest, key, value =>
    if k = key then (key, value) :: rest else (k, a) :: insert rest key value

/-- Binds each key of a list in turn. -/
def insertAll (table : Bindings κ α) (pairs : List (κ × α)) : Bindings κ α :=
  pairs.foldl (fun t pair => insert t pair.1 pair.2) table

/-- The table of a list of pairs: each key where it came first, with the value
that came last. -/
def ofList (pairs : List (κ × α)) : Bindings κ α := insertAll [] pairs

/-- The keys, oldest first. -/
def keys (table : Bindings κ α) : List κ := table.map (·.1)

end Bindings

end DynLisp
