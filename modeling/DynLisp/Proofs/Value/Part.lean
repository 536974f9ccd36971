import DynLisp.Value.Basic

/-!
# What values are made of

The parts of a value are the value itself and, for a list, the parts of its
elements.  The body of a closure is not a part of it: it is code, and not data.

* `Value.Written` — made of what can stand in a source text: no part is a
  function;
* `Value.Settled` — made of what evaluation leaves behind: no part is a symbol,
  and the bodies of the closures are written;
* `Value.Inert` — made of what stands for itself: no part is a symbol or a
  function.  Settled values that are written are inert (`Value.Settled.inert`).
-/

namespace DynLisp

namespace Value

/-- The value `u` is found in the value, at any depth of lists. -/
inductive Part (u : Value) : Value → Prop
  | here : Part u u
  | item {v : Value} {items : List Value} (hmem : v ∈ items) (hpart : Part u v) :
      Part u (.list items)

/-- Every part of the value has the property. -/
def Throughout (P : Value → Prop) (v : Value) : Prop := ∀ u, Part u v → P u

/-- **Induction over lists in lists**: a property of all values that are no lists,
and of each list whose elements have it, is one of all values. -/
@[elab_as_elim]
theorem induction_on_items {motive : Value → Prop}
    (other : ∀ v, (∀ items, v ≠ .list items) → motive v)
    (list : ∀ items, (∀ v ∈ items, motive v) → motive (.list items)) :
    ∀ v, motive v
  | .list items => list items fun v _ => induction_on_items other list v
  | .bool _ | .nil | .number _ | .string _ | .char _ | .symbol _ | .closure .. | .native _ =>
      other _ (by simp)

/-- The parts of a list are the list and the parts of its elements. -/
theorem part_list_iff {u : Value} {items : List Value} :
    Part u (.list items) ↔ u = .list items ∨ ∃ v ∈ items, Part u v := by
  constructor
  · intro h
    cases h with
    | here => exact Or.inl rfl
    | item hmem hpart => exact Or.inr ⟨_, hmem, hpart⟩
  · rintro (rfl | ⟨v, hmem, hpart⟩)
    · exact .here
    · exact .item hmem hpart

/-- A value that is no list has no part but itself. -/
theorem part_iff_eq {u v : Value} (hlist : ∀ items, v ≠ .list items) : Part u v ↔ u = v := by
  constructor
  · intro h
    cases h with
    | here => rfl
    | item _ _ => exact absurd rfl (hlist _)
  · rintro rfl
    exact .here

variable {P Q : Value → Prop}

theorem Throughout.self {v : Value} (h : Throughout P v) : P v := h v .here

/-- What follows from the property holds of every part, too. -/
theorem Throughout.mono {v : Value} (h : Throughout P v) (hPQ : ∀ u, P u → Q u) :
    Throughout Q v := fun u hu => hPQ u (h u hu)

/-- A property of every part of a list is one of the list and of every part of its
elements. -/
theorem throughout_list_iff {items : List Value} :
    Throughout P (.list items) ↔ P (.list items) ∧ ∀ v ∈ items, Throughout P v := by
  constructor
  · intro h
    exact ⟨h.self, fun v hv u hu => h u (.item hv hu)⟩
  · intro h u hu
    rcases part_list_iff.mp hu with rfl | ⟨v, hv, hpart⟩
    · exact h.1
    · exact h.2 v hv u hpart

/-- For a value that is no list, the value itself decides. -/
theorem throughout_of_self {v : Value} (hlist : ∀ items, v ≠ .list items) (h : P v) :
    Throughout P v := by
  intro u hu
  rw [(part_iff_eq hlist).mp hu]
  exact h

/-- No function is found in the value: it can be written down. -/
def Written : Value → Prop := Throughout fun u => u.isCallable = false

/-- What data may be besides lists: no symbol, a closure only with a body that is
written, and the functions that every root scope has. -/
def Admitted : Value → Prop
  | .symbol _ => False
  | .closure _ body => body.Written
  | .native function => function ∈ Builtin.all
  | _ => True

/-- All parts of the value are admitted in data. -/
def Settled : Value → Prop := Throughout Admitted

/-- What stands for itself wherever it is evaluated. -/
def StandsForItself : Value → Prop
  | .symbol _ | .closure .. | .native _ => False
  | _ => True

/-- All parts of the value stand for themselves. -/
def Inert : Value → Prop := Throughout StandsForItself

/-- A list is written if its elements are. -/
theorem written_list_iff {items : List Value} :
    Written (.list items) ↔ ∀ v ∈ items, Written v :=
  throughout_list_iff.trans (and_iff_right rfl)

/-- A list is settled if its elements are. -/
theorem settled_list_iff {items : List Value} :
    Settled (.list items) ↔ ∀ v ∈ items, Settled v :=
  throughout_list_iff.trans (and_iff_right trivial)

/-- A list is inert if its elements are. -/
theorem inert_list_iff {items : List Value} :
    Inert (.list items) ↔ ∀ v ∈ items, Inert v :=
  throughout_list_iff.trans (and_iff_right trivial)

theorem written_of_not_list {v : Value} (hlist : ∀ items, v ≠ .list items)
    (h : v.isCallable = false) : Written v := throughout_of_self hlist h

/-- What may be data, and is no list, is settled. -/
theorem settled_of_not_list {v : Value} (hlist : ∀ items, v ≠ .list items)
    (h : v.Admitted) : Settled v := throughout_of_self hlist h

/-- What stands for itself may be data. -/
theorem settled_of_standsForItself {v : Value} (hlist : ∀ items, v ≠ .list items)
    (h : v.StandsForItself) : Settled v := by
  refine settled_of_not_list hlist ?_
  cases v with
  | symbol name => cases h
  | closure formals body => cases h
  | native function => cases h
  | _ => trivial

/-- The body of a settled closure is written. -/
theorem Settled.body {formals : List String} {body : Value}
    (h : Settled (.closure formals body)) : body.Written := h.self

/-- A closure with a written body is settled. -/
theorem settled_closure {formals : List String} {body : Value} (h : body.Written) :
    Settled (.closure formals body) := settled_of_not_list (by simp) h

/-- Every built-in function is settled. -/
theorem settled_native (function : Builtin) : Settled (.native function) := by
  refine settled_of_not_list (by simp) ?_
  show function ∈ Builtin.all
  cases function <;> decide

/-- Written data stands for itself. -/
theorem Settled.inert {v : Value} (h : v.Settled) (hwritten : v.Written) : v.Inert := by
  intro u hu
  have hadmitted := h u hu
  have hcallable := hwritten u hu
  cases u with
  | symbol name => cases hadmitted
  | closure formals body => cases hcallable
  | native function => cases hcallable
  | _ => trivial

end Value

end DynLisp
