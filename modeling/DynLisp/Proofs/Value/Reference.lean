import DynLisp.Eval.SpecialForm
import DynLisp.Proofs.Value.Part

/-!
# What code refers to

Code refers to the names of the symbols in it.  The head of a special form is
no reference: it is recognised before any look-up (`SpecialForm.ofHead?`), and
nothing that is bound to its name matters.

A value is code when it is evaluated and data when it is passed around.  Data
comes to be evaluated in one way only, as the body of a closure that is called.
So there are two predicates, for a set of names:

* `Value.RefersOnly names e` — the code `e`, and the body of every closure in
  it, refers to no other names;
* `Value.HoldsOnly names v` — the body of every closure in the data `v` refers
  to no other names.

Some forms bind a name where they are evaluated: `Value.Lets name e` says that the
code `e` has such a form for the name in it.
-/

namespace DynLisp

namespace Value

/-- The code refers to the name: its symbol stands somewhere in it other than
at the head of a special form. -/
inductive Mentions (name : String) : Value → Prop
  | symbol : Mentions name (.symbol name)
  | head {head : Value} {tail : List Value}
      (hform : SpecialForm.ofHead? head = none) (hhead : Mentions name head) :
      Mentions name (.list (head :: tail))
  | tail {head v : Value} {tail : List Value} (hmem : v ∈ tail)
      (htail : Mentions name v) : Mentions name (.list (head :: tail))

/-- The closure is found in the value, within lists or within the bodies of
other closures. -/
inductive Carries (formals : List String) (body : Value) : Value → Prop
  | here : Carries formals body (.closure formals body)
  | item {v : Value} {items : List Value} (hmem : v ∈ items)
      (hitem : Carries formals body v) : Carries formals body (.list items)
  | body {outer : List String} {v : Value} (hbody : Carries formals body v) :
      Carries formals body (.closure outer v)

/-- The value writes a `let` or a `fn` of the name.  Lists are searched to any
depth, and the bodies of closures are not: they run in other scopes. -/
inductive Lets (name : String) : Value → Prop
  | bind (value : Value) : Lets name (.list [.symbol "let", .symbol name, value])
  | function (parameters body : Value) :
      Lets name (.list [.symbol "fn", .symbol name, parameters, body])
  | item {v : Value} {items : List Value} (hmem : v ∈ items) (hlets : Lets name v) :
      Lets name (.list items)

/-- Every closure in the value has a body that refers to these names only. -/
def HoldsOnly (names : String → Prop) (v : Value) : Prop :=
  ∀ formals body, Carries formals body v →
    ∀ name, Mentions name body → names name

/-- The code, and the body of every closure in it, refers to these names only. -/
def RefersOnly (names : String → Prop) (e : Value) : Prop :=
  HoldsOnly names e ∧ ∀ name, Mentions name e → names name

variable {names : String → Prop}

/-- A list holds what its elements hold. -/
theorem holdsOnly_list_iff {items : List Value} :
    HoldsOnly names (.list items) ↔ ∀ v ∈ items, HoldsOnly names v := by
  constructor
  · intro h v hv formals body hcarry
    exact h formals body (.item hv hcarry)
  · intro h formals body hcarry
    cases hcarry with
    | item hmem hitem => exact h _ hmem formals body hitem

/-- A closure holds what its body refers to. -/
theorem holdsOnly_closure_iff {formals : List String} {body : Value} :
    HoldsOnly names (.closure formals body) ↔ RefersOnly names body := by
  constructor
  · intro h
    exact ⟨fun fs b hcarry => h fs b (.body hcarry), h formals body .here⟩
  · intro h fs b hcarry
    obtain ⟨hbody, hmention⟩ := h
    cases hcarry with
    | here => exact hmention
    | body hinner => exact hbody fs b hinner

/-- What stands for itself holds no closure, unless it is a list. -/
theorem holdsOnly_of_standsForItself {v : Value} (hlist : ∀ items, v ≠ .list items)
    (h : v.StandsForItself) : HoldsOnly names v := by
  intro formals body hcarry
  cases hcarry with
  | here => cases h
  | item hmem hitem => exact absurd rfl (hlist _)
  | body hbody => cases h

/-- The operands of a list are code wherever the list is. -/
theorem RefersOnly.of_mem_tail {head v : Value} {tail : List Value}
    (h : RefersOnly names (.list (head :: tail))) (hv : v ∈ tail) :
    RefersOnly names v :=
  ⟨holdsOnly_list_iff.mp h.1 v (List.mem_cons_of_mem _ hv),
    fun name hname => h.2 name (.tail hv hname)⟩

/-- The head of a list that is no special form is code wherever the list is. -/
theorem RefersOnly.of_head {head : Value} {tail : List Value}
    (h : RefersOnly names (.list (head :: tail)))
    (hform : SpecialForm.ofHead? head = none) : RefersOnly names head :=
  ⟨holdsOnly_list_iff.mp h.1 head List.mem_cons_self,
    fun name hname => h.2 name (.head hform hname)⟩

/-- Where all names are allowed, every value is allowed. -/
theorem refersOnly_true (e : Value) : RefersOnly (fun _ => True) e :=
  ⟨fun _ _ _ _ _ => trivial, fun _ _ => trivial⟩

end Value

end DynLisp
