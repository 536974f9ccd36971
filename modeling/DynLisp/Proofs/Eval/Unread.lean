import DynLisp.Proofs.Eval.Visible

/-!
# Names that are not read

A name that no code mentions may mean anything, or nothing.  Whatever scope a
piece of code runs in, any callee can look at the bindings of all its callers; so
the condition is on the code at hand and on the bodies of all closures that the
run can come by, and it has to hold for every closure that the run makes.  This
is what `Value.RefersOnly` carries along (`simulates_evaluate`), here for all
names but one.

* `Value.Avoids name e` — neither the code nor the body of a closure in it
  mentions the name;
* `Value.avoids_special` — the head of a special form is no mention of its name;
* `unread_names_do_not_matter` — two scopes that agree on all names but one that
  is avoided are the same to such code.

The names of the special forms can be bound like all others.  As they are
recognised before anything is looked up, code that uses them at the head of lists
only avoids them, and no binding ever gets in its way.
-/

namespace DynLisp

namespace Value

/-- No closure in the data has a body that mentions the name. -/
def Spares (name : String) (v : Value) : Prop :=
  ∀ formals body, Carries formals body v → ¬Mentions name body

/-- Neither the code nor the body of a closure in it mentions the name. -/
structure Avoids (name : String) (e : Value) : Prop where
  code : ¬Mentions name e
  closures : e.Spares name

variable {name : String} {e v : Value}

theorem Spares.holdsOnly (h : v.Spares name) : v.HoldsOnly (· ≠ name) := by
  intro formals body hcarry other hmention heq
  subst heq
  exact h formals body hcarry hmention

theorem Avoids.refersOnly (h : e.Avoids name) : e.RefersOnly (· ≠ name) := by
  refine ⟨h.closures.holdsOnly, ?_⟩
  intro other hmention heq
  subst heq
  exact h.code hmention

/-- Another symbol avoids the name. -/
theorem avoids_symbol {other : String} (h : other ≠ name) : (symbol other).Avoids name where
  code := by
    intro hmention
    cases hmention
    exact h rfl
  closures := by
    intro formals body hcarry
    cases hcarry

/-- What holds no code at all avoids every name. -/
theorem avoids_atom (hsymbol : ∀ other, e ≠ .symbol other)
    (hlist : ∀ items, e ≠ .list items)
    (hclosure : ∀ formals body, e ≠ .closure formals body) : e.Avoids name where
  code := by
    intro hmention
    cases hmention with
    | symbol => exact hsymbol _ rfl
    | head _ _ => exact hlist _ rfl
    | tail _ _ => exact hlist _ rfl
  closures := by
    intro formals body hcarry
    cases hcarry with
    | here => exact absurd rfl (hclosure _ _)
    | item _ _ => exact absurd rfl (hlist _)
    | body _ => exact absurd rfl (hclosure _ _)

/-- A list that is no special form avoids what its elements avoid. -/
theorem avoids_list {head : Value} {tail : List Value}
    (h : ∀ o ∈ head :: tail, o.Avoids name) : (Value.list (head :: tail)).Avoids name where
  code := by
    intro hmention
    cases hmention with
    | head _ hhead => exact (h _ List.mem_cons_self).code hhead
    | tail hmem htail => exact (h _ (List.mem_cons_of_mem _ hmem)).code htail
  closures := by
    intro formals body hcarry
    cases hcarry with
    | item hmem hitem => exact (h _ hmem).closures formals body hitem

/-- A closure spares what its body avoids. -/
theorem Avoids.spares_closure {formals : List String} (h : e.Avoids name) :
    (Value.closure formals e).Spares name := by
  intro fs body hcarry
  cases hcarry with
  | here => exact h.code
  | body hinner => exact h.closures fs body hinner

/-- **The head of a special form is no mention** of its name: what the operands
avoid, the whole list avoids. -/
theorem avoids_special (form : SpecialForm) {operands : List Value}
    (h : ∀ o ∈ operands, o.Avoids name) :
    (Value.list (.symbol form.keyword :: operands)).Avoids name where
  code := by
    have hform : SpecialForm.ofHead? (.symbol form.keyword) = some form :=
      SpecialForm.ofName?_eq_some_iff.mpr rfl
    intro hmention
    cases hmention with
    | head hnone _ =>
        rw [hform] at hnone
        cases hnone
    | tail hmem htail => exact (h _ hmem).code htail
  closures := by
    intro formals body hcarry
    cases hcarry with
    | item hmem hitem =>
        rcases List.mem_cons.mp hmem with rfl | ho
        · cases hitem
        · exact (h _ ho).closures formals body hitem

end Value

/-- Whatever other names mean from the scope, no closure in it mentions this
one. -/
def Forest.Spares (f : Forest) (s : ScopeId) (name : String) : Prop :=
  ∀ other v, other ≠ name → f.get? s other = some v → v.Spares name

/-- Scopes that agree on all names but one which is spared are alike in these. -/
theorem Forest.alike_of_get?_eq_except {f g : Forest} {s t : ScopeId} {name : String}
    (hs : s < f.size) (ht : t < g.size)
    (hget : ∀ other, other ≠ name → f.get? s other = g.get? t other)
    (hspared : f.Spares s name) : f.Alike (· ≠ name) s t g where
  left := hs
  right := ht
  get?_eq := hget
  holdsOnly := fun other v hne hv => (hspared other v hne hv).holdsOnly

/-- **From scopes that agree on all other names** code that avoids the name comes to
the same end, and the scopes still agree. -/
theorem perform_eq_of_avoids (depth : Nat) {v w : World} {s t : ScopeId} {name : String}
    (hs : s < v.forest.size) (ht : t < w.forest.size)
    (hget : ∀ other, other ≠ name → v.forest.get? s other = w.forest.get? t other)
    (hspared : v.forest.Spares s name) {e : Value} (he : e.Avoids name) :
    (v.perform (Value.evaluate depth e s)).1 =
        (w.perform (Value.evaluate depth e t)).1 ∧
      ∀ other, other ≠ name →
        (v.perform (Value.evaluate depth e s)).2.forest.get? s other =
          (w.perform (Value.evaluate depth e t)).2.forest.get? t other := by
  have halike := Forest.alike_of_get?_eq_except hs ht hget hspared
  have hend := simulates_evaluate (· ≠ name) depth e s t he.refersOnly
    { v with printed := "" } { w with printed := "" } ⟨rfl, halike⟩
  obtain ⟨hreport, hlater⟩ := perform_eq_of_sameEnd hend
  exact ⟨hreport, hlater.get?_eq⟩

/-- **Names that are not read do not matter.**  Let neither the code, nor the body
of a closure in it, nor that of a closure in what the other names mean mention a
name.  Then evaluating the code from two scopes in which all other names mean the
same is reported alike, result and printed text, and afterwards all other names
again mean the same from both, whatever the one name is bound to in either.  So
binding the name makes no difference.  This holds of the names of the special forms
as well, and code that uses such a name at the heads of lists only does not mention
it: special forms cannot be hidden. -/
theorem unread_names_do_not_matter (depth : Nat) {v : World} {s : ScopeId}
    (hs : s < v.forest.size) (name : String) (hspared : v.forest.Spares s name)
    {e : Value} (he : e.Avoids name) :
    (∀ (w : World) (t : ScopeId), t < w.forest.size →
      (∀ other, other ≠ name → v.forest.get? s other = w.forest.get? t other) →
        (v.perform (Value.evaluate depth e s)).1 =
            (w.perform (Value.evaluate depth e t)).1 ∧
          ∀ other, other ≠ name →
            (v.perform (Value.evaluate depth e s)).2.forest.get? s other =
              (w.perform (Value.evaluate depth e t)).2.forest.get? t other) ∧
    (∀ u : Value, (v.perform (Value.evaluate depth e s)).1 =
      (World.perform { v with forest := v.forest.define s name u }
        (Value.evaluate depth e s)).1) ∧
    ∀ (form : SpecialForm) (operands : List Value), name = form.keyword →
      (∀ o ∈ operands, o.Avoids name) →
        (Value.list (.symbol name :: operands)).Avoids name := by
  refine ⟨?_, ?_, ?_⟩
  · intro w t ht hget
    exact perform_eq_of_avoids depth hs ht hget hspared he
  · intro u
    refine (perform_eq_of_avoids depth hs (by simpa using hs) ?_ hspared he).1
    intro other hne
    rw [Forest.get?_define hs, if_neg (Ne.symm hne)]
  · rintro form operands rfl hoperands
    exact Value.avoids_special form hoperands

/-- A conditional that calls a closure with another one in its body, from a scope
that binds `if` to a character. -/
theorem bound_if_does_not_matter :
    let f : Value := .closure ["a"]
      (.list [.symbol "if", .symbol "a", .string "yes", .string "no"])
    let v : World := ⟨Forest.empty.push none [("f", f)], ""⟩
    let code : Value := .list [.symbol "if", .bool true,
      .list [.symbol "f", .bool false], .nil]
    v.forest.Spares 0 "if" ∧ code.Avoids "if" ∧
      (World.perform { v with forest := v.forest.define 0 "if" (.char 'x') }
        (Value.evaluate 5 code 0)).1 = ⟨.ok (.string "no"), ""⟩ := by
  intro f v code
  have hbody : (Value.list [.symbol "if", .symbol "a", .string "yes", .string "no"]).Avoids
      "if" := by
    refine Value.avoids_special .cond ?_
    simp [Value.avoids_symbol, Value.avoids_atom]
  have hcode : code.Avoids "if" := by
    refine Value.avoids_special .cond ?_
    have hcall : (Value.list [.symbol "f", .bool false]).Avoids "if" :=
      Value.avoids_list (by simp [Value.avoids_symbol, Value.avoids_atom])
    simp [hcall, Value.avoids_atom]
  have hspared : v.forest.Spares 0 "if" := by
    intro other u _ hget
    rw [Forest.get?_step] at hget
    have hf : u = f := by
      simp [v, Forest.bindings, Forest.outer?, Forest.push, Forest.empty, Bindings.get?] at hget
      exact hget.2.symm
    rw [hf]
    exact hbody.spares_closure
  refine ⟨hspared, hcode, ?_⟩
  rw [← (unread_names_do_not_matter 5 (by decide) "if" hspared hcode).2.1]
  simp only [v, code, f]
  with_unfolding_all rfl

end DynLisp
