import DynLisp.Proofs.Eval.Isolation
import DynLisp.Proofs.Session.Outcome

/-!
# What code can rebind

Code that is evaluated in a scope changes what a name is bound to there only where it
says so: where a `let` or a `fn` of that name is written in the code itself, at any
depth of lists (`Value.Lets`).  Closures that are called on the way may hold any `let`
and `fn`, and so may functions that are called with closures; all of that happens in the
scopes of the calls.

* `Forest.Rebinds` — what evaluating can do to a forest if it binds no other names than
  these in the scope at hand;
* `rebinding` — the deeds of an evaluation do no more than that;
* `rebinds_only_what_it_lets` — so the names that an expression rebinds in its scope are
  names that it lets, and those that a text rebinds are names that the text lets.
-/

namespace DynLisp

/-- **What evaluating in the scope `s` can do** if it binds no other names than these
there: other scopes stay as they are, and in `s` all other names keep what they are bound
to, or stay unbound. -/
structure Forest.Rebinds (names : String → Prop) (s : ScopeId) (f g : Forest) : Prop
    extends Forest.Within s f g where
  kept : s < f.size → ∀ name, ¬names name →
    (g.bindings s).get? name = (f.bindings s).get? name

namespace Forest

variable {f g h : Forest} {names : String → Prop} {s : ScopeId}

/-- If no scope has changed, nothing is bound anew. -/
theorem Extends.rebinds (hfg : Extends f g) (names : String → Prop) (s : ScopeId) :
    Rebinds names s f g where
  toWithin := hfg.within s
  kept := by
    intro hs name _
    rw [bindings_congr (hfg.2 s hs)]

/-- What binds these names only in two steps does so in one. -/
theorem Rebinds.trans (hfg : Rebinds names s f g) (hgh : Rebinds names s g h) :
    Rebinds names s f h where
  toWithin := hfg.toWithin.trans hgh.toWithin
  kept := by
    intro hs name hname
    have hgrown : s < g.size := Nat.lt_of_lt_of_le hs hfg.size_le
    rw [hgh.kept hgrown name hname, hfg.kept hs name hname]

/-- Binding one of the names is one thing that evaluating can do. -/
theorem rebinds_define (f : Forest) (s : ScopeId) {name : String} (hname : names name)
    (v : Value) : Rebinds names s f (f.define s name v) where
  toWithin := within_define f s name v
  kept := by
    intro hs other hother
    have hne : name ≠ other := by
      rintro rfl
      exact hother hname
    rw [bindings_define_self hs, Bindings.get?_insert, if_neg hne]

end Forest

/-- The footprint of rebinding: inside, only names that the code lets are bound in the
scope at hand; outside, none, as in isolation. -/
def rebinding : Footprint where
  inside names s := {
    rel := fun v w => v.forest.Rebinds names s w.forest
    refl := fun w => (Forest.Extends.refl w.forest).rebinds names s
    trans := fun huv hvw => huv.trans hvw }
  outside := isolation.outside
  emit := isolation.emit
  enter := fun _ _ _ _ hin => hin.toWithin.extends_of_push
  call := fun names s _ _ hout => hout.rebinds names s
  define := fun _ s w _ v hname => Forest.rebinds_define w.forest s hname v

namespace Footprint

open Eval

variable (F : Footprint)

/-- Evaluating forms one after the other stays within the footprint, with the names
that any of them lets. -/
theorem evalForms_moves {names : String → Prop} (depth : Nat) (s : ScopeId) (last : Value)
    (forms : List Value) (hlets : ∀ form ∈ forms, ∀ name, form.Lets name → names name) :
    Moves (F.inside names s) (evalForms depth s last forms) := by
  induction forms generalizing last with
  | nil => exact moves_pure last
  | cons form rest ih =>
      have hfirst : Moves (F.inside names s) (Value.evaluate depth form s) :=
        bounds_evaluate depth names form s (hlets form List.mem_cons_self)
      exact hfirst.bind fun v _ => ih v fun e he => hlets e (List.mem_cons_of_mem _ he)

/-- **A request** moves the world inside of its scope, with the names that the forms of
its text let. -/
theorem request_moves (depth : Nat) (s : ScopeId) (request : Request) :
    Moves (F.inside (fun name => ∃ form ∈ request.reading.1, form.Lets name) s)
      (request.run depth s) := by
  rw [Request.run_eq_evalRead, evalRead]
  have hforms : Moves (F.inside (fun name => ∃ form ∈ request.reading.1, form.Lets name) s)
      (evalForms depth s .nil request.reading.1) :=
    F.evalForms_moves depth s .nil _ fun form hform name hname => ⟨form, hform, hname⟩
  refine hforms.bind fun v _ => ?_
  split
  · exact moves_pure v
  · exact moves_throw _

end Footprint

/-- **Evaluation rebinds only what it lets.**  However it ends, evaluating an expression
changes what a name is bound to in the scope at hand, or binds a name anew there, only if
a `let` or a `fn` of the name is written in the expression, at any depth of lists; what is
written in the closures that are called does not count.  So a request, however it ends,
leaves the binding of every name as it was for which no `let` and no `fn` is written in
the text. -/
theorem rebinds_only_what_it_lets (depth : Nat) {env : ScopeId} {w : World}
    (henv : env < w.forest.size) :
    (∀ (e : Value) (name : String),
      (((Value.evaluate depth e env).after w).forest.bindings env).get? name ≠
        (w.forest.bindings env).get? name → e.Lets name) ∧
    ∀ (request : Request) (name : String),
      ((w.perform (request.run depth env)).2.forest.bindings env).get? name ≠
        (w.forest.bindings env).get? name →
      ∃ form ∈ request.reading.1, form.Lets name := by
  constructor
  · intro e name hchanged
    have hrebinds := rebinding.evaluate_moves depth e env w
    by_contra hlets
    exact hchanged (hrebinds.kept henv name hlets)
  · intro request name hchanged
    have hrebinds := rebinding.request_moves depth env request { w with printed := "" }
    rw [World.forest_perform] at hchanged
    by_contra hlets
    exact hchanged (hrebinds.kept henv name hlets)

/-- A closure that lets a name of its caller: the call leaves that name alone, and what
is bound is the name that the expression lets. -/
theorem closure_rebinds_nothing_outside :
    let g : Value := .closure ["y"] (.list [.symbol "let", .symbol "x", .symbol "y"])
    let w : World := ⟨⟨#[⟨none, [("x", .char 'a'), ("g", g)]⟩]⟩, ""⟩
    let e : Value := .list [.symbol "let", .symbol "z", .list [.symbol "g", .char 'b']]
    0 < w.forest.size ∧
      ((Value.evaluate 9 e 0).after w).forest.bindings 0 =
        [("x", .char 'a'), ("g", g), ("z", .char 'b')] ∧ e.Lets "z" := by
  intro g w e
  have hroot : 0 < w.forest.size := Nat.zero_lt_one
  have hafter : ((Value.evaluate 9 e 0).after w).forest.bindings 0 =
      [("x", .char 'a'), ("g", g), ("z", .char 'b')] := by
    simp only [w, e, g]
    with_unfolding_all rfl
  refine ⟨hroot, hafter, (rebinds_only_what_it_lets 9 hroot).1 e "z" ?_⟩
  rw [hafter]
  simp only [w, g]
  decide

end DynLisp
