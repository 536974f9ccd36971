import DynLisp.Proofs.Eval.Footprint
import DynLisp.Proofs.Scope.Lookup

/-!
# Scopes are isolated

A run writes into the scope at hand and into scopes that it opens itself, and
nowhere else.  This holds however the run ends: with a value, with an error,
with an exit, or exhausted.

* `Forest.Within` — what evaluating in a scope can do to a forest: older scopes
  other than the one at hand stay as they are, and the one at hand keeps its
  place and all its names in their order;
* `scopes_isolated` — evaluating does no more than that, and
  applying a function does not even touch the scope at hand.

Calls open their scope around the caller's, so a body *reads* what its caller
can read.  That it does not *write* there is what makes this the property to
rely on.
-/

namespace DynLisp

/-- **What evaluating in the scope `s` can do.**  No scope is lost.  Every scope
other than `s` keeps its bindings and its outer scope; `s` keeps its outer scope
and its names, in their order, and new names come after them. -/
structure Forest.Within (s : ScopeId) (f g : Forest) : Prop where
  size_le : f.size ≤ g.size
  others : ∀ id, id < f.size → id ≠ s → g.scopes[id]? = f.scopes[id]?
  own : ∀ scope, f.scopes[s]? = some scope →
    ∃ later, g.scopes[s]? = some later ∧ later.outer = scope.outer ∧
      scope.bindings.keys <+: later.bindings.keys

namespace Forest

variable {f g h : Forest} {s : ScopeId}

/-- If no scope has changed, none outside has. -/
theorem Extends.within (hfg : Extends f g) (s : ScopeId) : Within s f g where
  size_le := hfg.1
  others := fun id hid _ => hfg.2 id hid
  own := by
    intro scope hscope
    obtain ⟨hid, -⟩ := Array.getElem?_eq_some_iff.mp hscope
    exact ⟨scope, by rw [hfg.2 s hid, hscope], rfl, List.prefix_refl _⟩

/-- What happens inside in two steps happens inside. -/
theorem Within.trans (hfg : Within s f g) (hgh : Within s g h) : Within s f h where
  size_le := Nat.le_trans hfg.size_le hgh.size_le
  others := by
    intro id hid hne
    rw [hgh.others id (Nat.lt_of_lt_of_le hid hfg.size_le) hne, hfg.others id hid hne]
  own := by
    intro scope hscope
    obtain ⟨middle, hmiddle, houter, hkeys⟩ := hfg.own scope hscope
    obtain ⟨later, hlater, houter', hkeys'⟩ := hgh.own middle hmiddle
    exact ⟨later, hlater, houter'.trans houter, hkeys.trans hkeys'⟩

/-- Binding a name in the scope at hand is one thing that evaluating can do. -/
theorem within_define (f : Forest) (s : ScopeId) (name : String) (v : Value) :
    Within s f (f.define s name v) where
  size_le := by simp
  others := fun id _ hne => scopes_define_of_ne hne
  own := by
    intro scope hscope
    refine ⟨{ scope with bindings := scope.bindings.insert name v }, ?_, rfl, ?_⟩
    · rw [scopes_define_self, hscope, Option.map_some]
    · exact Bindings.keys_prefix_insert _ _ _

/-- **A call touches no scope that is there.**  Whatever evaluating does in a
fresh scope, all older scopes stay as they are. -/
theorem Within.extends_of_push {outer : Option ScopeId}
    {table : Bindings String Value}
    (hin : Within f.size (f.push outer table) g) : Extends f g := by
  have hgrow := hin.size_le
  rw [size_push] at hgrow
  refine ⟨by omega, ?_⟩
  intro id hid
  have hold : id < (f.push outer table).size := by
    rw [size_push]
    exact Nat.lt_succ_of_lt hid
  rw [hin.others id hold (Nat.ne_of_lt hid), scopes_push_of_lt outer table hid]

end Forest

/-- The footprint of isolation: inside, only the scope at hand is written;
outside, none. -/
def isolation : Footprint where
  inside _ s := {
    rel := fun v w => v.forest.Within s w.forest
    refl := fun w => (Forest.Extends.refl w.forest).within s
    trans := fun huv hvw => huv.trans hvw }
  outside _ := {
    rel := fun v w => v.forest.Extends w.forest
    refl := fun w => Forest.Extends.refl w.forest
    trans := fun huv hvw => huv.trans hvw }
  emit := fun _ w _ => Forest.Extends.refl w.forest
  enter := fun _ _ _ _ hin => hin.extends_of_push
  call := fun _ s _ _ hout => hout.within s
  define := fun _ s w name v _ => Forest.within_define w.forest s name v

/-- **Scope isolation.**  However it ends, evaluating in a scope leaves every
other scope that was there exactly as it was, and this one with its outer scope
and with its names as a first part of its names; applying any function from a
scope leaves every scope that was there exactly as it was. -/
theorem scopes_isolated (depth : Nat) (env : ScopeId) (w : World) :
    (∀ e : Value,
      w.forest.Within env ((Value.evaluate depth e env).after w).forest) ∧
    ∀ (head : Value) (args : List Value),
      w.forest.Extends
        ((Value.apply (Value.evaluate depth) head args env).after w).forest := by
  constructor
  · intro e
    exact isolation.evaluate_moves depth e env w
  · intro head args
    exact isolation.apply_moves depth head args env w

end DynLisp
