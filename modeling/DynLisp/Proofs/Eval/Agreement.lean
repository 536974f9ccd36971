import DynLisp.Proofs.Eval.Effect
import DynLisp.Proofs.Scope.Lookup
import DynLisp.Proofs.Value.Reference

/-!
# Two runs side by side

The same code is run in two worlds, from a scope of one and from a scope of the
other.  The worlds are **alike** as far as a set of names is concerned when each
of these names has the same value from both scopes, and nothing worse than code
over these names can come out of the values.

* `World.Alike` and what keeps it: binding the same in both worlds, opening the
  same scope in both, and whatever leaves the scopes alone that are there;
* `Eval.Agree` — started in related worlds, two computations come to the same
  end, in related worlds; with the rules to build such pairs.
-/

namespace DynLisp

/-- From the scope `s` of one forest and the scope `t` of another each of the
names has the same value, and the closures in these values refer to these names
only. -/
structure Forest.Alike (names : String → Prop) (s t : ScopeId) (f g : Forest) :
    Prop where
  left : s < f.size
  right : t < g.size
  get?_eq : ∀ name, names name → f.get? s name = g.get? t name
  holdsOnly : ∀ name v, names name → f.get? s name = some v → v.HoldsOnly names

namespace Forest.Alike

variable {names : String → Prop} {s t : ScopeId} {f g f' g' : Forest}

/-- Forests stay alike when no scope that was there changes. -/
theorem extends_both (h : Alike names s t f g) (hf : f.Extends f')
    (hg : g.Extends g') : Alike names s t f' g' where
  left := Nat.lt_of_lt_of_le h.left hf.1
  right := Nat.lt_of_lt_of_le h.right hg.1
  get?_eq := by
    intro name hname
    rw [hf.get?_eq h.left, hg.get?_eq h.right, h.get?_eq name hname]
  holdsOnly := by
    intro name v hname hv
    rw [hf.get?_eq h.left] at hv
    exact h.holdsOnly name v hname hv

/-- Forests stay alike when the same name is bound to the same value in both. -/
theorem define_both (h : Alike names s t f g) (name : String) {v : Value}
    (hv : v.HoldsOnly names) :
    Alike names s t (f.define s name v) (g.define t name v) where
  left := by simpa using h.left
  right := by simpa using h.right
  get?_eq := by
    intro other hother
    rw [get?_define h.left, get?_define h.right, h.get?_eq other hother]
  holdsOnly := by
    intro other u hother hu
    rw [get?_define h.left] at hu
    by_cases hn : name = other
    · rw [if_pos hn] at hu
      cases hu
      exact hv
    · rw [if_neg hn] at hu
      exact h.holdsOnly other u hother hu

/-- Scopes opened around the two with the same bindings are alike. -/
theorem push_both (h : Alike names s t f g) {table : Bindings String Value}
    (htable : ∀ name v, table.get? name = some v → v.HoldsOnly names) :
    Alike names f.size g.size (f.push (some s) table) (g.push (some t) table) where
  left := by simp
  right := by simp
  get?_eq := by
    intro name hname
    rw [get?_push_self table h.left, get?_push_self table h.right,
      h.get?_eq name hname]
  holdsOnly := by
    intro name v hname hv
    rw [get?_push_self table h.left] at hv
    cases hown : table.get? name with
    | some u =>
        rw [hown] at hv
        cases hv
        exact htable name _ hown
    | none =>
        rw [hown] at hv
        exact h.holdsOnly name v hname hv

end Forest.Alike

/-- Two worlds that have printed the same and are alike from two scopes. -/
structure World.Alike (names : String → Prop) (s t : ScopeId) (v w : World) :
    Prop where
  printed : v.printed = w.printed
  forest : v.forest.Alike names s t w.forest

/-- Worlds alike from the callers are alike inside of the calls. -/
theorem World.Alike.enter {names : String → Prop} {s t : ScopeId} {v w : World}
    (h : World.Alike names s t v w) {table : Bindings String Value}
    (htable : ∀ name u, table.get? name = some u → u.HoldsOnly names) :
    World.Alike names v.forest.size w.forest.size
      { v with forest := v.forest.push (some s) table }
      { w with forest := w.forest.push (some t) table } :=
  ⟨h.printed, h.forest.push_both htable⟩

namespace Eval

variable {α β : Type} {R : World → World → Prop}

/-- Two ends of a run that are the same end, in related worlds; a result
satisfies `Q`. -/
inductive SameEnd (R : World → World → Prop) (Q : α → Prop) :
    EStateM.Result Halt World α → EStateM.Result Halt World α → Prop
  | ok {a : α} {v w : World} (ha : Q a) (hvw : R v w) :
      SameEnd R Q (.ok a v) (.ok a w)
  | error {h : Halt} {v w : World} (hvw : R v w) :
      SameEnd R Q (.error h v) (.error h w)

/-- Started in related worlds, the two computations come to the same end. -/
def Agree (R : World → World → Prop) (Q : α → Prop) (m n : Eval α) : Prop :=
  ∀ v w, R v w → SameEnd R Q (m v) (n w)

/-- The same value on both sides. -/
theorem agree_pure {a : α} {Q : α → Prop} (h : Q a) :
    Agree R Q (pure a) (pure a) := fun _ _ hvw => .ok h hvw

/-- The same failure on both sides. -/
theorem agree_throw (h : Halt) (Q : α → Prop) :
    Agree R Q (throw h : Eval α) (throw h) := fun _ _ hvw => .error hvw

/-- What touches no world agrees with itself, whatever the two worlds are. -/
theorem Gives.agree {m : Eval α} {Q : α → Prop} (h : Gives m Q) : Agree R Q m m := by
  obtain ⟨r, rfl, hr, -⟩ := h
  cases r with
  | ok a => exact agree_pure (hr a rfl)
  | error h => exact agree_throw h Q

theorem SameEnd.mono {P Q : α → Prop} {x y : EStateM.Result Halt World α}
    (h : SameEnd R P x y) (hPQ : ∀ a, P a → Q a) : SameEnd R Q x y := by
  cases h with
  | ok ha hvw => exact .ok (hPQ _ ha) hvw
  | error hvw => exact .error hvw

/-- What is known of the common result can be weakened. -/
theorem Agree.mono {m n : Eval α} {P Q : α → Prop} (h : Agree R P m n)
    (hPQ : ∀ a, P a → Q a) : Agree R Q m n := by
  intro v w hvw
  exact (h v w hvw).mono hPQ

/-- **One computation after another** agrees with two others if the first ones agree and
the second ones do for every common result. -/
theorem Agree.bind {m n : Eval α} {k l : α → Eval β} {P : α → Prop} {Q : β → Prop}
    (hm : Agree R P m n) (hk : ∀ a, P a → Agree R Q (k a) (l a)) :
    Agree R Q (m >>= k) (n >>= l) := by
  intro v w hvw
  have hfirst := hm v w hvw
  rw [bind_apply, bind_apply]
  cases hv : m v <;> cases hw : n w <;> rw [hv, hw] at hfirst <;> cases hfirst
  case ok.ok.ok ha hvw' => exact hk _ ha _ _ hvw'
  case error.error.error hvw' => exact .error hvw'

/-- The worlds may be related in another way at the end if their forests are. -/
theorem SameEnd.transport {R' : World → World → Prop} {m n : Eval α} {Q : α → Prop}
    {v w : World} (h : SameEnd R Q (m v) (n w))
    (hR : R (m.after v) (n.after w) → R' (m.after v) (n.after w)) :
    SameEnd R' Q (m v) (n w) := by
  unfold after at hR
  cases hv : m v <;> cases hw : n w <;> rw [hv, hw] at h hR <;> cases h
  case ok.ok.ok ha hvw => exact .ok ha (hR hvw)
  case error.error.error hvw => exact .error (hR hvw)

end Eval

end DynLisp
