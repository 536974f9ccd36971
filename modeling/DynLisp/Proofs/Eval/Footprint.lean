import DynLisp.Proofs.Eval.Traversal

/-!
# Where evaluation treads

All that an evaluation does to a world it does by binding names, opening the
scopes of calls and printing.  A `Footprint` is a pair of relations between an
earlier and a later world which these three deeds respect: one for evaluating
in a scope, one for calling from a scope.  The two differ in one point only:
evaluating in a scope may bind names *in this scope*, and calling from it may
not, because a call evaluates in a fresh scope.

The main statements say that every evaluation stays within every footprint,
however it ends and however deep it may go:

* `Footprint.evaluate_moves` — evaluating, with the names that the expression
  itself lets as the only names bound in the scope at hand;
* `Footprint.apply_moves` — applying a function.

So a fact about what all runs do to the world needs a footprint, and neither an
induction nor a walk through the evaluator of its own.
-/

namespace DynLisp

/-- A relation between an earlier and a later world that a run can extend: it
allows to stay, and two legs of a way make a way. -/
structure Travel where
  rel : World → World → Prop
  refl : ∀ w, rel w w
  trans : ∀ {u v w}, rel u v → rel v w → rel u w

namespace Eval

variable {α β : Type} {R : Travel}

/-- However it ends, the computation leaves a world that is related to the one
it was started in. -/
def Moves (R : Travel) (m : Eval α) : Prop := ∀ w, R.rel w (m.after w)

/-- What touches no world stays. -/
theorem moves_pureResult (r : Except Halt α) : Moves R (pureResult r) := by
  intro w
  cases r with
  | ok a => exact R.refl w
  | error h => exact R.refl w

theorem moves_pure (a : α) : Moves R (pure a) := moves_pureResult (.ok a)

theorem moves_throw (h : Halt) : Moves R (throw h : Eval α) := moves_pureResult (.error h)

/-- **One way after the other.**  The second computation has to move the world only for
what the first one can give. -/
theorem Moves.bind {m : Eval α} {k : α → Eval β} (hm : Moves R m)
    (hk : ∀ a, Yields m a → Moves R (k a)) : Moves R (m >>= k) := by
  intro w
  have hfirst := hm w
  unfold after at hfirst ⊢
  rw [bind_apply]
  cases hrun : m w with
  | error h v => simpa [hrun] using hfirst
  | ok a v =>
      rw [hrun] at hfirst
      exact R.trans hfirst (hk a ⟨w, v, hrun⟩ v)

/-- After a computation that touches no world, what it gives is known. -/
theorem Gives.bind_moves {m : Eval α} {k : α → Eval β} {P : α → Prop}
    (hm : Gives m P) (hk : ∀ a, P a → Moves R (k a)) : Moves R (m >>= k) := by
  obtain ⟨r, rfl, hr, hproper⟩ := hm
  exact (moves_pureResult r).bind fun a ha => hk a (Gives.of_yields ⟨r, rfl, hr, hproper⟩ ha)

end Eval

/-- That the first computation moves the world says nothing of the second. -/
def Travel.congruence (R : Travel) : Congruence where
  rel m _ := Eval.Moves R m
  still := Eval.moves_pureResult
  bind hm hk := hm.bind fun a ha => hk a (.inl ha)

/-- Code that lets these names only; any value is data. -/
def Sorts.letting (names : String → Prop) : Sorts where
  Code e := ∀ name, e.Lets name → names name
  Data _ := True
  head hcode _ name hname := hcode name (.item List.mem_cons_self hname)
  tail hcode _ he name hname := hcode name (.item (List.mem_cons_of_mem _ he) hname)
  atom _ _ := trivial
  list := Sorts.anything.list
  closure _ := trivial
  callable _ _ := trivial

/-- Two relations that the deeds of an evaluation respect: `inside names s` for
evaluating in the scope `s` with `names` the only names bound there, and
`outside s` for calling from the scope `s`. -/
structure Footprint where
  inside : (String → Prop) → ScopeId → Travel
  outside : ScopeId → Travel
  emit : ∀ s w text, (outside s).rel w { w with printed := w.printed ++ text }
  enter : ∀ s v w table,
    (inside (fun _ => True) v.forest.size).rel
      { v with forest := v.forest.push (some s) table } w →
    (outside s).rel v w
  call : ∀ names s v w, (outside s).rel v w → (inside names s).rel v w
  define : ∀ (names : String → Prop) s w name v, names name →
    (inside names s).rel w { w with forest := w.forest.define s name v }

namespace Footprint

open Eval

variable (F : Footprint) {self : Evaluator}

/-- Whatever is evaluated stays within the footprint. -/
def Bounds (self : Value → ScopeId → Eval Value) : Prop :=
  ∀ (names : String → Prop) e s, (∀ name, e.Lets name → names name) →
    Moves (F.inside names s) (self e s)

/-- Printing is part of a call. -/
theorem emit_moves (s : ScopeId) (text : String) :
    Moves (F.outside s) (Eval.emit text) := fun w => F.emit s w text

/-- Binding one of the names is part of an evaluation. -/
theorem define_moves {names : String → Prop} {name : String} (h : names name)
    (s : ScopeId) (v : Value) : Moves (F.inside names s) (Eval.define s name v) :=
  fun w => F.define names s w name v h

/-- Looking up a name leaves the world as it is. -/
theorem lookup_moves (names : String → Prop) (s : ScopeId) (name : String) :
    Moves (F.inside names s) (Eval.lookup s name) := by
  intro w
  unfold after
  rw [lookup_apply]
  cases w.forest.get? s name with
  | some v => exact (F.inside names s).refl w
  | none => exact (F.inside names s).refl w

variable {F} (hself : F.Bounds self)
include hself

/-- A call evaluates the body in a fresh scope. -/
theorem callClosure_moves (formals : List String) (body : Value) (caller : ScopeId)
    (args : List Value) :
    Moves (F.outside caller) (Builtin.callClosure self formals body args caller) := by
  intro w
  unfold after
  rw [Builtin.callClosure_apply]
  by_cases hlen : args.length = formals.length
  · rw [if_pos hlen]
    exact F.enter caller w _ _
      (hself (fun _ => True) body w.forest.size (fun _ _ => trivial) _)
  · rw [if_neg hlen]
    exact (F.outside caller).refl w

/-- The walk through one run, with the names that may be bound in the scope at hand. -/
def traversal (names : String → Prop) (s : ScopeId) : Traversal self self s s where
  sorts := .letting names
  inside := (F.inside names s).congruence.judgement
  outside := (F.outside s).congruence.judgement
  weaken h := ⟨fun w => F.call names s _ _ (h.1 w), h.2⟩
  emit text := ⟨F.emit_moves s text, fun _ _ => trivial⟩
  call _ _ := ⟨callClosure_moves hself _ _ s _, fun _ _ => trivial⟩
  evaluate hcode := ⟨hself names _ s hcode, fun _ _ => trivial⟩
  lookup _ := ⟨F.lookup_moves names s _, fun _ _ => trivial⟩
  define hcode hlets _ := ⟨F.define_moves (hcode _ hlets) s _, fun _ _ => trivial⟩
  misplaced _ _ h := ⟨moves_throw h, fun _ _ => trivial⟩

/-- Applying a function is a call; what is no function fails. -/
theorem apply_moves_of_bounds (caller : ScopeId) (head : Value) (args : List Value) :
    Moves (F.outside caller) (Value.apply self head args caller) := by
  have hargs : ∀ a ∈ args, (Sorts.letting fun _ => True).Data a := fun _ _ => trivial
  have hrefused : (F.outside caller).congruence.judgement.holds (fun _ => True)
      (fail (.type .callable) : Eval Value) (fail (.type .callable)) :=
    ⟨moves_throw _, fun _ _ => trivial⟩
  exact ((traversal hself (fun _ => True) caller).applyAny trivial hargs hrefused).1

omit hself

/-- **Evaluation stays within every footprint**: by induction on how deep
evaluations may nest. -/
theorem bounds_evaluate (depth : Nat) : F.Bounds (Value.evaluate depth) := by
  induction depth with
  | zero => exact fun _ _ _ _ => moves_throw _
  | succ depth ih => exact fun names e s hlets => ((traversal ih names s).step hlets).1

/-- Evaluating in a scope, however it ends, moves the world inside of it. -/
theorem evaluate_moves (F : Footprint) (depth : Nat) (e : Value) (s : ScopeId)
    (w : World) :
    (F.inside (fun name => e.Lets name) s).rel w
      ((Value.evaluate depth e s).after w) :=
  bounds_evaluate depth _ e s (fun _ h => h) w

/-- Applying a function from a scope, however it ends, moves the world outside
of it. -/
theorem apply_moves (F : Footprint) (depth : Nat) (head : Value)
    (args : List Value) (s : ScopeId) (w : World) :
    (F.outside s).rel w
      ((Value.apply (Value.evaluate depth) head args s).after w) :=
  apply_moves_of_bounds (bounds_evaluate depth) s head args w

end Footprint

end DynLisp
