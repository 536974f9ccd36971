import DynLisp.Proofs.Eval.Pairing

/-!
# Output is only written

A run adds to what is printed and never looks at it.  So a run that starts behind
some printed text does what it does without it, and has that text in front of its
own output in the end.

* `Eval.Behind text m n` — `n`, started behind the text, is `m` with the text in
  front;
* `behind` — so this is a pairing, and evaluation is paired with itself
  (`evaluate_behind`, `send_behind`);
* `World.perform_bind_of_ok` — two computations in a row can be reported one by one:
  the second one starts from the scopes that the first one leaves, and its output
  comes after that of the first.
-/

namespace DynLisp

open Eval

/-- The world with a text in front of what it has printed. -/
def World.behind (text : String) (w : World) : World :=
  { w with printed := text ++ w.printed }

@[simp] theorem World.forest_behind (text : String) (w : World) :
    (w.behind text).forest = w.forest := rfl

namespace Eval

variable {α β : Type} {text : String}

/-- The end of a run with a text in front of what is printed. -/
def endBehind (text : String) : EStateM.Result Halt World α → EStateM.Result Halt World α
  | .ok a w => .ok a (w.behind text)
  | .error h w => .error h (w.behind text)

/-- Started behind the text, `n` does what `m` does without it. -/
def Behind (text : String) (m n : Eval α) : Prop :=
  ∀ w : World, n (w.behind text) = endBehind text (m w)

/-- A text in front of the first computation is in front of both. -/
theorem Behind.bind {m n : Eval α} {k l : α → Eval β} (hm : Behind text m n)
    (hk : ∀ a, Yields m a ∨ Yields n a → Behind text (k a) (l a)) :
    Behind text (m >>= k) (n >>= l) := by
  intro w
  rw [bind_apply, bind_apply, hm w]
  cases hrun : m w with
  | ok a v => exact hk a (.inl ⟨w, v, hrun⟩) v
  | error h v => rfl

end Eval

/-- The pairing of runs with runs behind a text. -/
def behind (text : String) : Pairing where
  rel m n := Behind text m n
  still r := by
    intro w
    cases r <;> rfl
  bind := Behind.bind
  emit more := by
    intro w
    have hprinted : text ++ w.printed ++ more = text ++ (w.printed ++ more) :=
      String.append_assoc ..
    show EStateM.Result.ok () { w with printed := text ++ w.printed ++ more } = _
    rw [hprinted]
    rfl
  define _ _ _ _ := rfl
  lookup s name := by
    intro w
    rw [lookup_apply, lookup_apply]
    rw [World.forest_behind]
    cases w.forest.get? s name <;> rfl
  enter formals args caller := by
    intro w
    rw [enter_apply, enter_apply]
    by_cases hlen : args.length = formals.length
    · rw [if_pos hlen, if_pos hlen]
      rfl
    · rw [if_neg hlen, if_neg hlen]
      rfl

/-- **Evaluation does not look at the output**: by induction on how deep evaluations
may nest. -/
theorem evaluate_behind (text : String) (depth : Nat) (e : Value) (s : ScopeId) :
    Behind text (Value.evaluate depth e s) (Value.evaluate depth e s) := by
  induction depth generalizing e s with
  | zero => exact (behind text).throw .exhausted
  | succ depth ih => exact (behind text).step_rel ih s e

/-- A text that is sent does not look at the output either. -/
theorem send_behind (text : String) (depth : Nat) (code : String) (s : ScopeId) :
    Behind text (send depth code s) (send depth code s) :=
  (behind text).send_rel (evaluate_behind text depth) s code

/-- How the end of a run is reported. -/
def World.reported {α : Type} : EStateM.Result Halt World α → Report α × World
  | .ok a w => (⟨.ok a, w.printed⟩, w)
  | .error h w => (⟨.error h, w.printed⟩, w)

namespace World

variable {α β : Type} {m : Eval α} {k : α → Eval β} {w : World}

/-- A run is reported as its end is, from a world that has printed nothing. -/
theorem perform_eq_reported (w : World) (m : Eval α) :
    w.perform m = reported (m { w with printed := "" }) := by
  unfold perform
  cases m { w with printed := "" } <;> rfl

/-- The scopes that a reported run leaves behind. -/
theorem forest_perform (w : World) (m : Eval α) :
    (w.perform m).2.forest = (m.after { w with printed := "" }).forest := by
  unfold perform after
  cases m { w with printed := "" } <;> rfl

/-- A text in front of the output is a text in front of the reported output. -/
theorem reported_endBehind (text : String) (r : EStateM.Result Halt World α) :
    reported (endBehind text r) =
      (⟨(reported r).1.result, text ++ (reported r).1.printed⟩,
        (reported r).2.behind text) := by
  cases r <;> rfl

/-- If the first of two computations fails, its report is that of both. -/
theorem perform_bind_of_error {h : Halt} (hfirst : (w.perform m).1.result = .error h) :
    w.perform (m >>= k) = (⟨.error h, (w.perform m).1.printed⟩, (w.perform m).2) := by
  rw [perform_eq_reported] at hfirst ⊢
  rw [perform_eq_reported, bind_apply]
  cases hrun : m { w with printed := "" } with
  | ok a v =>
      rw [hrun] at hfirst
      cases hfirst
  | error h' v =>
      rw [hrun] at hfirst
      cases hfirst
      rfl

/-- A change of the value alone. -/
theorem perform_bind_pure (f : α → β) :
    w.perform (m >>= fun a => pure (f a)) =
      (⟨(w.perform m).1.result.map f, (w.perform m).1.printed⟩, (w.perform m).2) := by
  rw [perform_eq_reported, perform_eq_reported, bind_apply]
  cases m { w with printed := "" } <;> rfl

/-- A failure after a computation that gives a value. -/
theorem perform_bind_throw {a : α} (hfirst : (w.perform m).1.result = .ok a) (h : Halt) :
    w.perform (m >>= fun _ => (throw h : Eval β)) =
      (⟨.error h, (w.perform m).1.printed⟩, (w.perform m).2) := by
  rw [perform_eq_reported] at hfirst ⊢
  rw [perform_eq_reported, bind_apply]
  cases hrun : m { w with printed := "" } with
  | ok b v => rfl
  | error h' v =>
      rw [hrun] at hfirst
      cases hfirst

/-- **Two computations in a row.**  If the first one gives a value, the second one
starts from the world that it leaves; the report has the result of the second one,
and the output of both. -/
theorem perform_bind_of_ok {a : α} (hfirst : (w.perform m).1.result = .ok a)
    (hk : ∀ text, Behind text (k a) (k a)) :
    w.perform (m >>= k) =
      (⟨((w.perform m).2.perform (k a)).1.result,
        (w.perform m).1.printed ++ ((w.perform m).2.perform (k a)).1.printed⟩,
        ((w.perform m).2.perform (k a)).2.behind (w.perform m).1.printed) := by
  rw [perform_eq_reported w m] at hfirst ⊢
  rw [perform_eq_reported, perform_eq_reported, bind_apply]
  cases hrun : m { w with printed := "" } with
  | error h v =>
      rw [hrun] at hfirst
      cases hfirst
  | ok a' v =>
      rw [hrun] at hfirst
      cases hfirst
      have hworld : World.behind v.printed { v with printed := "" } = v := by
        simp [World.behind]
      have hbehind := hk v.printed { v with printed := "" }
      rw [hworld] at hbehind
      dsimp only [reported]
      rw [hbehind]
      exact reported_endBehind _ _

end World

end DynLisp
