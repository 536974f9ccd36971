import DynLisp.Proofs.Eval.Footprint
import DynLisp.Proofs.Eval.Pairing

/-!
# The recursion limit

How deep evaluations may nest decides only whether a run is exhausted.  A run
that ends in any other way ends in the same way under every larger limit, in the
same world; and a run that is exhausted has printed the beginning of what it
prints when it may go on.

* `Eval.Prolongs m n` — `n` is the same run as `m`, or `m` is exhausted and `n`
  prints at least as much;
* `Eval.Prolongs.bind` — sequences prolong sequences.  Nothing in the language
  catches a failure, so an exhausted run ends right there, while the longer one
  goes on and can only print more (`outputGrows`);
* `prolonging` — so this is a pairing;
* `evaluate_prolongs` — by induction on the smaller limit.
-/

namespace DynLisp

open Eval

/-- The later world has printed what the earlier one had, and perhaps more. -/
def outputExtends : Travel where
  rel v w := ∃ more, w.printed = v.printed ++ more
  refl w := ⟨"", by simp⟩
  trans := by
    rintro u v w ⟨first, hv⟩ ⟨second, hw⟩
    exact ⟨first ++ second, by rw [hw, hv, String.append_assoc]⟩

/-- The footprint of printing: whatever runs, what is printed stays printed. -/
def outputGrows : Footprint where
  inside _ _ := outputExtends
  outside _ := outputExtends
  emit := fun _ _ text => ⟨text, rfl⟩
  enter := fun _ _ _ _ hin => hin
  call := fun _ _ _ _ hout => hout
  define := fun _ _ w _ _ _ => outputExtends.refl w

namespace Eval

variable {α β : Type}

/-- **The longer run.**  It is the same as the shorter one, unless that one is
exhausted; and then it prints at least as much. -/
structure Prolongs (m n : Eval α) : Prop where
  prints : Moves outputExtends n
  same_or_exhausted : ∀ w, n w = m w ∨
    ∃ v, m w = .error .exhausted v ∧ outputExtends.rel v (n.after w)

/-- Every run prolongs itself. -/
theorem Moves.prolongs {m : Eval α} (h : Moves outputExtends m) : Prolongs m m :=
  ⟨h, fun _ => Or.inl rfl⟩

theorem prolongs_pure (a : α) : Prolongs (pure a) (pure a) := (moves_pure a).prolongs

theorem prolongs_throw (h : Halt) : Prolongs (throw h : Eval α) (throw h) :=
  (moves_throw h).prolongs

/-- A run that is exhausted at once is prolonged by any other. -/
theorem prolongs_exhausted {n : Eval α} (h : Moves outputExtends n) :
    Prolongs (throw .exhausted) n :=
  ⟨h, fun w => Or.inr ⟨w, rfl, h w⟩⟩

/-- **One run after another.**  Where the first part of the shorter run is
exhausted, all that the longer one does from there on adds to its output. -/
theorem Prolongs.bind {m n : Eval α} {k l : α → Eval β} (hm : Prolongs m n)
    (hk : ∀ a, Yields m a ∨ Yields n a → Prolongs (k a) (l a)) :
    Prolongs (m >>= k) (n >>= l) where
  prints := hm.prints.bind fun a ha => (hk a (.inr ha)).prints
  same_or_exhausted := by
    intro w
    rcases hm.same_or_exhausted w with hsame | ⟨v, hv, hmore⟩
    · unfold after
      rw [bind_apply, bind_apply, hsame]
      cases hrun : m w with
      | error h v => exact Or.inl rfl
      | ok a v => exact (hk a (.inl ⟨w, v, hrun⟩)).same_or_exhausted v
    · refine Or.inr ⟨v, by rw [bind_apply, hv], ?_⟩
      unfold after at hmore ⊢
      rw [bind_apply]
      cases hn : n w with
      | error h u =>
          rw [hn] at hmore
          exact hmore
      | ok a u =>
          rw [hn] at hmore
          exact outputExtends.trans hmore ((hk a (.inr ⟨w, u, hn⟩)).prints u)

end Eval

/-- Entering a closure prints nothing and cannot be exhausted. -/
theorem enter_prolongs (formals : List String) (args : List Value) (caller : ScopeId) :
    Prolongs (enter formals args caller) (enter formals args caller) := by
  apply Moves.prolongs
  intro w
  unfold after
  rw [enter_apply]
  by_cases hlen : args.length = formals.length
  · rw [if_pos hlen]
    exact outputExtends.refl w
  · rw [if_neg hlen]
    exact outputExtends.refl w

/-- The pairing of runs with runs that prolong them. -/
def prolonging : Pairing where
  rel m n := Prolongs m n
  still r := by
    cases r with
    | ok a => exact prolongs_pure a
    | error h => exact prolongs_throw h
  bind := Prolongs.bind
  emit text := (outputGrows.emit_moves 0 text).prolongs
  define s name v := by
    have hmoves : Moves (outputGrows.inside (fun _ => True) s) (define s name v) :=
      outputGrows.define_moves trivial s v
    exact hmoves.prolongs
  lookup s name := (outputGrows.lookup_moves (fun _ => True) s name).prolongs
  enter := enter_prolongs

/-- **Evaluation under a larger limit** prolongs evaluation: by induction on the
smaller limit. -/
theorem evaluate_prolongs {limit larger : Nat} (h : limit ≤ larger) (e : Value)
    (s : ScopeId) :
    Prolongs (Value.evaluate limit e s) (Value.evaluate larger e s) := by
  induction limit generalizing larger e s with
  | zero => exact prolongs_exhausted fun w => outputGrows.evaluate_moves larger e s w
  | succ limit ih =>
      obtain ⟨larger, rfl⟩ : ∃ n, larger = n + 1 :=
        Nat.exists_eq_add_one_of_ne_zero (by omega)
      exact prolonging.step_rel (ih (Nat.le_of_succ_le_succ h)) s e

/-- Sending a text under a larger limit prolongs sending it. -/
theorem send_prolongs {limit larger : Nat} (h : limit ≤ larger) (code : String)
    (s : ScopeId) : Prolongs (send limit code s) (send larger code s) :=
  prolonging.send_rel (evaluate_prolongs h) s code

/-- What a run comes to when it may go on for longer: to the same report and the
same world, unless it was exhausted; and then its output goes on. -/
def GoesOn {α : Type} (short long : Report α × World) : Prop :=
  (short.1.result ≠ .error .exhausted → long = short) ∧
    (short.1.result = .error .exhausted →
      ∃ more, long.1.printed = short.1.printed ++ more)

/-- How runs that prolong each other are reported. -/
theorem Eval.Prolongs.goesOn {α : Type} {m n : Eval α} (h : Prolongs m n) (w : World) :
    GoesOn (w.perform m) (w.perform n) := by
  rcases h.same_or_exhausted { w with printed := "" } with hsame | ⟨v, hv, hmore⟩
  · have hperform : w.perform n = w.perform m := by
      rw [World.perform, hsame, World.perform]
    exact ⟨fun _ => hperform, fun _ => ⟨"", by simp [hperform]⟩⟩
  · rw [perform_of_error hv]
    refine ⟨fun hne => absurd rfl hne, fun _ => ?_⟩
    unfold after at hmore
    cases hn : n { w with printed := "" } with
    | error h u =>
        rw [hn] at hmore
        rw [perform_of_error hn]
        exact hmore
    | ok a u =>
        rw [hn] at hmore
        rw [perform_of_ok hn]
        exact hmore

/-- **The limit decides only between an end and exhaustion.**  An expression or a
text that does not exhaust one limit ends under every larger one with the same
result, the same bindings in every scope and the same printed text; and what is
printed before a limit is exhausted is the beginning of what is printed under
every larger one. -/
theorem limit_only_exhausts {limit larger : Nat} (h : limit ≤ larger) (w : World)
    (scope : ScopeId) :
    (∀ e : Value, GoesOn (w.perform (Value.evaluate limit e scope))
      (w.perform (Value.evaluate larger e scope))) ∧
    ∀ code : String, GoesOn (w.perform (Eval.send limit code scope))
      (w.perform (Eval.send larger code scope)) :=
  ⟨fun e => (evaluate_prolongs h e scope).goesOn w,
    fun code => (send_prolongs h code scope).goesOn w⟩

/-- A list whose second element prints before its third one is nested too deep
for the smaller limit. -/
theorem deep_element_only_exhausts :
    let deep : Value := .list [.list [.list [.nil]]]
    let code : Value := .list [.nil, .list [.native .print, .string "a"], deep]
    3 ≤ 5 ∧ (World.empty.perform (Value.evaluate 3 code 0)).1 = ⟨.error .exhausted, "a"⟩ ∧
      ∃ more, (World.empty.perform (Value.evaluate 5 code 0)).1.printed = "a" ++ more := by
  intro deep code
  have hgoes := (limit_only_exhausts (show 3 ≤ 5 by decide) World.empty 0).1 code
  exact ⟨by decide, rfl, hgoes.2 rfl⟩

end DynLisp
