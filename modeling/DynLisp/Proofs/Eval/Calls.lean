import DynLisp.Proofs.Eval.Output
import DynLisp.Proofs.Eval.Visible

/-!
# Calls from one scope

A call opens scopes of its own and writes to no other, it reads what can be seen from
the scope of its caller, and it never looks at what is printed.  So nothing that one
call does is known to the next one from the same scope: what calls report in a row is
put together from what each of them reports alone.

* `Eval.Calls s m` — all that `m` does, it does by calls from the scope `s`; applying any
  function is such a computation (`apply_calls`), and so is any sequence of them;
* `Eval.Calls.report_eq` — its report does not depend on scopes that were opened in the
  meantime;
* `Eval.Calls.report_bind`, `Eval.Calls.report_mapM` — a sequence reports what its parts
  report from the world in which the whole is started, up to the first failure, with
  the printed texts in a row (`Report.andThen`, `Report.inTurn`).
-/

namespace DynLisp

/-- The report of a run, and then of another one if the first gives a value. -/
def Report.andThen {α β : Type} (first : Report α) (next : α → Report β) : Report β :=
  match first.result with
  | .ok a => ⟨(next a).result, first.printed ++ (next a).printed⟩
  | .error h => ⟨.error h, first.printed⟩

/-- The reports of runs in a row, up to the first one that fails. -/
def Report.inTurn {α : Type} : List (Report α) → Report (List α)
  | [] => ⟨.ok [], ""⟩
  | first :: rest =>
    first.andThen fun a => ⟨(inTurn rest).result.map (a :: ·), (inTurn rest).printed⟩

namespace Report

variable {α : Type}

/-- A run that gives a value, and those after it. -/
theorem inTurn_cons_of_ok {first : Report α} {a : α} (h : first.result = .ok a)
    (rest : List (Report α)) :
    inTurn (first :: rest) =
      ⟨(inTurn rest).result.map (a :: ·), first.printed ++ (inTurn rest).printed⟩ := by
  rw [inTurn, andThen, h]

/-- A run that fails is the last one. -/
theorem inTurn_cons_of_error {first : Report α} {h : Halt} (hfirst : first.result = .error h)
    (rest : List (Report α)) : inTurn (first :: rest) = ⟨.error h, first.printed⟩ := by
  rw [inTurn, andThen, hfirst]

/-- Runs that all give a value: their values, and what they print in a row. -/
theorem inTurn_of_values {reports : List (Report α)} {values : List α}
    (h : reports.map (·.result) = values.map .ok) :
    inTurn reports = ⟨.ok values, String.join (reports.map (·.printed))⟩ := by
  induction reports generalizing values with
  | nil =>
      cases values with
      | nil => rfl
      | cons v values => cases h
  | cons first rest ih =>
      cases values with
      | nil => cases h
      | cons v values =>
          obtain ⟨hfirst, hrest⟩ := List.cons.inj h
          rw [inTurn_cons_of_ok hfirst, ih hrest, List.map_cons, String.join_cons]
          rfl

/-- If runs in turn give values, each of them gives its own. -/
theorem values_of_inTurn {reports : List (Report α)} {values : List α}
    (h : (inTurn reports).result = .ok values) :
    reports.map (·.result) = values.map .ok := by
  induction reports generalizing values with
  | nil =>
      cases h
      rfl
  | cons first rest ih =>
      cases hfirst : first.result with
      | error e =>
          rw [inTurn_cons_of_error hfirst] at h
          cases h
      | ok a =>
          rw [inTurn_cons_of_ok hfirst] at h
          cases hrest : (inTurn rest).result with
          | error e =>
              rw [hrest] at h
              cases h
          | ok later =>
              rw [hrest] at h
              cases h
              rw [List.map_cons, List.map_cons, hfirst, ih hrest]

/-- **The first failure** ends runs in turn: what was printed up to it is printed, and
nothing after it is run. -/
theorem inTurn_of_failure {before : List (Report α)} {failed : Report α} {h : Halt}
    (hbefore : ∀ report ∈ before, ∃ a, report.result = .ok a)
    (hfailed : failed.result = .error h) (rest : List (Report α)) :
    inTurn (before ++ failed :: rest) =
      ⟨.error h, String.join ((before ++ [failed]).map (·.printed))⟩ := by
  induction before with
  | nil => simp [inTurn_cons_of_error hfailed, String.join_cons]
  | cons first before ih =>
      obtain ⟨a, ha⟩ := hbefore first List.mem_cons_self
      rw [List.cons_append, inTurn_cons_of_ok ha,
        ih fun report hmem => hbefore report (List.mem_cons_of_mem _ hmem), List.cons_append,
        List.map_cons, String.join_cons]
      rfl

/-- The first failure among runs that are numbered. -/
theorem inTurn_range_of_failure {runs : Nat → Report α} {i n : Nat} (hi : i < n) {h : Halt}
    (hbefore : ∀ j, j < i → ∃ a, (runs j).result = .ok a)
    (hfailed : (runs i).result = .error h) (rest : List (Report α)) :
    inTurn ((List.range n).map runs ++ rest) =
      ⟨.error h, String.join ((List.range (i + 1)).map fun j => (runs j).printed)⟩ := by
  obtain ⟨later, rfl⟩ : ∃ later, n = i + 1 + later := ⟨n - (i + 1), by omega⟩
  have hvalues : ∀ report ∈ (List.range i).map runs, ∃ a, report.result = .ok a := by
    intro report hmem
    obtain ⟨j, hj, rfl⟩ := List.mem_map.mp hmem
    exact hbefore j (List.mem_range.mp hj)
  rw [List.range_add, List.range_succ, List.map_append, List.map_append, List.append_assoc,
    List.append_assoc, List.map_singleton, List.singleton_append,
    inTurn_of_failure hvalues hfailed]
  simp only [List.map_append, List.map_map, List.map_singleton, Function.comp_def]

/-- Runs that are numbered give the values of a list if each gives the one in its place. -/
theorem results_range_eq_iff {runs : Nat → Report α} {n : Nat} {values : List α} :
    ((List.range n).map runs).map (·.result) = values.map .ok ↔
      values.length = n ∧ ∀ i v, values[i]? = some v → (runs i).result = .ok v := by
  constructor
  · intro h
    have hlength := congrArg List.length h
    simp only [List.length_map, List.length_range] at hlength
    refine ⟨hlength.symm, fun i v hv => ?_⟩
    have hi : i < n := hlength ▸ (List.getElem?_eq_some_iff.mp hv).1
    have hget := congrArg (·[i]?) h
    simpa [hi, hv] using hget
  · rintro ⟨rfl, hruns⟩
    refine List.ext_getElem (by simp) fun i _ hi => ?_
    rw [List.length_map] at hi
    simpa using hruns i values[i] (List.getElem?_eq_getElem hi)

end Report

namespace Eval

variable {α β : Type} {s : ScopeId}

/-- **All that the computation does, it does by calls from the scope.**  It reads what
can be seen from there, it writes to no scope that is there, and what is printed makes
no difference to it. -/
structure Calls (s : ScopeId) (m : Eval α) : Prop where
  reads : Agree (World.Alike (fun _ => True) s s) (fun _ => True) m m
  keeps : Moves (isolation.outside s) m
  unseen : ∀ text, Behind text m m

theorem calls_pure (a : α) : Calls s (pure a) where
  reads := agree_pure trivial
  keeps := moves_pure a
  unseen text := (behind text).pure a

/-- Two sequences of calls in a row are one. -/
theorem Calls.bind {m : Eval α} {k : α → Eval β} (hm : Calls s m)
    (hk : ∀ a, Calls s (k a)) : Calls s (m >>= k) where
  reads := hm.reads.bind fun a _ => (hk a).reads
  keeps := hm.keeps.bind fun a _ => (hk a).keeps
  unseen text := (hm.unseen text).bind fun a _ => (hk a).unseen text

/-- And so are sequences for each element of a list. -/
theorem Calls.mapM {γ : Type} {f : γ → Eval α} (h : ∀ x, Calls s (f x)) (xs : List γ) :
    Calls s (xs.mapM f) := by
  induction xs with
  | nil => exact calls_pure []
  | cons x rest ih =>
      rw [List.mapM_cons]
      exact (h x).bind fun a => ih.bind fun as => calls_pure (a :: as)

/-- **Applying a function** is a call. -/
theorem apply_calls (depth : Nat) (head : Value) (args : List Value) (s : ScopeId) :
    Calls s (Value.apply (Value.evaluate depth) head args s) where
  reads := by
    have hheld : ∀ v : Value, v.HoldsOnly fun _ => True :=
      fun v => (Value.refersOnly_true v).1
    exact (apply_agree (simulates_evaluate _ depth) (Footprint.bounds_evaluate depth) s s
      (hheld head) fun a _ => hheld a).mono fun _ _ => trivial
  keeps := isolation.apply_moves depth head args s
  unseen text := (behind text).apply_rel (evaluate_behind text depth) s head args

/-- No scope that was there is changed. -/
theorem Calls.extends {m : Eval α} (h : Calls s m) (w : World) :
    w.forest.Extends (w.perform m).2.forest := by
  rw [World.forest_perform]
  exact h.keeps { w with printed := "" }

section Reports

variable {w : World} (hs : s < w.forest.size)
include hs

/-- Scopes that were opened in the meantime make no difference to a report. -/
theorem Calls.report_eq {m : Eval α} (h : Calls s m) {later : World}
    (hlater : w.forest.Extends later.forest) : (later.perform m).1 = (w.perform m).1 := by
  have hslater : s < later.forest.size := Nat.lt_of_lt_of_le hs hlater.1
  have halike := Forest.alike_of_get?_eq hslater hs fun name => hlater.get?_eq hs name
  exact (perform_eq_of_sameEnd (h.reads { later with printed := "" }
    { w with printed := "" } ⟨rfl, halike⟩)).1

/-- **Two runs in a row** report what each of them reports from the same world. -/
theorem Calls.report_bind {m : Eval α} {k : α → Eval β} (hm : Calls s m)
    (hk : ∀ a, Calls s (k a)) :
    (w.perform (m >>= k)).1 = (w.perform m).1.andThen fun a => (w.perform (k a)).1 := by
  unfold Report.andThen
  cases hfirst : (w.perform m).1.result with
  | error h => rw [World.perform_bind_of_error hfirst]
  | ok a =>
      rw [World.perform_bind_of_ok hfirst (hk a).unseen, (hk a).report_eq hs (hm.extends w)]

/-- **Runs in turn** report what each of them reports from the same world. -/
theorem Calls.report_mapM {γ : Type} {f : γ → Eval α} (h : ∀ x, Calls s (f x))
    (xs : List γ) :
    (w.perform (xs.mapM f)).1 = Report.inTurn (xs.map fun x => (w.perform (f x)).1) := by
  induction xs with
  | nil => rfl
  | cons x rest ih =>
      rw [List.mapM_cons, (h x).report_bind hs fun a =>
        (Calls.mapM h rest).bind fun as => calls_pure (a :: as)]
      simp only [World.perform_bind_pure, ih]
      rfl

end Reports

end Eval

end DynLisp
