import DynLisp.Proofs.Reader.ReadBack
import DynLisp.Proofs.Session.Reached

/-!
# Sending results back

The text of a result can be sent to any session, and the result comes back.

* `Value.Settled.readable` — a result without functions and infinite numbers is
  readable, as it holds no symbols;
* `Form.readAll_display` — its text is read as the result, in a list of its own
  if it is none;
* `evaluate_inert` — what is read stands for itself.  A list of data is no call:
  its head is data, too, whatever the session has bound.  So nothing is looked
  up, nothing is bound and nothing is printed, and the depth of the lists decides
  whether the limit is enough (`Eval.nested`).
-/

namespace DynLisp

namespace Value

/-- No part of the value is a function or a number that is not finite. -/
def Printable : Value → Prop := Throughout fun u =>
  u.isCallable = false ∧ ∀ x, u = .number x → x.isFinite = true

/-- A list as it is, and any other value in a list of its own. -/
def asForm : Value → Value
  | .list items => .list items
  | v => .list [v]

theorem asForm_of_not_list {v : Value} (h : ∀ items, v ≠ .list items) :
    v.asForm = .list [v] := by
  cases v with
  | list items => exact absurd rfl (h items)
  | _ => rfl

/-- What is printable holds no function. -/
theorem Printable.written {v : Value} (h : v.Printable) : v.Written :=
  h.mono fun _ hu => hu.1

/-- A list is printable if its elements are. -/
theorem printable_list_iff {items : List Value} :
    Printable (.list items) ↔ ∀ v ∈ items, Printable v :=
  throughout_list_iff.trans (and_iff_right ⟨rfl, fun _ h => nomatch h⟩)

/-- **Results can be read back** if they hold no functions and no infinite
numbers. -/
theorem Settled.readable {v : Value} (h : v.Settled) (hprintable : v.Printable) :
    v.Readable := by
  induction v using induction_on_items with
  | list items ih =>
      have hitems := settled_list_iff.mp h
      have hprintables := printable_list_iff.mp hprintable
      exact .list fun v hv => ih v hv (hitems v hv) (hprintables v hv)
  | other v hlist =>
      have hadmitted := h.self
      obtain ⟨hcallable, hfinite⟩ := hprintable.self
      cases v with
      | bool b => exact .bool b
      | nil => exact .nil
      | number x => exact .number (hfinite x rfl)
      | string text => exact .string text
      | char c => exact .char c
      | symbol name => cases hadmitted
      | list items => exact absurd rfl (hlist items)
      | closure formals body => cases hcallable
      | native function => cases hcallable

/-! ### Negative zeros -/

/-- Only lists have depth. -/
theorem depth_of_not_list {v : Value} (h : ∀ items, v ≠ .list items) : v.depth = 0 := by
  cases v with
  | list items => exact absurd rfl (h items)
  | _ => rfl

/-- The sign of zeros does not make a list of anything. -/
theorem positiveZeros_not_list {v : Value} (h : ∀ items, v ≠ .list items) :
    ∀ items, v.positiveZeros ≠ .list items := by
  cases v with
  | list items => exact absurd rfl (h items)
  | _ => simp [positiveZeros]

/-- The sign of zeros has no part in how deep lists are nested. -/
theorem depth_positiveZeros (v : Value) : v.positiveZeros.depth = v.depth := by
  induction v using induction_on_items with
  | other v hlist =>
      rw [depth_of_not_list hlist, depth_of_not_list (positiveZeros_not_list hlist)]
  | list items ih =>
      have hitems : depthItems (items.map positiveZeros) = depthItems items := by
        induction items with
        | nil => rfl
        | cons v vs ih' =>
            have hrest := ih' fun u hu => ih u (List.mem_cons_of_mem _ hu)
            rw [List.map_cons, depthItems, depthItems, ih v List.mem_cons_self, hrest]
      rw [positiveZeros_list]
      cases items with
      | nil => rfl
      | cons v vs =>
          rw [List.map_cons, depthItems, depthItems] at hitems
          rw [List.map_cons, depth, depth, hitems]

/-- No special form is named by data. -/
theorem Inert.ofHead? {v : Value} (h : v.Inert) : SpecialForm.ofHead? v = none := by
  have hself := h.self
  cases v with
  | symbol name => cases hself
  | _ => rfl

/-- Data is no function. -/
theorem Inert.isCallable {v : Value} (h : v.Inert) : v.isCallable = false := by
  have hself := h.self
  cases v with
  | closure formals body | native function => cases hself
  | _ => rfl

/-- Data without negative zeros is data. -/
theorem Inert.positiveZeros {v : Value} (h : v.Inert) : v.positiveZeros.Inert := by
  induction v using induction_on_items with
  | other v hlist =>
      have hself := h.self
      refine throughout_of_self (positiveZeros_not_list hlist) ?_
      cases v with
      | symbol name | closure formals body | native function => cases hself
      | list items => exact absurd rfl (hlist items)
      | _ => trivial
  | list items ih =>
      have hitems := inert_list_iff.mp h
      rw [positiveZeros_list, inert_list_iff]
      intro u hu
      obtain ⟨v, hv, rfl⟩ := List.mem_map.mp hu
      exact ih v hv (hitems v hv)

/-- Data in a list of its own is data. -/
theorem Inert.asForm {v : Value} (h : v.Inert) : v.asForm.Inert := by
  cases v with
  | list items => exact h
  | _ => exact inert_list_iff.mpr (by simpa [Value.asForm] using h)

/-- Nor does the sign of zeros matter for the depth of the form that is sent. -/
theorem depth_asForm_positiveZeros (v : Value) :
    v.positiveZeros.asForm.depth = v.asForm.depth := by
  by_cases hlist : ∃ items, v = .list items
  · obtain ⟨items, rfl⟩ := hlist
    have hdepth := depth_positiveZeros (.list items)
    rw [positiveZeros_list] at hdepth ⊢
    exact hdepth
  · rw [not_exists] at hlist
    have hother := positiveZeros_not_list hlist
    rw [asForm_of_not_list hlist, asForm_of_not_list hother]
    simp only [depth, depthItems, depth_of_not_list hlist, depth_of_not_list hother]

end Value

namespace Form

/-- Made-up parentheses make a list of a form that is none. -/
theorem Derives.wrap {p : List String} {v : Value} (h : Derives p v) :
    Derives (Token.wrap p) v.asForm := by
  cases h with
  | @atom token v hopen hclose hread =>
      rw [Token.wrap, if_neg hopen, Value.asForm_of_not_list (Atom.read_ok hread).1]
      exact .list (.cons (.atom hopen hclose hread) .nil)
  | list hitems => exact .list hitems

/-- **The text of a readable value**, with parentheses made up if it has none, is
read as one form. -/
theorem readAll_display {v : Value} (h : v.Readable) :
    readAll (Token.tokenize v.display true) = ([v.positiveZeros.asForm], none) := by
  have hall := readAll_derives h.reads.explicit.wrap []
  rw [List.append_nil] at hall
  rw [Token.tokenize, if_pos rfl, Value.display, hall]
  rfl

end Form

namespace Eval

variable {α β : Type} {limit deep deeper : Nat}

/-- What comes of data that is nested `deep`: the data itself, or exhaustion if the
limit is not above that. -/
def nested (limit deep : Nat) (a : α) : Eval α :=
  if deep < limit then pure a else throw .exhausted

/-- Below the limit the data comes out. -/
theorem nested_of_lt (h : deep < limit) (a : α) : nested limit deep a = pure a := if_pos h

/-- From the limit on the run is exhausted. -/
theorem nested_of_le (h : limit ≤ deep) (a : α) :
    nested limit deep a = throw .exhausted := if_neg (Nat.not_lt.mpr h)

/-- One more list around the data takes one more of the limit. -/
theorem nested_succ (a : α) : nested (limit + 1) (1 + deep) a = nested limit deep a := by
  by_cases hdeep : deep < limit
  · rw [nested_of_lt hdeep, nested_of_lt (by omega)]
  · rw [nested_of_le (Nat.not_lt.mp hdeep), nested_of_le (by omega)]

/-- Of two pieces of data one after the other, the deeper one decides. -/
theorem nested_bind {a : α} {b : β} {k : α → Eval β}
    (hk : deep < limit → k a = nested limit deeper b) :
    (nested limit deep a >>= k) = nested limit (max deep deeper) b := by
  by_cases hfirst : deep < limit
  · have hrest : k a = nested limit deeper b := hk hfirst
    rw [nested_of_lt hfirst, pure_bind, hrest]
    by_cases hdeeper : deeper < limit
    · rw [nested_of_lt hdeeper, nested_of_lt (Nat.max_lt.mpr ⟨hfirst, hdeeper⟩)]
    · rw [nested_of_le (Nat.not_lt.mp hdeeper), nested_of_le (by omega)]
  · rw [nested_of_le (Nat.not_lt.mp hfirst), nested_of_le (by omega)]
    rfl

/-- What is only put together afterwards does not count. -/
theorem nested_bind_pure {a : α} {b : β} {k : α → Eval β} (hk : k a = pure b) :
    (nested limit deep a >>= k) = nested limit deep b := by
  by_cases hdeep : deep < limit
  · rw [nested_of_lt hdeep, nested_of_lt hdeep, pure_bind, hk]
  · rw [nested_of_le (Nat.not_lt.mp hdeep), nested_of_le (Nat.not_lt.mp hdeep)]
    rfl

end Eval

open Eval

section Data

variable {self : Evaluator} {limit : Nat} {s : ScopeId}
  (hself : ∀ e, e.Inert → self e s = nested limit e.depth e)
include hself

/-- Elements that stand for themselves are their own values. -/
theorem evalEach_inert (hlimit : 0 < limit) {es : List Value} (hes : ∀ e ∈ es, e.Inert) :
    Value.evalEach self s es = nested limit (Value.depthItems es) es := by
  induction es with
  | nil =>
      rw [Value.depthItems, nested_of_lt hlimit]
      rfl
  | cons e rest ih =>
      have hrest := ih fun e he => hes e (List.mem_cons_of_mem _ he)
      rw [Value.evalEach, hself e (hes e List.mem_cons_self), Value.depthItems]
      refine nested_bind fun _ => ?_
      rw [hrest]
      exact nested_bind_pure rfl

/-- **A list of data is no call**: its head gives data, which is applied to
nothing. -/
theorem evalList_inert {head : Value} {tail : List Value}
    (hitems : ∀ e ∈ head :: tail, e.Inert) :
    Value.evalList self head tail s =
      nested limit (Value.depthItems (head :: tail)) (.list (head :: tail)) := by
  have hhead := hitems head List.mem_cons_self
  have hcallable := hhead.isCallable
  rw [Value.evalList, Value.evalHead, hcallable, if_neg Bool.false_ne_true,
    hself head hhead, Value.depthItems]
  refine nested_bind fun hfirst => ?_
  have htail := evalEach_inert hself (Nat.zero_lt_of_lt hfirst)
    fun e he => hitems e (List.mem_cons_of_mem _ he)
  rw [htail]
  refine nested_bind_pure ?_
  rw [hcallable, if_neg Bool.false_ne_true]

end Data

/-- **Data stands for itself**, as long as its lists are not nested too deep: by
induction on how deep evaluations may nest. -/
theorem evaluate_inert {v : Value} (h : v.Inert) (limit : Nat) (s : ScopeId) :
    Value.evaluate limit v s = nested limit v.depth v := by
  induction limit generalizing v with
  | zero => exact (nested_of_le (Nat.zero_le _) v).symm
  | succ limit ih =>
      have hself := h.self
      cases v with
      | symbol name | closure formals body | native function => cases hself
      | list items =>
          cases items with
          | nil => exact (nested_of_lt (Nat.succ_pos limit) _).symm
          | cons head tail =>
              have hitems := Value.inert_list_iff.mp h
              have hform := (hitems head List.mem_cons_self).ofHead?
              have hlist : Value.evaluate (limit + 1) (.list (head :: tail)) s =
                  Value.evalList (Value.evaluate limit) head tail s := by
                rw [Value.evaluate, Value.step, hform]
              rw [hlist, evalList_inert (fun e he => ih he) hitems, Value.depth,
                Value.depthItems, nested_succ]
      | _ => exact (nested_of_lt (Nat.succ_pos limit) _).symm

/-- **Sending the text of data** gives the data, and does nothing else. -/
theorem send_display {v : Value} (h : v.Readable) (hinert : v.Inert) (limit : Nat)
    (s : ScopeId) :
    Eval.send limit v.display s =
      nested limit v.asForm.depth v.positiveZeros.asForm := by
  have hvalue := evaluate_inert hinert.positiveZeros.asForm limit s
  rw [Value.depth_asForm_positiveZeros] at hvalue
  have hforms : evalForms limit s .nil [v.positiveZeros.asForm] =
      nested limit v.asForm.depth v.positiveZeros.asForm := by
    rw [evalForms, hvalue]
    exact nested_bind_pure rfl
  rw [Eval.send, Form.readAll_display h]
  dsimp only
  rw [hforms]
  exact nested_bind_pure rfl

/-- **Results can be sent back.**  Let a request to a session give a value without
functions and without numbers that are not finite.  Its text, sent to this or any
other session, gives the value back — the list of it alone if it is no list, and
with negative zeros made positive — and prints nothing and changes no scope.  All
that can go wrong is that the limit is too small for the depth of the lists. -/
theorem results_send_back {w : World} (hw : w.Reached) {depth : Nat} {scope : ScopeId}
    {request : Request} {v : Value}
    (hresult : (w.perform (request.run depth scope)).1.result = .ok v)
    (hprintable : v.Printable) (session : World) (root : ScopeId) (limit : Nat) :
    (v.asForm.depth < limit →
      session.perform (Eval.send limit v.display root) =
        (⟨.ok v.positiveZeros.asForm, ""⟩, { session with printed := "" })) ∧
    (limit ≤ v.asForm.depth →
      (session.perform (Eval.send limit v.display root)).1.result =
        .error .exhausted) := by
  have hsettled := ((request_ensures depth scope request).perform hw.settled).2.1 v hresult
  have hreadable := hsettled.readable hprintable
  have hinert := hsettled.inert hprintable.written
  rw [send_display hreadable hinert limit root]
  constructor
  · intro hlt
    rw [nested_of_lt hlt]
    rfl
  · intro hle
    rw [nested_of_le hle]
    rfl

/-- A list of a character that is a parenthesis and of another list, sent back to
the session that gave it. -/
theorem nested_list_sends_back :
    let w := (World.empty.perform (Eval.openSession 9 none)).2
    let request : Request := .all ",) (true)"
    let v : Value := .list [.char ')', .list [.bool true]]
    let session := (w.perform (request.run 9 0)).2
    w.Reached ∧ (w.perform (request.run 9 0)).1.result = .ok v ∧ v.Printable ∧
      session.perform (Eval.send 4 v.display 0) =
        (⟨.ok v, ""⟩, { session with printed := "" }) := by
  intro w request v session
  have hw : w.Reached := .opened .start 9 none
  have hresult : (w.perform (request.run 9 0)).1.result = .ok v := rfl
  have hchar : Value.Printable (.char ')') :=
    Value.throughout_of_self (by simp) ⟨rfl, fun _ h => nomatch h⟩
  have htrue : Value.Printable (.bool true) :=
    Value.throughout_of_self (by simp) ⟨rfl, fun _ h => nomatch h⟩
  have hprintable : v.Printable := by
    simp [v, Value.printable_list_iff, hchar, htrue]
  exact ⟨hw, hresult, hprintable,
    (results_send_back hw hresult hprintable session 0 4).1 (by decide)⟩

end DynLisp
