import DynLisp.Proofs.Eval.ClosedWorld
import DynLisp.Proofs.Reader.Sequence

/-!
# What sessions can come to

A host program opens sessions, with any prelude, and sends texts to them, to be
evaluated as a whole or up to the first form only.  `World.Reached` says of a
world that a host program can come to it so, whether what it asked for
succeeded or failed.

All texts are read, and what is read is written code; so every world that is
reached is settled (`World.Reached.settled`).  What this means for a host program
is said in `sessions_stay_closed`: no code turns up in data and no functions in
code, and the errors that are kept for such mixtures never occur.
-/

namespace DynLisp

/-- What a host program asks of a session. -/
inductive Request where
  /-- To evaluate all forms of a text. -/
  | all (code : String)
  /-- To evaluate the first form of a text. -/
  | first (code : String)

/-- What a session does with a request. -/
def Request.run (depth : Nat) (scope : ScopeId) : Request → Eval Value
  | .all code => Eval.send depth code scope
  | .first code => Eval.sendFirst depth code scope

/-- The worlds that host programs come to by opening sessions and by sending texts
to them, under any limits. -/
inductive World.Reached : World → Prop
  | start : Reached .empty
  | opened {w : World} (h : Reached w) (depth : Nat) (prelude : Option String) :
      Reached (w.perform (Eval.openSession depth prelude)).2
  | sent {w : World} (h : Reached w) (depth : Nat) (scope : ScopeId)
      (request : Request) : Reached (w.perform (request.run depth scope)).2

/-- The errors for code where data is meant and the other way round, each by its
kind and its description. -/
def Error.mixtures : List (String × String) :=
  [("StandardError", "Found unexpected lambda in expression position."),
   ("StandardError", "Found unexpected function in expression position."),
   ("TypeError", "Expected expression."),
   ("TypeError", "Expected Lambda || Function.")]

/-- Proper errors are none of these. -/
theorem Error.not_mem_mixtures {e : Error} (h : (Halt.error e).Proper) :
    (e.kind, e.description) ∉ Error.mixtures := by
  cases e with
  | arity minimum maximum => simp [mixtures, kind]
  | type expected =>
      cases expected with
      | callable => cases h
      | _ => decide
  | parse cause => simp [mixtures, kind]
  | unresolved name => simp [mixtures, kind]
  | standard cause =>
      cases cause with
      | closureAsCode | nativeAsCode => cases h
      | _ => decide

namespace Eval

/-- What a host program gets to see of a run in a settled world. -/
theorem Ensures.perform {α : Type} {m : Eval α} {Q : α → Prop} (h : Ensures Q m)
    {w : World} (hw : w.Settled) :
    (w.perform m).2.Settled ∧ (∀ a, (w.perform m).1.result = .ok a → Q a) ∧
      ∀ halt, (w.perform m).1.result = .error halt → halt.Proper := by
  have hend := h { w with printed := "" } hw
  cases hrun : m { w with printed := "" } with
  | ok a v =>
      rw [hrun] at hend
      rw [perform_of_ok hrun]
      cases hend with
      | ok ha hv =>
          exact ⟨hv, fun b hb => Except.ok.inj hb ▸ ha, fun halt hhalt => nomatch hhalt⟩
  | error halt v =>
      rw [hrun] at hend
      rw [perform_of_error hrun]
      cases hend with
      | error hproper hv =>
          exact ⟨hv, fun b hb => (nomatch hb), fun _ heq => Except.error.inj heq ▸ hproper⟩

/-- Forms in turn give settled data if each of them is written. -/
theorem evalForms_ensures (depth : Nat) (scope : ScopeId) {last : Value}
    (hlast : last.Settled) {forms : List Value} (hforms : ∀ e ∈ forms, e.Written) :
    Ensures Value.Settled (evalForms depth scope last forms) := by
  induction forms generalizing last with
  | nil => exact ensures_pure hlast
  | cons form rest ih =>
      refine (evaluate_ensures depth (hforms form List.mem_cons_self) scope).bind ?_
      exact fun v hv => ih hv fun e he => hforms e (List.mem_cons_of_mem _ he)

theorem settled_nil : Value.nil.Settled :=
  Value.settled_of_not_list (by simp) trivial

/-- **Sending a text** gives settled data, or fails properly. -/
theorem send_ensures (depth : Nat) (code : String) (scope : ScopeId) :
    Ensures Value.Settled (send depth code scope) := by
  obtain ⟨p, rest, -, hforms, -⟩ := Form.readAll_sound (Token.tokenize code true)
  refine (evalForms_ensures depth scope settled_nil hforms.written).bind ?_
  intro v hv
  split
  · exact ensures_pure hv
  · next h hfail =>
    obtain ⟨cause, rfl⟩ :=
      Form.readAll_failure (fun token => Token.ne_empty_of_mem_tokenize) hfail
    exact ensures_throw (by trivial) _

/-- Sending a text for its first form does so, too. -/
theorem sendFirst_ensures (depth : Nat) (code : String) (scope : ScopeId) :
    Ensures Value.Settled (sendFirst depth code scope) := by
  unfold sendFirst
  cases hparse : Form.parse (Token.tokenize code true) with
  | error h =>
      have hne : ∀ token ∈ Token.tokenize code true, token ≠ "" :=
        fun token => Token.ne_empty_of_mem_tokenize
      have herror := Form.parse_error hne (by rw [hparse]; intro v rest heq; cases heq)
      rw [hparse] at herror
      cases herror
      exact ensures_throw (by trivial) _
  | ok found =>
      obtain ⟨form, rest⟩ := found
      have hform : form.Written := by
        rcases Form.parse_eq_ok_iff.mp hparse with ⟨-, rfl, -⟩ | ⟨p, -, hp⟩
        · exact Value.written_of_not_list (by simp) rfl
        · exact hp.written
      exact evaluate_ensures depth hform scope

/-- Binding settled values keeps the world settled. -/
theorem update_ensures (scope : ScopeId) {pairs : List (Value × Value)}
    (h : ∀ pair ∈ pairs, pair.2.Settled) :
    Ensures (fun _ => True) (update scope pairs) := by
  induction pairs with
  | nil => exact ensures_pure trivial
  | cons pair rest ih =>
      obtain ⟨name, v⟩ := pair
      have hrest := ih fun pair hmem => h pair (List.mem_cons_of_mem _ hmem)
      have hfirst : Ensures (fun _ => True) (defineSymbol scope name v) :=
        name.symbolName_gives.ensures.bind fun n _ =>
          define_ensures scope n (h (name, v) List.mem_cons_self)
      exact hfirst.bind fun _ _ => hrest

/-- **Opening a session** binds settled data, whatever its prelude does. -/
theorem openSession_ensures (depth : Nat) (prelude : Option String) :
    Ensures (fun _ => True) (openSession depth prelude) := by
  have hregister : ∀ scope, Ensures (fun _ => True) (register scope) := by
    intro scope
    apply update_ensures
    intro pair hmem
    obtain ⟨f, -, rfl⟩ := List.mem_map.mp hmem
    exact Value.settled_native f
  have hroot : Ensures (fun _ => True) openRoot :=
    (openScope_ensures none (by simp)).bind fun scope _ =>
      (hregister scope).bind fun _ _ => ensures_pure trivial
  refine hroot.bind fun scope _ => ?_
  cases prelude with
  | none => exact ensures_pure trivial
  | some code =>
      exact (send_ensures depth code scope).bind fun _ _ => ensures_pure trivial

/-- What a request reads is written, so its result is settled. -/
theorem request_ensures (depth : Nat) (scope : ScopeId) (request : Request) :
    Ensures Value.Settled (request.run depth scope) := by
  cases request with
  | all code => exact send_ensures depth code scope
  | first code => exact sendFirst_ensures depth code scope

end Eval

/-- **Every world that is reached is settled.** -/
theorem World.Reached.settled {w : World} (h : w.Reached) : w.Settled := by
  induction h with
  | start => exact World.Settled.empty
  | opened _ depth prelude ih => exact ((Eval.openSession_ensures depth prelude).perform ih).1
  | sent _ depth scope request ih =>
      exact ((Eval.request_ensures depth scope request).perform ih).1

/-- **Sessions stay closed.**  In a world that sessions come to, every bound value
and every value that a request gives is settled: its closures have bodies that
were written, without functions in them, its functions are those that every root
scope has, and it holds no symbol.  And no request fails with one of the errors
for a function in the place of code or for something else in the place of a
function; nor does a prelude. -/
theorem sessions_stay_closed {w : World} (hw : w.Reached) :
    (∀ scope name v, (name, v) ∈ w.forest.bindings scope → v.Settled) ∧
    (∀ depth scope (request : Request),
      (∀ v, (w.perform (request.run depth scope)).1.result = .ok v → v.Settled) ∧
      ∀ e, (w.perform (request.run depth scope)).1.result = .error (.error e) →
        (e.kind, e.description) ∉ Error.mixtures) ∧
    ∀ depth prelude e,
      (w.perform (Eval.openSession depth prelude)).1.result = .error (.error e) →
        (e.kind, e.description) ∉ Error.mixtures := by
  refine ⟨hw.settled, ?_, ?_⟩
  · intro depth scope request
    obtain ⟨-, hresult, hproper⟩ :=
      (Eval.request_ensures depth scope request).perform hw.settled
    exact ⟨hresult, fun e he => Error.not_mem_mixtures (hproper _ he)⟩
  · intro depth prelude e he
    obtain ⟨-, -, hproper⟩ := (Eval.openSession_ensures depth prelude).perform hw.settled
    exact Error.not_mem_mixtures (hproper _ he)

/-- A session that gives a closure with an application in its body. -/
theorem closure_session_stays_closed :
    let w := (World.empty.perform (Eval.openSession 9 none)).2
    let request : Request := .first "\\ z (k z z)"
    let closure : Value := .closure ["z"] (.list [.symbol "k", .symbol "z", .symbol "z"])
    w.Reached ∧ (w.perform (request.run 9 0)).1.result = .ok closure ∧ closure.Settled := by
  intro w request closure
  have hw : w.Reached := .opened .start 9 none
  have hresult : (w.perform (request.run 9 0)).1.result = .ok closure := rfl
  exact ⟨hw, hresult, ((sessions_stay_closed hw).2.1 9 0 request).1 closure hresult⟩

end DynLisp
