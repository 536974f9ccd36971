import DynLisp.Proofs.Checked.Evaluate
import DynLisp.Proofs.Session.Reached
import DynLisp.Proofs.Session.Texts

/-!
# How requests end

Whatever text is sent to a session, the request ends with a value, with an error of
the program, with an exit or exhausted.  Faults do not occur, and no operation is
used outside of its domain, be it in reading the text or in evaluating what is read.

A text is evaluated as it is read.  `Request.reading` is what there is to read: the
forms before the place where the text cannot be read, and what is wrong there.  The
forms are evaluated, and if that does not end the request, it ends with what is wrong,
which is always an error of the source.
-/

namespace DynLisp

/-- What a session does with a request if every operation is used with a check of its
domain. -/
def Request.checked (misuse : Halt) (depth : Nat) (scope : ScopeId) : Request → Eval Value
  | .all code => Checked.send misuse depth code scope
  | .first code => Checked.sendFirst misuse depth code scope

/-- The forms that a request is to evaluate, and why there are no more of them if the
text cannot be read to the end. -/
def Request.reading : Request → List Value × Option Halt
  | .all code => Form.readAll (Token.tokenize code true)
  | .first code =>
    match Form.parse (Token.tokenize code true) with
    | .ok (form, _) => ([form], none)
    | .error h => ([], some h)

theorem Request.checked_eq (misuse : Halt) (depth : Nat) (scope : ScopeId)
    (request : Request) : request.checked misuse depth scope = request.run depth scope := by
  cases request with
  | all code => exact Checked.send_eq depth code scope
  | first code => exact Checked.sendFirst_eq depth code scope

/-- **A request evaluates what it reads.** -/
theorem Request.run_eq_evalRead (depth : Nat) (scope : ScopeId) (request : Request) :
    request.run depth scope = Eval.evalRead depth scope .nil request.reading := by
  cases request with
  | all code => exact Eval.send_eq_evalRead depth scope code
  | first code =>
      rw [run, reading, Eval.sendFirst]
      cases Form.parse (Token.tokenize code true) with
      | error h => rfl
      | ok found =>
          obtain ⟨form, rest⟩ := found
          rw [Eval.evalRead_none]
          exact (bind_pure _).symm

/-- What is wrong with a text is an error of the source. -/
theorem Request.reading_failure {request : Request} {h : Halt}
    (hfail : request.reading.2 = some h) : ∃ cause, h = .parse cause := by
  cases request with
  | all code => exact Form.readAll_failure (fun token => Token.ne_empty_of_mem_tokenize) hfail
  | first code =>
      have hne : ∀ token ∈ Token.tokenize code true, token ≠ "" :=
        fun token => Token.ne_empty_of_mem_tokenize
      rw [reading] at hfail
      cases hparse : Form.parse (Token.tokenize code true) with
      | ok found =>
          rw [hparse] at hfail
          cases hfail
      | error halt =>
          rw [hparse] at hfail
          have herror := Form.parse_error hne (by rw [hparse]; intro v rest heq; cases heq)
          rw [hparse] at herror
          exact ⟨_, (Option.some.inj hfail).symm.trans (Except.error.inj herror)⟩

/-- Where a text cannot be read, the forms before are evaluated, and that is the end. -/
theorem Request.run_of_failure {request : Request} {h : Halt}
    (hfail : request.reading.2 = some h) (depth : Nat) (scope : ScopeId) :
    request.run depth scope =
      Eval.evalForms depth scope .nil request.reading.1 >>= fun _ => throw h := by
  have hread : request.reading = (request.reading.1, some h) := Prod.ext rfl hfail
  rw [run_eq_evalRead, hread]
  rfl

/-- The ways in which a program is meant to end without a value. -/
theorem Halt.Proper.cases {h : Halt} (hproper : h.Proper) :
    (∃ e, h = .error e) ∨ (∃ status, h = .exit status) ∨ h = .exhausted := by
  cases h with
  | error e => exact Or.inl ⟨e, rfl⟩
  | exit status => exact Or.inr (Or.inl ⟨status, rfl⟩)
  | exhausted => exact Or.inr (Or.inr rfl)
  | fault f => exact hproper.elim

/-- **Requests end properly.**  In every world that sessions come to, a request for
any text ends with a value, with an error of one of the five kinds, with an exit or
exhausted; and it ends so without using an operation outside of its domain, because it
would not make a difference what comes of that.  If the text cannot be read, the forms
before that place are evaluated; unless one of them ends the request, it ends with an
error of the source. -/
theorem requests_end_properly {w : World} (hw : w.Reached) (depth : Nat) (scope : ScopeId)
    (request : Request) :
    let report := w.perform (request.run depth scope)
    let before := w.perform (Eval.evalForms depth scope .nil request.reading.1)
    ((∃ v, report.1.result = .ok v) ∨ (∃ e, report.1.result = .error (.error e)) ∨
      (∃ status, report.1.result = .error (.exit status)) ∨
      report.1.result = .error .exhausted) ∧
    (∀ misuse, request.checked misuse depth scope = request.run depth scope) ∧
    ∀ h, request.reading.2 = some h → ∃ cause, h = .parse cause ∧
      (∀ v, before.1.result = .ok v →
        report = (⟨.error (.parse cause), before.1.printed⟩, before.2)) ∧
      ∀ halt, before.1.result = .error halt →
        report = (⟨.error halt, before.1.printed⟩, before.2) := by
  intro report before
  refine ⟨?_, fun misuse => request.checked_eq misuse depth scope, ?_⟩
  · have hproper := ((Eval.request_ensures depth scope request).perform hw.settled).2.2
    cases hresult : report.1.result with
    | ok v => exact Or.inl ⟨v, rfl⟩
    | error halt =>
        rcases (hproper halt hresult).cases with ⟨e, rfl⟩ | ⟨status, rfl⟩ | rfl
        · exact Or.inr (Or.inl ⟨e, rfl⟩)
        · exact Or.inr (Or.inr (Or.inl ⟨status, rfl⟩))
        · exact Or.inr (Or.inr (Or.inr rfl))
  · intro h hfail
    obtain ⟨cause, rfl⟩ := Request.reading_failure hfail
    have hreport : report = w.perform (Eval.evalForms depth scope .nil request.reading.1 >>=
        fun _ => throw (.parse cause)) :=
      congrArg w.perform (Request.run_of_failure hfail depth scope)
    refine ⟨cause, rfl, fun v hv => ?_, fun halt hhalt => ?_⟩
    · rw [hreport]
      exact World.perform_bind_throw hv _
    · rw [hreport]
      exact World.perform_bind_of_error hhalt

/-- A list of a character and then one that is not closed. -/
theorem unclosed_list_ends_properly :
    let w := (World.empty.perform (Eval.openSession 9 none)).2
    let request : Request := .all "(,a) (let x"
    w.Reached ∧ request.reading = ([.list [.char 'a']], some (.parse .unclosed)) ∧
      (w.perform (request.run 9 0)).1.result = .error (.parse .unclosed) := by
  intro w request
  have hw : w.Reached := .opened .start 9 none
  have hread : request.reading = ([.list [.char 'a']], some (.parse .unclosed)) := by
    simp only [request]
    with_unfolding_all rfl
  have hbefore : (w.perform (Eval.evalForms 9 0 .nil request.reading.1)).1.result =
      .ok (.list [.char 'a']) := by
    rw [hread]
    simp only [w]
    with_unfolding_all rfl
  obtain ⟨-, -, hfailure⟩ := requests_end_properly hw 9 0 request
  obtain ⟨cause, hcause, hunread, -⟩ := hfailure (.parse .unclosed) (by rw [hread])
  have hreport := congrArg (·.1.result) (hunread _ hbefore)
  exact ⟨hw, hread, hreport.trans (congrArg Except.error hcause.symm)⟩

/-- **The error need not be one of the source** where a text cannot be read: the name
in front of the list that is not closed is looked up first, and it has no value. -/
theorem unresolved_name_before_unclosed_list :
    let w := (World.empty.perform (Eval.openSession 9 none)).2
    let request : Request := .all "(x) ("
    w.Reached ∧ request.reading.2 = some (.parse .unclosed) ∧
      (w.perform (request.run 9 0)).1.result = .error (.error (.unresolved "x")) ∧
      ∀ cause, (w.perform (request.run 9 0)).1.result ≠ .error (.parse cause) := by
  intro w request
  have hread : request.reading.2 = some (.parse .unclosed) := by
    simp only [request]
    with_unfolding_all rfl
  have hresult : (w.perform (request.run 9 0)).1.result =
      .error (.error (.unresolved "x")) := by
    simp only [w, request]
    with_unfolding_all rfl
  refine ⟨.opened .start 9 none, hread, hresult, fun cause => ?_⟩
  rw [hresult]
  intro heq
  cases heq

end DynLisp
