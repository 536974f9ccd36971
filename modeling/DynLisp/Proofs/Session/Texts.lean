import DynLisp.Proofs.Eval.Output
import DynLisp.Proofs.Reader.Seam

/-!
# Putting texts together

What a session does with a text that is made of others.

* `Form.readAll_tokenize_append` — the forms of two texts with a line feed between
  them, where parentheses are made up for neither or for the second only;
* `send_append_newline` — so sending both at once is sending the one and then the
  other, as far as the first can be read; the second may be anything;
* `two_texts_are_two_sends` — the same, as it is reported;
* `made_up_parens_are_written_parens` — parentheses that are made up for a text do
  what parentheses that are written around it do, and what is read does not depend
  on them otherwise.

Both statements need that a text which can be read to its end leaves nothing open
there that could take in what comes next (`Token.explicit_append_newline`).
-/

namespace DynLisp

namespace Form

open Token (explicit wrap)

/-- **The forms of two texts**: those of the first and those of the second, with the
error of the second if there is one. -/
theorem readAll_tokenize_append {a : String} (ha : (readAll (Token.tokenize a false)).2 = none)
    {b : String}
    (hstart : Token.tokenize a false = [] ∨ (Token.tokenize a false).head? = some "(" ∧
      (Token.tokenize b false = [] ∨ (Token.tokenize b false).head? = some "(")) :
    (readAll (Token.tokenize a true)).2 = none ∧
      readAll (Token.tokenize (a ++ "\n" ++ b) true) =
        ((readAll (Token.tokenize a true)).1 ++ (readAll (Token.tokenize b true)).1,
          (readAll (Token.tokenize b true)).2) := by
  simp only [Token.tokenize_false] at ha hstart
  have hforms : readAll (explicit a) = ((readAll (explicit a)).1, none) := Prod.ext rfl ha
  simp only [Token.tokenize_true, Token.explicit_append_newline hforms b]
  rcases hstart with hnone | ⟨hopen, hrest⟩
  · rw [hnone]
    exact ⟨rfl, rfl⟩
  · have hboth : (explicit a ++ explicit b).head? = some "(" := by
      rw [List.head?_append, hopen]
      rfl
    have hsecond : wrap (explicit b) = explicit b := by
      rcases hrest with hnone | hopen'
      · rw [hnone]
        rfl
      · exact Token.wrap_of_open hopen'
    rw [Token.wrap_of_open hopen, Token.wrap_of_open hboth, hsecond]
    exact ⟨ha, readAll_append hforms (explicit b)⟩

end Form

namespace Eval

/-- Evaluates what comes of reading a text: the forms in turn, and then the error if
there is one. -/
def evalRead (depth : Nat) (scope : ScopeId) (last : Value) :
    List Value × Option Halt → Eval Value
  | (forms, failure) => do
    let v ← evalForms depth scope last forms
    match failure with
    | none => pure v
    | some h => throw h

variable (depth : Nat) (scope : ScopeId)

theorem send_eq_evalRead (code : String) :
    send depth code scope =
      evalRead depth scope .nil (Form.readAll (Token.tokenize code true)) := rfl

theorem evalForms_append (last : Value) (forms more : List Value) :
    evalForms depth scope last (forms ++ more) =
      evalForms depth scope last forms >>= fun v => evalForms depth scope v more := by
  induction forms generalizing last with
  | nil => rfl
  | cons form rest ih =>
      rw [List.cons_append, evalForms, evalForms, bind_assoc]
      exact bind_congr fun v => ih v

/-- If nothing is wrong with what was read, evaluating it is evaluating the forms. -/
theorem evalRead_none (last : Value) (forms : List Value) :
    evalRead depth scope last (forms, none) = evalForms depth scope last forms :=
  bind_pure _

theorem evalRead_append (last : Value) (forms : List Value)
    (more : List Value × Option Halt) :
    evalRead depth scope last (forms ++ more.1, more.2) =
      evalForms depth scope last forms >>= fun v => evalRead depth scope v more := by
  rw [evalRead, evalForms_append, bind_assoc]
  rfl

/-- Where anything was read, the value before it does not matter. -/
theorem evalRead_of_ne_nil {found : List Value × Option Halt} (h : found ≠ ([], none))
    (last other : Value) :
    evalRead depth scope last found = evalRead depth scope other found := by
  obtain ⟨forms, failure⟩ := found
  cases forms with
  | cons form rest => rfl
  | nil =>
      cases failure with
      | none => exact absurd rfl h
      | some halt => rfl

/-- A text without tokens gives `nil`. -/
theorem send_of_no_tokens {code : String} (h : Token.tokenize code false = []) :
    send depth code scope = pure .nil := by
  rw [send_eq_evalRead, Token.tokenize_true_of_nil h]
  rfl

/-- **Sending two texts at once** is sending the first and then the second.  The
value is that of the second, or that of the first if there is nothing in the
second. -/
theorem send_append_newline {a b : String}
    (ha : (Form.readAll (Token.tokenize a false)).2 = none)
    (hstart : Token.tokenize a false = [] ∨ (Token.tokenize a false).head? = some "(" ∧
      (Token.tokenize b false = [] ∨ (Token.tokenize b false).head? = some "(")) :
    send depth (a ++ "\n" ++ b) scope =
      send depth a scope >>= fun v =>
        send depth b scope >>= fun u =>
          pure (if Token.tokenize b false = [] then v else u) := by
  obtain ⟨hfirst, hboth⟩ := Form.readAll_tokenize_append ha hstart
  have hread : Form.readAll (Token.tokenize a true) =
      ((Form.readAll (Token.tokenize a true)).1, none) := Prod.ext rfl hfirst
  rw [send_eq_evalRead depth scope a, hread, evalRead_none, send_eq_evalRead, hboth,
    evalRead_append, send_eq_evalRead]
  refine bind_congr fun v => ?_
  by_cases hnone : Token.tokenize b false = []
  · simp only [if_pos hnone, Token.tokenize_true_of_nil hnone]
    rfl
  · simp only [if_neg hnone, bind_pure]
    refine evalRead_of_ne_nil depth scope (Form.readAll_ne_nil ?_) v .nil
    rw [Token.tokenize_true]
    exact Token.wrap_ne_nil hnone

section Report

variable {w : World} {a b : String}
  (ha : (Form.readAll (Token.tokenize a false)).2 = none)
  (hstart : Token.tokenize a false = [] ∨ (Token.tokenize a false).head? = some "(" ∧
    (Token.tokenize b false = [] ∨ (Token.tokenize b false).head? = some "("))

include ha hstart

/-- If the first of two texts fails, the second one does not matter. -/
theorem perform_send_append_of_error {halt : Halt}
    (hfirst : (w.perform (send depth a scope)).1.result = .error halt) :
    w.perform (send depth (a ++ "\n" ++ b) scope) =
      (⟨.error halt, (w.perform (send depth a scope)).1.printed⟩,
        (w.perform (send depth a scope)).2) := by
  rw [send_append_newline depth scope ha hstart]
  exact World.perform_bind_of_error hfirst

/-- If it gives a value, the second one is sent to the world that it leaves. -/
theorem perform_send_append_of_ok {v : Value}
    (hfirst : (w.perform (send depth a scope)).1.result = .ok v) :
    let first := w.perform (send depth a scope)
    let second := first.2.perform (send depth b scope)
    w.perform (send depth (a ++ "\n" ++ b) scope) =
      (⟨second.1.result.map fun u => if Token.tokenize b false = [] then v else u,
        first.1.printed ++ second.1.printed⟩, second.2.behind first.1.printed) := by
  intro first second
  rw [send_append_newline depth scope ha hstart, World.perform_bind_of_ok hfirst fun text =>
    (send_behind text depth b scope).bind fun _ _ => (behind text).pure _,
    World.perform_bind_pure]

end Report

/-- The value of two texts is that of the second one, if there is anything in it. -/
theorem map_result_of_tokens (w : World) (code : String) (v : Value) :
    ((w.perform (send depth code scope)).1.result.map fun u =>
        if Token.tokenize code false = [] then v else u) =
      if Token.tokenize code false = [] then .ok v
        else (w.perform (send depth code scope)).1.result := by
  by_cases hnone : Token.tokenize code false = []
  · rw [send_of_no_tokens depth scope hnone]
    simp only [if_pos hnone]
    rfl
  · simp only [if_neg hnone]
    exact congrFun Except.map_id _

end Eval

/-- **Two texts are two sends.**  Let the first text be one that can be read, and
let it be empty or start with a parenthesis, and the second one as well in the
latter case.  Sending both at once, with a line feed between them, is reported like
sending the one and then, if that gives a value, the other, which may be one that
cannot be read: the first failure is reported, and leaves the world as it is then;
if there is none, both outputs are printed in their order, the scopes are those
after the second send, and the value is the second one, or the first if there is
nothing in the second text. -/
theorem two_texts_are_two_sends (w : World) (depth : Nat) (scope : ScopeId)
    {a b : String} (ha : (Form.readAll (Token.tokenize a false)).2 = none)
    (hstart : Token.tokenize a false = [] ∨ (Token.tokenize a false).head? = some "(" ∧
      (Token.tokenize b false = [] ∨ (Token.tokenize b false).head? = some "(")) :
    let first := w.perform (Eval.send depth a scope)
    let second := first.2.perform (Eval.send depth b scope)
    let both := w.perform (Eval.send depth (a ++ "\n" ++ b) scope)
    (∀ halt, first.1.result = .error halt →
      both.1.result = .error halt ∧ both.1.printed = first.1.printed ∧ both.2 = first.2) ∧
    ∀ v, first.1.result = .ok v →
      both.1.printed = first.1.printed ++ second.1.printed ∧
      both.2.forest = second.2.forest ∧
      both.1.result = if Token.tokenize b false = [] then .ok v else second.1.result := by
  intro first second both
  constructor
  · intro halt hhalt
    have hboth : both = (⟨.error halt, first.1.printed⟩, first.2) :=
      Eval.perform_send_append_of_error depth scope ha hstart hhalt
    rw [hboth]
    exact ⟨rfl, rfl, rfl⟩
  · intro v hv
    have hboth := Eval.perform_send_append_of_ok depth scope ha hstart hv
    refine ⟨congrArg (·.1.printed) hboth, ?_, ?_⟩
    · exact (congrArg (·.2.forest) hboth).trans (World.forest_behind _ _)
    · exact (congrArg (·.1.result) hboth).trans (Eval.map_result_of_tokens depth scope _ b v)

/-- A definition that ends in a comment, and then one with an application behind it
that is not closed. -/
theorem unclosed_second_text_is_second_send :
    let a := "(let x ,\n) ; one"
    let b := "(let x ,b) (f"
    let w := (World.empty.perform (Eval.openSession 9 none)).2
    (Form.readAll (Token.tokenize a false)).2 = none ∧
      (Token.tokenize a false).head? = some "(" ∧ (Token.tokenize b false).head? = some "(" ∧
      (w.perform (Eval.send 9 a 0)).1.result = .ok (.char '\n') ∧
      (w.perform (Eval.send 9 (a ++ "\n" ++ b) 0)).1.result = .error (.parse .unclosed) ∧
      (w.perform (Eval.send 9 (a ++ "\n" ++ b) 0)).2.forest =
        ((w.perform (Eval.send 9 a 0)).2.perform (Eval.send 9 b 0)).2.forest := by
  intro a b w
  have hread : (Form.readAll (Token.tokenize a false)).2 = none := by
    simp only [a]
    with_unfolding_all rfl
  have ha : (Token.tokenize a false).head? = some "(" := by decide
  have hb : (Token.tokenize b false).head? = some "(" := by decide
  have hsome : Token.tokenize b false ≠ [] := by decide
  have hforms : Form.readAll (Token.tokenize a true) =
      ([.list [.symbol "let", .symbol "x", .char '\n']], none) := by
    simp only [a]
    with_unfolding_all rfl
  have hrest : Form.readAll (Token.tokenize b true) =
      ([.list [.symbol "let", .symbol "x", .char 'b']],
        some (.error (.parse .unclosed))) := by
    simp only [b]
    with_unfolding_all rfl
  have hfirst : (w.perform (Eval.send 9 a 0)).1.result = .ok (.char '\n') := by
    rw [Eval.send_eq_evalRead, hforms]
    with_unfolding_all rfl
  have hsecond : ((w.perform (Eval.send 9 a 0)).2.perform (Eval.send 9 b 0)).1.result =
      .error (.parse .unclosed) := by
    rw [Eval.send_eq_evalRead 9 0 a, Eval.send_eq_evalRead 9 0 b, hforms, hrest]
    with_unfolding_all rfl
  obtain ⟨-, hforest, hresult⟩ :=
    (two_texts_are_two_sends w 9 0 hread (Or.inr ⟨ha, Or.inr hb⟩)).2 _ hfirst
  rw [if_neg hsome, hsecond] at hresult
  exact ⟨hread, ha, hb, hfirst, hresult, hforest⟩

/-- **Made-up parentheses are written parentheses.**  Let the tokens of a text, as it
stands, spell forms.  If there are none, none are made up.  If the text starts with a
parenthesis, the same forms are read from it.  If it starts with anything else, one
form is read, the list of those forms, and the tokens are those of the text between
parentheses, which does the same when it is sent. -/
theorem made_up_parens_are_written_parens {text : String} {forms : List Value}
    (h : Form.readAll (Token.tokenize text false) = (forms, none)) :
    (forms = [] → Token.tokenize text true = []) ∧
    ((Token.tokenize text false).head? = some "(" →
      Form.readAll (Token.tokenize text true) = (forms, none)) ∧
    (forms ≠ [] → (Token.tokenize text false).head? ≠ some "(" →
      Form.readAll (Token.tokenize text true) = ([.list forms], none) ∧
      Token.tokenize text true = Token.tokenize ("(" ++ text ++ "\n" ++ ")") true ∧
      ∀ (w : World) (depth : Nat) (scope : ScopeId),
        w.perform (Eval.send depth text scope) =
          w.perform (Eval.send depth ("(" ++ text ++ "\n" ++ ")") scope)) := by
  have hforms := Form.readAll_eq_iff_derivesAll.mp h
  refine ⟨?_, ?_, ?_⟩
  · rintro rfl
    exact Token.tokenize_true_of_nil (Form.eq_nil_of_readAll h)
  · intro hopen
    have hwrap : Token.tokenize text true = Token.tokenize text false :=
      Token.wrap_of_open hopen
    rw [hwrap]
    exact h
  · intro hne hopen
    have hsome : Token.explicit text ≠ [] := by
      intro hnil
      rw [Token.tokenize_false, hnil] at h
      exact hne (Prod.mk.inj h).1.symm
    have hwrap := Token.wrap_of_not_open hsome hopen
    have htokens : Token.tokenize text true =
        Token.tokenize ("(" ++ text ++ "\n" ++ ")") true := by
      rw [Token.tokenize_true, Token.tokenize_true, hwrap, Token.explicit_between_parens h]
      rfl
    refine ⟨?_, htokens, fun w depth scope => ?_⟩
    · rw [Token.tokenize_true, hwrap]
      exact Form.readAll_eq_iff_derivesAll.mpr (.concat .nil (.list hforms))
    · rw [Eval.send_eq_evalRead, Eval.send_eq_evalRead, htokens]

/-- A word, a character that is a parenthesis, a list, and a comment. -/
theorem commented_text_is_between_parens :
    let text := "f ,) (,a) ; end"
    let forms : List Value := [.symbol "f", .char ')', .list [.char 'a']]
    Form.readAll (Token.tokenize text false) = (forms, none) ∧
      forms ≠ [] ∧ (Token.tokenize text false).head? ≠ some "(" ∧
      Form.readAll (Token.tokenize text true) = ([.list forms], none) ∧
      Token.tokenize text true = Token.tokenize ("(" ++ text ++ "\n" ++ ")") true ∧
      ∀ (w : World) (depth : Nat) (scope : ScopeId),
        w.perform (Eval.send depth text scope) =
          w.perform (Eval.send depth ("(" ++ text ++ "\n" ++ ")") scope) := by
  intro text forms
  have hread : Form.readAll (Token.tokenize text false) = (forms, none) := by
    simp only [text, forms]
    with_unfolding_all rfl
  have hne : forms ≠ [] := List.cons_ne_nil _ _
  have hopen : (Token.tokenize text false).head? ≠ some "(" := by decide
  obtain ⟨hforms, htokens, hsends⟩ := (made_up_parens_are_written_parens hread).2.2 hne hopen
  exact ⟨hread, hne, hopen, hforms, htokens, hsends⟩

end DynLisp
