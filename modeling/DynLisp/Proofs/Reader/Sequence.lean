import DynLisp.Proofs.Reader.Grammar
import DynLisp.Proofs.Reader.Layout
import DynLisp.Proofs.Value.Part

/-!
# Reading all forms of a text

All forms of a text are read by reading one form after the other until the
tokens run out or cannot be read (`Form.readAll_cons`).  What comes out is
described by the grammar of forms:

* `Form.readAll_derives` — a form in front is read, and then the rest;
* `Form.readAll_sound` — the forms that are read are spelled by a first part of
  the tokens, and what stops the reading is what is wrong with the others;
* `Form.Derives.written` — no form that is read holds a function.

The tokens of a text are lexemes, except perhaps for the last one
(`Token.whole_or_cut_of_mem_tokenize`).  So they have characters, and what is wrong
with them is always an error of the source.  Where parentheses are made up, the tokens
of the text itself stand between them (`Token.wrap_of_not_open`).
-/

namespace DynLisp

namespace Token

/-- **The tokens of a text** are lexemes, and perhaps what its end leaves of one. -/
theorem Layout.whole_or_cut {before text token : List Char} {tokens : List (List Char)}
    (h : Layout before text tokens) (hmem : token ∈ tokens) :
    Lexeme token ∨ CutShort token := by
  induction h with
  | last _ => cases hmem
  | cut _ htoken =>
      rw [List.mem_singleton.mp hmem]
      exact Or.inr htoken
  | token _ htoken _ _ ih =>
      rcases List.mem_cons.mp hmem with rfl | hrest
      · exact Or.inl htoken
      · exact ih hrest

/-- The tokens of a text are whole or cut short. -/
theorem whole_or_cut_of_mem_explicit {source token : String} (h : token ∈ explicit source) :
    Lexeme token.toList ∨ CutShort token.toList := by
  obtain ⟨cs, hcs, rfl⟩ := List.mem_map.mp h
  have hlayout := layout_scan [] source.toList fun hword => absurd hword not_isWord_nil
  rw [String.toList_ofList]
  exact hlayout.whole_or_cut hcs

/-- Made-up parentheses are the only new tokens. -/
theorem mem_wrap {token : String} {tokens : List String} (h : token ∈ wrap tokens) :
    token ∈ tokens ∨ token = "(" ∨ token = ")" := by
  unfold wrap at h
  split at h
  · cases h
  · split at h
    · exact Or.inl h
    · rcases List.mem_cons.mp h with hopen | hmem
      · exact Or.inr (Or.inl hopen)
      · rcases List.mem_append.mp hmem with htoken | hclose
        · exact Or.inl htoken
        · exact Or.inr (Or.inr (List.mem_singleton.mp hclose))

/-- So all tokens are whole or cut short, made-up ones included. -/
theorem whole_or_cut_of_mem_tokenize {source token : String} {implicitParens : Bool}
    (h : token ∈ tokenize source implicitParens) :
    Lexeme token.toList ∨ CutShort token.toList := by
  unfold tokenize at h
  split at h
  · rcases mem_wrap h with hmem | rfl | rfl
    · exact whole_or_cut_of_mem_explicit hmem
    · exact Or.inl .opening
    · exact Or.inl .closing
  · exact whole_or_cut_of_mem_explicit h

/-- **No token is empty.**  Lexemes are not, nor is what the end of a text leaves
of one. -/
theorem ne_empty_of_mem_tokenize {source token : String} {implicitParens : Bool}
    (h : token ∈ tokenize source implicitParens) : token ≠ "" := by
  have hne : token.toList ≠ [] := by
    rcases whole_or_cut_of_mem_tokenize h with hwhole | hcut
    · exact hwhole.ne_nil
    · exact hcut.ne_nil
  simpa using hne

/-! ### Made-up parentheses -/

theorem tokenize_true (source : String) : tokenize source true = wrap (explicit source) := rfl

theorem tokenize_false (source : String) : tokenize source false = explicit source := rfl

/-- No parentheses are made up for a text that starts with one. -/
theorem wrap_of_open {tokens : List String} (h : tokens.head? = some "(") :
    wrap tokens = tokens := by
  cases tokens with
  | nil => rfl
  | cons token rest =>
      rw [wrap, if_pos (Option.some.inj h)]

/-- They are made up for all other texts that have tokens. -/
theorem wrap_of_not_open {tokens : List String} (hne : tokens ≠ [])
    (h : tokens.head? ≠ some "(") : wrap tokens = "(" :: (tokens ++ [")"]) := by
  cases tokens with
  | nil => exact absurd rfl hne
  | cons token rest =>
      rw [wrap, if_neg fun heq => h (congrArg some heq)]

/-- Parentheses are made up for no text without tokens. -/
theorem tokenize_true_of_nil {source : String} (h : tokenize source false = []) :
    tokenize source true = [] := by
  rw [tokenize_true, ← tokenize_false, h]
  rfl

/-- Either way the first token is an opening parenthesis, if there are tokens. -/
theorem head?_wrap {tokens : List String} (h : tokens ≠ []) :
    (wrap tokens).head? = some "(" := by
  by_cases hopen : tokens.head? = some "("
  · rw [wrap_of_open hopen]
    exact hopen
  · rw [wrap_of_not_open h hopen]
    rfl

/-- No token is lost. -/
theorem wrap_ne_nil {tokens : List String} (h : tokens ≠ []) : wrap tokens ≠ [] := by
  intro hnil
  have hhead := head?_wrap h
  rw [hnil] at hhead
  cases hhead

end Token

namespace Atom

/-- What an atom can be: neither a list nor a function. -/
theorem read_ok {token : String} {v : Value} (h : read token = .ok v) :
    (∀ items, v ≠ .list items) ∧ v.isCallable = false := by
  unfold read readChars at h
  split at h
  · cases h
  · cases h
    simp [Value.isCallable]
  · cases h
    simp [Value.isCallable]
  · cases h
    simp [Value.isCallable]
  · split at h
    · split at h
      · cases h
      · unfold Value.charOfText at h
        split at h <;> cases h
        simp [Value.isCallable]
    · split at h
      · unfold literal at h
        split at h
        · split at h <;> cases h
          simp [Value.isCallable]
        · cases h
      · split at h <;> cases h <;> simp [Value.isCallable]

end Atom

namespace Form

mutual

/-- **Forms are written.**  Nothing that is read holds a function. -/
theorem Derives.written {p : List String} {v : Value} (h : Derives p v) : v.Written :=
  match h with
  | .atom _ _ hread => by
      obtain ⟨hlist, hcallable⟩ := Atom.read_ok hread
      exact Value.written_of_not_list hlist hcallable
  | .list hitems => Value.written_list_iff.mpr hitems.written

/-- Forms that are read hold no functions. -/
theorem DerivesAll.written {p : List String} {vs : List Value} (h : DerivesAll p vs) :
    ∀ v ∈ vs, v.Written :=
  match h with
  | .nil => by simp
  | .cons hfirst hrest => by
      intro v hv
      rcases List.mem_cons.mp hv with heq | hmem
      · rw [heq]
        exact hfirst.written
      · exact hrest.written v hmem

end

/-- Every form takes a token. -/
theorem Derives.ne_nil {p : List String} {v : Value} (h : Derives p v) : p ≠ [] := by
  cases h with
  | atom _ _ _ => exact List.cons_ne_nil _ _
  | list _ => exact List.cons_ne_nil _ _

/-- A token that completes no form leaves a list open. -/
theorem ne_nil_of_advance {stack next : List (List Value)} {token : String}
    (h : advance stack token = .ok (.inr next)) : next ≠ [] := by
  have hplace : ∀ v (outer : List (List Value)), place v outer = .inr next → next ≠ [] := by
    intro v outer hv
    cases outer with
    | nil => cases hv
    | cons items outer =>
        cases hv
        exact List.cons_ne_nil _ _
  by_cases hopen : token = "("
  · subst hopen
    rw [advance_open] at h
    cases h
    exact List.cons_ne_nil _ _
  · by_cases hclose : token = ")"
    · subst hclose
      cases stack with
      | nil =>
          rw [advance_close_nil] at h
          cases h
      | cons items outer =>
          rw [advance_close] at h
          exact hplace _ _ (Except.ok.inj h)
    · rw [advance_atom stack hopen hclose] at h
      cases hread : Atom.read token with
      | error cause =>
          rw [hread] at h
          cases h
      | ok v =>
          rw [hread] at h
          exact hplace _ _ (Except.ok.inj h)

/-- What comes of reading one form and then all others. -/
def andThenAll : Except Halt (Value × List String) → List Value × Option Halt
  | .ok (v, rest) => (v :: (readAll rest).1, (readAll rest).2)
  | .error h => ([], some h)

/-- The loop over all forms finishes the form at hand, and then starts again. -/
theorem readAllFrom_eq {stack : List (List Value)} {tokens : List String}
    (h : stack ≠ [] ∨ tokens ≠ []) :
    readAllFrom stack tokens = andThenAll (readFrom stack tokens) := by
  induction tokens generalizing stack with
  | nil =>
      have hstack : stack ≠ [] := by simpa using h
      have hempty : stack.isEmpty = false := by simpa using hstack
      rw [readAllFrom, readFrom, hempty]
      rfl
  | cons token rest ih =>
      rw [readAllFrom, readFrom]
      cases hnext : advance stack token with
      | error cause => rfl
      | ok next =>
          cases next with
          | inl v => rfl
          | inr stack' => exact ih (Or.inl (ne_nil_of_advance hnext))

/-- **Form after form.**  If there are tokens, a form is read, and then all forms
behind it. -/
theorem readAll_cons (token : String) (rest : List String) :
    readAll (token :: rest) = andThenAll (parse (token :: rest)) :=
  readAllFrom_eq (Or.inr (List.cons_ne_nil _ _))

/-- **A form in front** is read, and then the rest. -/
theorem readAll_derives {p : List String} {v : Value} (h : Derives p v)
    (rest : List String) :
    readAll (p ++ rest) = (v :: (readAll rest).1, (readAll rest).2) := by
  have hparse : parse (p ++ rest) = .ok (v, rest) :=
    parse_eq_ok_iff.mpr (Or.inr ⟨p, rfl, h⟩)
  obtain ⟨token, tail, hp⟩ := List.exists_cons_of_ne_nil h.ne_nil
  rw [hp, List.cons_append] at hparse ⊢
  rw [readAll_cons, hparse]
  rfl

/-- **What is read.**  A first part of the tokens spells the forms.  If there is
no error, this is all of them; otherwise the others are not empty, and no form
can be read from them for that reason.  By induction on the number of tokens, as
each form takes some. -/
theorem readAll_sound (tokens : List String) :
    ∃ p rest, tokens = p ++ rest ∧ DerivesAll p (readAll tokens).1 ∧
      ∀ h, (readAll tokens).2 = some h → rest ≠ [] ∧ parse rest = .error h := by
  induction hlength : tokens.length using Nat.strongRecOn generalizing tokens with
  | ind n ih =>
      subst hlength
      cases tokens with
      | nil => exact ⟨[], [], rfl, .nil, by intro h hnone; cases hnone⟩
      | cons token tail =>
          rw [readAll_cons]
          cases hparse : parse (token :: tail) with
          | error h =>
              refine ⟨[], token :: tail, rfl, .nil, ?_⟩
              intro h' hsome
              cases hsome
              exact ⟨List.cons_ne_nil _ _, hparse⟩
          | ok found =>
              obtain ⟨v, after⟩ := found
              rcases parse_eq_ok_iff.mp hparse with ⟨hnil, -⟩ | ⟨p, htokens, hp⟩
              · cases hnil
              · rw [htokens] at ih
                obtain ⟨q, rest, hafter, hq, hrest⟩ :=
                  ih _ (length_lt_append hp.ne_nil after) after rfl
                refine ⟨p ++ q, rest, ?_, .cons hp hq, hrest⟩
                rw [htokens, hafter, List.append_assoc]

/-- What stops the reading of a text is an error of the source. -/
theorem readAll_failure {tokens : List String} (hne : ∀ token ∈ tokens, token ≠ "")
    {h : Halt} (hfail : (readAll tokens).2 = some h) : ∃ cause, h = .parse cause := by
  obtain ⟨p, rest, htokens, -, hrest⟩ := readAll_sound tokens
  have hparse := (hrest h hfail).2
  have hne' : ∀ token ∈ rest, token ≠ "" := fun token hmem =>
    hne token (by rw [htokens]; exact List.mem_append_right _ hmem)
  have herror := parse_error hne' (by rw [hparse]; intro v rest heq; cases heq)
  rw [hparse] at herror
  exact ⟨_, Except.error.inj herror⟩

end Form

end DynLisp
