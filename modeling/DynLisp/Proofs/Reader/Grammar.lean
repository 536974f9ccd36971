import DynLisp.Reader.Form

/-!
# The grammar of forms

Tokens spell a form when they are a single atom, or a pair of parentheses with
tokens between them that spell any number of forms.  `Form.Derives` and
`Form.DerivesAll` say this of a list of tokens and the value or the values that
it stands for.

Forms are read with a stack instead, in a loop.  The two are tied together by
what the loop has behind it at any time:

* `Form.Opened` — the tokens read so far, as the stack of open lists sees them:
  for each open list its parenthesis, and tokens that spell the forms in it;
* `Form.advance_reached` — one token takes such a state to such a state, or
  completes a form;
* `Form.readFrom_derives` — the tokens of a form do to any stack what putting
  its value there does.

`Form.parse_accepts_grammar` says what follows: exactly the lists of tokens with
a form in front are accepted, and which error all others get.
-/

namespace DynLisp

namespace Atom

/-- **Why an atom cannot be read.**  Nothing but a fault of its own text is ever
wrong with a token that has characters. -/
theorem read_error {token : String} {h : Halt} (hne : token ≠ "")
    (hread : read token = .error h) :
    ∃ cause, h = .parse cause ∧ cause ≠ .unexpectedClose ∧ cause ≠ .unclosed := by
  have hchars : token.toList ≠ [] := by simpa using hne
  unfold read at hread
  generalize token.toList = chars at hchars hread
  unfold readChars at hread
  split at hread
  case h_1 => exact absurd rfl hchars
  case h_2 | h_3 | h_4 => cases hread
  case h_5 first rest _ _ _ =>
    by_cases hmark : first = ','
    · rw [if_pos hmark] at hread
      by_cases hlen : (first :: rest).length = 2
      · rw [if_neg (by simpa using hlen)] at hread
        obtain ⟨c, rfl⟩ : ∃ c, rest = [c] :=
          List.length_eq_one_iff.mp (by simpa using hlen)
        simp [Value.charOfText] at hread
      · rw [if_pos hlen] at hread
        cases hread
        exact ⟨_, rfl, by simp, by simp⟩
    · rw [if_neg hmark] at hread
      by_cases hquote : Token.isQuote first = true
      · rw [if_pos hquote] at hread
        unfold literal at hread
        split at hread
        · split at hread <;> cases hread
          exact ⟨_, rfl, by simp, by simp⟩
        · cases hread
          exact ⟨_, rfl, by simp, by simp⟩
      · rw [if_neg hquote] at hread
        split at hread <;> cases hread

end Atom

namespace Form

mutual

/-- The tokens spell a form with this value. -/
inductive Derives : List String → Value → Prop
  | atom {token : String} {v : Value} (hopen : token ≠ "(") (hclose : token ≠ ")")
      (hread : Atom.read token = .ok v) : Derives [token] v
  | list {inner : List String} {items : List Value} (hitems : DerivesAll inner items) :
      Derives ("(" :: (inner ++ [")"])) (.list items)

/-- The tokens spell forms with these values, one after the other. -/
inductive DerivesAll : List String → List Value → Prop
  | nil : DerivesAll [] []
  | cons {first rest : List String} {v : Value} {vs : List Value}
      (hfirst : Derives first v) (hrest : DerivesAll rest vs) :
      DerivesAll (first ++ rest) (v :: vs)

end

/-- Forms in a row are spelt by their tokens in a row. -/
theorem DerivesAll.append {p q : List String} {vs ws : List Value}
    (hp : DerivesAll p vs) (hq : DerivesAll q ws) : DerivesAll (p ++ q) (vs ++ ws) :=
  match hp with
  | .nil => hq
  | .cons hfirst hrest => by
      rw [List.append_assoc, List.cons_append]
      exact .cons hfirst (hrest.append hq)

/-- One more form comes last. -/
theorem DerivesAll.concat {p q : List String} {vs : List Value} {v : Value}
    (hp : DerivesAll p vs) (hq : Derives q v) : DerivesAll (p ++ q) (vs ++ [v]) := by
  have hone : DerivesAll (q ++ []) [v] := .cons hq .nil
  rw [List.append_nil] at hone
  exact hp.append hone

/-! ### What one token does -/

/-- An opening parenthesis opens a list. -/
theorem advance_open (stack : List (List Value)) :
    advance stack "(" = .ok (.inr ([] :: stack)) := by
  unfold advance
  rw [if_pos rfl]

/-- A closing one completes the innermost list, which finds its place. -/
theorem advance_close (items : List Value) (outer : List (List Value)) :
    advance (items :: outer) ")" = .ok (place (.list items.reverse) outer) := by
  unfold advance
  rw [if_neg (by decide), if_pos rfl]

/-- A closing one with no list open is an error. -/
theorem advance_close_nil : advance [] ")" = .error (.parse .unexpectedClose) := by
  unfold advance
  rw [if_neg (by decide), if_pos rfl]

/-- Any other token is read as an atom, which finds its place. -/
theorem advance_atom (stack : List (List Value)) {token : String}
    (hopen : token ≠ "(") (hclose : token ≠ ")") :
    advance stack token = (Atom.read token).map (place · stack) := by
  unfold advance
  rw [if_neg hopen, if_neg hclose]
  cases Atom.read token <;> rfl

/-! ### What the loop has behind it -/

/-- The tokens leave these lists open: innermost first, each with the values of
its forms in reverse. -/
inductive Opened : List String → List (List Value) → Prop
  | nil : Opened [] []
  | list {before inner : List String} {items : List Value}
      {outer : List (List Value)} (hbefore : Opened before outer)
      (hinner : DerivesAll inner items.reverse) :
      Opened (before ++ "(" :: inner) (items :: outer)

/-- What the tokens read so far come to: a form at the top, or open lists. -/
def Reached (tokens : List String) : Value ⊕ List (List Value) → Prop
  | .inl v => Derives tokens v
  | .inr stack => Opened tokens stack

/-- A form that is complete finds its place. -/
theorem place_reached {before q : List String} {stack : List (List Value)} {v : Value}
    (hbefore : Opened before stack) (hq : Derives q v) :
    Reached (before ++ q) (place v stack) := by
  cases hbefore with
  | nil => exact hq
  | @list before inner items outer hbefore hinner =>
      show Opened (before ++ "(" :: inner ++ q) ((v :: items) :: outer)
      rw [List.append_assoc, List.cons_append]
      refine .list hbefore ?_
      rw [List.reverse_cons]
      exact hinner.concat hq

/-- **One token.**  If it is no error, it takes the loop where the tokens up to
it lead. -/
theorem advance_reached {before : List String} {stack : List (List Value)}
    {token : String} {next : Value ⊕ List (List Value)}
    (hbefore : Opened before stack) (hnext : advance stack token = .ok next) :
    Reached (before ++ [token]) next := by
  by_cases hopen : token = "("
  · subst hopen
    rw [advance_open] at hnext
    cases hnext
    exact .list hbefore .nil
  · by_cases hclose : token = ")"
    · subst hclose
      cases hbefore with
      | nil =>
          rw [advance_close_nil] at hnext
          cases hnext
      | @list before inner items outer hbefore hinner =>
          rw [advance_close] at hnext
          cases hnext
          have hplaced := place_reached hbefore (.list hinner)
          simpa using hplaced
    · rw [advance_atom stack hopen hclose] at hnext
      cases hread : Atom.read token with
      | error h =>
          rw [hread] at hnext
          cases hnext
      | ok v =>
          rw [hread] at hnext
          cases hnext
          exact place_reached hbefore (.atom hopen hclose hread)

/-- **The loop is sound.**  What it accepts, together with what it has behind
it, spells the form that it gives. -/
theorem readFrom_sound {before tokens rest : List String}
    {stack : List (List Value)} {v : Value} (hbefore : Opened before stack)
    (hread : readFrom stack tokens = .ok (v, rest)) :
    ∃ p, tokens = p ++ rest ∧ Derives (before ++ p) v := by
  induction tokens generalizing before stack with
  | nil => cases hread
  | cons token tokens ih =>
      unfold readFrom at hread
      cases hnext : advance stack token with
      | error h =>
          rw [hnext] at hread
          cases hread
      | ok next =>
          rw [hnext] at hread
          have hreached := advance_reached hbefore hnext
          cases next with
          | inl u =>
              cases hread
              exact ⟨[token], rfl, hreached⟩
          | inr stack' =>
              obtain ⟨p, htokens, hp⟩ := ih hreached hread
              refine ⟨token :: p, by rw [htokens, List.cons_append], ?_⟩
              simpa using hp

/-! ### What the tokens of a form do -/

/-- What is left to do when a value has found its place. -/
def resume (rest : List String) :
    Value ⊕ List (List Value) → Except Halt (Value × List String)
  | .inl v => .ok (v, rest)
  | .inr stack => readFrom stack rest

/-- The loop takes one token and goes on from there. -/
theorem readFrom_cons (stack : List (List Value)) (token : String)
    (rest : List String) :
    readFrom stack (token :: rest) =
      match advance stack token with
      | .ok next => resume rest next
      | .error h => .error h := by
  rw [readFrom]
  cases advance stack token with
  | error h => rfl
  | ok next => cases next <;> rfl

mutual

/-- **The tokens of a form** do to any stack what putting its value there
does. -/
theorem readFrom_derives {p : List String} {v : Value} (h : Derives p v)
    (stack : List (List Value)) (rest : List String) :
    readFrom stack (p ++ rest) = resume rest (place v stack) :=
  match h with
  | .atom hopen hclose hread => by
      rw [List.singleton_append, readFrom_cons, advance_atom stack hopen hclose, hread]
      rfl
  | .list hitems => by
      have hinner := readFrom_derivesAll hitems [] stack (")" :: rest)
      rw [List.append_nil] at hinner
      rw [List.cons_append, List.append_assoc, List.singleton_append, readFrom_cons,
        advance_open]
      show readFrom ([] :: stack) _ = _
      rw [hinner, readFrom_cons, advance_close, List.reverse_reverse]

/-- The tokens of forms put their values into the innermost list. -/
theorem readFrom_derivesAll {p : List String} {vs : List Value}
    (h : DerivesAll p vs) (items : List Value) (outer : List (List Value))
    (rest : List String) :
    readFrom (items :: outer) (p ++ rest) =
      readFrom ((vs.reverse ++ items) :: outer) rest :=
  match h with
  | .nil => rfl
  | .cons hfirst hrest => by
      rw [List.append_assoc, readFrom_derives hfirst]
      show readFrom ((_ :: items) :: outer) _ = _
      rw [readFrom_derivesAll hrest, List.reverse_cons, List.append_assoc,
        List.singleton_append]

end

/-! ### What is refused -/

/-- What is wrong with a token, if it is an atom that cannot be read. -/
def atomError? (token : String) : Option ParseError :=
  if token = "(" ∨ token = ")" then none
  else
    match Atom.read token with
    | .error (.error (.parse cause)) => some cause
    | _ => none

/-- What is wrong with tokens that have no form in front: a closing parenthesis
comes first; or else some atom cannot be read, and then it is the first of
these; or else the tokens end too early. -/
def rejection (tokens : List String) : ParseError :=
  if tokens.head? = some ")" then .unexpectedClose
  else (tokens.findSome? atomError?).getD .unclosed

theorem atomError?_open : atomError? "(" = none := by
  simp [atomError?]

theorem atomError?_close : atomError? ")" = none := by
  simp [atomError?]

/-- An atom that can be read is no error. -/
theorem atomError?_of_ok {token : String} {v : Value} (h : Atom.read token = .ok v) :
    atomError? token = none := by
  unfold atomError?
  rw [h]
  split <;> rfl

/-- What is wrong with an atom is its error. -/
theorem atomError?_of_error {token : String} {cause : ParseError}
    (hopen : token ≠ "(") (hclose : token ≠ ")")
    (h : Atom.read token = .error (.parse cause)) : atomError? token = some cause := by
  unfold atomError?
  rw [if_neg (by simp [hopen, hclose]), h]

/-- Only a closing parenthesis in front is unexpected. -/
theorem rejection_eq_unexpectedClose_iff {tokens : List String}
    (hne : ∀ token ∈ tokens, token ≠ "") :
    rejection tokens = .unexpectedClose ↔ tokens.head? = some ")" := by
  unfold rejection
  by_cases hhead : tokens.head? = some ")"
  · rw [if_pos hhead]
    exact ⟨fun _ => hhead, fun _ => rfl⟩
  · rw [if_neg hhead]
    refine ⟨fun hcause => ?_, fun h => absurd h hhead⟩
    exfalso
    cases hfound : tokens.findSome? atomError? with
    | none =>
        rw [hfound] at hcause
        cases hcause
    | some cause =>
        rw [hfound] at hcause
        obtain ⟨token, hmem, htoken⟩ := List.exists_of_findSome?_eq_some hfound
        unfold atomError? at htoken
        split at htoken
        · cases htoken
        · split at htoken
          · next hread =>
            obtain ⟨cause', hparse, hclose, -⟩ := Atom.read_error (hne token hmem) hread
            cases htoken
            cases hparse
            exact hclose hcause
          · cases htoken

/-- **With lists open** the loop fails on the first atom that cannot be read,
and otherwise at the end of the tokens. -/
theorem readFrom_open_error {tokens : List String} (hne : ∀ token ∈ tokens, token ≠ "")
    (items : List Value) (outer : List (List Value))
    (hfail : ∀ v rest, readFrom (items :: outer) tokens ≠ .ok (v, rest)) :
    readFrom (items :: outer) tokens =
      .error (.parse ((tokens.findSome? atomError?).getD .unclosed)) := by
  induction tokens generalizing items outer with
  | nil => rfl
  | cons token tokens ih =>
      have hne' := fun t ht => hne t (List.mem_cons_of_mem _ ht)
      rw [readFrom_cons] at hfail ⊢
      by_cases hopen : token = "("
      · subst hopen
        rw [advance_open] at hfail ⊢
        rw [List.findSome?_cons, atomError?_open]
        exact ih hne' [] (items :: outer) hfail
      · by_cases hclose : token = ")"
        · subst hclose
          rw [advance_close] at hfail ⊢
          rw [List.findSome?_cons, atomError?_close]
          cases outer with
          | nil => exact absurd rfl (hfail _ _)
          | cons next outer => exact ih hne' (_ :: next) outer hfail
        · rw [advance_atom _ hopen hclose] at hfail ⊢
          cases hread : Atom.read token with
          | ok v =>
              rw [hread] at hfail
              rw [List.findSome?_cons, atomError?_of_ok hread]
              exact ih hne' (v :: items) outer hfail
          | error h =>
              obtain ⟨cause, rfl, -⟩ := Atom.read_error (hne token List.mem_cons_self) hread
              rw [List.findSome?_cons, atomError?_of_error hopen hclose hread]
              rfl

/-- Tokens that are refused are refused for the reason that `rejection` gives. -/
theorem parse_error {tokens : List String} (hne : ∀ token ∈ tokens, token ≠ "")
    (hfail : ∀ v rest, parse tokens ≠ .ok (v, rest)) :
    parse tokens = .error (.parse (rejection tokens)) := by
  cases tokens with
  | nil => exact absurd rfl (hfail _ _)
  | cons token tokens =>
      have hne' := fun t ht => hne t (List.mem_cons_of_mem _ ht)
      have hparse : parse (token :: tokens) = readFrom [] (token :: tokens) := rfl
      rw [hparse, readFrom_cons] at hfail ⊢
      unfold rejection
      by_cases hopen : token = "("
      · subst hopen
        rw [advance_open] at hfail ⊢
        rw [if_neg (by simp), List.findSome?_cons, atomError?_open]
        exact readFrom_open_error hne' [] [] hfail
      · by_cases hclose : token = ")"
        · subst hclose
          rw [advance_close_nil, if_pos (List.head?_cons)]
        · rw [advance_atom _ hopen hclose] at hfail ⊢
          rw [if_neg (by simpa using hclose)]
          cases hread : Atom.read token with
          | ok v =>
              rw [hread] at hfail
              exact absurd rfl (hfail _ _)
          | error h =>
              obtain ⟨cause, rfl, -⟩ := Atom.read_error (hne token List.mem_cons_self) hread
              rw [List.findSome?_cons, atomError?_of_error hopen hclose hread]
              rfl

/-- What is accepted: nothing at all, or tokens with a form in front. -/
theorem parse_eq_ok_iff {tokens rest : List String} {v : Value} :
    parse tokens = .ok (v, rest) ↔
      (tokens = [] ∧ v = .nil ∧ rest = []) ∨
        ∃ p, tokens = p ++ rest ∧ Derives p v := by
  constructor
  · intro hparse
    cases tokens with
    | nil =>
        cases hparse
        exact Or.inl ⟨rfl, rfl, rfl⟩
    | cons token tokens =>
        obtain ⟨p, htokens, hp⟩ := readFrom_sound .nil hparse
        exact Or.inr ⟨p, htokens, by simpa using hp⟩
  · intro h
    rcases h with ⟨rfl, rfl, rfl⟩ | ⟨p, rfl, hp⟩
    · rfl
    · have hread := readFrom_derives hp [] rest
      cases hp <;> exact hread

/-- **The stack accepts exactly the grammar.**  Reading one form gives a value
and the remaining tokens just when there are no tokens at all and the value is
`nil`, or when the tokens in front of the remaining ones spell the value.  All
other tokens are an error of the source: an unexpected closing parenthesis just
when one comes first, and otherwise what is wrong with the first atom that
cannot be read, or a missing closing parenthesis if there is no such atom. -/
theorem parse_accepts_grammar {tokens : List String}
    (hne : ∀ token ∈ tokens, token ≠ "") :
    (∀ v rest, parse tokens = .ok (v, rest) ↔
      (tokens = [] ∧ v = .nil ∧ rest = []) ∨
        ∃ p, tokens = p ++ rest ∧ Derives p v) ∧
    (tokens ≠ [] → (∀ p rest v, tokens = p ++ rest → ¬ Derives p v) →
      parse tokens = .error (.parse (rejection tokens)) ∧
        (rejection tokens = .unexpectedClose ↔ tokens.head? = some ")")) := by
  refine ⟨fun v rest => parse_eq_ok_iff, ?_⟩
  intro hnonempty hnone
  refine ⟨parse_error hne ?_, rejection_eq_unexpectedClose_iff hne⟩
  intro v rest hparse
  rcases parse_eq_ok_iff.mp hparse with ⟨hempty, -⟩ | ⟨p, htokens, hp⟩
  · exact hnonempty hempty
  · exact hnone p rest v htokens hp

/-- A list with a list in it is read up to its own parenthesis; and of two atoms
that cannot be read the first is reported, also when the list is not closed. -/
theorem nested_and_unterminated_accept_grammar :
    parse ["(", "a", "(", ")", ")", "b"] =
        .ok (.list [.symbol "a", .list []], ["b"]) ∧
      parse ["(", "\"x", ",", "("] = .error (.parse (.unterminated "\"x")) := by
  constructor
  · have haccept := parse_accepts_grammar
      (show ∀ token ∈ ["(", "a", "(", ")", ")", "b"], token ≠ "" by decide)
    have hatom : Derives ["a"] (.symbol "a") := .atom (by decide) (by decide) rfl
    have hitems : DerivesAll ["a", "(", ")"] [.symbol "a", .list []] :=
      .cons hatom (.cons (.list .nil) .nil)
    exact (haccept.1 _ _).mpr (Or.inr ⟨["(", "a", "(", ")", ")"], rfl, .list hitems⟩)
  · have hrefuse := (parse_accepts_grammar
      (show ∀ token ∈ ["(", "\"x", ",", "("], token ≠ "" by decide)).2 (by decide)
    refine (hrefuse ?_).1
    intro p rest v htokens hp
    have hok := parse_eq_ok_iff.mpr (Or.inr ⟨p, htokens, hp⟩)
    cases hok

end Form

end DynLisp
