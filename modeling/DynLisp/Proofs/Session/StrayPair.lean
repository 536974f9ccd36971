import DynLisp.Proofs.Session.Texts

/-!
# What made-up parentheses can hide

Parentheses that are made up for a text stand around all of its tokens.  The first
one pairs with the first closing parenthesis that the text has too many, and then
the last one is too many itself, unless the text has an opening parenthesis to spare
further on.  So a text that cannot be read as it stands can be read between made-up
parentheses in one case only: it has **a stray pair**, a closing parenthesis too many
and behind it an opening one too many, and is well formed otherwise.

* `Form.DerivesAll.exists_last` — several forms are some and a last one;
* `Form.derivesAll_paired_iff` — what tokens between parentheses spell: a list, or
  the forms around a stray pair;
* `Form.StrayPair.readAll_eq` — a text with a stray pair cannot be read as it stands,
  because of its closing parenthesis;
* `stray_pairs_alone_are_hidden` — every other text that cannot be read as it stands
  cannot be read between made-up parentheses either.
-/

namespace DynLisp

namespace Form

/-- No tokens spell no forms. -/
theorem DerivesAll.eq_nil {vs : List Value} (h : DerivesAll [] vs) : vs = [] := by
  have hread := readAll_eq_iff_derivesAll.mpr h
  exact (Prod.mk.inj hread).1.symm

/-- **The last form.**  Tokens that spell forms end in those of the last one. -/
theorem DerivesAll.exists_last {tokens : List String} {vs : List Value}
    (h : DerivesAll tokens vs) (hne : tokens ≠ []) :
    ∃ p q us v, tokens = p ++ q ∧ vs = us ++ [v] ∧ DerivesAll p us ∧ Derives q v :=
  match h with
  | .nil => absurd rfl hne
  | @DerivesAll.cons first rest v vs hfirst hrest => by
      by_cases hempty : rest = []
      · subst hempty
        exact ⟨[], first, [], v, by simp, by simp [hrest.eq_nil], .nil, hfirst⟩
      · obtain ⟨p, q, us, u, htokens, hvs, hp, hq⟩ := hrest.exists_last hempty
        refine ⟨first ++ p, q, v :: us, u, ?_, ?_, .cons hfirst hp, hq⟩
        · rw [htokens, List.append_assoc]
        · rw [hvs, List.cons_append]

/-- A form that ends in a closing parenthesis is a list. -/
theorem Derives.of_concat_close {p : List String} {v : Value} (h : Derives (p ++ [")"]) v) :
    ∃ inner items, p = "(" :: inner ∧ v = .list items ∧ DerivesAll inner items := by
  generalize htokens : p ++ [")"] = tokens at h
  cases h with
  | atom hopen hclose hread =>
      have hlast := congrArg List.getLast? htokens
      simp only [List.getLast?_append, List.getLast?_singleton, Option.some_or] at hlast
      exact absurd (Option.some.inj hlast).symm hclose
  | @list inner items hitems =>
      rw [← List.cons_append] at htokens
      exact ⟨inner, items, List.append_cancel_right htokens, rfl, hitems⟩

/-- **A stray pair.**  The tokens spell forms, except for a closing parenthesis too
many and an opening one too many behind it.  The values are what is read if both
have a partner: a list of the forms before the pair, the forms inside of it, and a
list of the forms behind it. -/
inductive StrayPair : List String → List Value → Prop
  | intro {before inside behind : List String} {vs us ws : List Value}
      (hbefore : DerivesAll before vs) (hinside : DerivesAll inside us)
      (hbehind : DerivesAll behind ws) :
      StrayPair (before ++ ")" :: (inside ++ "(" :: behind))
        (.list vs :: (us ++ [.list ws]))

theorem StrayPair.open_mem {tokens : List String} {forms : List Value}
    (h : StrayPair tokens forms) : "(" ∈ tokens := by
  cases h
  simp

/-- **The closing parenthesis of a stray pair** is unexpected. -/
theorem StrayPair.readAll_eq {tokens : List String} {forms : List Value}
    (h : StrayPair tokens forms) :
    ∃ vs, readAll tokens = (vs, some (.parse .unexpectedClose)) := by
  cases h with
  | @intro before inside behind vs us ws hbefore hinside hbehind =>
      refine ⟨vs ++ [], ?_⟩
      rw [readAll_derivesAll hbefore]
      rfl

/-- What follows the first form between parentheses, if it is not all of it. -/
theorem strayPair_of_rest {inner rest : List String} {vs us : List Value}
    (hinner : DerivesAll inner vs) (hrest : DerivesAll (rest ++ [")"]) us) :
    StrayPair (inner ++ ")" :: rest) (.list vs :: us) := by
  obtain ⟨p, q, before, v, htokens, rfl, hp, hq⟩ := hrest.exists_last (by simp)
  obtain ⟨r, last, rfl⟩ : ∃ r last, q = r ++ [last] := by
    rcases List.eq_nil_or_concat q with hnil | ⟨r, last, hq'⟩
    · exact absurd hnil hq.ne_nil
    · exact ⟨r, last, by simpa using hq'⟩
  rw [← List.append_assoc] at htokens
  obtain ⟨hrest', hlast⟩ := List.append_inj' htokens rfl
  cases hlast
  obtain ⟨behind, items, rfl, rfl, hbehind⟩ := hq.of_concat_close
  rw [hrest']
  exact .intro hinner hp hbehind

/-- **Tokens between parentheses** spell a list of the forms that the tokens spell,
or the forms around a stray pair in the tokens. -/
theorem derivesAll_paired_iff {tokens : List String} {forms : List Value} :
    DerivesAll ("(" :: (tokens ++ [")"])) forms ↔
      (∃ vs, DerivesAll tokens vs ∧ forms = [.list vs]) ∨ StrayPair tokens forms := by
  constructor
  · intro h
    generalize hpaired : "(" :: (tokens ++ [")"]) = paired at h
    cases h with
    | nil => cases hpaired
    | @cons first rest v vs hfirst hrest =>
        cases hfirst with
        | atom hopen _ _ => exact absurd (List.cons.inj hpaired).1.symm hopen
        | @list inner items hitems =>
            have htokens : tokens ++ [")"] = inner ++ ")" :: rest := by
              simpa using (List.cons.inj hpaired).2
            rcases List.eq_nil_or_concat rest with rfl | ⟨more, last, rfl⟩
            · refine Or.inl ⟨items, ?_, by rw [hrest.eq_nil]⟩
              rw [List.append_cancel_right htokens]
              exact hitems
            · have hsplit : tokens ++ [")"] = (inner ++ ")" :: more) ++ [last] := by
                simpa using htokens
              obtain ⟨rfl, hlast⟩ := List.append_inj' hsplit rfl
              cases hlast
              exact Or.inr (strayPair_of_rest hitems (by simpa using hrest))
  · rintro (⟨vs, htokens, rfl⟩ | hstray)
    · exact .concat .nil (.list htokens)
    · cases hstray with
      | intro hbefore hinside hbehind =>
          have hall := DerivesAll.cons (.list hbefore) (hinside.concat (.list hbehind))
          simpa using hall

end Form

/-- What is wrong with a text is reported at the end, if nothing ends the run before:
no value comes of it. -/
theorem Eval.send_ne_ok_of_failure {code : String} {h : Halt}
    (hfail : (Form.readAll (Token.tokenize code true)).2 = some h)
    (w : World) (depth : Nat) (scope : ScopeId) (v : Value) :
    (w.perform (send depth code scope)).1.result ≠ .ok v := by
  have hread : Form.readAll (Token.tokenize code true) =
      ((Form.readAll (Token.tokenize code true)).1, some h) := Prod.ext rfl hfail
  rw [send_eq_evalRead, hread, evalRead]
  cases hforms : (w.perform
      (evalForms depth scope .nil (Form.readAll (Token.tokenize code true)).1)).1.result with
  | ok u =>
      rw [World.perform_bind_throw hforms]
      simp
  | error halt =>
      rw [World.perform_bind_of_error hforms]
      simp

/-- **Stray pairs alone are hidden.**  Let a text be one that cannot be read as it
stands.  With made-up parentheses it can be read just when it does not start with an
opening parenthesis, so that some are made up, and has a stray pair; and then the forms
are those around the pair.  If it has none, or if anything but a closing parenthesis is
what is wrong with it, it cannot be read with them either, and no session gives a value
for it. -/
theorem stray_pairs_alone_are_hidden {text : String} {cause : ParseError}
    (h : (Form.readAll (Token.tokenize text false)).2 = some (.parse cause)) :
    (∀ forms, Form.readAll (Token.tokenize text true) = (forms, none) ↔
      (Token.tokenize text false).head? ≠ some "(" ∧
        Form.StrayPair (Token.tokenize text false) forms) ∧
    (cause ≠ .unexpectedClose ∨ (Token.tokenize text false).head? = some "(" ∨
        (∀ forms, ¬Form.StrayPair (Token.tokenize text false) forms) →
      (∃ cause', (Form.readAll (Token.tokenize text true)).2 = some (.parse cause')) ∧
      ∀ (w : World) (depth : Nat) (scope : ScopeId) (v : Value),
        (w.perform (Eval.send depth text scope)).1.result ≠ .ok v) := by
  have hnone : ∀ forms, Form.readAll (Token.tokenize text false) ≠ (forms, none) := by
    intro forms hforms
    rw [hforms] at h
    cases h
  have hiff : ∀ forms, Form.readAll (Token.tokenize text true) = (forms, none) ↔
      (Token.tokenize text false).head? ≠ some "(" ∧
        Form.StrayPair (Token.tokenize text false) forms := by
    intro forms
    rw [Token.tokenize_true, ← Token.tokenize_false]
    by_cases hopen : (Token.tokenize text false).head? = some "("
    · rw [Token.wrap_of_open hopen]
      exact ⟨fun hforms => absurd hforms (hnone forms), fun hstray => absurd hopen hstray.1⟩
    · have hne : Token.tokenize text false ≠ [] := by
        intro hnil
        rw [hnil] at h
        cases h
      -- Between the made-up parentheses stand either forms, which the tokens are not, or a
      -- stray pair.
      rw [Token.wrap_of_not_open hne hopen, Form.readAll_eq_iff_derivesAll,
        Form.derivesAll_paired_iff, and_iff_right hopen, or_iff_right]
      rintro ⟨vs, hvs, -⟩
      exact hnone vs (Form.readAll_eq_iff_derivesAll.mpr hvs)
  refine ⟨hiff, ?_⟩
  intro hplain
  cases hfail : (Form.readAll (Token.tokenize text true)).2 with
  | none =>
      obtain ⟨hopen, hstray⟩ := (hiff _).mp (Prod.ext rfl hfail)
      rcases hplain with hcause | hopen' | hnostray
      · obtain ⟨vs, hread⟩ := hstray.readAll_eq
        rw [hread] at h
        cases h
        exact absurd rfl hcause
      · exact absurd hopen' hopen
      · exact absurd hstray (hnostray _)
  | some halt =>
      obtain ⟨cause', rfl⟩ :=
        Form.readAll_failure (fun token => Token.ne_empty_of_mem_tokenize) hfail
      exact ⟨⟨cause', rfl⟩, Eval.send_ne_ok_of_failure hfail⟩

/-- A closing parenthesis too many, with no opening one to go with it. -/
theorem lone_close_is_not_hidden :
    (Form.readAll (Token.tokenize "a ) b" false)).2 = some (.parse .unexpectedClose) ∧
      (∀ forms, ¬Form.StrayPair (Token.tokenize "a ) b" false) forms) ∧
      (∃ cause, (Form.readAll (Token.tokenize "a ) b" true)).2 = some (.parse cause)) := by
  have hfail : (Form.readAll (Token.tokenize "a ) b" false)).2 =
      some (.parse .unexpectedClose) := by
    with_unfolding_all rfl
  have hnostray : ∀ forms, ¬Form.StrayPair (Token.tokenize "a ) b" false) forms := by
    intro forms hstray
    exact absurd hstray.open_mem (by decide)
  exact ⟨hfail, hnostray, ((stray_pairs_alone_are_hidden hfail).2 (Or.inr (Or.inr hnostray))).1⟩

/-- **A text that cannot be read, and can be with made-up parentheses**: a closing
parenthesis and an opening one.  A session gives a value for it. -/
theorem stray_pair_is_hidden :
    Form.readAll (Token.tokenize ") (" false) = ([], some (.parse .unexpectedClose)) ∧
      Form.readAll (Token.tokenize ") (" true) = ([.list [], .list []], none) ∧
      ((World.empty.perform (Eval.openSession 9 none)).2.perform
        (Eval.send 9 ") (" 0)).1.result = .ok (.list []) := by
  refine ⟨?_, ?_, ?_⟩
  · with_unfolding_all rfl
  · with_unfolding_all rfl
  · with_unfolding_all rfl

end DynLisp
