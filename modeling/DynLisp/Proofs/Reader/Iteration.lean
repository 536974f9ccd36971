import DynLisp.Proofs.Reader.Seam

/-!
# Reading form after form

All forms of a text can be read in three ways, which come to the same:

* by the loop `Form.readAll`, which starts again behind each form;
* by reading one form, then one from the tokens that are left over, and so on until
  none are left;
* by going through the tokens by position, with `Form.parseAt` to say where the form
  at a position ends.

The last two take one step after another, and `Form.Iterated` is what comes of any such
steps.  What a step does at a position is what it does to the tokens from there on
(`Form.readFrom_drop`), and steps that do the same come to the same
(`Form.Iterated.simulate`).  As each form takes tokens (`Form.parse_suffix`), the steps
end.
-/

namespace DynLisp

namespace Form

/-! ### Steps -/

section Iterated

variable {σ τ : Type} {done : σ → Prop} {step : σ → Except Halt (Value × σ)}
  {done' : τ → Prop} {step' : τ → Except Halt (Value × τ)}

/-- The values that come of taking a step until there is nothing more to do, and the
error of the step that fails, if one does. -/
inductive Iterated (done : σ → Prop) (step : σ → Except Halt (Value × σ)) :
    σ → List Value → Option Halt → Prop
  | done {s : σ} (hdone : done s) : Iterated done step s [] none
  | failed {s : σ} {h : Halt} (hmore : ¬ done s) (hstep : step s = .error h) :
      Iterated done step s [] (some h)
  | next {s s' : σ} {v : Value} {vs : List Value} {failure : Option Halt}
      (hmore : ¬ done s) (hstep : step s = .ok (v, s'))
      (hrest : Iterated done step s' vs failure) :
      Iterated done step s (v :: vs) failure

/-- Steps that do the same come to the same.  By induction on the steps that are taken. -/
theorem Iterated.image {f : σ → τ} (hdone : ∀ s, done' (f s) ↔ done s)
    (hstep : ∀ s, ¬ done s → step' (f s) = (step s).map fun found => (found.1, f found.2))
    {s : σ} {vs : List Value} {failure : Option Halt} (h : Iterated done step s vs failure) :
    Iterated done' step' (f s) vs failure := by
  induction h with
  | done hs => exact .done ((hdone _).mpr hs)
  | failed hmore herror =>
      refine .failed (mt (hdone _).mp hmore) ?_
      rw [hstep _ hmore, herror]
      rfl
  | next hmore hok _ ih =>
      refine .next (mt (hdone _).mp hmore) ?_ ih
      rw [hstep _ hmore, hok]
      rfl

/-- The other way round, for states that are the image of one. -/
theorem Iterated.of_image {f : σ → τ} (hdone : ∀ s, done' (f s) ↔ done s)
    (hstep : ∀ s, ¬ done s → step' (f s) = (step s).map fun found => (found.1, f found.2))
    {s : σ} {vs : List Value} {failure : Option Halt}
    (h : Iterated done' step' (f s) vs failure) : Iterated done step s vs failure := by
  generalize ht : f s = t at h
  induction h generalizing s with
  | done hs => exact .done ((hdone s).mp (ht ▸ hs))
  | @failed t h hmore herror =>
      subst ht
      have hmore' : ¬ done s := mt (hdone s).mpr hmore
      rw [hstep s hmore'] at herror
      cases hs : step s with
      | ok found =>
          rw [hs] at herror
          cases herror
      | error h' =>
          rw [hs] at herror
          cases herror
          exact .failed hmore' hs
  | @next t t' v vs failure hmore hok _ ih =>
      subst ht
      have hmore' : ¬ done s := mt (hdone s).mpr hmore
      rw [hstep s hmore'] at hok
      cases hs : step s with
      | error h' =>
          rw [hs] at hok
          cases hok
      | ok found =>
          obtain ⟨u, s'⟩ := found
          rw [hs] at hok
          obtain ⟨rfl, hs'⟩ := Prod.mk.inj (Except.ok.inj hok)
          exact .next hmore' hs (ih hs')

/-- **Steps that do the same come to the same.** -/
theorem iterated_image_iff {f : σ → τ} (hdone : ∀ s, done' (f s) ↔ done s)
    (hstep : ∀ s, ¬ done s → step' (f s) = (step s).map fun found => (found.1, f found.2))
    {s : σ} {vs : List Value} {failure : Option Halt} :
    Iterated done' step' (f s) vs failure ↔ Iterated done step s vs failure :=
  ⟨Iterated.of_image hdone hstep, Iterated.image hdone hstep⟩

end Iterated

/-! ### The tokens that are left over -/

/-- **A form takes tokens.**  What is left over is what is behind the form, and the form
has at least one token. -/
theorem parse_suffix {tokens rest : List String} {v : Value} (hne : tokens ≠ [])
    (h : parse tokens = .ok (v, rest)) : ∃ taken, taken ≠ [] ∧ tokens = taken ++ rest := by
  rcases parse_eq_ok_iff.mp h with ⟨hnil, -⟩ | ⟨p, htokens, hp⟩
  · exact absurd hnil hne
  · exact ⟨p, hp.ne_nil, htokens⟩

/-- The loop takes the steps.  By induction on the number of tokens. -/
theorem iterated_readAll (tokens : List String) :
    Iterated (· = []) parse tokens (readAll tokens).1 (readAll tokens).2 := by
  induction hlength : tokens.length using Nat.strongRecOn generalizing tokens with
  | ind n ih =>
      subst hlength
      cases tokens with
      | nil => exact .done rfl
      | cons token tail =>
          have hmore : token :: tail ≠ [] := List.cons_ne_nil _ _
          rw [readAll_cons]
          cases hparse : parse (token :: tail) with
          | error h => exact .failed hmore hparse
          | ok found =>
              obtain ⟨v, rest⟩ := found
              obtain ⟨taken, htaken, htokens⟩ := parse_suffix hmore hparse
              have hshorter : rest.length < (token :: tail).length := by
                rw [htokens]
                exact length_lt_append htaken rest
              exact .next hmore hparse (ih _ hshorter rest rfl)

/-- The steps do what the loop does.  By induction on the steps. -/
theorem Iterated.readAll_eq {tokens : List String} {vs : List Value} {failure : Option Halt}
    (h : Iterated (· = []) parse tokens vs failure) : readAll tokens = (vs, failure) := by
  induction h with
  | done hnil =>
      rw [hnil]
      rfl
  | failed hmore herror =>
      obtain ⟨token, tail, rfl⟩ := List.exists_cons_of_ne_nil hmore
      rw [readAll_cons, herror]
      rfl
  | next hmore hok _ ih =>
      obtain ⟨token, tail, rfl⟩ := List.exists_cons_of_ne_nil hmore
      rw [readAll_cons, hok]
      show (_ :: (readAll _).1, (readAll _).2) = _
      rw [ih]

theorem readAll_eq_iff_iterated {tokens : List String} {vs : List Value}
    {failure : Option Halt} :
    readAll tokens = (vs, failure) ↔ Iterated (· = []) parse tokens vs failure := by
  constructor
  · intro h
    have hsteps := iterated_readAll tokens
    rwa [h] at hsteps
  · exact Iterated.readAll_eq

/-! ### Positions -/

/-- Reads up to the end of the first form at the top, from a position on; gives the
position behind it. -/
def parseAt (tokens : List String) (stack : List (List Value)) (pos : Nat) :
    Except Halt (Value × Nat) :=
  if h : pos < tokens.length then
    match advance stack tokens[pos] with
    | .ok (.inl v) => .ok (v, pos + 1)
    | .ok (.inr stack) => parseAt tokens stack (pos + 1)
    | .error h => .error h
  else .error (.parse .unclosed)
termination_by tokens.length - pos

/-- **At a position** is read what is read from the tokens from there on, whatever lists
are open, and what is left over are the tokens from the position behind it. -/
theorem readFrom_drop (tokens : List String) (stack : List (List Value)) (pos : Nat) :
    readFrom stack (tokens.drop pos) =
      (parseAt tokens stack pos).map fun found => (found.1, tokens.drop found.2) := by
  fun_induction parseAt tokens stack pos with
  | case1 stack pos hlt v hadvance =>
      rw [List.drop_eq_getElem_cons hlt, readFrom, hadvance]
      rfl
  | case2 stack pos hlt stack' hadvance ih =>
      rw [List.drop_eq_getElem_cons hlt, readFrom, hadvance]
      exact ih
  | case3 stack pos hlt h hadvance =>
      rw [List.drop_eq_getElem_cons hlt, readFrom, hadvance]
      rfl
  | case4 stack pos hend =>
      rw [List.drop_eq_nil_of_le (Nat.le_of_not_lt hend)]
      rfl

/-- A form that is read at a position ends behind it, and among the tokens. -/
theorem parseAt_bounds {tokens : List String} {stack : List (List Value)} {pos next : Nat}
    {v : Value} (h : parseAt tokens stack pos = .ok (v, next)) :
    pos < next ∧ next ≤ tokens.length := by
  fun_induction parseAt tokens stack pos with
  | case1 stack pos hlt u hadvance =>
      cases h
      exact ⟨Nat.lt_succ_self pos, hlt⟩
  | case2 stack pos hlt stack' hadvance ih =>
      obtain ⟨hpos, hnext⟩ := ih h
      exact ⟨Nat.lt_of_succ_lt hpos, hnext⟩
  | case3 stack pos hlt h' hadvance => cases h
  | case4 stack pos hend => cases h

/-- Where there are tokens, a form is read there as it is from the tokens from there on.
Behind the last token it is not: no tokens at all read as `nil`, but at a position
without a token the form is missing. -/
theorem parse_drop {tokens : List String} {pos : Nat} (hpos : pos < tokens.length) :
    parse (tokens.drop pos) =
      (parseAt tokens [] pos).map fun found => (found.1, tokens.drop found.2) := by
  rw [← readFrom_drop, List.drop_eq_getElem_cons hpos]
  rfl

/-- **Going by position** comes to what is read from the tokens from there on. -/
theorem iterated_parseAt_iff {tokens : List String} {pos : Nat} {vs : List Value}
    {failure : Option Halt} :
    Iterated (tokens.length ≤ ·) (parseAt tokens []) pos vs failure ↔
      readAll (tokens.drop pos) = (vs, failure) := by
  have hdone : ∀ pos, tokens.drop pos = [] ↔ tokens.length ≤ pos := fun _ =>
    List.drop_eq_nil_iff
  have hstep : ∀ pos, ¬ tokens.length ≤ pos → parse (tokens.drop pos) =
      (parseAt tokens [] pos).map fun found => (found.1, tokens.drop found.2) :=
    fun _ hmore => parse_drop (Nat.lt_of_not_le hmore)
  rw [readAll_eq_iff_iterated]
  exact (iterated_image_iff hdone hstep).symm

/-! ### The first form -/

/-- What is read of a text is what comes first when all of it is read: a form, or the
error in place of one, or nothing. -/
theorem read_eq_first (text : String) :
    (Token.tokenize text true = [] → read text = .ok .nil) ∧
      (∀ v vs failure, readAll (Token.tokenize text true) = (v :: vs, failure) →
        read text = .ok v) ∧
      ∀ h, readAll (Token.tokenize text true) = ([], some h) → read text = .error h := by
  unfold read
  cases Token.tokenize text true with
  | nil =>
      refine ⟨fun _ => rfl, ?_, ?_⟩
      · intro v vs failure hall
        cases hall
      · intro h hall
        cases hall
  | cons token rest =>
      rw [readAll_cons]
      refine ⟨fun hnil => absurd hnil (List.cons_ne_nil _ _), ?_⟩
      cases parse (token :: rest) with
      | error h =>
          refine ⟨fun v vs failure hall => ?_, fun h' hall => ?_⟩
          · cases hall
          · cases hall
            rfl
      | ok found =>
          refine ⟨fun v vs failure hall => ?_, fun h hall => ?_⟩
          · cases hall
            rfl
          · cases hall

/-- **All forms are read one by one.**  The loop over tokens that have characters comes
to the same forms, and to the same end, as reading one form again and again from what is
left over, and as going through the tokens by position, wherever one starts.  It can
only end early by an error of the source.  It ends, as each form takes a token at least.
If it ends normally, the forms of further tokens come behind its own, with the end that
these have.  And what is read of a text is what comes first, if there is anything. -/
theorem readAll_iterates_parse {tokens : List String}
    (hne : ∀ token ∈ tokens, token ≠ "") :
    (∀ vs failure, readAll tokens = (vs, failure) ↔
        Iterated (· = []) parse tokens vs failure) ∧
      (∀ pos vs failure, Iterated (tokens.length ≤ ·) (parseAt tokens []) pos vs failure ↔
        readAll (tokens.drop pos) = (vs, failure)) ∧
      (∀ h, (readAll tokens).2 = some h → ∃ cause, h = .parse cause) ∧
      (∀ v rest, tokens ≠ [] → parse tokens = .ok (v, rest) →
        ∃ taken, taken ≠ [] ∧ tokens = taken ++ rest) ∧
      (∀ pos v next, parseAt tokens [] pos = .ok (v, next) →
        pos < next ∧ next ≤ tokens.length) ∧
      (∀ vs more, readAll tokens = (vs, none) →
        readAll (tokens ++ more) = (vs ++ (readAll more).1, (readAll more).2)) ∧
      ∀ text, (Token.tokenize text true = [] → read text = .ok .nil) ∧
        (∀ v vs failure, readAll (Token.tokenize text true) = (v :: vs, failure) →
          read text = .ok v) ∧
        ∀ h, readAll (Token.tokenize text true) = ([], some h) → read text = .error h := by
  refine ⟨fun vs failure => readAll_eq_iff_iterated, fun pos vs failure =>
    iterated_parseAt_iff, fun h => readAll_failure hne, fun v rest => parse_suffix,
    fun pos v next => parseAt_bounds, ?_, read_eq_first⟩
  intro vs more hall
  exact readAll_append hall more

/-- Two forms are read, and a parenthesis too many ends the steps; the forms alone are
read to their end, so what comes behind them is the same parenthesis.  Of three texts one
has no forms, one has a first form in front of an error, and one has an error first. -/
theorem forms_before_stray_paren_are_iterated :
    Iterated (· = []) parse ["(", "a", ")", "b", ")", "c"] [.list [.symbol "a"], .symbol "b"]
        (some (.parse .unexpectedClose)) ∧
      Iterated (["(", "a", ")", "b"].length ≤ ·) (parseAt ["(", "a", ")", "b"] []) 3
        [.symbol "b"] none ∧
      readAll (["(", "a", ")", "b"] ++ [")", "c"]) =
        ([.list [.symbol "a"], .symbol "b"], some (.parse .unexpectedClose)) ∧
      read "; nothing" = .ok .nil ∧
      read "a) ," = .ok (.list [.symbol "a"]) ∧
      read "(a" = .error (.parse .unclosed) := by
  have hbroken := readAll_iterates_parse
    (show ∀ token ∈ ["(", "a", ")", "b", ")", "c"], token ≠ "" by decide)
  have hwhole := readAll_iterates_parse
    (show ∀ token ∈ ["(", "a", ")", "b"], token ≠ "" by decide)
  obtain ⟨-, hpositions, -, -, -, happend, hread⟩ := hwhole
  refine ⟨(hbroken.1 _ _).mp rfl, (hpositions 3 _ _).mpr rfl,
    happend [.list [.symbol "a"], .symbol "b"] [")", "c"] rfl, ?_, ?_, ?_⟩
  · exact (hread "; nothing").1 rfl
  · exact (hread "a) ,").2.1 _ [] (some (.parse .charExpected)) rfl
  · exact (hread "(a").2.2 _ rfl

end Form

end DynLisp
