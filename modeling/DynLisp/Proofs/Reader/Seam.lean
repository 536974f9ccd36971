import DynLisp.Proofs.Reader.Sequence

/-!
# Where one text ends and the next begins

Two texts with a line feed between them have the tokens of the one and then those
of the other, provided that the end of the first one cuts no token short: a comma
would take the line feed along, and a literal would go on.  A text that can be
read to its end is of this kind, because what is cut short is never an atom.

* `Atom.readChars_cutShort` — a token that is cut short cannot be read;
* `Token.Layout.scan_append` — the tokens of two texts, on characters;
* `Form.readAll_eq_iff_derivesAll` — all tokens are read just when they spell forms;
* `Token.explicit_append_newline` — the tokens of two texts, the first of which can
  be read;
* `Form.readAll_append` — the forms of tokens that can be read, and then those of
  any other tokens.
-/

namespace DynLisp

namespace Token

/-- How the inside of a literal ends: it is empty, or its last unit is a character
other than the quote, or a pair. -/
theorem Units.end_cases {quote : Char} {cs : List Char} (h : Units quote cs) :
    cs = [] ∨ (∃ ds c, cs = ds ++ [c] ∧ c ≠ quote) ∨
      ∃ ds c, cs = ds ++ ['\\', c] ∧ Units quote ds := by
  induction h with
  | nil => exact Or.inl rfl
  | @plain c cs hquote hbackslash _ ih =>
      right
      rcases ih with rfl | ⟨ds, d, rfl, hd⟩ | ⟨ds, d, rfl, hds⟩
      · exact Or.inl ⟨[], c, rfl, hquote⟩
      · exact Or.inl ⟨c :: ds, d, rfl, hd⟩
      · exact Or.inr ⟨c :: ds, d, rfl, .plain hquote hbackslash hds⟩
  | @escaped c cs _ ih =>
      right
      rcases ih with rfl | ⟨ds, d, rfl, hd⟩ | ⟨ds, d, rfl, hds⟩
      · exact Or.inr ⟨[], c, rfl, .nil⟩
      · exact Or.inl ⟨'\\' :: c :: ds, d, rfl, hd⟩
      · exact Or.inr ⟨'\\' :: c :: ds, d, rfl, .escaped hds⟩

end Token

namespace Atom

open Token (Units quotes CutShort)

/-- A literal with units behind its opening quote and nothing behind them is not
closed: its last character is none of its quotes, or it is behind a backslash. -/
theorem not_closes_units {quote : Char} (hquote : quote ∈ quotes) {cs : List Char}
    (h : Units quote cs) (hne : cs ≠ []) : closes quote (quote :: cs).reverse = false := by
  rcases h.end_cases with hnil | ⟨ds, c, rfl, hc⟩ | ⟨ds, c, rfl, hds⟩
  · exact absurd hnil hne
  · simp [closes, hc]
  · have hopen : ([quote].takeWhile (· == '\\')).length % 2 = 0 := by
      have hbackslash := Token.ne_backslash_of_mem_quotes hquote
      rw [List.takeWhile_cons_of_neg (by simpa using hbackslash.symm)]
      rfl
    have heven := even_backslashes hds hopen
    have hodd : (('\\' :: (ds.reverse ++ [quote])).takeWhile (· == '\\')).length % 2 = 1 := by
      rw [List.takeWhile_cons_of_pos (by decide), List.length_cons]
      omega
    simp only [List.reverse_cons, List.reverse_append, List.reverse_nil, List.nil_append,
      List.cons_append, closes, hodd, Bool.and_eq_false_iff]
    exact Or.inr rfl

/-- A literal that is not closed is no atom. -/
theorem readChars_unterminated {quote : Char} (hquote : quote ∈ quotes)
    {cs : List Char} (h : cs ≠ [] → closes quote (quote :: cs).reverse = false) :
    readChars (quote :: cs) =
      .error (.parse (.unterminated (String.ofList (quote :: cs)))) := by
  rw [readChars_quote hquote]
  unfold literal
  rw [if_neg]
  rintro ⟨hlength, hcloses⟩
  cases cs with
  | nil => cases Nat.not_succ_le_self 1 hlength
  | cons c cs =>
      rw [h (List.cons_ne_nil _ _)] at hcloses
      cases hcloses

/-- **What the end of a text cuts short** is no atom. -/
theorem readChars_cutShort {token : List Char} (h : CutShort token) :
    ∃ cause, readChars token = .error (.parse cause) := by
  cases h with
  | mark => exact ⟨_, rfl⟩
  | literal hquote hcs => exact ⟨_, readChars_unterminated hquote (not_closes_units hquote hcs)⟩
  | @escape quote cs hquote hcs =>
      refine ⟨_, readChars_unterminated hquote fun _ => ?_⟩
      have hbackslash := Token.ne_backslash_of_mem_quotes hquote
      simp [closes, hbackslash]

end Atom

namespace Token

theorem Boundary.append_newline {cs : List Char} (h : Boundary cs) (rest : List Char) :
    Boundary (cs ++ '\n' :: rest) := by
  cases cs with
  | nil => exact Boundary.cons (by decide) rest
  | cons c cs => exact Boundary.cons (h c cs rfl) _

/-- What is cut short is no parenthesis. -/
theorem CutShort.ne_paren {token : List Char} (h : CutShort token) :
    token ≠ ['('] ∧ token ≠ [')'] := by
  cases h with
  | mark => decide
  | literal hquote _ | escape hquote _ =>
      constructor
      · intro heq
        rw [(List.cons.inj heq).1] at hquote
        exact absurd hquote (by decide)
      · intro heq
        rw [(List.cons.inj heq).1] at hquote
        exact absurd hquote (by decide)

/-- **A line feed behind a text** that does not cut a token short: what is cut from
there on is what is cut from the rest alone.  The line feed ends the last word, and
a comment that has none. -/
theorem Layout.scan_append {before text : List Char} {tokens : List (List Char)}
    (h : Layout before text tokens) (hwhole : ∀ token ∈ tokens, ¬CutShort token)
    (rest : List Char) :
    scan (.word []) (text ++ '\n' :: rest) = tokens ++ scan (.word []) rest := by
  induction h with
  | last hgap =>
      cases hgap with
      | closed hgap =>
          rw [hgap.scan_append, scan_blank (by decide)]
          rfl
      | comment hgap htext =>
          rw [List.append_assoc, hgap.scan_append]
          exact scan_comment htext rest
  | cut _ htoken => exact absurd htoken (hwhole _ List.mem_cons_self)
  | token hgap htoken _ hrest ih =>
      have hmore := ih fun token hmem => hwhole token (List.mem_cons_of_mem _ hmem)
      rw [List.append_assoc, List.append_assoc, hgap.scan_append,
        htoken.scan_append fun hword => (hrest.boundary hword).append_newline rest, hmore]
      rfl

end Token

namespace Form

mutual

/-- Forms are spelled by parentheses and by atoms. -/
theorem Derives.atoms {p : List String} {v : Value} (h : Derives p v) :
    ∀ token ∈ p, token = "(" ∨ token = ")" ∨ ∃ u, Atom.read token = .ok u :=
  match h with
  | .atom _ _ hread => by
      intro token hmem
      rw [List.mem_singleton.mp hmem]
      exact Or.inr (Or.inr ⟨_, hread⟩)
  | .list hitems => by
      intro token hmem
      rcases List.mem_cons.mp hmem with hopen | hrest
      · exact Or.inl hopen
      · rcases List.mem_append.mp hrest with hinner | hclose
        · exact hitems.atoms token hinner
        · exact Or.inr (Or.inl (List.mem_singleton.mp hclose))

theorem DerivesAll.atoms {p : List String} {vs : List Value} (h : DerivesAll p vs) :
    ∀ token ∈ p, token = "(" ∨ token = ")" ∨ ∃ u, Atom.read token = .ok u :=
  match h with
  | .nil => by simp
  | .cons hfirst hrest => by
      intro token hmem
      rcases List.mem_append.mp hmem with hone | hmore
      · exact hfirst.atoms token hone
      · exact hrest.atoms token hmore

end

/-- No token of a form is cut short. -/
theorem DerivesAll.whole {p : List String} {vs : List Value} (h : DerivesAll p vs)
    {token : String} (hmem : token ∈ p) : ¬Token.CutShort token.toList := by
  intro hcut
  rcases h.atoms token hmem with rfl | rfl | ⟨u, hread⟩
  · exact hcut.ne_paren.1 rfl
  · exact hcut.ne_paren.2 rfl
  · obtain ⟨cause, hcause⟩ := Atom.readChars_cutShort hcut
    rw [Atom.read, hcause] at hread
    cases hread

/-- **Forms in front** are read, and then the rest. -/
theorem readAll_derivesAll {p : List String} {vs : List Value} (h : DerivesAll p vs)
    (rest : List String) :
    readAll (p ++ rest) = (vs ++ (readAll rest).1, (readAll rest).2) :=
  match h with
  | .nil => rfl
  | .cons hfirst hmore => by
      rw [List.append_assoc, readAll_derives hfirst, readAll_derivesAll hmore]
      rfl

/-- Where there are tokens, something comes of reading them: a form or an error. -/
theorem readAll_ne_nil {tokens : List String} (h : tokens ≠ []) :
    readAll tokens ≠ ([], none) := by
  obtain ⟨token, rest, rfl⟩ := List.exists_cons_of_ne_nil h
  rw [readAll_cons]
  cases parse (token :: rest) with
  | error cause => simp [andThenAll]
  | ok found => simp [andThenAll]

theorem eq_nil_of_readAll {tokens : List String} (h : readAll tokens = ([], none)) :
    tokens = [] := by
  cases tokens with
  | nil => rfl
  | cons token rest => exact absurd h (readAll_ne_nil (List.cons_ne_nil token rest))

/-- **All tokens are read** just when they spell forms. -/
theorem readAll_eq_iff_derivesAll {tokens : List String} {vs : List Value} :
    readAll tokens = (vs, none) ↔ DerivesAll tokens vs := by
  constructor
  · intro h
    obtain ⟨p, rest, htokens, hforms, -⟩ := readAll_sound tokens
    rw [h] at hforms
    have hsplit := readAll_derivesAll hforms rest
    rw [← htokens, h] at hsplit
    obtain ⟨hforms', hfailure⟩ := Prod.mk.inj hsplit
    have hrest : rest = [] :=
      eq_nil_of_readAll (Prod.ext (List.self_eq_append_right.mp hforms') hfailure.symm)
    rw [htokens, hrest, List.append_nil]
    exact hforms
  · intro h
    have hall := readAll_derivesAll h []
    rw [List.append_nil] at hall
    rw [hall]
    exact congrArg (·, none) (List.append_nil vs)

/-- **The forms of two texts.**  What can be read is read, and then the rest. -/
theorem readAll_append {tokens : List String} {vs : List Value}
    (h : readAll tokens = (vs, none)) (more : List String) :
    readAll (tokens ++ more) = (vs ++ (readAll more).1, (readAll more).2) :=
  readAll_derivesAll (readAll_eq_iff_derivesAll.mp h) more

end Form

namespace Token

/-- **Two texts with a line feed between them** have the tokens of the one and then
those of the other, if the first can be read. -/
theorem explicit_append_newline {text : String} {vs : List Value}
    (h : Form.readAll (explicit text) = (vs, none)) (more : String) :
    explicit (text ++ "\n" ++ more) = explicit text ++ explicit more := by
  have hforms := Form.readAll_eq_iff_derivesAll.mp h
  have hwhole : ∀ token ∈ scan (.word []) text.toList, ¬CutShort token := by
    intro token hmem
    have hcut := hforms.whole (List.mem_map_of_mem hmem)
    rwa [String.toList_ofList] at hcut
  have hlayout := layout_scan [] text.toList fun hword => absurd hword not_isWord_nil
  have hchars : (text ++ "\n" ++ more).toList = text.toList ++ '\n' :: more.toList := by
    simp
  rw [explicit, hchars, hlayout.scan_append hwhole, List.map_append]
  rfl

/-- A text that can be read, put between parentheses; the second one is on a line of
its own, as the text may end in a comment. -/
theorem explicit_between_parens {text : String} {vs : List Value}
    (h : Form.readAll (explicit text) = (vs, none)) :
    explicit ("(" ++ text ++ "\n" ++ ")") = "(" :: (explicit text ++ [")"]) := by
  have hopen : ∀ rest : String, explicit ("(" ++ rest) = "(" :: explicit rest := by
    intro rest
    rw [explicit, String.toList_append]
    show List.map String.ofList (scan (.word []) ('(' :: rest.toList)) = _
    rw [scan_paren (Or.inl rfl)]
    rfl
  rw [String.append_assoc, String.append_assoc, hopen, ← String.append_assoc,
    explicit_append_newline h]
  rfl

end Token

end DynLisp
