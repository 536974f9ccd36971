import DynLisp.Proofs.Reader.Lexeme

/-!
# The lexical grammar

A text is laid out as lexemes with gaps between them.  A **lexeme** is a
parenthesis, a comma with the character after it, a literal between two of the
`Token.quotes`, or a word; a **gap** is any sequence of `Token.blanks` and
comments.  Two words need a gap between them, and nothing else does.  At the end
of the text a comment needs no line feed, and a comma or a literal may be cut
short.

`Token.Layout before text tokens` says this of the text behind the lexeme
`before`, one lexeme at a time.

* `Token.front` — any text starts with a gap, a lexeme or what is left of one;
* `Token.layout_scan` — the tokens that are cut from a text lay it out, so that
  nothing is lost;
* `Token.Layout.scan_eq` — whatever lexemes lay a text out, they are its tokens,
  so that there is one way only;
* `Token.tokenize_eq_iff_layout` — the two together.
-/

namespace DynLisp

/-- Behind something that is not empty there is less to read. -/
theorem length_lt_append {α : Type} {front : List α} (h : front ≠ []) (rest : List α) :
    rest.length < (front ++ rest).length := by
  have hpos := List.length_pos_iff.mpr h
  rw [List.length_append]
  omega

namespace Token

/-- A run of characters that may stand together. -/
structure IsWord (cs : List Char) : Prop where
  nonempty : cs ≠ []
  unbroken : ∀ c ∈ cs, ¬Breaks c

/-- Blanks and comments; a comment reaches through the end of its line. -/
inductive Gap : List Char → Prop
  | nil : Gap []
  | blank {c : Char} {rest : List Char} (hc : c ∈ blanks) (hrest : Gap rest) :
      Gap (c :: rest)
  | comment {text rest : List Char} (htext : '\n' ∉ text) (hrest : Gap rest) :
      Gap (';' :: (text ++ '\n' :: rest))

/-- A gap at the end of a text, where the last comment may lack its line feed. -/
inductive LastGap : List Char → Prop
  | closed {gap : List Char} (hgap : Gap gap) : LastGap gap
  | comment {gap text : List Char} (hgap : Gap gap) (htext : '\n' ∉ text) :
      LastGap (gap ++ ';' :: text)

/-- The characters of one whole token. -/
inductive Lexeme : List Char → Prop
  | opening : Lexeme ['(']
  | closing : Lexeme [')']
  | mark (c : Char) : Lexeme [',', c]
  | literal {quote : Char} {cs : List Char} (hquote : quote ∈ quotes)
      (hcs : Units quote cs) : Lexeme (quote :: (cs ++ [quote]))
  | word {cs : List Char} (hcs : IsWord cs) : Lexeme cs

/-- What the end of the text can leave of a token: a comma, or a literal without
its closing quote, perhaps with half of an escape. -/
inductive CutShort : List Char → Prop
  | mark : CutShort [',']
  | literal {quote : Char} {cs : List Char} (hquote : quote ∈ quotes)
      (hcs : Units quote cs) : CutShort (quote :: cs)
  | escape {quote : Char} {cs : List Char} (hquote : quote ∈ quotes)
      (hcs : Units quote cs) : CutShort (quote :: (cs ++ ['\\']))

/-- **The layout of a text** behind the lexeme `before`, which is empty at the
start: gaps and lexemes in turn, with a gap that is not empty between words. -/
inductive Layout : List Char → List Char → List (List Char) → Prop
  | last {before gap : List Char} (hgap : LastGap gap) : Layout before gap []
  | cut {before gap token : List Char} (hgap : Gap gap) (htoken : CutShort token) :
      Layout before (gap ++ token) [token]
  | token {before gap token rest : List Char} {tokens : List (List Char)}
      (hgap : Gap gap) (htoken : Lexeme token)
      (hapart : IsWord before → IsWord token → gap ≠ [])
      (hrest : Layout token rest tokens) :
      Layout before (gap ++ (token ++ rest)) (token :: tokens)

/-! ### Where words end -/

theorem IsWord.not_cons_breaks {c : Char} {cs : List Char} (h : IsWord (c :: cs)) :
    ¬Breaks c := h.unbroken c List.mem_cons_self

/-- No word starts with a character that ends words. -/
theorem not_isWord_of_breaks {c : Char} (h : Breaks c) (cs : List Char) :
    ¬IsWord (c :: cs) := fun hword => hword.not_cons_breaks h

theorem not_isWord_nil : ¬IsWord [] := fun h => h.nonempty rfl

/-- A whole token has a character. -/
theorem Lexeme.ne_nil {token : List Char} (h : Lexeme token) : token ≠ [] := by
  cases h with
  | word hcs => exact hcs.nonempty
  | _ => exact List.cons_ne_nil _ _

/-- Only words begin with a character of a word. -/
theorem Lexeme.isWord_or_boundary {token : List Char} (h : Lexeme token)
    (rest : List Char) : IsWord token ∨ Boundary (token ++ rest) := by
  cases h with
  | word hcs => exact Or.inl hcs
  | literal hquote _ => exact Or.inr (Boundary.cons (by simp [Breaks, hquote]) _)
  | opening | closing | mark c => exact Or.inr (Boundary.cons (by decide) _)

/-- And so has one that is cut short. -/
theorem CutShort.ne_nil {token : List Char} (h : CutShort token) : token ≠ [] := by
  cases h <;> exact List.cons_ne_nil _ _

/-- A word ends in front of a token that is cut short. -/
theorem CutShort.boundary {token : List Char} (h : CutShort token) : Boundary token := by
  cases h with
  | mark => exact Boundary.cons (by decide) _
  | literal hquote _ | escape hquote _ =>
      exact Boundary.cons (by simp [Breaks, hquote]) _

/-- A gap ends a word, unless there is nothing in it. -/
theorem Gap.boundary_append {gap rest : List Char} (h : Gap gap)
    (hrest : gap = [] → Boundary rest) : Boundary (gap ++ rest) := by
  cases h with
  | nil => exact hrest rfl
  | blank hc _ => exact Boundary.cons (Or.inl hc) _
  | comment _ _ => exact Boundary.cons (by decide) _

/-- A word ends in front of the last gap. -/
theorem LastGap.boundary {gap : List Char} (h : LastGap gap) : Boundary gap := by
  cases h with
  | closed hgap => simpa using hgap.boundary_append fun _ => Boundary.nil
  | comment hgap _ => exact hgap.boundary_append fun _ => Boundary.cons (by decide) _

/-- What is laid out behind a word does not go on with the word. -/
theorem Layout.boundary {before text : List Char} {tokens : List (List Char)}
    (h : Layout before text tokens) (hbefore : IsWord before) : Boundary text := by
  cases h with
  | last hgap => exact hgap.boundary
  | cut hgap htoken => exact hgap.boundary_append fun _ => htoken.boundary
  | token hgap htoken hapart _ =>
      refine hgap.boundary_append fun hempty => ?_
      rcases htoken.isWord_or_boundary _ with hword | hboundary
      · exact absurd hempty (hapart hbefore hword)
      · exact hboundary

/-! ### What is cut from a text that is laid out -/

/-- A comment is skipped through the end of its line. -/
theorem scan_comment {text : List Char} (h : '\n' ∉ text) (rest : List Char) :
    scan .comment (text ++ '\n' :: rest) = scan (.word []) rest := by
  induction text with
  | nil => rfl
  | cons c text ih =>
      rw [List.mem_cons, not_or] at h
      rw [List.cons_append, scan, if_neg (Ne.symm h.1), ih h.2]

/-- A comment on the last line is skipped to the end. -/
theorem scan_last_comment {text : List Char} (h : '\n' ∉ text) :
    scan .comment text = [] := by
  induction text with
  | nil => rfl
  | cons c text ih =>
      rw [List.mem_cons, not_or] at h
      rw [scan, if_neg (Ne.symm h.1), ih h.2]

/-- A gap is skipped. -/
theorem Gap.scan_append {gap : List Char} (h : Gap gap) (rest : List Char) :
    scan (.word []) (gap ++ rest) = scan (.word []) rest := by
  induction h with
  | nil => rfl
  | blank hc _ ih => rw [List.cons_append, scan_blank hc, ih]
  | comment htext _ ih =>
      rw [List.cons_append, List.append_assoc, List.cons_append, ← ih]
      exact scan_comment htext _

/-- The last gap holds no tokens. -/
theorem LastGap.scan_eq {gap : List Char} (h : LastGap gap) :
    scan (.word []) gap = [] := by
  cases h with
  | closed hgap =>
      have hskip := hgap.scan_append []
      rw [List.append_nil] at hskip
      exact hskip
  | comment hgap htext =>
      rw [hgap.scan_append]
      exact scan_last_comment htext

/-- A lexeme is one token, whatever follows; only a word needs to end. -/
theorem Lexeme.scan_append {token : List Char} (h : Lexeme token) {rest : List Char}
    (hrest : IsWord token → Boundary rest) :
    scan (.word []) (token ++ rest) = token :: scan (.word []) rest := by
  cases h with
  | opening => exact scan_paren (Or.inl rfl) rest
  | closing => exact scan_paren (Or.inr rfl) rest
  | mark c => exact scan_mark c rest
  | literal hquote hcs => simpa using scan_literal hquote hcs rest
  | word hcs => exact scan_word_boundary hcs.nonempty hcs.unbroken (hrest hcs)

/-- What is left of a lexeme at the end is a token. -/
theorem CutShort.scan_eq {token : List Char} (h : CutShort token) :
    scan (.word []) token = [token] := by
  cases h with
  | mark => rfl
  | @literal quote cs hquote hcs =>
      have hinside := scan_units hquote hcs [quote] []
      rw [List.append_nil] at hinside
      rw [scan_quote hquote, hinside, scan]
      simp
  | @escape quote cs hquote hcs =>
      rw [scan_quote hquote, scan_units hquote hcs, scan,
        if_neg (ne_backslash_of_mem_quotes hquote), if_pos rfl, scan]
      simp

/-- **Nothing is merged or split.**  The lexemes of a layout are the tokens of
the text. -/
theorem Layout.scan_eq {before text : List Char} {tokens : List (List Char)}
    (h : Layout before text tokens) : scan (.word []) text = tokens := by
  induction h with
  | last hgap => exact hgap.scan_eq
  | cut hgap htoken => rw [hgap.scan_append, htoken.scan_eq]
  | token hgap htoken _ hrest ih =>
      rw [hgap.scan_append, htoken.scan_append hrest.boundary, ih]

/-! ### What a text starts with -/

/-- Behind an opening quote there are units up to the closing quote, up to the
end, or up to a backslash at the end. -/
theorem units_or_end (quote : Char) : ∀ text : List Char, ∃ cs, Units quote cs ∧
    ((∃ rest, text = cs ++ quote :: rest) ∨ text = cs ∨ text = cs ++ ['\\'])
  | [] => ⟨[], .nil, Or.inr (Or.inl rfl)⟩
  | c :: text => by
      by_cases hquote : c = quote
      · exact ⟨[], .nil, Or.inl ⟨text, by rw [hquote]; rfl⟩⟩
      by_cases hbackslash : c = '\\'
      · subst hbackslash
        cases text with
        | nil => exact ⟨[], .nil, Or.inr (Or.inr rfl)⟩
        | cons d text =>
            obtain ⟨cs, hcs, hend⟩ := units_or_end quote text
            refine ⟨'\\' :: d :: cs, .escaped hcs, ?_⟩
            simpa using hend
      · obtain ⟨cs, hcs, hend⟩ := units_or_end quote text
        refine ⟨c :: cs, .plain hquote hbackslash hcs, ?_⟩
        simpa using hend

/-- A text that starts with a character of a word starts with a whole word. -/
theorem word_append {c : Char} (h : ¬Breaks c) (text : List Char) :
    ∃ word rest, c :: text = word ++ rest ∧ IsWord word ∧ Boundary rest := by
  induction text generalizing c with
  | nil =>
      refine ⟨[c], [], rfl, ⟨List.cons_ne_nil _ _, ?_⟩, Boundary.nil⟩
      simpa using h
  | cons d text ih =>
      by_cases hd : Breaks d
      · refine ⟨[c], d :: text, rfl, ⟨List.cons_ne_nil _ _, ?_⟩, Boundary.cons hd _⟩
        simpa using h
      · obtain ⟨word, rest, htext, hword, hrest⟩ := ih hd
        refine ⟨c :: word, rest, by rw [htext, List.cons_append],
          ⟨List.cons_ne_nil _ _, ?_⟩, hrest⟩
        simpa using ⟨h, hword.unbroken⟩

/-- What a text can start with: a last gap, or a gap with something in it, or what
is left of a lexeme at the end, or a whole lexeme. -/
inductive Front : List Char → Prop
  | last {gap : List Char} (hgap : LastGap gap) : Front gap
  | gap {gap rest : List Char} (hgap : Gap gap) (hne : gap ≠ []) : Front (gap ++ rest)
  | cut {token : List Char} (htoken : CutShort token) : Front token
  | token {token rest : List Char} (htoken : Lexeme token)
      (hend : IsWord token → Boundary rest) : Front (token ++ rest)

/-- Behind a semicolon there is a comment, up to the end of the line or up to the
end of the text. -/
theorem front_comment (text : List Char) : Front (';' :: text) := by
  by_cases hfeed : '\n' ∈ text
  · obtain ⟨line, rest, rfl, hline⟩ := List.eq_append_cons_of_mem hfeed
    have hfront : Front (';' :: (line ++ ['\n']) ++ rest) :=
      .gap (.comment hline .nil) (List.cons_ne_nil _ _)
    simpa using hfront
  · exact .last (.comment .nil hfeed)

/-- Behind a quote there is a literal, or the beginning of one. -/
theorem front_literal {quote : Char} (hquote : quote ∈ quotes) (text : List Char) :
    Front (quote :: text) := by
  obtain ⟨cs, hcs, ⟨rest, hend⟩ | hend | hend⟩ := units_or_end quote text
  · have hword : ¬IsWord (quote :: (cs ++ [quote])) :=
      not_isWord_of_breaks (by simp [Breaks, hquote]) _
    have hfront : Front (quote :: (cs ++ [quote]) ++ rest) :=
      .token (.literal hquote hcs) fun h => absurd h hword
    rw [hend]
    simpa using hfront
  · rw [hend]
    exact .cut (.literal hquote hcs)
  · rw [hend]
    exact .cut (.escape hquote hcs)

/-- **Every text starts with something**: by cases on its first character. -/
theorem front (text : List Char) : Front text := by
  cases text with
  | nil => exact .last (.closed .nil)
  | cons c text =>
      by_cases hbreaks : Breaks c
      · have hword (cs : List Char) : ¬IsWord (c :: cs) := not_isWord_of_breaks hbreaks cs
        rcases hbreaks with hgap | (rfl | rfl) | rfl | rfl | hquote
        · exact .gap (.blank hgap .nil) (List.cons_ne_nil _ _)
        · exact .token .opening fun h => absurd h (hword [])
        · exact .token .closing fun h => absurd h (hword [])
        · exact front_comment text
        · cases text with
          | nil => exact .cut .mark
          | cons d text => exact .token (.mark d) fun h => absurd h (hword [d])
        · exact front_literal hquote text
      · obtain ⟨word, rest, htext, hword, hrest⟩ := word_append hbreaks text
        rw [htext]
        exact .token (.word hword) fun _ => hrest

/-- Two gaps in a row are one. -/
theorem Gap.append {gap more : List Char} (h : Gap gap) (hmore : Gap more) :
    Gap (gap ++ more) := by
  induction h with
  | nil => exact hmore
  | blank hc _ ih => exact .blank hc ih
  | comment htext _ ih =>
      rw [List.cons_append, List.append_assoc, List.cons_append]
      exact .comment htext ih

/-- A gap with something in it may come before any layout. -/
theorem Layout.after_gap {before previous gap text : List Char}
    {tokens : List (List Char)} (hgap : Gap gap) (hne : gap ≠ [])
    (h : Layout previous text tokens) : Layout before (gap ++ text) tokens := by
  cases h with
  | last hlast =>
      cases hlast with
      | closed hmore => exact .last (.closed (hgap.append hmore))
      | comment hmore htext =>
          rw [← List.append_assoc]
          exact .last (.comment (hgap.append hmore) htext)
  | cut hmore htoken =>
      rw [← List.append_assoc]
      exact .cut (hgap.append hmore) htoken
  | token hmore htoken _ hrest =>
      rw [← List.append_assoc]
      refine .token (hgap.append hmore) htoken ?_ hrest
      intro _ _ hempty
      exact hne (List.append_eq_nil_iff.mp hempty).1

/-- **Nothing is lost.**  The tokens of a text lay it out, behind a word if the
text does not go on with the word: by induction on the length of the text. -/
theorem layout_scan (before text : List Char) (hbefore : IsWord before → Boundary text) :
    Layout before text (scan (.word []) text) := by
  induction hlength : text.length using Nat.strongRecOn generalizing before text with
  | ind n ih =>
      subst hlength
      cases front text with
      | last hgap =>
          rw [hgap.scan_eq]
          exact .last hgap
      | @gap gap rest hgap hne =>
          have hrest := ih _ (length_lt_append hne rest) [] rest
            (fun hword => absurd hword not_isWord_nil) rfl
          rw [hgap.scan_append]
          exact hrest.after_gap hgap hne
      | cut htoken =>
          rw [htoken.scan_eq]
          exact .cut .nil htoken
      | @token token rest htoken hend =>
          have hrest := ih _ (length_lt_append htoken.ne_nil rest) token rest hend rfl
          rw [htoken.scan_append hend]
          refine .token .nil htoken ?_ hrest
          intro hword htokenWord _
          obtain ⟨c, cs, rfl⟩ := List.exists_cons_of_ne_nil htokenWord.nonempty
          exact htokenWord.not_cons_breaks (hbefore hword c _ rfl)

/-- **The lexical grammar.**  A text is cut into these tokens exactly when they
lay it out. -/
theorem tokenize_eq_iff_layout {source : String} {tokens : List String} :
    tokenize source false = tokens ↔
      Layout [] source.toList (tokens.map String.toList) := by
  have hchars : (tokenize source false).map String.toList =
      scan (.word []) source.toList := by
    rw [tokenize, if_neg Bool.false_ne_true, explicit, List.map_map]
    simp [Function.comp_def]
  constructor
  · intro h
    rw [← h, hchars]
    exact layout_scan [] _ fun hword => absurd hword not_isWord_nil
  · intro h
    calc tokenize source false
        = ((tokenize source false).map String.toList).map String.ofList := by simp
      _ = (tokens.map String.toList).map String.ofList := by rw [hchars, h.scan_eq]
      _ = tokens := by simp

/-- A tab and a carriage return between tokens, and inside a literal. -/
example : tokenize "a\tb\r(\r\n'c\td'" false = ["a", "b", "(", "'c\td'"] := by decide

end Token

end DynLisp
