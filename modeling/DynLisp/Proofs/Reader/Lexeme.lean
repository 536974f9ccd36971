import DynLisp.Proofs.Text.Escape
import DynLisp.Reader.Atom

/-!
# Lexemes

What `Token.scan` does with one lexeme in front of an arbitrary rest.

* A **word** is cut off in front of a character that breaks words, and of the
  end (`Token.scan_word`, `Token.scan_boundary`).
* A **literal** is cut off at its closing quote, as long as its inside is made
  of units: characters other than the quote and the backslash, and pairs of a
  backslash and any character (`Token.Units`, `Token.scan_literal`).
* The two tests for the end of a literal agree: a literal made of units is
  closed for the reader of atoms (`Atom.closes_units`).

Escaping makes units of any text (`Escape.units_encode`).
-/

namespace DynLisp

namespace Token

/-- The characters that no word holds. -/
def Breaks (c : Char) : Prop :=
  c ∈ blanks ∨ (c = '(' ∨ c = ')') ∨ c = ';' ∨ c = ',' ∨ c ∈ quotes

instance (c : Char) : Decidable (Breaks c) := by
  unfold Breaks
  exact inferInstance

theorem unbroken_of_all {cs : List Char}
    (h : cs.all (fun c => !decide (Breaks c)) = true) : ∀ c ∈ cs, ¬Breaks c := by
  intro c hc
  have hone := List.all_eq_true.mp h c hc
  simpa using hone

/-- A word in front of this text ends there. -/
def Boundary (cs : List Char) : Prop := ∀ c rest, cs = c :: rest → Breaks c

theorem Boundary.nil : Boundary [] := by
  intro c rest h
  cases h

theorem Boundary.cons {c : Char} (h : Breaks c) (rest : List Char) :
    Boundary (c :: rest) := by
  intro c' rest' hcons
  cases hcons
  exact h

/-- One more character of a word. -/
theorem scan_word_cons {c : Char} (h : ¬Breaks c) (read rest : List Char) :
    scan (.word read) (c :: rest) = scan (.word (c :: read)) rest := by
  unfold Breaks at h
  obtain ⟨hgap, hparen, hcomment, hmark, hquote⟩ := by simpa only [not_or] using h
  have hparens : ¬(c = '(' ∨ c = ')') := by
    intro hor
    rcases hor with hopen | hclose
    · exact hparen.1 hopen
    · exact hparen.2 hclose
  rw [scan, if_neg (mt isGap_iff.mp hgap), if_neg hparens, if_neg hcomment, if_neg hmark,
    if_neg (mt isQuote_iff.mp hquote)]

/-- **The characters of a word** are collected. -/
theorem scan_word {cs : List Char} (h : ∀ c ∈ cs, ¬Breaks c) (read rest : List Char) :
    scan (.word read) (cs ++ rest) = scan (.word (cs.reverse ++ read)) rest := by
  induction cs generalizing read with
  | nil => rfl
  | cons c cs ih =>
      have hc : ¬Breaks c := h c List.mem_cons_self
      have hcs : ∀ d ∈ cs, ¬Breaks d := fun d hd => h d (List.mem_cons_of_mem c hd)
      rw [List.cons_append, scan_word_cons hc, ih hcs, List.reverse_cons,
        List.append_assoc, List.singleton_append]

/-- **A boundary ends a word**, and nothing of the word matters behind it. -/
theorem scan_boundary {rest : List Char} (h : Boundary rest) (read : List Char) :
    scan (.word read) rest = flush read ++ scan (.word []) rest := by
  cases rest with
  | nil =>
      rw [scan, scan]
      exact (List.append_nil _).symm
  | cons c rest =>
      have hempty : flush [] = [] := rfl
      rw [scan, scan, hempty]
      by_cases hgap : isGap c = true
      · rw [if_pos hgap, if_pos hgap, List.nil_append]
      rw [if_neg hgap, if_neg hgap]
      by_cases hparen : c = '(' ∨ c = ')'
      · rw [if_pos hparen, if_pos hparen, List.nil_append]
      rw [if_neg hparen, if_neg hparen]
      by_cases hcomment : c = ';'
      · rw [if_pos hcomment, if_pos hcomment, List.nil_append]
      rw [if_neg hcomment, if_neg hcomment]
      by_cases hmark : c = ','
      · rw [if_pos hmark, if_pos hmark, List.nil_append]
      rw [if_neg hmark, if_neg hmark]
      by_cases hquote : isQuote c = true
      · rw [if_pos hquote, if_pos hquote, List.nil_append]
      rcases h c rest rfl with h | h | h | h | h
      · exact absurd (isGap_iff.mpr h) hgap
      · exact absurd h hparen
      · exact absurd h hcomment
      · exact absurd h hmark
      · exact absurd (isQuote_iff.mpr h) hquote

/-- A word in front of a boundary is one token. -/
theorem scan_word_boundary {cs rest : List Char} (hne : cs ≠ [])
    (hword : ∀ c ∈ cs, ¬Breaks c) (hrest : Boundary rest) :
    scan (.word []) (cs ++ rest) = cs :: scan (.word []) rest := by
  rw [scan_word hword, List.append_nil, scan_boundary hrest]
  have hreverse : cs.reverse ≠ [] := by
    intro hnil
    exact hne (List.reverse_eq_nil_iff.mp hnil)
  have hflush : flush cs.reverse = [cs] := by
    rw [flush, if_neg (by simpa using hreverse), List.reverse_reverse]
  rw [hflush, List.singleton_append]

/-- A blank before anything is skipped. -/
theorem scan_blank {c : Char} (h : c ∈ blanks) (rest : List Char) :
    scan (.word []) (c :: rest) = scan (.word []) rest := by
  rw [scan, if_pos (isGap_iff.mpr h)]
  rfl

/-- A parenthesis is a token. -/
theorem scan_paren {c : Char} (h : c = '(' ∨ c = ')') (rest : List Char) :
    scan (.word []) (c :: rest) = [c] :: scan (.word []) rest := by
  have hgap : isGap c = false := by
    rcases h with h | h <;> rw [h] <;> rfl
  rw [scan, hgap, if_neg Bool.false_ne_true, if_pos h]
  rfl

/-- A comma takes the next character along, whatever it is. -/
theorem scan_mark (c : Char) (rest : List Char) :
    scan (.word []) (',' :: c :: rest) = [',', c] :: scan (.word []) rest := rfl

/-- The inside of a literal. -/
inductive Units (quote : Char) : List Char → Prop
  | nil : Units quote []
  | plain {c : Char} {cs : List Char} (hquote : c ≠ quote) (hbackslash : c ≠ '\\')
      (hrest : Units quote cs) : Units quote (c :: cs)
  | escaped {c : Char} {cs : List Char} (hrest : Units quote cs) :
      Units quote ('\\' :: c :: cs)

theorem Units.append {quote : Char} {cs ds : List Char} (h : Units quote cs)
    (hmore : Units quote ds) : Units quote (cs ++ ds) := by
  induction h with
  | nil => exact hmore
  | plain hquote hbackslash _ ih => exact Units.plain hquote hbackslash ih
  | escaped _ ih => exact Units.escaped ih

theorem ne_backslash_of_mem_quotes {quote : Char} (h : quote ∈ quotes) :
    '\\' ≠ quote := by
  intro heq
  rw [← heq] at h
  exact absurd h (by decide)

/-- The inside of a literal is collected. -/
theorem scan_units {quote : Char} (hquote : quote ∈ quotes) {cs : List Char}
    (h : Units quote cs) (read rest : List Char) :
    scan (.literal quote read) (cs ++ rest) =
      scan (.literal quote (cs.reverse ++ read)) rest := by
  induction h generalizing read with
  | nil => rfl
  | plain hne hbackslash _ ih =>
      rw [List.cons_append, scan, if_neg hne, if_neg hbackslash, ih, List.reverse_cons,
        List.append_assoc, List.singleton_append]
  | escaped _ ih =>
      rw [List.cons_append, List.cons_append, scan,
        if_neg (ne_backslash_of_mem_quotes hquote), if_pos rfl, scan, ih, List.reverse_cons,
        List.reverse_cons, List.append_assoc, List.append_assoc, List.singleton_append,
        List.singleton_append]

/-- A quote opens a literal. -/
theorem scan_quote {quote : Char} (hquote : quote ∈ quotes) (rest : List Char) :
    scan (.word []) (quote :: rest) = scan (.literal quote [quote]) rest := by
  rcases (by simpa [quotes] using hquote : quote = '"' ∨ quote = '\x27') with hq | hq
  all_goals
    rw [hq]
    rfl

/-- **A literal** reaches to its closing quote, whatever follows. -/
theorem scan_literal {quote : Char} (hquote : quote ∈ quotes) {cs : List Char}
    (h : Units quote cs) (rest : List Char) :
    scan (.word []) (quote :: (cs ++ quote :: rest)) =
      (quote :: (cs ++ [quote])) :: scan (.word []) rest := by
  rw [scan_quote hquote, scan_units hquote h, scan, if_pos rfl]
  simp

end Token

namespace Atom

open Token (Units quotes)

/-- **Backslashes come in pairs** at the end of a literal's inside, so that the
quote after them is not behind a backslash. -/
theorem even_backslashes {quote : Char} {cs : List Char} (h : Units quote cs)
    {before : List Char} (hbefore : (before.takeWhile (· == '\\')).length % 2 = 0) :
    ((cs.reverse ++ before).takeWhile (· == '\\')).length % 2 = 0 := by
  induction h generalizing before with
  | nil => exact hbefore
  | @plain c cs _ hbackslash _ ih =>
      rw [List.reverse_cons, List.append_assoc, List.singleton_append]
      apply ih
      rw [List.takeWhile_cons_of_neg (by simpa using hbackslash)]
      rfl
  | @escaped c cs _ ih =>
      rw [List.reverse_cons, List.reverse_cons, List.append_assoc, List.append_assoc,
        List.singleton_append, List.singleton_append]
      apply ih
      by_cases hbackslash : c = '\\'
      · rw [hbackslash, List.takeWhile_cons_of_pos (by decide),
          List.takeWhile_cons_of_pos (by decide), List.length_cons, List.length_cons]
        omega
      · rw [List.takeWhile_cons_of_neg (by simpa using hbackslash)]
        rfl

/-- A literal made of units is closed. -/
theorem closes_units {quote : Char} (hquote : quote ∈ quotes) {cs : List Char}
    (h : Units quote cs) : closes quote (quote :: (cs ++ [quote])).reverse = true := by
  have hopen : ([quote].takeWhile (· == '\\')).length % 2 = 0 := by
    have hne := Token.ne_backslash_of_mem_quotes hquote
    rw [List.takeWhile_cons_of_neg (by simpa using hne.symm)]
    rfl
  have heven := even_backslashes h hopen
  simp only [List.reverse_cons, List.reverse_append, List.reverse_nil, List.nil_append,
    List.cons_append, closes, heven, beq_self_eq_true, Bool.and_self]

/-- A token that starts with a quote is read as a literal. -/
theorem readChars_quote {quote : Char} (hquote : quote ∈ quotes) (cs : List Char) :
    readChars (quote :: cs) = literal quote (quote :: cs) := by
  rcases (by simpa [quotes] using hquote : quote = '"' ∨ quote = '\x27') with hq | hq
  all_goals
    rw [hq]
    rfl

/-- **The string in a literal** is what its inside stands for. -/
theorem literal_units {quote : Char} (hquote : quote ∈ quotes) {cs ds : List Char}
    (h : Units quote cs) (hdecode : Escape.decode cs = .ok ds) :
    literal quote (quote :: (cs ++ [quote])) = .ok (.string (String.ofList ds)) := by
  have hinside : ((quote :: (cs ++ [quote])).drop 1).dropLast = cs := by
    rw [List.drop_one, List.tail_cons, List.dropLast_concat]
  have hlength : 2 ≤ (quote :: (cs ++ [quote])).length := by
    rw [List.length_cons, List.length_append, List.length_singleton]
    omega
  unfold literal
  rw [if_pos ⟨hlength, closes_units hquote h⟩, hinside, hdecode]

end Atom

namespace Escape

open Token (Units)

/-- Characters that need no escape are units. -/
theorem units_of_ne {quote : Char} {cs : List Char}
    (h : ∀ c ∈ cs, c ≠ quote ∧ c ≠ '\\') : Units quote cs := by
  induction cs with
  | nil => exact Units.nil
  | cons c cs ih =>
      have hc := h c List.mem_cons_self
      exact Units.plain hc.1 hc.2 (ih fun d hd => h d (List.mem_cons_of_mem c hd))

/-- A character as it is written between double quotes is made of units. -/
theorem units_encodeChar (c : Char) : Units '"' (encodeChar c) := by
  rcases encodeChar_cases c with ⟨code, hchar, -⟩ | ⟨hchar, hascii⟩ |
    ⟨hchar, hbackslash, hquote, -⟩
  · rw [hchar]
    exact Units.escaped Units.nil
  · have hall : ∀ n < 128, ('{' :: (Nat.toDigits 16 n ++ ['}'])).all
        (fun d => d != '"' && d != '\\') = true := by decide
    rw [hchar]
    apply Units.escaped
    apply units_of_ne
    intro d hd
    have hboth := List.all_eq_true.mp (hall c.toNat hascii) d hd
    obtain ⟨hquote, hbackslash⟩ := Bool.and_eq_true_iff.mp hboth
    exact ⟨bne_iff_ne.mp hquote, bne_iff_ne.mp hbackslash⟩
  · rw [hchar]
    exact Units.plain hquote hbackslash Units.nil

/-- **Escaping makes units** of any text. -/
theorem units_encode (cs : List Char) : Units '"' (encode cs) := by
  induction cs with
  | nil => exact Units.nil
  | cons c cs ih =>
      show Units '"' (List.flatMap encodeChar (c :: cs))
      rw [List.flatMap_cons]
      exact (units_encodeChar c).append ih

end Escape

end DynLisp
