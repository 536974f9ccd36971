import DynLisp.Proofs.Reader.ReadBack
import DynLisp.Proofs.Reader.Seam

/-!
# Printing what was read

A text can be read and what is read can be printed, one form after the other with a
space between them.  The new text has other blanks, no comments, and numbers and
strings in one spelling each; and it reads as the same forms.

This needs to know everything that can be read.  A token is a lexeme, and an atom
that is read from one is **sourced**: a symbol has the name of a word that is neither
a constant nor a numeral, and a number is one that a numeral stands for.

* `Atom.sourced_of_lexeme` — the atoms that come of lexemes;
* `Form.Derives.sourced` — so what is read is sourced throughout;
* `Value.readable_of_sourced` — and it is readable, unless a numeral is too large;
* `Form.readAll_display_text` — readable forms are read back from their texts;
* `reprinting_preserves_source` — the two together.
-/

namespace DynLisp

namespace Value

/-- What a text can put into a form besides lists. -/
def Sourced : Value → Prop
  | .symbol name => ReadableName name
  | .number x => x ≠ .nan
  | .closure .. | .native _ => False
  | _ => True

/-- **What is sourced is readable**, if no number in it is infinite. -/
theorem readable_of_sourced {v : Value} (h : Throughout Sourced v)
    (hfinite : ∀ negative, ¬Part (.number (.infinity negative)) v) : v.Readable := by
  induction v using induction_on_items with
  | list items ih =>
      apply Readable.list
      intro v hv
      apply ih v hv ((throughout_list_iff.mp h).2 v hv)
      intro negative hpart
      exact hfinite negative (.item hv hpart)
  | other v hlist =>
      have hsourced := h.self
      cases v with
      | bool b => exact .bool b
      | nil => exact .nil
      | number x =>
          cases x with
          | nan => exact absurd rfl hsourced
          | signed negative r =>
              apply Readable.number
              rw [Number.isFinite, bne_iff_ne]
              rintro rfl
              exact hfinite negative .here
      | string text => exact .string text
      | char c => exact .char c
      | symbol name => exact .symbol hsourced
      | list items => exact absurd rfl (hlist items)
      | closure formals body => exact hsourced.elim
      | native function => exact hsourced.elim

end Value

namespace Atom

open Token (IsWord Lexeme quotes)
open Value (ReadableName Sourced)

/-- The name of a symbol that is read from a word. -/
theorem readableName_of_word {cs : List Char} (hword : IsWord cs)
    (hconstant : cs ∉ constants) (hnumeral : Numeral.parse? cs = none) :
    ReadableName (String.ofList cs) where
  nonempty := by simpa using hword.nonempty
  unbroken := by
    rw [String.toList_ofList]
    exact hword.unbroken
  notConstant := by
    have hne : ∀ ds ∈ constants, String.ofList cs ≠ String.ofList ds := by
      intro ds hds heq
      rw [String.ofList_injective heq] at hconstant
      exact hconstant hds
    exact ⟨hne _ (by decide), hne _ (by decide), hne _ (by decide)⟩
  notNumeral := by
    rw [String.toList_ofList]
    exact Numeral.parse?_eq_none_iff.mp hnumeral

/-- A word is read as a constant, as a number or as a symbol. -/
theorem sourced_of_word {cs : List Char} (hword : IsWord cs) {v : Value}
    (hread : readChars cs = .ok v) : v.Sourced := by
  by_cases hconstant : cs ∈ constants
  · simp only [constants, List.mem_cons, List.not_mem_nil, or_false] at hconstant
    rcases hconstant with rfl | rfl | rfl
    all_goals
      cases hread
      trivial
  · rw [readChars_word hword.nonempty hword.unbroken hconstant] at hread
    cases hnumeral : Numeral.parse? cs with
    | some n =>
        rw [hnumeral] at hread
        cases hread
        intro hnan
        cases hnan
    | none =>
        rw [hnumeral] at hread
        cases hread
        exact readableName_of_word hword hconstant hnumeral

/-- A literal is read as a string, if at all. -/
theorem exists_string_of_literal {quote : Char} {token : List Char} {v : Value}
    (hread : literal quote token = .ok v) : ∃ text, v = .string text := by
  unfold literal at hread
  split at hread
  · split at hread
    · cases hread
      exact ⟨_, rfl⟩
    · cases hread
  · cases hread

/-- **The atoms that come of lexemes.** -/
theorem sourced_of_lexeme {cs : List Char} (h : Lexeme cs) (hopen : cs ≠ ['('])
    (hclose : cs ≠ [')']) {v : Value} (hread : readChars cs = .ok v) : v.Sourced := by
  cases h with
  | opening => exact absurd rfl hopen
  | closing => exact absurd rfl hclose
  | mark c =>
      rw [readChars_mark] at hread
      cases hread
      trivial
  | literal hquote _ =>
      rw [readChars_quote hquote] at hread
      obtain ⟨text, rfl⟩ := exists_string_of_literal hread
      trivial
  | word hword => exact sourced_of_word hword hread

end Atom

namespace Form

open Token (Lexeme CutShort)
open Value (Sourced Throughout)

mutual

/-- **What is read is sourced**, as far as it goes.  What the end of a text leaves of
a token is no atom. -/
theorem Derives.sourced {p : List String} {v : Value} (h : Derives p v)
    (htokens : ∀ token ∈ p, Lexeme token.toList ∨ CutShort token.toList) :
    Throughout Sourced v :=
  match h with
  | .atom hopen hclose hread => by
      refine Value.throughout_of_self (Atom.read_ok hread).1 ?_
      rcases htokens _ List.mem_cons_self with hwhole | hcut
      · refine Atom.sourced_of_lexeme hwhole ?_ ?_ hread
        · exact fun heq => hopen (String.toList_injective heq)
        · exact fun heq => hclose (String.toList_injective heq)
      · obtain ⟨cause, hcause⟩ := Atom.readChars_cutShort hcut
        rw [Atom.read, hcause] at hread
        cases hread
  | .list hitems => by
      refine Value.throughout_list_iff.mpr ⟨trivial, hitems.sourced ?_⟩
      exact fun token hmem =>
        htokens token (List.mem_cons_of_mem _ (List.mem_append_left _ hmem))

theorem DerivesAll.sourced {p : List String} {vs : List Value} (h : DerivesAll p vs)
    (htokens : ∀ token ∈ p, Lexeme token.toList ∨ CutShort token.toList) :
    ∀ v ∈ vs, Throughout Sourced v :=
  match h with
  | .nil => by simp
  | .cons hfirst hrest => by
      intro v hv
      rcases List.mem_cons.mp hv with heq | hmem
      · rw [heq]
        exact hfirst.sourced fun token hmem => htokens token (List.mem_append_left _ hmem)
      · exact hrest.sourced
          (fun token hmem => htokens token (List.mem_append_right _ hmem)) v hmem

end

/-- Lists, and no other forms, start with a parenthesis. -/
theorem Derives.head?_eq_open_iff {p : List String} {v : Value} (h : Derives p v) :
    p.head? = some "(" ↔ ∃ items, v = .list items := by
  cases h with
  | atom hopen hclose hread =>
      have hatom := (Atom.read_ok hread).1
      simp [hopen, hatom]
  | list hitems => simp

theorem DerivesAll.head?_eq_open_iff {p : List String} {v : Value} {vs : List Value}
    (h : DerivesAll p (v :: vs)) : p.head? = some "(" ↔ ∃ items, v = .list items := by
  cases h with
  | @cons first rest v vs hfirst hrest =>
      obtain ⟨token, more, rfl⟩ := List.exists_cons_of_ne_nil hfirst.ne_nil
      exact hfirst.head?_eq_open_iff

/-- The texts of values with spaces between them are what stands between the
parentheses of a list. -/
theorem intercalate_display (vs : List Value) :
    " ".intercalate (vs.map Value.display) = String.ofList (Value.displayItems vs) := by
  induction vs with
  | nil => rfl
  | cons v rest ih =>
      cases rest with
      | nil => rfl
      | cons w rest =>
          rw [List.map_cons, List.map_cons, String.intercalate_cons_cons, ← List.map_cons, ih,
            Value.displayItems_cons, Value.display, String.append_assoc]
          simp [String.ofList_append]

/-- **Readable forms are read back** from their texts, if the first one is a list, so
that no parentheses are made up. -/
theorem readAll_display_text {vs : List Value} (h : ∀ v ∈ vs, v.Readable)
    (hfirst : ∀ v ∈ vs.head?, ∃ items, v = .list items) :
    readAll (Token.tokenize (" ".intercalate (vs.map Value.display)) true) =
      (vs.map Value.positiveZeros, none) := by
  have hreads := Value.readsAll_displayItems fun v hv => (h v hv).reads
  have hderives := hreads.explicit
  rw [Value.positiveZerosItems_eq_map, ← intercalate_display] at hderives
  rw [Token.tokenize_true]
  cases vs with
  | nil =>
      rw [List.map_nil] at hderives ⊢
      rfl
  | cons v rest =>
      obtain ⟨items, rfl⟩ := hfirst v (by simp)
      have hopen := hderives.head?_eq_open_iff.mpr ⟨_, Value.positiveZeros_list items⟩
      rw [Token.wrap_of_open hopen]
      exact readAll_eq_iff_derivesAll.mpr hderives

end Form

/-- **Reprinting preserves source.**  Every symbol in a form that is read from a text,
with or without made-up parentheses, has a name that a source text can give to it.  If a
text is read to its end, and no numeral in it is so large that the number is infinite,
then the texts of its forms with spaces between them are read as the same forms, with
negative zeros made positive. -/
theorem reprinting_preserves_source (text : String) :
    (∀ implicitParens, ∀ form ∈ (Form.readAll (Token.tokenize text implicitParens)).1,
      ∀ name, Value.Part (.symbol name) form → Value.ReadableName name) ∧
    ∀ forms, Form.readAll (Token.tokenize text true) = (forms, none) →
      (∀ form ∈ forms, ∀ negative, ¬Value.Part (.number (.infinity negative)) form) →
      Form.readAll (Token.tokenize (" ".intercalate (forms.map Value.display)) true) =
        (forms.map Value.positiveZeros, none) := by
  have hsourced : ∀ implicitParens,
      ∀ form ∈ (Form.readAll (Token.tokenize text implicitParens)).1,
        Value.Throughout Value.Sourced form := by
    -- The forms come from the tokens in front, even if the ones behind are an error.
    intro implicitParens
    obtain ⟨p, rest, htokens, hforms, -⟩ :=
      Form.readAll_sound (Token.tokenize text implicitParens)
    apply hforms.sourced
    intro token hmem
    have hall : token ∈ Token.tokenize text implicitParens := by
      rw [htokens]
      exact List.mem_append_left _ hmem
    exact Token.whole_or_cut_of_mem_tokenize hall
  constructor
  · intro implicitParens form hform name hpart
    exact hsourced implicitParens form hform _ hpart
  · intro forms hread hfinite
    have hforms : ∀ form ∈ forms, Value.Throughout Value.Sourced form := by
      have hall := hsourced true
      rwa [hread] at hall
    apply Form.readAll_display_text
    · intro form hform
      exact Value.readable_of_sourced (hforms form hform) (hfinite form hform)
    · have hderives := Form.readAll_eq_iff_derivesAll.mp hread
      cases forms with
      | nil => simp
      | cons form rest =>
          have hne : Token.explicit text ≠ [] := by
            intro hnil
            rw [Token.tokenize_true, hnil] at hread
            cases hread
          have hopen : (Token.tokenize text true).head? = some "(" := Token.head?_wrap hne
          have hlist := hderives.head?_eq_open_iff.mp hopen
          simpa using hlist

/-- A comment, a negative zero, a character that is a parenthesis, a string between
single quotes and a symbol that starts like a numeral. -/
theorem commented_list_reprinted :
    let text := "f (-0. ,)) 'a;\\x41' -1x ; end"
    let forms : List Value := [.list [.symbol "f",
      .list [.number (.signed true (Rank.ofNat 0)), .char ')'], .string "a;A", .symbol "-1x"]]
    Form.readAll (Token.tokenize text true) = (forms, none) ∧
      (∀ form ∈ forms, ∀ negative, ¬Value.Part (.number (.infinity negative)) form) ∧
      Form.readAll (Token.tokenize (" ".intercalate (forms.map Value.display)) true) =
        ([.list [.symbol "f", .list [.number .zero, .char ')'], .string "a;A",
          .symbol "-1x"]], none) := by
  intro text forms
  have hread : Form.readAll (Token.tokenize text true) = (forms, none) := by
    simp only [text, forms]
    with_unfolding_all rfl
  have hfinite : ∀ form ∈ forms, ∀ negative,
      ¬Value.Part (.number (.infinity negative)) form := by
    have hzero : ∀ negative, Number.infinity negative ≠ .signed true (Rank.ofNat 0) := by
      decide
    simp [forms, Value.part_list_iff, Value.part_iff_eq, hzero]
  exact ⟨hread, hfinite, (reprinting_preserves_source text).2 forms hread hfinite⟩

end DynLisp
