import DynLisp.Proofs.Number.ReadBack
import DynLisp.Proofs.Reader.Grammar
import DynLisp.Proofs.Reader.Lexeme
import DynLisp.Value.Display

/-!
# What is written can be read

A value that holds no functions, no infinite numbers and only names that a
symbol can have in a source text is **readable**.  Its text reads as the same
value, except that the sign of a negative zero is lost.

The text of an element of a list stands in front of more text.  So the property
that goes through the induction speaks of every text behind the element that
does not go on with the element's last word.

* `Form.Reads cs v` — the tokens of `cs`, in front of any such text, spell `v`;
* `Form.reads_list`, `Form.ReadsAll.cons` — lists read element by element;
* `Value.Readable.reads` — a readable value's text reads as the value;
* `Value.display_reads_back` — reading the whole text gives the value, with the
  parentheses left as they are or made up, and leaves no token over.
-/

namespace DynLisp

namespace Token

/-- Numerals are made of characters that words may hold. -/
theorem not_breaks_of_part {c : Char} (h : Numeral.Part c) : ¬Breaks c := by
  intro hbreaks
  have hspecial : c ∈ [' ', '\t', '\r', '\n', '(', ')', ';', ',', '"', '\x27'] := by
    simpa [Breaks, blanks, quotes, or_assoc] using hbreaks
  have hall : [' ', '\t', '\r', '\n', '(', ')', ';', ',', '"', '\x27'].all
      (fun d => !Text.isDigit d && !(List.contains ['-', '+', '.', 'e', 'E'] d)) = true := by decide
  have hboth := List.all_eq_true.mp hall c hspecial
  simp only [Bool.and_eq_true, Bool.not_eq_true', List.contains_eq_mem,
    decide_eq_false_iff_not] at hboth
  obtain ⟨hdigit, hother⟩ := hboth
  rcases h with h | h
  · rw [h] at hdigit
    cases hdigit
  · exact hother h

end Token

namespace Atom

open Token (Breaks)

/-- The three constants of the language. -/
def constants : List (List Char) :=
  [['t', 'r', 'u', 'e'], ['f', 'a', 'l', 's', 'e'], ['n', 'i', 'l']]

/-- A token that is no constant, and starts neither with a comma nor with a quote, is a number
or a symbol. -/
theorem readChars_plain {first : Char} {rest : List Char} (hmark : first ≠ ',')
    (hquote : first ∉ Token.quotes) (hconstant : first :: rest ∉ constants) :
    readChars (first :: rest) =
      .ok (((Numeral.parse? (first :: rest)).map fun n => .number n.number).getD
        (.symbol (String.ofList (first :: rest)))) := by
  unfold readChars
  split
  · next hnil => cases hnil
  · next htrue => exact absurd (by rw [htrue]; decide) hconstant
  · next hfalse => exact absurd (by rw [hfalse]; decide) hconstant
  · next hnil => exact absurd (by rw [hnil]; decide) hconstant
  · next hcons =>
    obtain ⟨rfl, rfl⟩ := List.cons.inj hcons
    rw [if_neg hmark, if_neg (mt Token.isQuote_iff.mp hquote)]
    cases Numeral.parse? (first :: rest) <;> rfl

/-- A word that is no constant is a number or a symbol. -/
theorem readChars_word {cs : List Char} (hne : cs ≠ []) (hword : ∀ c ∈ cs, ¬Breaks c)
    (hconstant : cs ∉ constants) :
    readChars cs =
      .ok (((Numeral.parse? cs).map fun n => .number n.number).getD
        (.symbol (String.ofList cs))) := by
  obtain ⟨first, rest, rfl⟩ := List.exists_cons_of_ne_nil hne
  have hfirst := hword first List.mem_cons_self
  have hmark : first ≠ ',' := by
    intro heq
    exact hfirst (Or.inr (Or.inr (Or.inr (Or.inl heq))))
  have hquote : first ∉ Token.quotes := by
    intro hmem
    exact hfirst (Or.inr (Or.inr (Or.inr (Or.inr hmem))))
  exact readChars_plain hmark hquote hconstant

/-- The constants are no numerals. -/
theorem not_numeral_of_constant {cs : List Char} (h : cs ∈ constants) :
    Numeral.parse? cs = none := by
  have hall : constants.all (fun ds => (Numeral.parse? ds).isNone) = true := by decide
  exact Option.isNone_iff_eq_none.mp (List.all_eq_true.mp hall cs h)

/-- A numeral is read as the number that it stands for. -/
theorem readChars_numeral {cs : List Char} {n : Numeral} (h : Numeral.Spells cs n) :
    readChars cs = .ok (.number n.number) := by
  have hparse := Numeral.parse?_eq_some_iff.mpr h
  have hconstant : cs ∉ constants := by
    intro hmem
    rw [not_numeral_of_constant hmem] at hparse
    cases hparse
  rw [readChars_word h.ne_nil (fun c hc => Token.not_breaks_of_part (h.parts c hc)) hconstant,
    hparse]
  rfl

/-- A character after its mark is read as it stands. -/
theorem readChars_mark (c : Char) : readChars [',', c] = .ok (.char c) := by
  have hone : Value.charOfText (String.ofList [c]) = .ok (.char c) := by
    rw [Value.charOfText, String.toList_ofList]
  exact hone

/-- A literal made of units is read as what its inside stands for. -/
theorem readChars_literal {quote : Char} (hquote : quote ∈ Token.quotes)
    {cs ds : List Char} (h : Token.Units quote cs) (hdecode : Escape.decode cs = .ok ds) :
    readChars (quote :: (cs ++ [quote])) = .ok (.string (String.ofList ds)) := by
  rw [readChars_quote hquote, literal_units hquote h hdecode]

end Atom

namespace Form

open Token (Breaks Boundary scan)

/-- **What a text is read as**, whatever the text behind it: its tokens spell the
value, and cutting goes on behind it as at the start of a text. -/
def Reads (cs : List Char) (v : Value) : Prop :=
  ∃ tokens : List (List Char), Derives (tokens.map String.ofList) v ∧
    ∀ rest, Boundary rest → scan (.word []) (cs ++ rest) = tokens ++ scan (.word []) rest

/-- The same for a sequence of values. -/
def ReadsAll (cs : List Char) (vs : List Value) : Prop :=
  ∃ tokens : List (List Char), DerivesAll (tokens.map String.ofList) vs ∧
    ∀ rest, Boundary rest → scan (.word []) (cs ++ rest) = tokens ++ scan (.word []) rest

/-- A text that is one token, and no parenthesis, is read as its atom. -/
theorem reads_atom {cs : List Char} {v : Value} (hread : Atom.readChars cs = .ok v)
    (hopen : cs ≠ ['(']) (hclose : cs ≠ [')'])
    (hscan : ∀ rest, Boundary rest →
      scan (.word []) (cs ++ rest) = cs :: scan (.word []) rest) :
    Reads cs v := by
  refine ⟨[cs], ?_, hscan⟩
  have hchars : (String.ofList cs).toList = cs := String.toList_ofList
  apply Derives.atom
  · intro heq
    exact hopen (by simpa [hchars] using congrArg String.toList heq)
  · intro heq
    exact hclose (by simpa [hchars] using congrArg String.toList heq)
  · rw [Atom.read, hchars, hread]

/-- A word is read as its atom. -/
theorem reads_word {cs : List Char} {v : Value} (hne : cs ≠ [])
    (hword : ∀ c ∈ cs, ¬Breaks c) (hread : Atom.readChars cs = .ok v) : Reads cs v := by
  have hparen : ∀ c : Char, Breaks c → cs ≠ [c] := by
    intro c hc heq
    rw [heq] at hword
    exact hword c List.mem_cons_self hc
  exact reads_atom hread (hparen '(' (by decide)) (hparen ')' (by decide))
    fun rest hrest => Token.scan_word_boundary hne hword hrest

/-- A text between parentheses is read as the list of what it is read as. -/
theorem reads_list {cs : List Char} {vs : List Value} (h : ReadsAll cs vs) :
    Reads ('(' :: (cs ++ [')'])) (.list vs) := by
  obtain ⟨tokens, hderives, hscan⟩ := h
  refine ⟨['('] :: (tokens ++ [[')']]), ?_, ?_⟩
  · rw [List.map_cons, List.map_append]
    exact Derives.list hderives
  · intro rest _
    have hclose : Boundary (')' :: rest) := Boundary.cons (by decide) rest
    rw [List.cons_append, List.append_assoc, List.singleton_append,
      Token.scan_paren (Or.inl rfl), hscan _ hclose, Token.scan_paren (Or.inr rfl)]
    simp

theorem ReadsAll.nil : ReadsAll [] [] :=
  ⟨[], DerivesAll.nil, fun _ _ => rfl⟩

/-- What is read as one form is read as a list of one form. -/
theorem Reads.all {cs : List Char} {v : Value} (h : Reads cs v) : ReadsAll cs [v] := by
  obtain ⟨tokens, hderives, hscan⟩ := h
  refine ⟨tokens, ?_, hscan⟩
  have hone := DerivesAll.cons hderives DerivesAll.nil
  rwa [List.append_nil] at hone

/-- A space is enough to keep a value apart from those behind it. -/
theorem ReadsAll.cons {cs ds : List Char} {v : Value} {vs : List Value}
    (h : Reads cs v) (hrest : ReadsAll ds vs) : ReadsAll (cs ++ ' ' :: ds) (v :: vs) := by
  obtain ⟨tokens, hderives, hscan⟩ := h
  obtain ⟨more, hmore, hscanMore⟩ := hrest
  refine ⟨tokens ++ more, ?_, ?_⟩
  · rw [List.map_append]
    exact DerivesAll.cons hderives hmore
  · intro rest hboundary
    have hspace : Boundary (' ' :: (ds ++ rest)) := Boundary.cons (by decide) _
    rw [List.append_assoc, List.cons_append, hscan _ hspace, Token.scan_blank (by decide),
      hscanMore rest hboundary, List.append_assoc]

/-- A text with nothing behind it is cut into its own tokens. -/
theorem explicit_eq_of_scan {cs : List Char} {tokens : List (List Char)}
    (h : ∀ rest, Boundary rest →
      scan (.word []) (cs ++ rest) = tokens ++ scan (.word []) rest) :
    Token.explicit (String.ofList cs) = tokens.map String.ofList := by
  have hwhole := h [] Boundary.nil
  have hend : scan (.word []) [] = [] := rfl
  rw [hend, List.append_nil, List.append_nil] at hwhole
  rw [Token.explicit, String.toList_ofList, hwhole]

/-- A text is cut into the tokens of the value that it is read as. -/
theorem Reads.explicit {cs : List Char} {v : Value} (h : Reads cs v) :
    Derives (Token.explicit (String.ofList cs)) v := by
  obtain ⟨tokens, hderives, hscan⟩ := h
  rw [explicit_eq_of_scan hscan]
  exact hderives

/-- The tokens of what is read spell the forms. -/
theorem ReadsAll.explicit {cs : List Char} {vs : List Value} (h : ReadsAll cs vs) :
    DerivesAll (Token.explicit (String.ofList cs)) vs := by
  obtain ⟨tokens, hderives, hscan⟩ := h
  rw [explicit_eq_of_scan hscan]
  exact hderives

end Form

namespace Value

open Form (Reads ReadsAll)
open Token (Breaks)

theorem displayChars_list (items : List Value) :
    (list items).displayChars = '(' :: (displayItems items ++ [')']) := rfl

theorem displayItems_cons (v w : Value) (vs : List Value) :
    displayItems (v :: w :: vs) = v.displayChars ++ ' ' :: displayItems (w :: vs) := rfl

mutual

/-- The value with every negative zero made positive. -/
def positiveZeros : Value → Value
  | .number x => .number x.positiveZero
  | .list items => .list (positiveZerosItems items)
  | v => v

/-- The values with every negative zero made positive. -/
def positiveZerosItems : List Value → List Value
  | [] => []
  | v :: vs => positiveZeros v :: positiveZerosItems vs

end

/-- Zeros lose their sign in each element. -/
theorem positiveZerosItems_eq_map (items : List Value) :
    positiveZerosItems items = items.map positiveZeros := by
  induction items with
  | nil => rfl
  | cons v vs ih => rw [positiveZerosItems, ih, List.map_cons]

theorem positiveZeros_list (items : List Value) :
    positiveZeros (.list items) = .list (items.map positiveZeros) := by
  rw [positiveZeros, positiveZerosItems_eq_map]

/-- A name that a source text can give to a symbol: a word that is neither a
constant nor a numeral. -/
structure ReadableName (name : String) : Prop where
  nonempty : name ≠ ""
  unbroken : ∀ c ∈ name.toList, ¬Breaks c
  notConstant : name ≠ "true" ∧ name ≠ "false" ∧ name ≠ "nil"
  notNumeral : ¬Numeral.IsNumeral name.toList

/-- **Readable** values. -/
inductive Readable : Value → Prop
  | bool (b : Bool) : Readable (.bool b)
  | nil : Readable .nil
  | number {x : Number} (hfinite : x.isFinite = true) : Readable (.number x)
  | string (text : String) : Readable (.string text)
  | char (c : Char) : Readable (.char c)
  | symbol {name : String} (hname : ReadableName name) : Readable (.symbol name)
  | list {items : List Value} (hitems : ∀ v ∈ items, Readable v) : Readable (.list items)

/-- The text of a symbol is read as the symbol. -/
theorem reads_symbol {name : String} (h : ReadableName name) :
    Reads name.toList (.symbol name) := by
  have hne : name.toList ≠ [] := by
    intro hnil
    exact h.nonempty (String.toList_eq_nil_iff.mp hnil)
  have hconstant : name.toList ∉ Atom.constants := by
    intro hmem
    have hname : String.ofList name.toList = name := String.ofList_toList
    obtain ⟨htrue, hfalse, hnil⟩ := h.notConstant
    simp only [Atom.constants, List.mem_cons, List.not_mem_nil, or_false] at hmem
    rcases hmem with heq | heq | heq
    all_goals rw [heq] at hname
    · exact htrue hname.symm
    · exact hfalse hname.symm
    · exact hnil hname.symm
  have hread := Atom.readChars_word hne h.unbroken hconstant
  rw [Numeral.parse?_eq_none_iff.mpr h.notNumeral, Option.map_none, Option.getD_none,
    String.ofList_toList] at hread
  exact Form.reads_word hne h.unbroken hread

/-- The text of a finite number is read as the number, with a positive zero. -/
theorem reads_number {x : Number} (h : x.isFinite = true) :
    Reads x.textChars (.number x.positiveZero) := by
  obtain ⟨n, hspells, hnumber⟩ := Number.spells_textChars h
  have hread := Atom.readChars_numeral hspells
  rw [hnumber] at hread
  exact Form.reads_word hspells.ne_nil
    (fun c hc => Token.not_breaks_of_part (hspells.parts c hc)) hread

/-- The text of a string is read as the string. -/
theorem reads_string (text : String) :
    Reads ('"' :: (Escape.encode text.toList ++ ['"'])) (.string text) := by
  have hunits := Escape.units_encode text.toList
  have hquote : '"' ∈ Token.quotes := by decide
  have hread := Atom.readChars_literal hquote hunits (Escape.decode_encode text.toList)
  rw [String.ofList_toList] at hread
  refine Form.reads_atom hread (by simp) (by simp) ?_
  intro rest _
  have hscan := Token.scan_literal hquote hunits rest
  simpa using hscan

/-- The text of a character is read as the character, whichever it is. -/
theorem reads_char (c : Char) : Reads [',', c] (.char c) :=
  Form.reads_atom (Atom.readChars_mark c) (by simp) (by simp)
    fun rest _ => Token.scan_mark c rest

/-- If the elements of a list are read one by one, so is their sequence. -/
theorem readsAll_displayItems {items : List Value}
    (h : ∀ v ∈ items, Reads v.displayChars v.positiveZeros) :
    ReadsAll (displayItems items) (positiveZerosItems items) := by
  induction items with
  | nil => exact Form.ReadsAll.nil
  | cons v vs ih =>
      have hv : Reads v.displayChars v.positiveZeros := h v List.mem_cons_self
      have hvs := ih fun w hw => h w (List.mem_cons_of_mem v hw)
      cases vs with
      | nil => exact hv.all
      | cons w ws =>
          rw [displayItems_cons, positiveZerosItems]
          exact Form.ReadsAll.cons hv hvs

/-- **A readable value's text** is read as the value, whatever follows it. -/
theorem Readable.reads {v : Value} (h : v.Readable) :
    Reads v.displayChars v.positiveZeros := by
  induction h with
  | bool b =>
      cases b with
      | false => exact Form.reads_word (List.cons_ne_nil 'f' _) (Token.unbroken_of_all rfl) rfl
      | true => exact Form.reads_word (List.cons_ne_nil 't' _) (Token.unbroken_of_all rfl) rfl
  | nil => exact Form.reads_word (List.cons_ne_nil 'n' _) (Token.unbroken_of_all rfl) rfl
  | number hfinite => exact reads_number hfinite
  | string text => exact reads_string text
  | char c => exact reads_char c
  | symbol hname => exact reads_symbol hname
  | list _ ih => exact Form.reads_list (readsAll_displayItems ih)

/-- **Display reads back.**  The text of a readable value is read as the value,
with negative zeros made positive, and no token is left over; where the value is
a list, this is so as well when parentheses are made up for texts without. -/
theorem display_reads_back {v : Value} (h : v.Readable) :
    Form.parse (Token.tokenize v.display false) = .ok (v.positiveZeros, []) ∧
      ∀ items, v = .list items →
        Form.parse (Token.tokenize v.display true) = .ok (v.positiveZeros, []) := by
  have hexplicit : Form.parse (Token.explicit v.display) = .ok (v.positiveZeros, []) := by
    have hderives := h.reads.explicit
    exact Form.parse_eq_ok_iff.mpr
      (Or.inr ⟨_, (List.append_nil _).symm, hderives⟩)
  refine ⟨hexplicit, ?_⟩
  intro items hitems
  have hwrap : Token.tokenize v.display true = Token.explicit v.display := by
    rw [hitems, Token.tokenize, if_pos rfl, display, displayChars_list, Token.explicit,
      String.toList_ofList, Token.scan_paren (Or.inl rfl)]
    rfl
  rw [hwrap]
  exact hexplicit

/-- A character that is a parenthesis, a string with a quote and a backslash, a
symbol that starts like a numeral, and a negative zero inside a nested list. -/
theorem nested_list_display_reads_back :
    Readable (.list [.symbol "-", .char ')', .string "\"\\ ;",
      .list [.number (.signed true (Rank.ofNat 0)), .nil]]) ∧
    Form.parse (Token.tokenize (display (.list [.symbol "-", .char ')', .string "\"\\ ;",
        .list [.number (.signed true (Rank.ofNat 0)), .nil]])) true) =
      .ok (.list [.symbol "-", .char ')', .string "\"\\ ;",
        .list [.number Number.zero, .nil]], []) := by
  have hname : ReadableName "-" :=
    ⟨by decide, Token.unbroken_of_all rfl, by decide, Numeral.parse?_eq_none_iff.mp rfl⟩
  have hzero : Readable (.number (.signed true (Rank.ofNat 0))) := .number (by decide)
  have hinner : Readable (.list [.number (.signed true (Rank.ofNat 0)), .nil]) := by
    refine .list ?_
    intro v hv
    simp only [List.mem_cons, List.not_mem_nil, or_false] at hv
    rcases hv with rfl | rfl
    · exact hzero
    · exact .nil
  have hreadable : Readable (.list [.symbol "-", .char ')', .string "\"\\ ;",
      .list [.number (.signed true (Rank.ofNat 0)), .nil]]) := by
    refine .list ?_
    intro v hv
    simp only [List.mem_cons, List.not_mem_nil, or_false] at hv
    rcases hv with rfl | rfl | rfl | rfl
    · exact .symbol hname
    · exact .char ')'
    · exact .string _
    · exact hinner
  exact ⟨hreadable, (display_reads_back hreadable).2 _ rfl⟩

end Value

end DynLisp
