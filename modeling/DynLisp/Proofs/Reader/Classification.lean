import DynLisp.Proofs.Number.Transcription
import DynLisp.Proofs.Reader.ReadBack
import Mathlib.Data.List.Induction

/-!
# What a token is

Every token with a character is of one kind, which can be told from its characters.

* `Atom.EndsEven`, `Atom.isTerminated_iff` — where a literal is closed: its last character is
  its quote, behind an even number of backslashes;
* `Escape.FailsWith` — an escape that cannot be read, behind units that can;
* `Atom.Malformed` — the tokens that cannot be read, with what is wrong with them;
* `Atom.Classified` — all kinds of tokens, with what is read from them;
* `Atom.Classified.readChars_eq`, `Atom.exists_classified` — a token of a kind is read as the
  kind says, and every token is of some kind;
* `atoms_are_classified` — which tokens are numbers, which are symbols, and which are neither
  and cannot be read.
-/

namespace DynLisp

namespace Escape

/-- Units can be read up to a place where none can, and what is wrong there is the error. -/
def FailsWith (body : List Char) (cause : EscapeError) : Prop :=
  ∃ front units c tail, body = front ++ c :: tail ∧ Splits front units ∧
    unit c tail = .error cause

/-- **What is wrong with escapes** is what is wrong with the first one that cannot be read. -/
theorem decode_eq_error_iff {body : List Char} {cause : EscapeError} :
    decode body = .error cause ↔ FailsWith body cause := by
  constructor
  · intro h
    rcases decode_cases body with ⟨units, -, hdecode⟩ |
      ⟨front, units, c, tail, _, hbody, hfront, hunit, hdecode⟩
    · cases h.symm.trans hdecode
    · cases h.symm.trans hdecode
      exact ⟨front, units, c, tail, hbody, hfront, hunit⟩
  · intro h
    obtain ⟨front, units, c, tail, rfl, hfront, hunit⟩ := h
    rw [hfront.decode_append, decode, hunit]
    rfl

end Escape

namespace Atom

open Token (quotes)
open Escape (Splits FailsWith)

variable {quote : Char} {inside rest cs : List Char}

/-- The text ends with an even number of backslashes, which may be none. -/
def EndsEven (inside : List Char) : Prop :=
  ∃ front n, inside = front ++ List.replicate n '\\' ∧ front.getLast? ≠ some '\\' ∧
    n % 2 = 0

/-- The backslashes at the end of a text are all that are met from there. -/
theorem takeWhile_backslashes {front : List Char} (h : front.getLast? ≠ some '\\') (n : Nat) :
    (front ++ List.replicate n '\\').reverse.takeWhile (· == '\\') = List.replicate n '\\' := by
  have hstop : front.reverse.takeWhile (· == '\\') = [] := by
    rw [← List.head?_reverse] at h
    cases hreverse : front.reverse with
    | nil => rfl
    | cons c tail =>
        rw [hreverse] at h
        exact List.takeWhile_cons_of_neg (by simpa using h)
  rw [List.reverse_append, List.reverse_replicate, List.takeWhile_append_of_pos (by simp), hstop,
    List.append_nil]

/-- Every text ends with some number of backslashes.  By induction from its end. -/
theorem exists_backslashes (inside : List Char) :
    ∃ front n, inside = front ++ List.replicate n '\\' ∧ front.getLast? ≠ some '\\' := by
  induction inside using List.reverseRecOn with
  | nil => exact ⟨[], 0, rfl, nofun⟩
  | append_singleton inside last ih =>
      by_cases hlast : last = '\\'
      · obtain ⟨front, n, rfl, hfront⟩ := ih
        refine ⟨front, n + 1, ?_, hfront⟩
        rw [hlast, List.replicate_succ', List.append_assoc]
      · exact ⟨inside ++ [last], 0, by simp, by simpa using hlast⟩

theorem endsEven_iff :
    EndsEven inside ↔ (inside.reverse.takeWhile (· == '\\')).length % 2 = 0 := by
  constructor
  · intro h
    obtain ⟨front, n, rfl, hfront, heven⟩ := h
    rwa [takeWhile_backslashes hfront, List.length_replicate]
  · intro h
    obtain ⟨front, n, rfl, hfront⟩ := exists_backslashes inside
    rw [takeWhile_backslashes hfront, List.length_replicate] at h
    exact ⟨front, n, rfl, hfront, h⟩

/-- The test for the end of a literal asks for a quote of its own that is behind an even number
of backslashes.  The opening quote stops the count. -/
theorem closes_iff (hquote : quote ∈ quotes) (inside : List Char) (last : Char) :
    closes quote (quote :: (inside ++ [last])).reverse = true ↔
      last = quote ∧ EndsEven inside := by
  have hbackslash : '\\' ≠ quote := Token.ne_backslash_of_mem_quotes hquote
  have hopen : (inside.reverse ++ [quote]).takeWhile (· == '\\') =
      inside.reverse.takeWhile (· == '\\') := by
    rw [List.takeWhile_append, List.takeWhile_cons_of_neg (by simpa using hbackslash.symm),
      List.append_nil]
    split
    · next hall => exact ((List.takeWhile_prefix _).eq_of_length hall).symm
    · rfl
  rw [endsEven_iff, List.reverse_cons, List.reverse_append, List.reverse_singleton,
    List.append_assoc, List.singleton_append, closes, hopen, Bool.and_eq_true, beq_iff_eq,
    beq_iff_eq]

/-- What stands behind the opening quote of a literal that is closed. -/
def IsTerminated (quote : Char) (rest : List Char) : Prop :=
  ∃ inside, rest = inside ++ [quote] ∧ EndsEven inside

/-- **A literal is closed** if it has two characters and passes the test for its end. -/
theorem isTerminated_iff (hquote : quote ∈ quotes) :
    IsTerminated quote rest ↔
      2 ≤ (quote :: rest).length ∧ closes quote (quote :: rest).reverse = true := by
  cases rest using List.reverseRecOn with
  | nil => simp [IsTerminated]
  | append_singleton inside last =>
      have hlength : 2 ≤ (quote :: (inside ++ [last])).length := by simp
      rw [closes_iff hquote, and_iff_right hlength]
      constructor
      · intro h
        obtain ⟨inside', hrest, heven⟩ := h
        obtain ⟨rfl, hlast⟩ := List.append_inj' hrest rfl
        exact ⟨List.singleton_inj.mp hlast, heven⟩
      · intro h
        obtain ⟨rfl, heven⟩ := h
        exact ⟨inside, rfl, heven⟩

/-- **The tokens that cannot be read**, and what is wrong with them: a comma without exactly one
character behind it, a literal that is not closed, and a closed one with an escape that cannot
be read. -/
inductive Malformed : List Char → ParseError → Prop
  | mark {rest : List Char} (hlength : rest.length ≠ 1) : Malformed (',' :: rest) .charExpected
  | unterminated {quote : Char} {rest : List Char} (hquote : quote ∈ quotes)
      (hopen : ¬IsTerminated quote rest) :
      Malformed (quote :: rest) (.unterminated (String.ofList (quote :: rest)))
  | escape {quote : Char} {inside : List Char} {cause : EscapeError}
      (hquote : quote ∈ quotes) (heven : EndsEven inside)
      (hfails : FailsWith inside cause) :
      Malformed (quote :: (inside ++ [quote])) (.escape cause)

/-- The token starts with a comma or a quote. -/
def IsMarked (cs : List Char) : Prop :=
  ∃ first rest, cs = first :: rest ∧ (first = ',' ∨ first ∈ quotes)

/-- **What tokens there are**, and what is read from them. -/
inductive Classified : List Char → Except Halt Value → Prop
  | constantTrue : Classified "true".toList (.ok (.bool true))
  | constantFalse : Classified "false".toList (.ok (.bool false))
  | constantNil : Classified "nil".toList (.ok .nil)
  | character (c : Char) : Classified [',', c] (.ok (.char c))
  | string {quote : Char} {inside : List Char} {units : List (List Char × Char)}
      (hquote : quote ∈ quotes) (heven : EndsEven inside) (hunits : Splits inside units) :
      Classified (quote :: (inside ++ [quote]))
        (.ok (.string (String.ofList (units.map (·.2)))))
  | malformed {cs : List Char} {cause : ParseError} (h : Malformed cs cause) :
      Classified cs (.error (.parse cause))
  | number {cs : List Char} {n : Numeral} (h : Numeral.Spells cs n) :
      Classified cs (.ok (.number n.number))
  | symbol {cs : List Char} (hsome : cs ≠ []) (hconstant : cs ∉ constants)
      (hmarked : ¬IsMarked cs) (hnumeral : ¬Numeral.IsNumeral cs) :
      Classified cs (.ok (.symbol (String.ofList cs)))

/-- A closed literal is read as its inside is decoded. -/
theorem readChars_terminated (hquote : quote ∈ quotes) (heven : EndsEven inside) :
    readChars (quote :: (inside ++ [quote])) =
      ((Escape.decode inside).mapError fun cause => .parse (.escape cause)).map fun text =>
        .string (String.ofList text) := by
  have hclosed := (isTerminated_iff hquote).mp ⟨inside, rfl, heven⟩
  rw [readChars_quote hquote, literal, if_pos hclosed, List.drop_one, List.tail_cons,
    List.dropLast_concat]
  cases Escape.decode inside <;> rfl

theorem Malformed.readChars_eq {cause : ParseError} (h : Malformed cs cause) :
    readChars cs = .error (.parse cause) := by
  cases h with
  | @mark rest hlength =>
      have hlength' : (',' :: rest).length ≠ 2 := fun heq => hlength (Nat.succ.inj heq)
      exact if_pos hlength'
  | unterminated hquote hopen =>
      rw [readChars_quote hquote, literal,
        if_neg fun hclosed => hopen ((isTerminated_iff hquote).mpr hclosed)]
  | escape hquote heven hfails =>
      rw [readChars_terminated hquote heven, Escape.decode_eq_error_iff.mpr hfails]
      rfl

/-- **Tokens are read as what they are.** -/
theorem Classified.readChars_eq {outcome : Except Halt Value} (h : Classified cs outcome) :
    readChars cs = outcome := by
  cases h with
  | constantTrue | constantFalse | constantNil => rfl
  | character c => exact readChars_mark c
  | string hquote heven hunits =>
      rw [readChars_terminated hquote heven, Escape.decode_eq_ok_iff.mpr ⟨_, hunits, rfl⟩]
      rfl
  | malformed h => exact h.readChars_eq
  | number h => exact readChars_numeral h
  | symbol hsome hconstant hmarked hnumeral =>
      obtain ⟨first, rest, rfl⟩ := List.exists_cons_of_ne_nil hsome
      have hmark : first ≠ ',' := fun heq => hmarked ⟨first, rest, rfl, .inl heq⟩
      have hquote : first ∉ quotes := fun hmem => hmarked ⟨first, rest, rfl, .inr hmem⟩
      rw [readChars_plain hmark hquote hconstant, Numeral.parse?_eq_none_iff.mpr hnumeral]
      rfl

/-- **Every token is of some kind**, if it has a character. -/
theorem exists_classified (hsome : cs ≠ []) : ∃ outcome, Classified cs outcome := by
  by_cases hconstant : cs ∈ constants
  · simp only [constants, List.mem_cons, List.not_mem_nil, or_false] at hconstant
    rcases hconstant with rfl | rfl | rfl
    · exact ⟨_, .constantTrue⟩
    · exact ⟨_, .constantFalse⟩
    · exact ⟨_, .constantNil⟩
  by_cases hmarked : IsMarked cs
  · obtain ⟨first, rest, rfl, rfl | hquote⟩ := hmarked
    · by_cases hlength : rest.length = 1
      · obtain ⟨c, rfl⟩ := List.length_eq_one_iff.mp hlength
        exact ⟨_, .character c⟩
      · exact ⟨_, .malformed (.mark hlength)⟩
    · by_cases hterminated : IsTerminated first rest
      · obtain ⟨inside, rfl, heven⟩ := hterminated
        cases hdecode : Escape.decode inside with
        | ok text =>
            obtain ⟨units, hunits, -⟩ := Escape.decode_eq_ok_iff.mp hdecode
            exact ⟨_, .string hquote heven hunits⟩
        | error cause =>
            have hfails := Escape.decode_eq_error_iff.mp hdecode
            exact ⟨_, .malformed (.escape hquote heven hfails)⟩
      · exact ⟨_, .malformed (.unterminated hquote hterminated)⟩
  by_cases hnumeral : Numeral.IsNumeral cs
  · obtain ⟨n, hn⟩ := hnumeral
    exact ⟨_, .number hn⟩
  · exact ⟨_, .symbol hsome hconstant hmarked hnumeral⟩

/-- What is read from a token is what the token is. -/
theorem classified_readChars (hsome : cs ≠ []) : Classified cs (readChars cs) := by
  obtain ⟨outcome, h⟩ := exists_classified hsome
  rwa [h.readChars_eq]

/-- **Numbers** are the numerals. -/
theorem exists_number_iff (hsome : cs ≠ []) :
    (∃ x, readChars cs = .ok (.number x)) ↔ Numeral.IsNumeral cs := by
  constructor
  · intro h
    obtain ⟨x, hx⟩ := h
    have hclassified := classified_readChars hsome
    rw [hx] at hclassified
    cases hclassified with
    | number hn => exact ⟨_, hn⟩
  · intro h
    obtain ⟨n, hn⟩ := h
    exact ⟨n.number, (Classified.number hn).readChars_eq⟩

/-- **Errors** are the malformed tokens. -/
theorem readChars_eq_error_iff (hsome : cs ≠ []) (halt : Halt) :
    readChars cs = .error halt ↔ ∃ cause, Malformed cs cause ∧ halt = .parse cause := by
  constructor
  · intro h
    have hclassified := classified_readChars hsome
    rw [h] at hclassified
    cases hclassified with
    | malformed hcause => exact ⟨_, hcause, rfl⟩
  · intro h
    obtain ⟨cause, hcause, rfl⟩ := h
    exact hcause.readChars_eq

/-- **Symbols** are all other tokens that are not marked as something else. -/
theorem readChars_eq_symbol_iff (hsome : cs ≠ []) (name : String) :
    readChars cs = .ok (.symbol name) ↔
      name = String.ofList cs ∧ ¬Numeral.IsNumeral cs ∧ ¬IsMarked cs ∧
        cs ∉ constants := by
  constructor
  · intro h
    have hclassified := classified_readChars hsome
    rw [h] at hclassified
    cases hclassified with
    | symbol _ hconstant hmarked hnumeral => exact ⟨rfl, hnumeral, hmarked, hconstant⟩
  · intro h
    obtain ⟨rfl, hnumeral, hmarked, hconstant⟩ := h
    exact (Classified.symbol hsome hconstant hmarked hnumeral).readChars_eq

/-- A numeral is read as it is read in ASCII digits. -/
theorem readChars_transcribed {other : List Char} (h : Numeral.IsNumeral cs)
    (hother : Text.Transcribed cs other) : readChars other = readChars cs := by
  obtain ⟨n, hn⟩ := h
  rw [readChars_numeral hn, readChars_numeral (hn.transcribe hother)]

end Atom

open Atom

/-- **The classification of atoms is exact.**  Of the tokens that have a character,

* the numerals are numbers, and no others are;
* the malformed ones are errors, each with what is wrong with it, and no others are;
* the symbols are those that are no numerals, start with no comma and no quote, and are no
  constants; the name of a symbol is the token itself.

A numeral in which digits of other scripts are replaced by ASCII digits of the same value is
the same number. -/
theorem atoms_are_classified {token : String} (htoken : token ≠ "") :
    ((∃ x, read token = .ok (.number x)) ↔ Numeral.IsNumeral token.toList) ∧
    (∀ n, Numeral.Spells token.toList n → read token = .ok (.number n.number)) ∧
    (∀ halt, read token = .error halt ↔
      ∃ cause, Malformed token.toList cause ∧ halt = .parse cause) ∧
    (∀ name, read token = .ok (.symbol name) ↔
      name = token ∧ ¬Numeral.IsNumeral token.toList ∧ ¬IsMarked token.toList ∧
        token ∉ ["true", "false", "nil"]) ∧
    ∀ other : String, Numeral.IsNumeral token.toList →
      Text.Transcribed token.toList other.toList → read other = read token := by
  have hsome : token.toList ≠ [] := by simpa using htoken
  have hconstants : token.toList ∈ constants ↔ token ∈ ["true", "false", "nil"] := by
    have hsame : constants = ["true", "false", "nil"].map String.toList := rfl
    rw [hsame, List.mem_map_of_injective fun _ _ => String.toList_injective]
  refine ⟨exists_number_iff hsome, fun n hn => readChars_numeral hn,
    readChars_eq_error_iff hsome, fun name => ?_,
    fun other hnumeral hother => readChars_transcribed hnumeral hother⟩
  have hsymbol := readChars_eq_symbol_iff hsome name
  rw [String.ofList_toList, hconstants] at hsymbol
  exact hsymbol

/-- A number with digits of another script, and in ASCII digits. -/
theorem digits_of_any_script_are_classified :
    let token := "-\u0661.e\u0662"
    token ≠ "" ∧ (∃ x, read token = .ok (.number x)) ∧ read "-1.e\u0662" = read token := by
  intro token
  have htoken : token ≠ "" := by decide
  have hparts : Numeral.parse? token.toList = some ⟨true, [1], [], 2⟩ := by decide
  have hnumeral : Numeral.IsNumeral token.toList := ⟨_, Numeral.parse?_eq_some_iff.mp hparts⟩
  have hdigits : Text.Transcribed token.toList "-1.e\u0662".toList := by decide
  obtain ⟨hnumber, -, -, -, hother⟩ := atoms_are_classified htoken
  exact ⟨htoken, hnumber.mpr hnumeral, hother _ hnumeral hdigits⟩

/-- Where a digit is missing, the token is a symbol. -/
example : ["-.", "1e", "-1e+", ".e5"].map read =
    ["-.", "1e", "-1e+", ".e5"].map fun token => .ok (.symbol token) := by
  rfl

end DynLisp
