import DynLisp.Proofs.Checked.Escape
import DynLisp.Proofs.Number.Grammar
import DynLisp.Reader.Atom

/-!
# Reading atoms, checked

A token is read here by position: its first character, its second one if it starts
with a comma, and its last one and those before it if it starts with a quote.  A
number is made of a token that the grammar of numerals spells, and of no other.

`Checked.read_eq` says that every token that has a character is read without an
operation outside of its domain.  That tokens do have characters is up to the
scanner (`Token.ne_empty_of_mem_tokenize`).
-/

namespace DynLisp

namespace Checked

instance (cs : List Char) : Decidable (Numeral.IsNumeral cs) :=
  decidable_of_iff ((Numeral.parse? cs).isSome = true) (by
    rw [Option.isSome_iff_exists]
    exact exists_congr fun n => Numeral.parse?_eq_some_iff)

section Reading

variable (misuse : Halt)

/-- How many backslashes stand right before a position. -/
def backslashesBefore (token : List Char) : Nat → Except Halt Nat
  | 0 => pure 0
  | i + 1 => do
    let c ← item misuse token i
    if c = '\\' then
      let count ← backslashesBefore token i
      pure (count + 1)
    else pure 0

/-- The string in a literal with the given opening quote. -/
def literal (quote : Char) (token : List Char) : Except Halt Value :=
  let unterminated := Halt.parse (.unterminated (String.ofList token))
  if token.length < 2 then throw unterminated
  else do
    let last ← item misuse token (token.length - 1)
    if last ≠ quote then throw unterminated
    else
      let count ← backslashesBefore misuse token (token.length - 1)
      if count % 2 = 1 then throw unterminated
      else
        let text ← decode misuse ((token.drop 1).dropLast)
        pure (.string (String.ofList text))

/-- The value of a token, on characters. -/
def readChars (token : List Char) : Except Halt Value :=
  if token = ['t', 'r', 'u', 'e'] then pure (.bool true)
  else if token = ['f', 'a', 'l', 's', 'e'] then pure (.bool false)
  else if token = ['n', 'i', 'l'] then pure .nil
  else if token.head? = some ',' then
    if token.length ≠ 2 then throw (.parse .charExpected)
    else do
      let second ← item misuse token 1
      let c ← single misuse [second]
      pure (.char c)
  else do
    let first ← item misuse token 0
    if Token.isQuote first then literal misuse first token
    else if Numeral.IsNumeral token then
      let x ← decimal misuse token
      pure (.number x)
    else pure (.symbol (String.ofList token))

/-- The value of a token. -/
def read (token : String) : Except Halt Value := readChars misuse token.toList

end Reading

variable {misuse : Halt}

/-- The walk backwards stays inside of the token. -/
theorem backslashesBefore_eq {token : List Char} {i : Nat} (h : i ≤ token.length) :
    backslashesBefore misuse token i =
      .ok ((token.take i).reverse.takeWhile (· == '\\')).length := by
  induction i with
  | zero => rfl
  | succ i ih =>
      have hi : i < token.length := h
      rw [backslashesBefore, item_of_drop (List.drop_eq_getElem_cons hi),
        List.take_succ_eq_append_getElem hi, List.reverse_append, List.reverse_singleton,
        List.singleton_append, List.takeWhile_cons]
      show (if token[i] = '\\' then _ else _) = _
      by_cases hbackslash : token[i] = '\\'
      · rw [if_pos hbackslash, if_pos (beq_iff_eq.mpr hbackslash), ih (Nat.le_of_lt hi),
          List.length_cons]
        rfl
      · rw [if_neg hbackslash, if_neg fun hbeq => hbackslash (beq_iff_eq.mp hbeq)]
        rfl

/-- The last character of a literal is looked at only if there is more than one. -/
theorem literal_eq (quote : Char) (token : List Char) :
    literal misuse quote token = Atom.literal quote token := by
  by_cases hlength : token.length < 2
  · rw [literal, if_pos hlength, Atom.literal,
      if_neg fun hclosed => Nat.not_lt_of_le hclosed.1 hlength]
    rfl
  · obtain ⟨init, last, rfl⟩ : ∃ init last, token = init ++ [last] := by
      refine ⟨token.dropLast, token.getLast ?_, (List.dropLast_concat_getLast _).symm⟩
      rintro rfl
      exact hlength Nat.two_pos
    have hlast : (init ++ [last]).length - 1 = init.length := by simp
    have hitem : (init ++ [last]).drop init.length = [last] := List.drop_left
    have hbefore : (init ++ [last]).take init.length = init := List.take_left
    have hclosed : (2 ≤ (init ++ [last]).length ∧
        Atom.closes quote (init ++ [last]).reverse = true) ↔
        last = quote ∧ ¬(init.reverse.takeWhile (· == '\\')).length % 2 = 1 := by
      rw [List.reverse_append, List.reverse_singleton, List.singleton_append, Atom.closes]
      have hmany : 2 ≤ (init ++ [last]).length := Nat.le_of_not_lt hlength
      simp only [hmany, true_and, Bool.and_eq_true, beq_iff_eq, Nat.mod_two_ne_one]
    rw [literal, if_neg hlength, hlast, item_of_drop hitem, backslashesBefore_eq (by simp), hbefore,
      Atom.literal]
    simp only [hclosed]
    show (if last ≠ quote then _ else _) = _
    by_cases hquote : last = quote
    · rw [if_neg fun hne => hne hquote]
      show (if _ then _ else _) = _
      by_cases hodd : (init.reverse.takeWhile (· == '\\')).length % 2 = 1
      · rw [if_pos hodd, if_neg fun hboth => hboth.2 hodd]
        rfl
      · rw [if_neg hodd, if_pos ⟨hquote, hodd⟩, decode_eq]
        cases Escape.decode (((init ++ [last]).drop 1).dropLast) <;> rfl
    · rw [if_pos hquote, if_neg fun hboth => hquote hboth.1]
      rfl

/-- **Reading a token needs no operation outside of its domain**, if the token has a
character. -/
theorem readChars_eq {token : List Char} (h : token ≠ []) :
    readChars misuse token = Atom.readChars token := by
  unfold Atom.readChars
  -- The three constants are tried first, and by both readers.
  split
  · exact absurd rfl h
  · rfl
  · rfl
  · rfl
  · next first rest htrue hfalse hnil =>
    rw [readChars, if_neg fun heq => htrue (List.cons.inj heq).1 (List.cons.inj heq).2,
      if_neg fun heq => hfalse (List.cons.inj heq).1 (List.cons.inj heq).2,
      if_neg fun heq => hnil (List.cons.inj heq).1 (List.cons.inj heq).2, List.head?_cons]
    by_cases hmark : first = ','
    · rw [if_pos (congrArg some hmark), if_pos hmark]
      by_cases hlength : (first :: rest).length = 2
      · obtain ⟨c, rfl⟩ : ∃ c, rest = [c] :=
          List.length_eq_one_iff.mp (Nat.succ.inj hlength)
        rw [if_neg fun hne => hne rfl, if_neg fun hne => hne rfl, Value.charOfText,
          String.toList_ofList]
        rfl
      · rw [if_pos hlength, if_pos hlength]
        rfl
    · rw [if_neg fun heq => hmark (Option.some.inj heq), if_neg hmark]
      show (if Token.isQuote first = true then _ else _) = _
      by_cases hquote : Token.isQuote first = true
      · rw [if_pos hquote, if_pos hquote, literal_eq]
      · rw [if_neg hquote, if_neg hquote]
        cases hparse : Numeral.parse? (first :: rest) with
        | none =>
            rw [if_neg (Numeral.parse?_eq_none_iff.mp hparse)]
            rfl
        | some n =>
            rw [if_pos ⟨n, Numeral.parse?_eq_some_iff.mp hparse⟩]
            simp only [decimal, hparse]
            rfl

theorem read_eq {token : String} (h : token ≠ "") : read misuse token = Atom.read token :=
  readChars_eq (by simpa using h)

end Checked

end DynLisp
