import DynLisp.Proofs.Checked.Operation
import DynLisp.Proofs.Text.Escape
import DynLisp.Proofs.Text.Hexadecimal

/-!
# Reading escapes, checked

The inside of a literal is read here by position, as far as escapes reach.  The
checks stand before the operations: how long the text is, before an element is
taken; whether all characters are hexadecimal digits and how many there are, before
they are turned into a number; whether the number is a code point, before it is
turned into a character.  Two digits need no check of the last kind, because the
number that they spell is small.

`Checked.decode_eq` says that this gives what `Escape.decode` gives, whatever the
misuse is.  With the grammar of escapes, `Escape.decode_unit_by_unit` says which texts
can be read, what they stand for, and what comes of one text behind another.
-/

namespace DynLisp

namespace Checked

open Escape (hexCharacters)

/-- The failure for an escape that cannot be read. -/
def refused (cause : EscapeError) : Halt := .parse (.escape cause)

section Reading

variable (misuse : Halt)

/-- The value of `count` hexadecimal digits at a position. -/
def digitsAt (body : List Char) (start count : Nat) : Except Halt Nat :=
  let digits := (body.drop start).take count
  if digits.length = count ∧ ∀ c ∈ digits, c ∈ hexCharacters then hexadecimal misuse digits
  else .error (refused (.digits ((body.drop (start - 2)).take (count + 2))))

/-- The characters up to the next closing brace; none if there is no brace. -/
def upToBrace (cs : List Char) : List Char :=
  if '}' ∈ cs then cs.takeWhile (· ≠ '}') else []

/-- The value of the digits up to the closing brace, with their number. -/
def bracedAt (body : List Char) (start : Nat) : Except Halt (Nat × Nat) :=
  let digits := upToBrace (body.drop start)
  if (1 ≤ digits.length ∧ digits.length ≤ 6) ∧ ∀ c ∈ digits, c ∈ hexCharacters then do
    let value ← hexadecimal misuse digits
    pure (value, digits.length)
  else .error (refused (.braces ((body.drop (start - 3)).take 10)))

/-- The character with a code point; surrogates are refused, and numbers that are too
large. -/
def codePoint (value : Nat) : Except Halt Char :=
  if 0x10FFFF < value ∨ 0xD800 ≤ value ∧ value ≤ 0xDFFF then
    .error (refused (.codePoint value))
  else character misuse value

/-- The escape with the given code, the backslash of which is at a position: the
character, and how many characters it takes after the backslash. -/
def escapeAt (body : List Char) (i : Nat) (code : Char) : Except Halt (Char × Nat) :=
  match Escape.simple? code with
  | some d => pure (d, 1)
  | none =>
    if code = 'x' then do
      let value ← digitsAt misuse body (i + 2) 2
      return (← character misuse value, 3)
    else if code = 'u' ∧ body[i + 2]? = some '{' then do
      let (value, length) ← bracedAt misuse body (i + 3)
      return (← codePoint misuse value, length + 3)
    else if code = 'u' then do
      let value ← digitsAt misuse body (i + 2) 4
      return (← codePoint misuse value, 5)
    else throw (refused (.unknown code))

/-- The unit at a position, and how many characters it takes after the first. -/
def unitAt (body : List Char) (i : Nat) : Except Halt (Char × Nat) := do
  let c ← item misuse body i
  if c ≠ '\\' then pure (c, 0)
  else if body.length ≤ i + 1 then throw (refused .trailing)
  else escapeAt misuse body i (← item misuse body (i + 1))

/-- The text that stands from a position on. -/
def decodeFrom (body : List Char) (i : Nat) : Except Halt (List Char) :=
  if i < body.length then do
    let (c, used) ← unitAt misuse body i
    let cs ← decodeFrom body (i + 1 + used)
    pure (c :: cs)
  else pure []
termination_by body.length - i

/-- The text that the inside of a literal stands for. -/
def decode (body : List Char) : Except Halt (List Char) := decodeFrom misuse body 0

end Reading

variable {misuse : Halt} {body rest : List Char} {i : Nat}

/-- Renaming the errors of a sequence renames those of its parts. -/
theorem mapError_bind {ε δ α β : Type} (f : ε → δ) (x : Except ε α)
    (k : α → Except ε β) :
    (x >>= k).mapError f = x.mapError f >>= fun a => (k a).mapError f := by
  cases x <;> rfl

/-- So many digits at a position: what they spell is bounded by how many there are. -/
theorem digitsAt_eq {code : Char} (h : body.drop i = '\\' :: code :: rest) {count : Nat}
    (hcount : 0 < count) :
    digitsAt misuse body (i + 2) count = (Escape.hexDigits code count rest).mapError refused := by
  have hrest : body.drop (i + 2) = rest := drop_succ_of_drop (drop_succ_of_drop h)
  have hnear : (body.drop (i + 2 - 2)).take (count + 2) = '\\' :: code :: rest.take count := by
    rw [Nat.add_sub_cancel, h]
    rfl
  simp only [digitsAt, Escape.hexDigits, hrest, hnear]
  cases hvalue : Escape.hexNumber? (rest.take count) with
  | none =>
      have hother := Escape.not_mem_hexCharacters_of_hexNumber? hvalue
      rw [if_neg fun hall => hother hall.2]
      rfl
  | some value =>
      have hall := Escape.mem_hexCharacters_of_hexNumber? hvalue
      dsimp only
      by_cases hlength : (rest.take count).length = count
      · have hsome : rest.take count ≠ [] := by
          intro hnil
          rw [hnil] at hlength
          exact Nat.lt_irrefl _ (hlength ▸ hcount)
        rw [if_pos ⟨hlength, hall⟩, if_pos hlength, hexadecimal_of_value hsome hvalue]
        rfl
      · rw [if_neg fun hboth => hlength hboth.1, if_neg hlength]
        rfl

/-- A closing brace ends what stands before it. -/
theorem mem_brace_iff (cs : List Char) :
    '}' ∈ cs ↔ (cs.takeWhile (· ≠ '}')).length < cs.length := by
  induction cs with
  | nil => simp
  | cons c cs ih =>
      by_cases hc : c = '}'
      · simp [hc]
      · rw [List.takeWhile_cons_of_pos (by simpa using hc)]
        simp [ih, Ne.symm hc]

/-- Between braces the checked reader does what the plain one does on the rest. -/
theorem bracedAt_eq (h : body.drop i = '\\' :: 'u' :: '{' :: rest) :
    bracedAt misuse body (i + 3) = (Escape.braced rest).mapError refused := by
  have hrest : body.drop (i + 3) = rest :=
    drop_succ_of_drop (drop_succ_of_drop (drop_succ_of_drop h))
  have hnear : (body.drop (i + 3 - 3)).take 10 = '\\' :: 'u' :: '{' :: rest.take 7 := by
    rw [Nat.add_sub_cancel, h]
    rfl
  simp only [bracedAt, Escape.braced, hrest, hnear]
  by_cases hbrace : '}' ∈ rest
  · have hclosed := (mem_brace_iff rest).mp hbrace
    simp only [upToBrace, if_pos hbrace]
    generalize rest.takeWhile (· ≠ '}') = digits at hclosed ⊢
    cases hvalue : Escape.hexNumber? digits with
    | none =>
        have hother := Escape.not_mem_hexCharacters_of_hexNumber? hvalue
        rw [if_neg fun hall => hother hall.2]
        rfl
    | some value =>
        have hall := Escape.mem_hexCharacters_of_hexNumber? hvalue
        dsimp only
        by_cases hlength : 1 ≤ digits.length ∧ digits.length ≤ 6
        · have hsome : digits ≠ [] := List.ne_nil_of_length_pos hlength.1
          rw [if_pos ⟨hlength, hall⟩, if_pos ⟨hclosed, hlength⟩,
            hexadecimal_of_value hsome hvalue]
          rfl
        · rw [if_neg fun hboth => hlength hboth.1, if_neg fun hboth => hlength hboth.2]
          rfl
  · -- Without a closing brace the one reader has no digits, and the other one no end.
    have hopen := mt (mem_brace_iff rest).mpr hbrace
    have hnone : ¬((1 ≤ (upToBrace rest).length ∧ (upToBrace rest).length ≤ 6) ∧
        ∀ c ∈ upToBrace rest, c ∈ hexCharacters) := by
      rw [upToBrace, if_neg hbrace]
      exact fun hlength => Nat.not_succ_le_zero 0 hlength.1.1
    rw [if_neg hnone]
    cases Escape.hexNumber? (rest.takeWhile (· ≠ '}')) with
    | none => rfl
    | some value =>
        dsimp only
        rw [if_neg fun hclosed => hopen hclosed.1]
        rfl

/-- A code point that is one is a character. -/
theorem character_of_valid {value : Nat} (h : value.isValidChar) :
    character misuse value = (Escape.character value).mapError refused := by
  rw [character, Escape.character, if_pos h, if_pos h]
  rfl

/-- The checks of a code point are those of the plain reader. -/
theorem codePoint_eq (value : Nat) :
    codePoint misuse value = (Escape.character value).mapError refused := by
  by_cases hvalid : value.isValidChar
  · have hrange : ¬(0x10FFFF < value ∨ 0xD800 ≤ value ∧ value ≤ 0xDFFF) := by
      unfold Nat.isValidChar at hvalid
      omega
    rw [codePoint, if_neg hrange, character_of_valid hvalid]
  · have hrange : 0x10FFFF < value ∨ 0xD800 ≤ value ∧ value ≤ 0xDFFF := by
      unfold Nat.isValidChar at hvalid
      omega
    rw [codePoint, if_pos hrange, Escape.character, if_neg hvalid]
    rfl

/-- What two digits spell is a code point. -/
theorem valid_of_hexDigits {code : Char} {value : Nat}
    (h : Escape.hexDigits code 2 rest = .ok value) : value.isValidChar := by
  obtain ⟨digits, more, -, hlength, hvalue⟩ := Escape.hexDigits_eq_ok_iff.mp h
  have hbound := hvalue.lt
  rw [hlength] at hbound
  exact Or.inl (Nat.lt_trans hbound (by decide))

/-- **One escape.**  Each kind of escape is checked for what its operations need. -/
theorem escapeAt_eq {code : Char} (h : body.drop i = '\\' :: code :: rest) :
    escapeAt misuse body i code = (Escape.unit '\\' (code :: rest)).mapError refused := by
  have hhead : body[i + 2]? = rest.head? := by
    rw [← List.head?_drop, drop_succ_of_drop (drop_succ_of_drop h)]
  unfold escapeAt
  cases hsimple : Escape.simple? code with
  | some d =>
      rw [Escape.unit_simple hsimple]
      rfl
  | none =>
      dsimp only
      by_cases hx : code = 'x'
      · subst hx
        have hunit : Escape.unit '\\' ('x' :: rest) = (do
            let value ← Escape.hexDigits 'x' 2 rest
            return (← Escape.character value, 3)) := rfl
        rw [if_pos rfl, hunit, digitsAt_eq h Nat.two_pos]
        cases hdigits : Escape.hexDigits 'x' 2 rest with
        | error cause => rfl
        | ok value =>
            -- Two digits always spell a code point, so it is not checked.
            show character misuse value >>= _ = (Escape.character value >>= _).mapError refused
            rw [character_of_valid (valid_of_hexDigits hdigits), mapError_bind]
            rfl
      · rw [if_neg hx]
        by_cases hu : code = 'u'
        · subst hu
          by_cases hbrace : rest.head? = some '{'
          · obtain ⟨tail, rfl⟩ := List.head?_eq_some_iff.mp hbrace
            have hunit : Escape.unit '\\' ('u' :: '{' :: tail) = (do
                let (value, length) ← Escape.braced tail
                return (← Escape.character value, length + 3)) := rfl
            rw [if_pos ⟨rfl, hhead⟩, hunit, bracedAt_eq h, mapError_bind]
            refine bind_congr fun found => ?_
            rw [codePoint_eq, mapError_bind]
            rfl
          · rw [if_neg fun hboth => hbrace (hhead ▸ hboth.2), if_pos rfl,
              Escape.unit_four hbrace, digitsAt_eq h (by decide), mapError_bind]
            refine bind_congr fun value => ?_
            rw [codePoint_eq, mapError_bind]
            rfl
        · rw [if_neg fun hboth => hu hboth.1, if_neg hu, Escape.unit_unknown hsimple hx hu]
          rfl

/-- **One unit**, whatever comes of a misuse. -/
theorem unitAt_eq {c : Char} (h : body.drop i = c :: rest) :
    unitAt misuse body i = (Escape.unit c rest).mapError refused := by
  unfold unitAt
  rw [item_of_drop h]
  show (if c ≠ '\\' then _ else _) = _
  by_cases hc : c = '\\'
  · subst hc
    have hlength := congrArg List.length h
    rw [List.length_drop, List.length_cons] at hlength
    rw [if_neg fun hne => hne rfl]
    cases rest with
    | nil =>
        rw [if_pos (by rw [List.length_nil] at hlength; omega)]
        rfl
    | cons code tail =>
        rw [if_neg (by rw [List.length_cons] at hlength; omega),
          item_of_drop (drop_succ_of_drop h)]
        exact escapeAt_eq h
  · rw [if_pos hc]
    unfold Escape.unit
    rw [if_neg hc]
    rfl

/-- From any position on, what is left of the text is read. -/
theorem decodeFrom_eq (body : List Char) (i : Nat) :
    decodeFrom misuse body i = (Escape.decode (body.drop i)).mapError refused := by
  induction hleft : body.length - i using Nat.strongRecOn generalizing i with
  | ind left ih =>
      rw [decodeFrom]
      by_cases hi : i < body.length
      · have hdrop := List.drop_eq_getElem_cons hi
        rw [if_pos hi, unitAt_eq hdrop, hdrop, Escape.decode]
        cases hunit : Escape.unit body[i] (body.drop (i + 1)) with
        | error cause => rfl
        | ok found =>
            obtain ⟨c, used⟩ := found
            have hrest := ih (body.length - (i + 1 + used)) (by omega) (i + 1 + used) rfl
            show decodeFrom misuse body (i + 1 + used) >>= _ = _
            rw [hrest, ← List.drop_drop]
            dsimp only
            cases Escape.decode ((body.drop (i + 1)).drop used) <;> rfl
      · rw [if_neg hi, List.drop_eq_nil_of_le (Nat.le_of_not_lt hi), Escape.decode]
        rfl

/-- **Reading escapes needs no operation outside of its domain.** -/
theorem decode_eq (body : List Char) :
    decode misuse body = (Escape.decode body).mapError refused :=
  decodeFrom_eq body 0

end Checked

namespace Escape

/-- **Escapes are read unit by unit.**  A text can be read just when it comes apart into
units, which it does in one way at most, and then it stands for their characters.
Otherwise there is an error of the source, and no operation is used outside of its
domain.  And behind a text that can be read, any other text reads as it does alone: what
it stands for comes behind what the first one stands for, and if it cannot be read, its
error is the error of both. -/
theorem decode_unit_by_unit (body : List Char) :
    (∀ text, decode body = .ok text ↔
      ∃ units, Splits body units ∧ text = units.map (·.2)) ∧
      (∀ units others, Splits body units → Splits body others → units = others) ∧
      ((∀ units, ¬Splits body units) → ∃ cause, decode body = .error cause ∧
        ∀ misuse, Checked.decode misuse body = .error (.parse (.escape cause))) ∧
      ∀ text, decode body = .ok text →
        ∀ rest, decode (body ++ rest) = (decode rest).map (text ++ ·) := by
  refine ⟨fun text => decode_eq_ok_iff, fun units others h hothers => h.unique hothers, ?_, ?_⟩
  · intro hnone
    rcases decode_cases body with ⟨units, hunits, -⟩ | ⟨_, _, _, _, cause, -, -, -, hdecode⟩
    · exact absurd hunits (hnone units)
    · refine ⟨cause, hdecode, fun misuse => ?_⟩
      rw [Checked.decode_eq, hdecode]
      rfl
  · intro text htext rest
    obtain ⟨units, hunits, rfl⟩ := decode_eq_ok_iff.mp htext
    exact hunits.decode_append rest

/-- A code point in braces, one of two digits and the code of a line feed are three units,
which are read also in front of an escape that is cut short; and a surrogate is no unit, nor
is a backslash with a character that is no code. -/
theorem braced_then_two_digits_then_cut_short :
    let body := ['\\', 'u', '{', '4', '1', '}', '\\', 'x', '4', 'b', '\\', 'n']
    let rest := ['c', '\\', 'u', '0', '0']
    let surrogate := ['\\', 'u', 'd', '8', '0', '0']
    let unknown := ['\\', 'v']
    decode body = .ok ['A', 'K', '\n'] ∧
      decode (body ++ rest) = .error (.digits ['\\', 'u', '0', '0']) ∧
      (∀ others, Splits body others → others.length = 3) ∧
      (∃ cause, ∀ misuse, Checked.decode misuse surrogate = .error (.parse (.escape cause))) ∧
      ∃ cause, ∀ misuse, Checked.decode misuse unknown = .error (.parse (.escape cause)) := by
  intro body rest surrogate unknown
  have hunits : Splits body [(['\\', 'u', '{', '4', '1', '}'], 'A'),
      (['\\', 'x', '4', 'b'], 'K'), (['\\', 'n'], '\n')] := by
    have hfour : SpellsNumber ['4'] 0x4 := .snoc (c := '4') (v := 4) .nil (by decide)
    have hdigits : SpellsNumber ['4', '1'] 0x41 := .snoc (c := '1') (v := 1) hfour (by decide)
    have hletter : SpellsNumber ['4', 'b'] 0x4b := .snoc (c := 'b') (v := 11) hfour (by decide)
    have hvalid : ¬IsSurrogate 0x41 := fun h => absurd h.1 (by decide)
    have hone := Spells.braced (by decide) (by decide) hdigits (by decide) hvalid
    have htwo : Spells ['\\', 'x', '4', 'b'] (Char.ofNat 0x4b) := .two rfl hletter
    have hthree : Spells ['\\', 'n'] '\n' := .simple (by decide)
    exact ((splits_nil.cons hthree).cons htwo).cons hone
  have hread := decode_unit_by_unit body
  have htext : decode body = .ok ['A', 'K', '\n'] := (hread.1 _).mpr ⟨_, hunits, rfl⟩
  -- What cannot be decoded has no units, and that is an error of the source.
  have hrefused : ∀ text cause, decode text = .error cause →
      ∀ units, ¬Splits text units := by
    intro text cause hfails units h
    cases hfails.symm.trans (decode_eq_ok_iff.mpr ⟨units, h, rfl⟩)
  refine ⟨htext, ?_, ?_, ?_, ?_⟩
  · have hrest : decode rest = .error (.digits ['\\', 'u', '0', '0']) := by
      simp only [rest]
      with_unfolding_all rfl
    rw [hread.2.2.2 _ htext rest, hrest]
    rfl
  · intro others hothers
    rw [hread.2.1 _ _ hothers hunits]
    rfl
  · have hfails : decode surrogate = .error (.codePoint 0xD800) := by
      simp only [surrogate]
      with_unfolding_all rfl
    obtain ⟨cause, -, hcause⟩ := (decode_unit_by_unit surrogate).2.2.1 (hrefused _ _ hfails)
    exact ⟨cause, hcause⟩
  · have hfails : decode unknown = .error (.unknown 'v') := by
      simp only [unknown]
      with_unfolding_all rfl
    obtain ⟨cause, -, hcause⟩ := (decode_unit_by_unit unknown).2.2.1 (hrefused _ _ hfails)
    exact ⟨cause, hcause⟩

end Escape

end DynLisp
