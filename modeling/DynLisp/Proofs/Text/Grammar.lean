import DynLisp.Proofs.Text.Hexadecimal

/-!
# The grammar of escapes

The inside of a string literal is made of **units**, each of which stands for one
character.  A unit is a character other than the backslash, or a backslash with one of
the simple codes, or one of three ways to spell a code point in hexadecimal digits.
`Escape.Spells` says this of the characters of a unit and the character it stands for,
with the ten codes listed in `Escape.simpleCodes`.

* `Escape.simple?_eq_some_iff` — the codes in the list are the ones that are read;
* `Escape.Spells.unit_append`, `Escape.exists_spells_of_unit` — reading one unit takes
  exactly a unit off the front of the text, whatever follows it;
* `Escape.Spells.unique` — of what stands in front of a text there is one reading;
* `Escape.Splits` — a text comes apart into units; `Escape.Splits.unique`, in one way
  only;
* `Escape.decode_cases` — a text comes apart into units and stands for their characters,
  or it does so up to a point from where no unit can be read, and for that reason it
  cannot be decoded;
* `Escape.Splits.decode_append` — what comes apart into units is decoded, and then the
  text behind it.
-/

namespace DynLisp

namespace Escape

variable {c d code : Char} {n count : Nat}
  {digits tail more rest text body : List Char} {units : List (List Char × Char)}

/-- The numbers in the range of code points that no character has. -/
def IsSurrogate (n : Nat) : Prop := 0xD800 ≤ n ∧ n ≤ 0xDFFF

/-- The simple codes, and the characters that they stand for. -/
def simpleCodes : List (Char × Char) :=
  [('n', '\n'), ('t', '\t'), ('r', '\r'), ('0', '\x00'), ('b', '\x08'), ('f', '\x0c'),
    ('\\', '\\'), ('"', '"'), ('\x27', '\x27'), ('/', '/')]

/-- The characters of a unit, and the character that it stands for. -/
inductive Spells : List Char → Char → Prop
  | plain {c : Char} (hplain : c ≠ '\\') : Spells [c] c
  | simple {code c : Char} (hcode : (code, c) ∈ simpleCodes) : Spells ['\\', code] c
  | two {digits : List Char} {n : Nat} (hlength : digits.length = 2)
      (hvalue : SpellsNumber digits n) :
      Spells ('\\' :: 'x' :: digits) (Char.ofNat n)
  | four {digits : List Char} {n : Nat} (hlength : digits.length = 4)
      (hvalue : SpellsNumber digits n) (hsurrogate : ¬IsSurrogate n) :
      Spells ('\\' :: 'u' :: digits) (Char.ofNat n)
  | braced {digits : List Char} {n : Nat} (hsome : 1 ≤ digits.length)
      (hfew : digits.length ≤ 6) (hvalue : SpellsNumber digits n)
      (hbound : n ≤ 0x10FFFF) (hsurrogate : ¬IsSurrogate n) :
      Spells ('\\' :: 'u' :: '{' :: (digits ++ ['}'])) (Char.ofNat n)

/-- **The simple codes** are read as what they stand for, and nothing else is. -/
theorem simple?_eq_some_iff : simple? code = some c ↔ (code, c) ∈ simpleCodes := by
  constructor
  · intro h
    unfold simple? at h
    split at h
    all_goals cases h
    all_goals decide
  · intro h
    have hall : ∀ pair ∈ simpleCodes, simple? pair.1 = some pair.2 := by decide
    exact hall _ h

/-! ### Code points -/

/-- A number is the code point of a character if it is neither too large nor a
surrogate. -/
theorem character_eq_ok_iff :
    character n = .ok c ↔ (n ≤ 0x10FFFF ∧ ¬IsSurrogate n) ∧ c = Char.ofNat n := by
  have hvalid : n.isValidChar ↔ n ≤ 0x10FFFF ∧ ¬IsSurrogate n := by
    unfold Nat.isValidChar IsSurrogate
    omega
  rw [character, ← hvalid]
  by_cases h : n.isValidChar
  · rw [if_pos h]
    simp [h, eq_comm]
  · rw [if_neg h]
    simp [h]

/-- So many digits are read if they are there. -/
theorem hexDigits_eq_ok_iff :
    hexDigits code count rest = .ok n ↔
      ∃ digits more, rest = digits ++ more ∧ digits.length = count ∧
        SpellsNumber digits n := by
  constructor
  · intro h
    unfold hexDigits at h
    dsimp only at h
    split at h
    · next value hvalue =>
      split at h
      · next hlength =>
        cases h
        exact ⟨rest.take count, rest.drop count, (List.take_append_drop count rest).symm,
          hlength, hexNumber?_eq_some_iff.mp hvalue⟩
      · cases h
    · cases h
  · rintro ⟨digits, more, rfl, rfl, hvalue⟩
    simp only [hexDigits, List.take_left, hexNumber?_eq_some_iff.mpr hvalue, if_true]

/-- Digits do not close the braces around them. -/
theorem SpellsNumber.ne_brace (h : SpellsNumber digits n) : ∀ c ∈ digits, c ≠ '}' := by
  intro c hmem hbrace
  have hdigit := h.mem_hexCharacters c hmem
  rw [hbrace] at hdigit
  exact absurd hdigit (by decide +kernel)

/-- What ends before the text does is ended by a brace. -/
theorem exists_brace (h : (rest.takeWhile (· ≠ '}')).length < rest.length) :
    ∃ more, rest = rest.takeWhile (· ≠ '}') ++ '}' :: more := by
  induction rest with
  | nil => exact absurd h (Nat.lt_irrefl 0)
  | cons c rest ih =>
      by_cases hc : c = '}'
      · subst hc
        exact ⟨rest, by simp⟩
      · rw [List.takeWhile_cons_of_pos (by simpa using hc)] at h ⊢
        obtain ⟨more, hmore⟩ := ih (Nat.lt_of_succ_lt_succ h)
        exact ⟨more, congrArg (c :: ·) hmore⟩

/-- Digits between braces are read if there are one to six of them, and a closing
brace. -/
theorem braced_eq_ok_iff {length : Nat} :
    braced rest = .ok (n, length) ↔
      ∃ digits more, rest = digits ++ '}' :: more ∧ digits.length = length ∧
        (1 ≤ length ∧ length ≤ 6) ∧ SpellsNumber digits n := by
  constructor
  · intro h
    unfold braced at h
    dsimp only at h
    split at h
    · next value hvalue =>
      split at h
      · next hclosed =>
        cases h
        obtain ⟨more, hmore⟩ := exists_brace hclosed.1
        exact ⟨_, more, hmore, rfl, hclosed.2, hexNumber?_eq_some_iff.mp hvalue⟩
      · cases h
    · cases h
  · rintro ⟨digits, more, rfl, rfl, hfew, hvalue⟩
    have hspan : (digits ++ '}' :: more).takeWhile (· ≠ '}') = digits := by
      rw [List.takeWhile_append_of_pos, List.takeWhile_cons_of_neg (by decide),
        List.append_nil]
      intro d hd
      exact decide_eq_true (hvalue.ne_brace d hd)
    have hclosed : digits.length < (digits ++ '}' :: more).length := by
      rw [List.length_append, List.length_cons]
      omega
    simp only [braced, hspan, hexNumber?_eq_some_iff.mpr hvalue]
    rw [if_pos ⟨hclosed, hfew⟩]

/-! ### One unit -/

/-- A simple escape is read, whatever follows it. -/
theorem unit_simple (h : simple? code = some c) (rest : List Char) :
    unit '\\' (code :: rest) = .ok (c, 1) := by
  simp only [unit, if_pos]
  split
  · next heq => cases heq
  · next heq =>
    rw [(List.cons.inj heq).1] at h
    cases h
  · next heq =>
    rw [(List.cons.inj heq).1] at h
    cases h
  · next heq =>
    rw [(List.cons.inj heq).1] at h
    cases h
  · next heq =>
    rw [← (List.cons.inj heq).1, h]

/-- What is no simple code and starts no code point is no escape. -/
theorem unit_unknown (h : simple? code = none) (hx : code ≠ 'x') (hu : code ≠ 'u')
    (tail : List Char) : unit '\\' (code :: tail) = .error (.unknown code) := by
  simp only [unit, if_pos]
  split
  · next heq => cases heq
  · next heq => exact absurd (List.cons.inj heq).1 hx
  · next heq => exact absurd (List.cons.inj heq).1 hu
  · next heq => exact absurd (List.cons.inj heq).1 hu
  · next heq => rw [← (List.cons.inj heq).1, h]

/-- Four digits follow if no brace does. -/
theorem unit_four (h : tail.head? ≠ some '{') :
    unit '\\' ('u' :: tail) = (do
      let value ← hexDigits 'u' 4 tail
      return (← character value, 5)) := by
  cases tail with
  | nil => rfl
  | cons c tail =>
      have hc : c ≠ '{' := fun heq => h (congrArg some heq)
      simp only [unit, if_pos]
      split
      · next heq => cases heq
      · next heq => cases heq
      · next heq => exact absurd (List.cons.inj (List.cons.inj heq).2).1 hc
      · next heq => cases heq; rfl
      · next hother heq => exact (hother (List.cons.inj heq).1.symm).elim

/-- Digits do not open braces. -/
theorem SpellsNumber.head?_ne_brace (h : SpellsNumber digits n) (hsome : 0 < digits.length)
    (more : List Char) : (digits ++ more).head? ≠ some '{' := by
  obtain ⟨c, cs, rfl⟩ := List.exists_cons_of_length_pos hsome
  intro hbrace
  have hdigit := h.mem_hexCharacters c List.mem_cons_self
  rw [Option.some.inj hbrace] at hdigit
  exact absurd hdigit (by decide +kernel)

theorem bind_eq_ok_iff {ε α β : Type} {x : Except ε α} {k : α → Except ε β} {b : β} :
    (x >>= k) = .ok b ↔ ∃ a, x = .ok a ∧ k a = .ok b := by
  cases x with
  | error e => exact ⟨nofun, nofun⟩
  | ok a => exact ⟨fun h => ⟨a, rfl, h⟩, fun ⟨_, hx, hk⟩ => Except.ok.inj hx ▸ hk⟩

/-- A code point is turned into its character. -/
theorem return_character_eq_ok_iff {length used : Nat} :
    (do return (← character n, length) : Except EscapeError (Char × Nat)) = .ok (d, used) ↔
      (n ≤ 0x10FFFF ∧ ¬IsSurrogate n) ∧ d = Char.ofNat n ∧ used = length := by
  rw [bind_eq_ok_iff]
  constructor
  · rintro ⟨c, hcharacter, hpair⟩
    cases hpair
    exact ⟨(character_eq_ok_iff.mp hcharacter).1, (character_eq_ok_iff.mp hcharacter).2, rfl⟩
  · rintro ⟨hvalid, rfl, rfl⟩
    exact ⟨_, character_eq_ok_iff.mpr ⟨hvalid, rfl⟩, rfl⟩

/-- So many digits and the character with the code point that they spell. -/
theorem bind_hexDigits_eq_ok_iff {length used : Nat} :
    (do
      let value ← hexDigits code count rest
      return (← character value, length)) = Except.ok (d, used) ↔
      ∃ n, (∃ digits more, rest = digits ++ more ∧ digits.length = count ∧
          SpellsNumber digits n) ∧
        (n ≤ 0x10FFFF ∧ ¬IsSurrogate n) ∧ d = Char.ofNat n ∧ used = length := by
  rw [bind_eq_ok_iff]
  refine exists_congr fun n => and_congr hexDigits_eq_ok_iff ?_
  exact return_character_eq_ok_iff

/-- Digits between braces and the character with the code point that they spell. -/
theorem unit_braces_eq_ok_iff {used : Nat} :
    unit '\\' ('u' :: '{' :: rest) = .ok (d, used) ↔
      ∃ n length, (∃ digits more, rest = digits ++ '}' :: more ∧ digits.length = length ∧
          (1 ≤ length ∧ length ≤ 6) ∧ SpellsNumber digits n) ∧
        (n ≤ 0x10FFFF ∧ ¬IsSurrogate n) ∧ d = Char.ofNat n ∧ used = length + 3 := by
  have hunit : unit '\\' ('u' :: '{' :: rest) = (do
      let found ← braced rest
      return (← character found.1, found.2 + 3)) := rfl
  rw [hunit, bind_eq_ok_iff, Prod.exists]
  refine exists_congr fun n => exists_congr fun length => and_congr braced_eq_ok_iff ?_
  exact return_character_eq_ok_iff

/-- **A unit is read**, whatever follows it: the character that it stands for, and how
many characters belong to it. -/
theorem Spells.unit_append (h : Spells body d) :
    ∃ c tail, body = c :: tail ∧ ∀ rest, unit c (tail ++ rest) = .ok (d, tail.length) := by
  cases h with
  | plain hplain =>
      refine ⟨d, [], rfl, fun rest => ?_⟩
      rw [unit.eq_def, if_neg hplain]
      rfl
  | @simple code _ hcode =>
      exact ⟨'\\', [code], rfl, unit_simple (simple?_eq_some_iff.mpr hcode)⟩
  | @two digits n hlength hvalue =>
      refine ⟨'\\', 'x' :: digits, rfl, fun rest => ?_⟩
      have hbound := hvalue.lt
      rw [hlength] at hbound
      have hvalid : n ≤ 0x10FFFF ∧ ¬IsSurrogate n := by
        unfold IsSurrogate
        omega
      rw [List.length_cons, hlength]
      exact bind_hexDigits_eq_ok_iff.mpr
        ⟨n, ⟨digits, rest, rfl, hlength, hvalue⟩, hvalid, rfl, rfl⟩
  | @four digits n hlength hvalue hsurrogate =>
      refine ⟨'\\', 'u' :: digits, rfl, fun rest => ?_⟩
      have hbound := hvalue.lt
      rw [hlength] at hbound
      have hvalid : n ≤ 0x10FFFF ∧ ¬IsSurrogate n := ⟨by omega, hsurrogate⟩
      have hsome : 0 < digits.length := by omega
      rw [List.length_cons, hlength, List.cons_append, unit_four (hvalue.head?_ne_brace hsome rest)]
      exact bind_hexDigits_eq_ok_iff.mpr
        ⟨n, ⟨digits, rest, rfl, hlength, hvalue⟩, hvalid, rfl, rfl⟩
  | @braced digits n hsome hfew hvalue hbound hsurrogate =>
      refine ⟨'\\', 'u' :: '{' :: (digits ++ ['}']), rfl, fun rest => ?_⟩
      have htext : digits ++ ['}'] ++ rest = digits ++ '}' :: rest := by simp
      apply unit_braces_eq_ok_iff.mpr
      refine ⟨n, digits.length, ⟨digits, rest, htext, rfl, ⟨hsome, hfew⟩, hvalue⟩,
        ⟨hbound, hsurrogate⟩, rfl, ?_⟩
      simp

/-- **Nothing else is read**: what is read is a unit at the front of the text. -/
theorem exists_spells_of_unit {used : Nat} (h : unit c rest = .ok (d, used)) :
    ∃ tail more, rest = tail ++ more ∧ tail.length = used ∧ Spells (c :: tail) d := by
  by_cases hc : c = '\\'
  · subst hc
    cases rest with
    | nil => cases h
    | cons code rest =>
        cases hcode : simple? code with
        | some e =>
            rw [unit_simple hcode] at h
            cases h
            exact ⟨[code], rest, rfl, rfl, .simple (simple?_eq_some_iff.mp hcode)⟩
        | none =>
            by_cases hx : code = 'x'
            · subst hx
              obtain ⟨n, ⟨digits, more, rfl, hlength, hvalue⟩, -, rfl, rfl⟩ :=
                bind_hexDigits_eq_ok_iff.mp h
              exact ⟨'x' :: digits, more, rfl, congrArg Nat.succ hlength, .two hlength hvalue⟩
            by_cases hu : code = 'u'
            · subst hu
              by_cases hbrace : rest.head? = some '{'
              · obtain ⟨inner, rfl⟩ := List.head?_eq_some_iff.mp hbrace
                obtain ⟨n, _, ⟨digits, more, rfl, rfl, ⟨hsome, hfew⟩, hvalue⟩,
                  ⟨hbound, hsurrogate⟩, rfl, rfl⟩ := unit_braces_eq_ok_iff.mp h
                exact ⟨'u' :: '{' :: (digits ++ ['}']), more, by simp, by simp,
                  .braced hsome hfew hvalue hbound hsurrogate⟩
              · rw [unit_four hbrace] at h
                obtain ⟨n, hfigures, ⟨-, hsurrogate⟩, rfl, rfl⟩ :=
                  bind_hexDigits_eq_ok_iff.mp h
                obtain ⟨digits, more, rfl, hlength, hvalue⟩ := hfigures
                exact ⟨'u' :: digits, more, rfl, congrArg Nat.succ hlength,
                  .four hlength hvalue hsurrogate⟩
            · rw [unit_unknown hcode hx hu] at h
              cases h
  · rw [unit.eq_def, if_neg hc] at h
    cases h
    exact ⟨[], rest, rfl, rfl, .plain hc⟩

/-- **One reading.**  Of the units in front of a text there is only one. -/
theorem Spells.unique {other : List Char} {e : Char} (h : Spells body d) (hother : Spells other e)
    (heq : body ++ rest = other ++ more) : (body, d) = (other, e) ∧ rest = more := by
  obtain ⟨c, tail, rfl, hunit⟩ := h.unit_append
  obtain ⟨c', tail', rfl, hunit'⟩ := hother.unit_append
  obtain ⟨rfl, htext⟩ := List.cons.inj heq
  have hsame := (hunit rest).symm.trans ((congrArg (unit c) htext).trans (hunit' more))
  obtain ⟨rfl, hlength⟩ := Prod.mk.inj (Except.ok.inj hsame)
  obtain ⟨rfl, rfl⟩ := List.append_inj htext hlength
  exact ⟨rfl, rfl⟩

/-! ### A text of units -/

/-- The units that a text comes apart into, with the characters that they stand for. -/
structure Splits (body : List Char) (units : List (List Char × Char)) : Prop where
  spelled : ∀ unit ∈ units, Spells unit.1 unit.2
  whole : body = units.flatMap (·.1)

theorem splits_nil : Splits [] [] := ⟨nofun, rfl⟩

theorem Splits.cons (h : Spells body d) (hrest : Splits rest units) :
    Splits (body ++ rest) ((body, d) :: units) where
  spelled := List.forall_mem_cons.mpr ⟨h, hrest.spelled⟩
  whole := by rw [List.flatMap_cons, ← hrest.whole]

/-- One unit is decoded, and then the text behind it. -/
theorem Spells.decode_append (h : Spells body d) (rest : List Char) :
    decode (body ++ rest) = (decode rest).map (d :: ·) := by
  obtain ⟨c, tail, rfl, hunit⟩ := h.unit_append
  rw [List.cons_append, decode, hunit]
  simp only [List.drop_left']
  cases decode rest <;> rfl

/-- **Units are decoded**, and then the text behind them. -/
theorem Splits.decode_append (h : Splits body units) (rest : List Char) :
    decode (body ++ rest) = (decode rest).map (units.map (·.2) ++ ·) := by
  obtain ⟨hspelled, rfl⟩ := h
  induction units with
  | nil =>
      show decode rest = _
      cases decode rest <;> rfl
  | cons unit units ih =>
      obtain ⟨hunit, hunits⟩ := List.forall_mem_cons.mp hspelled
      rw [List.flatMap_cons, List.append_assoc, hunit.decode_append, ih hunits]
      cases decode rest <;> rfl

/-- **One way to come apart.**  By induction on the units, since of each there is one
reading. -/
theorem Splits.unique {others : List (List Char × Char)} (h : Splits body units)
    (hothers : Splits body others) : units = others := by
  obtain ⟨hspelled, rfl⟩ := h
  obtain ⟨hspelled', hsame⟩ := hothers
  induction units generalizing others with
  | nil =>
      cases others with
      | nil => rfl
      | cons other others =>
          obtain ⟨c, tail, htext, -⟩ := (hspelled' other List.mem_cons_self).unit_append
          rw [List.flatMap_cons, htext] at hsame
          cases hsame
  | cons unit units ih =>
      obtain ⟨hunit, hunits⟩ := List.forall_mem_cons.mp hspelled
      cases others with
      | nil =>
          obtain ⟨c, tail, htext, -⟩ := hunit.unit_append
          rw [List.flatMap_cons, htext] at hsame
          cases hsame
      | cons other others =>
          obtain ⟨hother, hothers⟩ := List.forall_mem_cons.mp hspelled'
          rw [List.flatMap_cons, List.flatMap_cons] at hsame
          obtain ⟨hfirst, hrest⟩ := hunit.unique hother hsame
          rw [ih hunits hothers hrest]
          exact congrArg (· :: others) hfirst

/-- **What comes of decoding.**  The text comes apart into units and stands for their
characters, or it comes apart up to a point where no unit can be read, and what is wrong
there is the error.  By induction on the length of the text, as each unit takes some. -/
theorem decode_cases (body : List Char) :
    (∃ units, Splits body units ∧ decode body = .ok (units.map (·.2))) ∨
      ∃ front units c tail cause, body = front ++ c :: tail ∧ Splits front units ∧
        unit c tail = .error cause ∧ decode body = .error cause := by
  induction hlength : body.length using Nat.strongRecOn generalizing body with
  | ind length ih =>
      subst hlength
      cases body with
      | nil => exact Or.inl ⟨[], splits_nil, by rw [decode]; rfl⟩
      | cons c rest =>
          cases hunit : unit c rest with
          | error cause =>
              have hdecode : decode (c :: rest) = .error cause := by
                rw [decode, hunit]
              exact Or.inr ⟨[], [], c, rest, cause, rfl, splits_nil, hunit, hdecode⟩
          | ok found =>
              obtain ⟨d, used⟩ := found
              obtain ⟨tail, more, rfl, -, hspells⟩ := exists_spells_of_unit hunit
              have hdecode := hspells.decode_append more
              have hless : more.length < (c :: (tail ++ more)).length := by
                rw [List.length_cons, List.length_append]
                omega
              rcases ih more.length hless more rfl with ⟨units, hunits, hmore⟩ |
                ⟨front, units, e, last, cause, rfl, hfront, hlast, hmore⟩
              · refine Or.inl ⟨(c :: tail, d) :: units, hunits.cons hspells, ?_⟩
                rw [← List.cons_append, hdecode, hmore]
                rfl
              · refine Or.inr ⟨c :: tail ++ front, (c :: tail, d) :: units, e, last, cause, ?_,
                  hfront.cons hspells, hlast, ?_⟩
                · rw [List.append_assoc, List.cons_append]
                · rw [← List.cons_append, hdecode, hmore]
                  rfl

/-- **The grammar of escapes.**  A text is decoded just when it comes apart into units,
and then it stands for their characters. -/
theorem decode_eq_ok_iff {text : List Char} :
    decode body = .ok text ↔ ∃ units, Splits body units ∧ text = units.map (·.2) := by
  constructor
  · intro h
    obtain ⟨units, hunits, hdecode⟩ | ⟨_, _, _, _, _, -, -, -, hdecode⟩ :=
      decode_cases body
    · exact ⟨units, hunits, Except.ok.inj (h.symm.trans hdecode)⟩
    · cases h.symm.trans hdecode
  · rintro ⟨units, hunits, rfl⟩
    have happend := hunits.decode_append []
    rw [List.append_nil] at happend
    rw [happend, decode]
    exact congrArg Except.ok (List.append_nil _)

end Escape

end DynLisp
