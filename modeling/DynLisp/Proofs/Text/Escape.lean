import DynLisp.Proofs.Text.Grammar

/-!
# Escapes read back

Whatever character is written between double quotes, what is written is a unit that
stands for it (`Escape.spells_encodeChar`, by the three ways of writing one in
`Escape.encodeChar_cases`).  So a text with its escapes comes apart into the units of its
characters (`Escape.splits_encode`), and can be read back in front of any other text
(`Escape.decode_encode_append`), and in particular on its own (`Escape.decode_encode`).
-/

namespace DynLisp

namespace Escape

/-- The hexadecimal digits of an ASCII code point are read back. -/
theorem spellsNumber_toDigits {n : Nat} (h : n < 128) : SpellsNumber (Nat.toDigits 16 n) n := by
  have hall : ∀ n < 128, hexNumber? (Nat.toDigits 16 n) = some n := by decide
  exact hexNumber?_eq_some_iff.mp (hall n h)

/-- The hexadecimal digits of a control character are one to six. -/
theorem length_toDigits {n : Nat} (h : n < 128) :
    1 ≤ (Nat.toDigits 16 n).length ∧ (Nat.toDigits 16 n).length ≤ 6 := by
  have hall : ∀ n < 128,
      1 ≤ (Nat.toDigits 16 n).length ∧ (Nat.toDigits 16 n).length ≤ 6 := by decide
  exact hall n h

/-- **How a character is written**: by a simple escape, by its code point, or as
it stands. -/
theorem encodeChar_cases (c : Char) :
    (∃ code, encodeChar c = ['\\', code] ∧ (code, c) ∈ simpleCodes) ∨
    (encodeChar c = '\\' :: 'u' :: '{' :: (Nat.toDigits 16 c.toNat ++ ['}']) ∧
      c.toNat < 128) ∨
    (encodeChar c = [c] ∧ c ≠ '\\' ∧ c ≠ '"' ∧
      ¬(c.toNat < 0x20 ∨ c.toNat = 0x7F)) := by
  -- The eight characters that are written by a code come first.
  by_cases hbackslash : c = '\\'
  · subst hbackslash
    exact Or.inl ⟨'\\', rfl, by decide⟩
  by_cases hquote : c = '"'
  · subst hquote
    exact Or.inl ⟨'"', rfl, by decide⟩
  by_cases hfeed : c = '\n'
  · subst hfeed
    exact Or.inl ⟨'n', rfl, by decide⟩
  by_cases htab : c = '\t'
  · subst htab
    exact Or.inl ⟨'t', rfl, by decide⟩
  by_cases hreturn : c = '\r'
  · subst hreturn
    exact Or.inl ⟨'r', rfl, by decide⟩
  by_cases hnull : c = '\x00'
  · subst hnull
    exact Or.inl ⟨'0', rfl, by decide⟩
  by_cases hback : c = '\x08'
  · subst hback
    exact Or.inl ⟨'b', rfl, by decide⟩
  by_cases hform : c = '\x0c'
  · subst hform
    exact Or.inl ⟨'f', rfl, by decide⟩
  simp only [encodeChar, if_neg hbackslash, if_neg hquote, if_neg hfeed, if_neg htab,
    if_neg hreturn, if_neg hnull, if_neg hback, if_neg hform]
  by_cases hcontrol : c.toNat < 0x20 ∨ c.toNat = 0x7F
  · have hascii : c.toNat < 128 := by omega
    rw [if_pos hcontrol]
    exact Or.inr (Or.inl ⟨rfl, hascii⟩)
  · rw [if_neg hcontrol]
    exact Or.inr (Or.inr ⟨rfl, hbackslash, hquote, hcontrol⟩)

/-- **One character** is written as a unit that stands for it. -/
theorem spells_encodeChar (c : Char) : Spells (encodeChar c) c := by
  rcases encodeChar_cases c with ⟨code, hchar, hcode⟩ | ⟨hchar, hascii⟩ |
    ⟨hchar, hbackslash, -⟩
  · rw [hchar]
    exact .simple hcode
  · have hlength := length_toDigits hascii
    have hbound : c.toNat ≤ 0x10FFFF ∧ ¬IsSurrogate c.toNat := by
      unfold IsSurrogate
      omega
    have hspells : Spells _ (Char.ofNat c.toNat) :=
      .braced hlength.1 hlength.2 (spellsNumber_toDigits hascii) hbound.1 hbound.2
    rwa [Char.ofNat_toNat, ← hchar] at hspells
  · rw [hchar]
    exact .plain hbackslash

/-- A text with its escapes comes apart into its characters. -/
theorem splits_encode (cs : List Char) :
    Splits (encode cs) (cs.map fun c => (encodeChar c, c)) := by
  induction cs with
  | nil => exact splits_nil
  | cons c cs ih => exact ih.cons (spells_encodeChar c)

/-- **Reading back.**  A text with its escapes, in front of another one, stands
for the text and for what the other one stands for. -/
theorem decode_encode_append (cs rest : List Char) :
    decode (encode cs ++ rest) = (decode rest).map (cs ++ ·) := by
  rw [(splits_encode cs).decode_append, List.map_map]
  simp [Function.comp_def]

/-- **Escaping is undone** by reading the escapes. -/
theorem decode_encode (cs : List Char) : decode (encode cs) = .ok cs := by
  have happend := decode_encode_append cs []
  rw [List.append_nil] at happend
  rw [happend, decode]
  exact congrArg Except.ok (List.append_nil cs)

end Escape

end DynLisp
