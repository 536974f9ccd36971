import DynLisp.Proofs.Number.ReadBack
import Mathlib.Data.List.Forall2

/-!
# Numerals in other digits

A digit of any script can be replaced by the ASCII digit with its value.  A numeral in which
some digits are replaced so is a numeral with the same parts.

* `Text.Transcribes` — what a character can be replaced by: itself, or the ASCII digit with
  its value;
* `Text.exists_transcribed_append` — a text that is put together is replaced part by part;
* `Numeral.Run.transcribe`, `Numeral.Mantissa.transcribe`, `Numeral.Scale.transcribe` — the
  parts of a numeral, along the grammar;
* `Numeral.Spells.transcribe` — and all of it.
-/

namespace DynLisp

namespace Text

variable {c d : Char} {v : Nat} {front back other : List Char}

/-- A digit is one of ten. -/
theorem digitValue?_lt (h : digitValue? c = some v) : v < 10 := by
  obtain ⟨first, hfirst, hvalue⟩ := Option.map_eq_some_iff.mp h
  have hbounds := List.find?_some hfirst
  simp only [Bool.and_eq_true, decide_eq_true_eq] at hbounds
  omega

/-- The ASCII digits have their values. -/
theorem digitValue?_digitChar (h : v < 10) : digitValue? (Nat.digitChar v) = some v := by
  have hall : ∀ v < 10, digitValue? (Nat.digitChar v) = some v := by decide
  exact hall v h

/-- The character stays, or it is a digit and becomes the ASCII digit with the same value. -/
inductive Transcribes : Char → Char → Prop
  | same (c : Char) : Transcribes c c
  | digit {c : Char} {v : Nat} (hvalue : digitValue? c = some v) :
      Transcribes c (Nat.digitChar v)

/-- A character stands for itself, or for its value if it is a digit. -/
theorem transcribes_iff :
    Transcribes c d ↔ d = c ∨ ∃ v ∈ digitValue? c, d = Nat.digitChar v := by
  constructor
  · intro h
    cases h with
    | same => exact .inl rfl
    | digit hvalue => exact .inr ⟨_, hvalue, rfl⟩
  · intro h
    rcases h with rfl | ⟨v, hvalue, rfl⟩
    · exact .same d
    · exact .digit hvalue

instance (c d : Char) : Decidable (Transcribes c d) := decidable_of_iff' _ transcribes_iff

/-- The value of a digit stays. -/
theorem Transcribes.digitValue?_eq (h : Transcribes c d) : digitValue? d = digitValue? c := by
  cases h with
  | same => rfl
  | digit hvalue => rw [hvalue, digitValue?_digitChar (digitValue?_lt hvalue)]

/-- What is no digit stays. -/
theorem Transcribes.eq_of_not_digit (h : Transcribes c d) (hc : digitValue? c = none) :
    d = c := by
  cases h with
  | same => rfl
  | digit hvalue => exact absurd (hvalue.symm.trans hc) (Option.some_ne_none _)

/-- The text, with some of its digits as ASCII digits. -/
abbrev Transcribed : List Char → List Char → Prop := List.Forall₂ Transcribes

/-- The values of the digits stay. -/
theorem map_digitValue?_transcribed (h : Transcribed front other) :
    other.map digitValue? = front.map digitValue? := by
  induction h with
  | nil => rfl
  | cons hc hrest ih => rw [List.map_cons, List.map_cons, hc.digitValue?_eq, ih]

/-- What is put together is replaced part by part. -/
theorem exists_transcribed_append (h : Transcribed (front ++ back) other) :
    ∃ front' back', other = front' ++ back' ∧ Transcribed front front' ∧
      Transcribed back back' := by
  induction front generalizing other with
  | nil => exact ⟨[], other, rfl, .nil, h⟩
  | cons c front ih =>
      cases h with
      | cons hc hrest =>
          obtain ⟨front', back', rfl, hfront, hback⟩ := ih hrest
          exact ⟨_ :: front', back', rfl, .cons hc hfront, hback⟩

/-- What is no digit stays in front. -/
theorem exists_transcribed_cons (h : Transcribed (c :: back) other)
    (hc : digitValue? c = none) : ∃ back', other = c :: back' ∧ Transcribed back back' := by
  cases h with
  | cons hd hback =>
      rw [hd.eq_of_not_digit hc]
      exact ⟨_, rfl, hback⟩

end Text

namespace Numeral

open Text

variable {cs other : List Char} {ds whole fraction : List Nat} {e : Int} {n : Numeral}

/-- A run of digits is one with the same values. -/
theorem Run.transcribe (h : Run cs ds) (hother : Transcribed cs other) : Run other ds :=
  (map_digitValue?_transcribed hother).trans h

/-- The digits around the point may be of another script. -/
theorem Mantissa.transcribe (h : Mantissa cs whole fraction) (hother : Transcribed cs other) :
    Mantissa other whole fraction := by
  cases h with
  | whole hrun hsome => exact .whole (hrun.transcribe hother) hsome
  | pointed hrun hsome hfraction =>
      obtain ⟨front, back, rfl, hfront, hback⟩ := exists_transcribed_append hother
      obtain ⟨tail, rfl, htail⟩ := exists_transcribed_cons hback rfl
      exact .pointed (hrun.transcribe hfront) hsome (hfraction.transcribe htail)
  | fraction hfraction hsome =>
      obtain ⟨tail, rfl, htail⟩ := exists_transcribed_cons hother rfl
      exact .fraction (hfraction.transcribe htail) hsome

/-- The mark of an exponent is no digit. -/
theorem digitValue?_mark {mark : Char} (h : mark = 'e' ∨ mark = 'E') :
    digitValue? mark = none := by
  rcases h with h | h
  all_goals
    rw [h]
    rfl

/-- And so may those of the exponent. -/
theorem Scale.transcribe (h : Scale cs e) (hother : Transcribed cs other) : Scale other e := by
  cases h with
  | absent =>
      cases hother
      exact .absent
  | unsigned hmark hrun hsome =>
      obtain ⟨tail, rfl, htail⟩ := exists_transcribed_cons hother (digitValue?_mark hmark)
      exact .unsigned hmark (hrun.transcribe htail) hsome
  | plus hmark hrun hsome =>
      obtain ⟨signed, rfl, hsigned⟩ := exists_transcribed_cons hother (digitValue?_mark hmark)
      obtain ⟨tail, rfl, htail⟩ := exists_transcribed_cons hsigned rfl
      exact .plus hmark (hrun.transcribe htail) hsome
  | minus hmark hrun hsome =>
      obtain ⟨signed, rfl, hsigned⟩ := exists_transcribed_cons hother (digitValue?_mark hmark)
      obtain ⟨tail, rfl, htail⟩ := exists_transcribed_cons hsigned rfl
      exact .minus hmark (hrun.transcribe htail) hsome

/-- **The same numeral**, whatever digits it is written in. -/
theorem Spells.transcribe (h : Spells cs n) (hother : Transcribed cs other) :
    Spells other n := by
  cases h with
  | positive hmantissa hscale =>
      obtain ⟨front, back, rfl, hfront, hback⟩ := exists_transcribed_append hother
      exact .positive (hmantissa.transcribe hfront) (hscale.transcribe hback)
  | negative hmantissa hscale =>
      obtain ⟨tail, rfl, htail⟩ := exists_transcribed_cons hother rfl
      obtain ⟨front, back, rfl, hfront, hback⟩ := exists_transcribed_append htail
      exact .negative (hmantissa.transcribe hfront) (hscale.transcribe hback)

end Numeral

end DynLisp
