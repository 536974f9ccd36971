import DynLisp.Text.Escape
import Mathlib.Algebra.Group.Nat.Defs
import Mathlib.Data.List.Induction

/-!
# Hexadecimal digits

Which characters are hexadecimal digits, what they are worth, and what numbers they spell.
`Escape.hexFigures` lists the ten figures and six letters of either case with their values,
and `Escape.SpellsNumber` builds numbers from them.

* `Escape.hexValue?_eq_some_iff` — a character is read as a digit if it is in the list;
* `Escape.hexNumber?_eq_some_iff` — a text is read as a number if it spells the number;
* `Escape.isSome_hexNumber?_iff` — a text spells a number if it has no other
  characters than digits;
* `Escape.SpellsNumber.lt` — a number of so many digits is less than the power of
  sixteen.
-/

namespace DynLisp

namespace Escape

variable {c : Char} {n v : Nat} {cs digits : List Char}

/-- The hexadecimal digits with their values. -/
def hexFigures : List (Char × Nat) :=
  [('0', 0), ('1', 1), ('2', 2), ('3', 3), ('4', 4), ('5', 5), ('6', 6), ('7', 7),
    ('8', 8), ('9', 9), ('a', 10), ('b', 11), ('c', 12), ('d', 13), ('e', 14), ('f', 15),
    ('A', 10), ('B', 11), ('C', 12), ('D', 13), ('E', 14), ('F', 15)]

/-- The hexadecimal digits. -/
def hexCharacters : List Char := "0123456789abcdefABCDEF".toList

/-- Hexadecimal digits, the most significant one first, and the number that they spell. -/
inductive SpellsNumber : List Char → Nat → Prop
  | nil : SpellsNumber [] 0
  | snoc {digits : List Char} {n v : Nat} {c : Char} (hdigits : SpellsNumber digits n)
      (hfigure : (c, v) ∈ hexFigures) : SpellsNumber (digits ++ [c]) (16 * n + v)

/-- Whether all characters are digits is decided one by one. -/
instance (cs : List Char) : Decidable (∀ c ∈ cs, c ∈ hexCharacters) :=
  List.decidableBAll (· ∈ hexCharacters) cs

/-! ### One digit -/

theorem toNat_lt_of_hexValue? (h : hexValue? c = some n) : c.toNat < 128 := by
  have hle : ∀ last : Char, c ≤ last → c.toNat ≤ last.toNat := fun _ hle => hle
  unfold hexValue? at h
  split at h
  · next hdigit => exact Nat.lt_of_le_of_lt (hle _ hdigit.2) (by decide)
  · split at h
    · next hlower => exact Nat.lt_of_le_of_lt (hle _ hlower.2) (by decide)
    · split at h
      · next hupper => exact Nat.lt_of_le_of_lt (hle _ hupper.2) (by decide)
      · cases h

/-- **Hexadecimal digits** are read as what they are worth, and nothing else is. -/
theorem hexValue?_eq_some_iff : hexValue? c = some v ↔ (c, v) ∈ hexFigures := by
  constructor
  · intro h
    -- Only characters of ASCII are digits, and these are tried one by one.
    have hall : ∀ n < 128, ∀ v ∈ hexValue? (Char.ofNat n),
        (Char.ofNat n, v) ∈ hexFigures := by decide +kernel
    have hc := hall c.toNat (toNat_lt_of_hexValue? h)
    rw [Char.ofNat_toNat] at hc
    exact hc v h
  · intro h
    have hall : ∀ figure ∈ hexFigures, hexValue? figure.1 = some figure.2 := by decide
    exact hall _ h

/-- The list has each digit with a value. -/
theorem map_fst_hexFigures : hexFigures.map (·.1) = hexCharacters := by decide +kernel

/-- A digit is one of the characters. -/
theorem mem_hexCharacters_of_mem_hexFigures (h : (c, v) ∈ hexFigures) : c ∈ hexCharacters := by
  rw [← map_fst_hexFigures]
  exact List.mem_map_of_mem h

/-- Each of the characters has a value. -/
theorem exists_mem_hexFigures (h : c ∈ hexCharacters) : ∃ v, (c, v) ∈ hexFigures := by
  rw [← map_fst_hexFigures] at h
  obtain ⟨⟨_, v⟩, hfigure, rfl⟩ := List.mem_map.mp h
  exact ⟨v, hfigure⟩

/-- The value of a digit is less than sixteen. -/
theorem lt_of_mem_hexFigures (h : (c, v) ∈ hexFigures) : v < 16 := by
  have hall : ∀ figure ∈ hexFigures, figure.2 < 16 := by decide
  exact hall _ h

/-! ### Numbers -/

/-- One more digit is worth its value, and makes those before it worth sixteen times as
much. -/
theorem hexNumber?_concat (cs : List Char) (c : Char) :
    hexNumber? (cs ++ [c]) = (do
      let n ← hexNumber? cs
      let v ← hexValue? c
      return 16 * n + v) := by
  unfold hexNumber?
  rw [List.mapM_append]
  cases cs.mapM hexValue? with
  | none => rfl
  | some values => cases hc : hexValue? c <;> simp [hc]

/-- **What spells a number** is read as that number. -/
theorem hexNumber?_eq_some_iff : hexNumber? cs = some n ↔ SpellsNumber cs n := by
  constructor
  · intro h
    induction cs using List.reverseRecOn generalizing n with
    | nil =>
        cases h
        exact .nil
    | append_singleton cs c ih =>
        rw [hexNumber?_concat] at h
        obtain ⟨m, hm, hrest⟩ := Option.bind_eq_some_iff.mp h
        obtain ⟨v, hv, hvalue⟩ := Option.bind_eq_some_iff.mp hrest
        cases hvalue
        exact .snoc (ih hm) (hexValue?_eq_some_iff.mp hv)
  · intro h
    induction h with
    | nil => rfl
    | snoc _ hfigure ih => rw [hexNumber?_concat, ih, hexValue?_eq_some_iff.mpr hfigure]; rfl

/-- Digits are all that a number is spelt with. -/
theorem SpellsNumber.mem_hexCharacters (h : SpellsNumber cs n) :
    ∀ c ∈ cs, c ∈ hexCharacters := by
  induction h with
  | nil => exact nofun
  | snoc _ hfigure ih =>
      exact List.forall_mem_append.mpr
        ⟨ih, List.forall_mem_singleton.mpr (mem_hexCharacters_of_mem_hexFigures hfigure)⟩

/-- **Any digits** spell a number. -/
theorem exists_spellsNumber (h : ∀ c ∈ cs, c ∈ hexCharacters) : ∃ n, SpellsNumber cs n := by
  induction cs using List.reverseRecOn with
  | nil => exact ⟨0, .nil⟩
  | append_singleton cs c ih =>
      obtain ⟨hcs, hc⟩ := List.forall_mem_append.mp h
      obtain ⟨n, hn⟩ := ih hcs
      obtain ⟨v, hv⟩ := exists_mem_hexFigures (hc c List.mem_cons_self)
      exact ⟨_, hn.snoc hv⟩

/-- **The size of a number** is bounded by how many digits it has. -/
theorem SpellsNumber.lt (h : SpellsNumber digits n) : n < 16 ^ digits.length := by
  induction h with
  | nil => exact Nat.one_pos
  | snoc _ hfigure ih =>
      have hv := lt_of_mem_hexFigures hfigure
      rw [List.length_append, List.length_singleton, Nat.pow_succ]
      omega

/-- A text is a hexadecimal number if all of its characters are digits. -/
theorem isSome_hexNumber?_iff :
    (hexNumber? cs).isSome = true ↔ ∀ c ∈ cs, c ∈ hexCharacters := by
  rw [Option.isSome_iff_exists]
  constructor
  · intro h
    obtain ⟨n, hn⟩ := h
    exact (hexNumber?_eq_some_iff.mp hn).mem_hexCharacters
  · intro h
    obtain ⟨n, hn⟩ := exists_spellsNumber h
    exact ⟨n, hexNumber?_eq_some_iff.mpr hn⟩

theorem mem_hexCharacters_of_hexNumber? (h : hexNumber? cs = some n) :
    ∀ c ∈ cs, c ∈ hexCharacters := isSome_hexNumber?_iff.mp (h ▸ rfl)

/-- Where there is no number, some character is no digit. -/
theorem not_mem_hexCharacters_of_hexNumber? (h : hexNumber? cs = none) :
    ¬∀ c ∈ cs, c ∈ hexCharacters := by
  rw [← isSome_hexNumber?_iff, h]
  exact Bool.false_ne_true

end Escape

end DynLisp
