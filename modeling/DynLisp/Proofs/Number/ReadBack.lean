import DynLisp.Number.Text
import DynLisp.Proofs.Number.Grammar
import DynLisp.Proofs.Number.Rounding

/-!
# The text of a number reads back

A number is written with the fewest digits that identify it, in one of two
layouts, or as an integer.  In each case the text is a numeral, and rounding
the decimal that it spells gives the number again.

* `Text.run_toDigits` — the digits of a natural number spell this number;
* `Decimal.positional_spells`, `Decimal.scientific_spells` — the two layouts
  move the point and the exponent without changing the decimal;
* `Number.spells_textChars` — the text of a finite number is a numeral, and
  it stands for this number; the sign of a negative zero is not written.
-/

namespace DynLisp

namespace Text

/-- The ten ASCII digits have their values in order. -/
theorem digitValue?_of_isDigit {c : Char} (h : c.isDigit = true) :
    digitValue? c = some (c.toNat - '0'.toNat) := by
  have hbounds : 48 ≤ c.toNat ∧ c.toNat < 58 := by
    simp only [Char.isDigit, Bool.and_eq_true, decide_eq_true_eq] at h
    have hlow : 48 ≤ c.toNat := h.1
    have hhigh : c.toNat ≤ 57 := h.2
    omega
  have hfirst : (decide (0x30 ≤ c.toNat) && decide (c.toNat < 0x30 + 10)) = true := by
    simp only [Bool.and_eq_true, decide_eq_true_eq]
    omega
  have hzeros : digitZeros = 0x30 :: digitZeros.tail := rfl
  unfold digitValue?
  rw [hzeros, List.find?_cons, hfirst]
  rfl

/-- Putting digits after a number moves it up by their count. -/
theorem digitsValue_append (ds es : List Nat) :
    digitsValue (ds ++ es) = digitsValue ds * 10 ^ es.length + digitsValue es := by
  have hfold : ∀ (es : List Nat) (start : Nat),
      es.foldl (fun n d => 10 * n + d) start = start * 10 ^ es.length + digitsValue es := by
    intro es
    induction es with
    | nil =>
        intro start
        simp [digitsValue]
    | cons e es ih =>
        intro start
        simp only [digitsValue, List.foldl_cons, List.length_cons] at ih ⊢
        rw [ih, ih (10 * 0 + e), Nat.mul_zero, Nat.zero_add, Nat.add_mul, Nat.pow_succ,
          Nat.mul_comm 10 start, Nat.mul_assoc, Nat.mul_comm 10, Nat.add_assoc]
  unfold digitsValue
  rw [List.foldl_append, hfold es]
  rfl

theorem digitsValue_replicate_zero (k : Nat) : digitsValue (List.replicate k 0) = 0 := by
  induction k with
  | zero => rfl
  | succ k ih =>
      rw [List.replicate_succ', digitsValue_append, ih]
      rfl

theorem run_replicate_zero (k : Nat) :
    Numeral.Run (List.replicate k '0') (List.replicate k 0) := by
  unfold Numeral.Run
  rw [List.map_replicate, List.map_replicate]
  rfl

/-- **The digits of a natural number** spell this number. -/
theorem run_toDigits (n : Nat) :
    ∃ ds, Numeral.Run (Nat.toDigits 10 n) ds ∧ ds ≠ [] ∧ digitsValue ds = n := by
  have hrun : Numeral.Run (Nat.toDigits 10 n)
      ((Nat.toDigits 10 n).map fun c => c.toNat - '0'.toNat) := by
    unfold Numeral.Run
    rw [List.map_map]
    apply List.map_congr_left
    intro c hc
    exact digitValue?_of_isDigit (Nat.isDigit_of_mem_toDigits (by decide) (by decide) hc)
  refine ⟨_, hrun, ?_, ?_⟩
  · intro hnil
    exact Nat.toDigits_ne_nil (List.map_eq_nil_iff.mp hnil)
  · unfold digitsValue
    rw [List.foldl_map, ← Nat.ofDigitChars_eq_foldl]
    exact Nat.ofDigitChars_ten_toDigits

end Text

namespace Numeral

/-- The text is a numeral without a sign that stands for the magnitude. -/
def SpellsRank (cs : List Char) (r : Rank) : Prop :=
  ∃ ms es whole fraction e, cs = ms ++ es ∧ Mantissa ms whole fraction ∧ Scale es e ∧
    Rank.ofDecimal (Text.digitsValue (whole ++ fraction)) (e - fraction.length) = r

/-- A sign in front of a magnitude is the sign of the number. -/
theorem SpellsRank.spells {cs : List Char} {r : Rank} (h : SpellsRank cs r)
    (negative : Bool) :
    ∃ n, Spells (Number.signText negative ++ cs) n ∧ n.number = .signed negative r := by
  obtain ⟨ms, es, whole, fraction, e, rfl, hmantissa, hscale, hvalue⟩ := h
  refine ⟨⟨negative, whole, fraction, e⟩, ?_, ?_⟩
  · cases negative with
    | false =>
        rw [Number.signText, if_neg Bool.false_ne_true, List.nil_append]
        exact Spells.positive hmantissa hscale
    | true =>
        rw [Number.signText, if_pos rfl, List.cons_append, List.nil_append]
        exact Spells.negative hmantissa hscale
  · unfold number
    rw [hvalue]

theorem Run.take {cs : List Char} {ds : List Nat} (h : Run cs ds) (k : Nat) :
    Run (cs.take k) (ds.take k) := by
  unfold Run at h ⊢
  rw [List.map_take, List.map_take, h]

theorem Run.drop {cs : List Char} {ds : List Nat} (h : Run cs ds) (k : Nat) :
    Run (cs.drop k) (ds.drop k) := by
  unfold Run at h ⊢
  rw [List.map_drop, List.map_drop, h]

/-- An integer stands for the whole number that it spells. -/
theorem spellsRank_toDigits (n : Nat) :
    SpellsRank (Nat.toDigits 10 n) (Rank.ofDecimal n 0) := by
  obtain ⟨ds, hrun, hsome, hvalue⟩ := Text.run_toDigits n
  refine ⟨_, [], ds, [], 0, (List.append_nil _).symm, Mantissa.whole hrun hsome,
    Scale.absent, ?_⟩
  rw [List.append_nil, hvalue]
  rfl

/-- Digits around a point stand for all of them, moved by those after it. -/
theorem spellsRank_pointed {cs gs : List Char} {ds es : List Nat} (hrun : Run cs ds)
    (hsome : ds ≠ []) (hfraction : Run gs es) :
    SpellsRank (cs ++ '.' :: gs)
      (Rank.ofDecimal (Text.digitsValue (ds ++ es)) (-(es.length : Int))) := by
  refine ⟨_, [], ds, es, 0, (List.append_nil _).symm,
    Mantissa.pointed hrun hsome hfraction, Scale.absent, ?_⟩
  rw [Int.zero_sub]

end Numeral

namespace Decimal

open Numeral (SpellsRank Run Mantissa Scale)

variable {digits : List Char} {ds : List Nat}

/-- A whole number is written with all its zeros, and one more behind the point. -/
theorem positional_whole (hrun : Run digits ds) (hsome : ds ≠ []) {e : Nat} (he : e < 16) :
    SpellsRank (digits ++ List.replicate e '0' ++ ['.', '0'])
      (Rank.ofDecimal (Text.digitsValue ds) e) := by
  have hzeros := hrun.append (Text.run_replicate_zero e)
  have hne : ds ++ List.replicate e 0 ≠ [] := by
    intro hnil
    exact hsome (List.append_eq_nil_iff.mp hnil).1
  have hpoint : Run ['0'] [0] := rfl
  have hspells := Numeral.spellsRank_pointed hzeros hne hpoint
  have hvalue : Text.digitsValue (ds ++ List.replicate e 0 ++ [0]) =
      Text.digitsValue ds * 10 ^ (e + 1) := by
    rw [List.append_assoc, Text.digitsValue_append, ← List.replicate_succ',
      Text.digitsValue_replicate_zero, List.length_replicate, Nat.add_zero]
  rw [hvalue] at hspells
  rw [← Rank.ofDecimal_shift (Text.digitsValue ds) e he]
  exact hspells

/-- The point stands among the digits. -/
theorem positional_inside (hrun : Run digits ds) {places : Nat}
    (hplaces : places < digits.length) :
    SpellsRank (digits.take (digits.length - places) ++
        '.' :: digits.drop (digits.length - places))
      (Rank.ofDecimal (Text.digitsValue ds) (-(places : Int))) := by
  have hlength : digits.length = ds.length := hrun.length_eq
  have hne : ds.take (digits.length - places) ≠ [] := by
    intro hnil
    have hzero := congrArg List.length hnil
    rw [List.length_take, List.length_nil] at hzero
    omega
  have hspells := Numeral.spellsRank_pointed (hrun.take (digits.length - places)) hne
    (hrun.drop (digits.length - places))
  have hfraction : (ds.drop (digits.length - places)).length = places := by
    rw [List.length_drop]
    omega
  rwa [List.take_append_drop, hfraction] at hspells

/-- The point stands in front of the digits, with zeros between them. -/
theorem positional_front (hrun : Run digits ds) {places : Nat}
    (hplaces : digits.length ≤ places) :
    SpellsRank ('0' :: '.' :: (List.replicate (places - digits.length) '0' ++ digits))
      (Rank.ofDecimal (Text.digitsValue ds) (-(places : Int))) := by
  have hlength : digits.length = ds.length := hrun.length_eq
  have hzeros := (Text.run_replicate_zero (places - digits.length)).append hrun
  have hpoint : Run ['0'] [0] := rfl
  have hspells := Numeral.spellsRank_pointed hpoint (List.cons_ne_nil 0 []) hzeros
  have hfraction : (List.replicate (places - digits.length) 0 ++ ds).length = places := by
    rw [List.length_append, List.length_replicate]
    omega
  have hvalue : Text.digitsValue ([0] ++ (List.replicate (places - digits.length) 0 ++ ds)) =
      Text.digitsValue ds := by
    rw [← List.append_assoc, Text.digitsValue_append, List.singleton_append,
      ← List.replicate_succ, Text.digitsValue_replicate_zero, Nat.zero_mul, Nat.zero_add]
  rwa [hvalue, hfraction] at hspells

/-- **The positional layout** writes zeros or a point, and keeps the value. -/
theorem positional_spells (hrun : Run digits ds) (hsome : ds ≠ []) {e : Int}
    (he : e < 16) :
    SpellsRank (positional digits e) (Rank.ofDecimal (Text.digitsValue ds) e) := by
  unfold positional
  by_cases hwhole : 0 ≤ e
  · have hspells := positional_whole hrun hsome (show e.toNat < 16 by omega)
    rw [if_pos hwhole]
    rwa [Int.toNat_of_nonneg hwhole] at hspells
  · have hplaces : -((-e).toNat : Int) = e := by omega
    rw [if_neg hwhole]
    by_cases hinside : (-e).toNat < digits.length
    · have hspells := positional_inside hrun hinside
      rw [if_pos hinside]
      rwa [hplaces] at hspells
    · have hspells := positional_front hrun (Nat.le_of_not_lt hinside)
      rw [if_neg hinside]
      rwa [hplaces] at hspells

/-- The digits of an exponent, filled up with zeros to two of them. -/
theorem scale_digits (negative : Bool) (n : Nat) :
    Scale ('e' :: (if negative then '-' else '+') ::
      (List.replicate (2 - (Nat.toDigits 10 n).length) '0' ++ Nat.toDigits 10 n))
      (if negative then -(n : Int) else n) := by
  obtain ⟨es, hrun, hsome, hvalue⟩ := Text.run_toDigits n
  have hzeros := (Text.run_replicate_zero (2 - (Nat.toDigits 10 n).length)).append hrun
  have hfilled : Text.digitsValue
      (List.replicate (2 - (Nat.toDigits 10 n).length) 0 ++ es) = n := by
    rw [Text.digitsValue_append, Text.digitsValue_replicate_zero, Nat.zero_mul,
      Nat.zero_add, hvalue]
  have hboth : List.replicate (2 - (Nat.toDigits 10 n).length) 0 ++ es ≠ [] := by
    intro hnil
    exact hsome (List.append_eq_nil_iff.mp hnil).2
  cases negative with
  | false =>
      have hscale := Scale.plus (.inl rfl) hzeros hboth
      rwa [hfilled] at hscale
  | true =>
      have hscale := Scale.minus (.inl rfl) hzeros hboth
      rwa [hfilled] at hscale

/-- **The scientific layout** puts the point behind the first digit and moves the
exponent by as many places. -/
theorem scientific_spells (hrun : Run digits ds) (hsome : ds ≠ []) (lead : Int) :
    SpellsRank (scientific digits lead)
      (Rank.ofDecimal (Text.digitsValue ds) (lead - (ds.length - 1 : Nat))) := by
  have hlength : digits.length = ds.length := hrun.length_eq
  have hscale := scale_digits (decide (lead < 0)) lead.natAbs
  have hlead : (if decide (lead < 0) = true then -(lead.natAbs : Int) else lead.natAbs) =
      lead := by
    by_cases hnegative : lead < 0
    · rw [if_pos (decide_eq_true hnegative)]
      omega
    · rw [if_neg (by simpa using hnegative)]
      omega
  rw [hlead] at hscale
  simp only [decide_eq_true_eq] at hscale
  simp only [scientific]
  have hfirst : ds.take 1 ≠ [] := by
    intro hnil
    have hzero := congrArg List.length hnil
    rw [List.length_take, List.length_nil] at hzero
    exact hsome (List.eq_nil_of_length_eq_zero (by omega))
  by_cases hone : digits.length ≤ 1
  · rw [if_pos hone, List.append_nil]
    refine ⟨_, _, _, [], _, rfl, Mantissa.whole (hrun.take 1) hfirst, hscale, ?_⟩
    rw [List.append_nil, List.take_of_length_le (by omega),
      show ds.length - 1 = 0 by omega]
    rfl
  · rw [if_neg hone]
    refine ⟨_, _, _, _, _, rfl, Mantissa.pointed (hrun.take 1) hfirst (hrun.drop 1), hscale, ?_⟩
    rw [List.take_append_drop, List.length_drop]

/-- **The text of a decimal** is a numeral for its magnitude. -/
theorem layout_spells (d : Decimal) : SpellsRank d.layout d.rank := by
  obtain ⟨ds, hrun, hsome, hvalue⟩ := Text.run_toDigits d.digits
  have hlength : (Nat.toDigits 10 d.digits).length = ds.length := hrun.length_eq
  have hpos : 0 < ds.length := List.length_pos_iff.mpr hsome
  simp only [layout, rank]
  by_cases hsize : -4 ≤ d.exponent + (Nat.toDigits 10 d.digits).length - 1 ∧
      d.exponent + (Nat.toDigits 10 d.digits).length - 1 < 16
  · rw [if_pos hsize]
    have hsmall : d.exponent < 16 := by omega
    have hspells := positional_spells hrun hsome hsmall
    rwa [hvalue] at hspells
  · rw [if_neg hsize]
    have hspells := scientific_spells hrun hsome
      (d.exponent + (Nat.toDigits 10 d.digits).length - 1)
    have hexponent : d.exponent + (Nat.toDigits 10 d.digits).length - 1 -
        (ds.length - 1 : Nat) = d.exponent := by omega
    rwa [hexponent, hvalue] at hspells

end Decimal

namespace Number

/-- The number with the sign of a negative zero dropped. -/
def positiveZero (x : Number) : Number :=
  if x = .signed true (Rank.ofNat 0) then zero else x

/-- A number that equals a whole number is that many wholes. -/
theorem units?_of_toInt? {x : Number} {n : Int} (h : x.toInt? = some n) :
    x.units? = some (n * (Rank.one : Int)) := by
  obtain ⟨u, hu, hwhole⟩ := Option.bind_eq_some_iff.mp h
  by_cases hdivides : u.natAbs % Rank.one = 0
  · rw [if_pos hdivides] at hwhole
    have hdvd : (Rank.one : Int) ∣ u :=
      Int.ofNat_dvd_left.mpr (Nat.dvd_of_mod_eq_zero hdivides)
    rw [hu, ← Option.some.inj hwhole, Int.ediv_mul_cancel hdvd]
  · rw [if_neg hdivides] at hwhole
    cases hwhole

/-- Zero is a whole number. -/
theorem units_ne_zero_of_toInt? {negative : Bool} {r : Rank} (hfinite : r ≠ Rank.infinite)
    (h : (signed negative r).toInt? = none) : r.units ≠ 0 := by
  intro hzero
  have hnone : (if negative then -((0 : Nat) : Int) else (0 : Nat)) = 0 := by
    cases negative <;> rfl
  simp only [toInt?, units?, if_neg hfinite, Option.bind_some, hzero, hnone] at h
  rw [Int.natAbs_zero, if_pos (Nat.zero_mod _)] at h
  cases h

theorem positiveZero_of_units {negative : Bool} {r : Rank} (h : r.units ≠ 0) :
    (signed negative r).positiveZero = signed negative r := by
  have hne : signed negative r ≠ signed true (Rank.ofNat 0) := by
    intro heq
    obtain ⟨-, rfl⟩ := signed.inj heq
    exact h rfl
  rw [positiveZero, if_neg hne]

theorem positiveZero_zero (negative : Bool) :
    (signed negative (Rank.ofNat 0)).positiveZero = zero := by
  cases negative with
  | false => rfl
  | true => rfl

/-- A whole number of units, none of them lost, has the sign of its value. -/
theorem sign_of_units {n one u : Int} {negative : Bool} (hone : 0 < one) (hu : 0 < u)
    (h : n * one = if negative then -u else u) : decide (n < 0) = negative := by
  cases negative with
  | false =>
      rw [if_neg Bool.false_ne_true] at h
      have hn : ¬n < 0 := by
        intro hn
        have hneg := Int.mul_neg_of_neg_of_pos hn hone
        omega
      exact decide_eq_false hn
  | true =>
      rw [if_pos rfl] at h
      have hn : n < 0 := by
        apply Int.not_le.mp
        intro hn
        have hnonneg := Int.mul_nonneg hn (Int.le_of_lt hone)
        omega
      exact decide_eq_true hn

/-- An integer text stands for the number that equals the integer, which is never
a negative zero. -/
theorem spells_integerText {negative : Bool} {r : Rank} {n : Int}
    (hfinite : r ≠ Rank.infinite) (h : (signed negative r).toInt? = some n) :
    ∃ m, Numeral.Spells (integerText n) m ∧ m.number = (signed negative r).positiveZero := by
  have hunits := units?_of_toInt? h
  simp only [units?, if_neg hfinite, Option.some.injEq] at hunits
  have habs : n.natAbs * Rank.one = r.units := by
    have hnat := congrArg Int.natAbs hunits
    rw [Int.natAbs_mul, Int.natAbs_natCast] at hnat
    rw [← hnat]
    cases negative <;> simp
  have hrank := Numeral.spellsRank_toDigits n.natAbs
  rw [Rank.ofDecimal_whole habs] at hrank
  obtain ⟨m, hspells, hnumber⟩ := hrank.spells (decide (n < 0))
  refine ⟨m, hspells, ?_⟩
  rw [hnumber]
  have hone : (0 : Int) < Rank.one := Int.natCast_pos.mpr Rank.one_pos
  by_cases hzero : r.units = 0
  · have hnatAbs : n.natAbs = 0 := by
      rw [hzero] at habs
      exact (Nat.mul_eq_zero.mp habs).resolve_right (Nat.ne_of_gt Rank.one_pos)
    rw [Rank.eq_zero_of_units hzero, positiveZero_zero, Int.natAbs_eq_zero.mp hnatAbs]
    rfl
  · rw [positiveZero_of_units hzero]
    have hpos : (0 : Int) < r.units := Int.natCast_pos.mpr (Nat.pos_of_ne_zero hzero)
    rw [sign_of_units hone hpos hunits.symm]

/-- **Reading back.**  The text of a finite number is a numeral, and it stands for
this number. -/
theorem spells_textChars {x : Number} (h : x.isFinite = true) :
    ∃ n, Numeral.Spells x.textChars n ∧ n.number = x.positiveZero := by
  cases x with
  | nan => cases h
  | signed negative r =>
      have hfinite : r ≠ Rank.infinite := by
        intro heq
        rw [heq] at h
        cases h
      simp only [textChars, if_neg hfinite]
      cases hwhole : (signed negative r).toInt? with
      | some n => exact spells_integerText hfinite hwhole
      | none =>
          have hspells := (Decimal.layout_spells (Decimal.shortest r)).spells negative
          rw [Decimal.rank_shortest] at hspells
          rw [positiveZero_of_units (units_ne_zero_of_toInt? hfinite hwhole)]
          exact hspells

end Number

end DynLisp
