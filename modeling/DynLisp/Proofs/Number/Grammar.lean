import DynLisp.Number.Numeral

/-!
# The grammar of numerals

`Numeral.parse?` reads a numeral by cutting runs of digits off the text.  The
grammar says which texts there are to read: `Numeral.Spells cs n` builds the
text `cs` up from the parts of `n`.

* `Numeral.spanDigits_append`, `Numeral.spanDigits_eq` — the leading digits are
  the longest run of digits at the start;
* `Numeral.digits?_eq_some_iff`, `Numeral.exponent?_eq_some_iff` — the same
  for a number of digits and for an exponent;
* `Numeral.parse?_eq_some_iff` — reading a text gives a numeral exactly when
  the grammar spells this numeral with the text;
* `Numeral.Spells.parts` — which characters a numeral can hold.
-/

namespace DynLisp

namespace Numeral

/-- A run of decimal digits with these values. -/
def Run (cs : List Char) (ds : List Nat) : Prop :=
  cs.map Text.digitValue? = ds.map some

/-- The text does not go on with a digit. -/
def NoDigit (cs : List Char) : Prop :=
  ∀ c rest, cs = c :: rest → Text.digitValue? c = none

/-- The digits around the point. -/
inductive Mantissa : List Char → List Nat → List Nat → Prop
  | whole {cs ds} (hrun : Run cs ds) (hsome : ds ≠ []) : Mantissa cs ds []
  | pointed {cs ds gs es} (hrun : Run cs ds) (hsome : ds ≠ [])
      (hfraction : Run gs es) : Mantissa (cs ++ '.' :: gs) ds es
  | fraction {gs es} (hfraction : Run gs es) (hsome : es ≠ []) :
      Mantissa ('.' :: gs) [] es

/-- The exponent with its mark, or nothing. -/
inductive Scale : List Char → Int → Prop
  | absent : Scale [] 0
  | unsigned {mark cs ds} (hmark : mark = 'e' ∨ mark = 'E') (hrun : Run cs ds)
      (hsome : ds ≠ []) : Scale (mark :: cs) (Text.digitsValue ds)
  | plus {mark cs ds} (hmark : mark = 'e' ∨ mark = 'E') (hrun : Run cs ds)
      (hsome : ds ≠ []) : Scale (mark :: '+' :: cs) (Text.digitsValue ds)
  | minus {mark cs ds} (hmark : mark = 'e' ∨ mark = 'E') (hrun : Run cs ds)
      (hsome : ds ≠ []) : Scale (mark :: '-' :: cs) (-(Text.digitsValue ds : Int))

/-- The text is a numeral with these parts. -/
inductive Spells : List Char → Numeral → Prop
  | positive {ms es whole fraction exponent}
      (hmantissa : Mantissa ms whole fraction) (hscale : Scale es exponent) :
      Spells (ms ++ es) ⟨false, whole, fraction, exponent⟩
  | negative {ms es whole fraction exponent}
      (hmantissa : Mantissa ms whole fraction) (hscale : Scale es exponent) :
      Spells ('-' :: (ms ++ es)) ⟨true, whole, fraction, exponent⟩

/-- The text is a numeral. -/
def IsNumeral (cs : List Char) : Prop := ∃ n, Spells cs n

/-- Two runs of digits in a row are one run. -/
theorem Run.append {cs gs : List Char} {ds es : List Nat} (h : Run cs ds)
    (hmore : Run gs es) : Run (cs ++ gs) (ds ++ es) := by
  unfold Run at h hmore ⊢
  rw [List.map_append, List.map_append, h, hmore]

/-- A run has one digit for each character. -/
theorem Run.length_eq {cs : List Char} {ds : List Nat} (h : Run cs ds) :
    cs.length = ds.length := by
  have hlength := congrArg List.length h
  simpa using hlength

/-- A run that is not empty starts with a digit. -/
theorem Run.exists_cons {cs : List Char} {d : Nat} {ds : List Nat}
    (h : Run cs (d :: ds)) :
    ∃ c rest, cs = c :: rest ∧ Text.digitValue? c = some d ∧ Run rest ds := by
  cases cs with
  | nil => simp [Run] at h
  | cons c rest =>
      simp only [Run, List.map_cons, List.cons.injEq] at h
      exact ⟨c, rest, rfl, h.1, h.2⟩

theorem NoDigit.nil : NoDigit [] := by
  intro c rest h
  cases h

theorem NoDigit.cons {c : Char} {rest : List Char} (h : Text.digitValue? c = none) :
    NoDigit (c :: rest) := by
  intro c' rest' hcons
  cases hcons
  exact h

/-- No digits are taken from a text that starts with none. -/
theorem spanDigits_of_noDigit {cs : List Char} (h : NoDigit cs) :
    spanDigits cs = ([], cs) := by
  cases cs with
  | nil => rfl
  | cons c rest => simp only [spanDigits, h c rest rfl]

/-- **The leading digits** reach as far as digits follow each other. -/
theorem spanDigits_append {cs : List Char} {ds : List Nat} (h : Run cs ds)
    {rest : List Char} (hrest : NoDigit rest) :
    spanDigits (cs ++ rest) = (ds, rest) := by
  induction ds generalizing cs with
  | nil =>
      have hnil : cs = [] := List.eq_nil_of_length_eq_zero h.length_eq
      rw [hnil]
      exact spanDigits_of_noDigit hrest
  | cons d ds ih =>
      obtain ⟨c, tail, rfl, hdigit, htail⟩ := h.exists_cons
      simp only [List.cons_append, spanDigits, hdigit, ih htail]

/-- All of a run is taken. -/
theorem spanDigits_run {cs : List Char} {ds : List Nat} (h : Run cs ds) :
    spanDigits cs = (ds, []) := by
  have hspan := spanDigits_append h NoDigit.nil
  rwa [List.append_nil] at hspan

/-- Whatever the text, its leading digits are a run, and no digit follows. -/
theorem spanDigits_eq {cs : List Char} {ds : List Nat} {rest : List Char}
    (h : spanDigits cs = (ds, rest)) :
    ∃ run, Run run ds ∧ cs = run ++ rest ∧ NoDigit rest := by
  induction cs generalizing ds with
  | nil =>
      cases h
      exact ⟨[], rfl, rfl, NoDigit.nil⟩
  | cons c tail ih =>
      cases hdigit : Text.digitValue? c with
      | none =>
          simp only [spanDigits, hdigit, Prod.mk.injEq] at h
          obtain ⟨rfl, rfl⟩ := h
          exact ⟨[], rfl, rfl, NoDigit.cons hdigit⟩
      | some d =>
          simp only [spanDigits, hdigit, Prod.mk.injEq] at h
          obtain ⟨hds, hrest⟩ := h
          obtain ⟨run, hrun, htail, hnone⟩ := ih (Prod.ext rfl hrest)
          refine ⟨c :: run, ?_, ?_, hnone⟩
          · rw [← hds]
            unfold Run at hrun ⊢
            rw [List.map_cons, List.map_cons, hdigit, hrun]
          · rw [htail, List.cons_append]

/-- A number of digits is a run that is not empty and reaches to the end. -/
theorem digits?_eq_some_iff {cs : List Char} {n : Nat} :
    digits? cs = some n ↔
      ∃ ds, Run cs ds ∧ ds ≠ [] ∧ Text.digitsValue ds = n := by
  constructor
  · intro h
    unfold digits? at h
    split at h
    · next d ds hspan =>
      obtain ⟨run, hrun, hcs, -⟩ := spanDigits_eq hspan
      rw [List.append_nil] at hcs
      rw [← hcs] at hrun
      exact ⟨d :: ds, hrun, List.cons_ne_nil d ds, Option.some.inj h⟩
    · cases h
  · intro h
    obtain ⟨ds, hrun, hsome, hvalue⟩ := h
    cases ds with
    | nil => exact absurd rfl hsome
    | cons d ds =>
        unfold digits?
        rw [spanDigits_run hrun, ← hvalue]

/-- The same where the number is put to use. -/
theorem map_digits?_eq_some_iff {cs : List Char} {f : Nat → Int} {e : Int} :
    (digits? cs).map f = some e ↔
      ∃ ds, Run cs ds ∧ ds ≠ [] ∧ f (Text.digitsValue ds) = e := by
  constructor
  · intro h
    obtain ⟨n, hn, hf⟩ := Option.map_eq_some_iff.mp h
    obtain ⟨ds, hrun, hsome, hvalue⟩ := digits?_eq_some_iff.mp hn
    rw [← hvalue] at hf
    exact ⟨ds, hrun, hsome, hf⟩
  · intro h
    obtain ⟨ds, hrun, hsome, hf⟩ := h
    rw [digits?_eq_some_iff.mpr ⟨ds, hrun, hsome, rfl⟩, Option.map_some, hf]

/-- Neither the signs nor the point are digits. -/
theorem ne_of_digit {c : Char} {d : Nat} (h : Text.digitValue? c = some d) :
    c ≠ '-' ∧ c ≠ '+' ∧ c ≠ '.' := by
  refine ⟨?_, ?_, ?_⟩
  all_goals
    intro hsign
    rw [hsign] at h
    cases h

/-- The text does not go on with a sign. -/
def Unsigned (cs : List Char) : Prop :=
  ∀ rest, cs ≠ '-' :: rest ∧ cs ≠ '+' :: rest

/-- A digit is no sign. -/
theorem Run.unsigned {cs : List Char} {ds : List Nat} (h : Run cs ds) : Unsigned cs := by
  intro rest
  cases ds with
  | nil =>
      have hnil : cs = [] := List.eq_nil_of_length_eq_zero h.length_eq
      rw [hnil]
      exact ⟨List.cons_ne_nil _ _ |>.symm, List.cons_ne_nil _ _ |>.symm⟩
  | cons d ds =>
      obtain ⟨c, tail, rfl, hdigit, -⟩ := h.exists_cons
      obtain ⟨hminus, hplus, -⟩ := ne_of_digit hdigit
      exact ⟨fun heq => hminus (List.cons.inj heq).1, fun heq => hplus (List.cons.inj heq).1⟩

section Marked

variable {mark : Char} (hmark : mark = 'e' ∨ mark = 'E')

include hmark

/-- Behind the mark and a minus sign, the digits count downwards. -/
theorem exponent?_minus (cs : List Char) :
    exponent? (mark :: '-' :: cs) = (digits? cs).map fun n : Nat => -(n : Int) := by
  simp only [exponent?, if_pos hmark]
  cases digits? cs <;> rfl

/-- A plus sign changes nothing. -/
theorem exponent?_plus (cs : List Char) :
    exponent? (mark :: '+' :: cs) = (digits? cs).map fun n : Nat => (n : Int) := by
  simp only [exponent?, if_pos hmark]
  cases digits? cs <;> rfl

/-- Behind the mark alone, the digits are the exponent. -/
theorem exponent?_unsigned {cs : List Char} (h : Unsigned cs) :
    exponent? (mark :: cs) = (digits? cs).map fun n : Nat => (n : Int) := by
  simp only [exponent?, if_pos hmark]
  split
  · exact absurd rfl (h _).1
  · exact absurd rfl (h _).2
  · cases digits? cs <;> rfl

/-- What follows the mark of an exponent is a number with or without a sign. -/
theorem scale_of_exponent? {cs : List Char} {e : Int}
    (h : exponent? (mark :: cs) = some e) : Scale (mark :: cs) e := by
  by_cases hminus : ∃ rest, cs = '-' :: rest
  · obtain ⟨rest, rfl⟩ := hminus
    rw [exponent?_minus hmark] at h
    obtain ⟨ds, hrun, hsome, rfl⟩ := map_digits?_eq_some_iff.mp h
    exact Scale.minus hmark hrun hsome
  · by_cases hplus : ∃ rest, cs = '+' :: rest
    · obtain ⟨rest, rfl⟩ := hplus
      rw [exponent?_plus hmark] at h
      obtain ⟨ds, hrun, hsome, rfl⟩ := map_digits?_eq_some_iff.mp h
      exact Scale.plus hmark hrun hsome
    · have hunsigned : Unsigned cs :=
        fun rest => ⟨fun heq => hminus ⟨rest, heq⟩, fun heq => hplus ⟨rest, heq⟩⟩
      rw [exponent?_unsigned hmark hunsigned] at h
      obtain ⟨ds, hrun, hsome, rfl⟩ := map_digits?_eq_some_iff.mp h
      exact Scale.unsigned hmark hrun hsome

end Marked

/-- **Exponents.**  What is read as an exponent is what the grammar says. -/
theorem exponent?_eq_some_iff {cs : List Char} {e : Int} :
    exponent? cs = some e ↔ Scale cs e := by
  constructor
  · intro h
    cases cs with
    | nil =>
        cases h
        exact Scale.absent
    | cons mark rest =>
        by_cases hmark : mark = 'e' ∨ mark = 'E'
        · exact scale_of_exponent? hmark h
        · simp only [exponent?, if_neg hmark] at h
          cases h
  · intro h
    cases h with
    | absent => rfl
    | unsigned hmark hrun hsome =>
        rw [exponent?_unsigned hmark hrun.unsigned]
        exact map_digits?_eq_some_iff.mpr ⟨_, hrun, hsome, rfl⟩
    | plus hmark hrun hsome =>
        rw [exponent?_plus hmark]
        exact map_digits?_eq_some_iff.mpr ⟨_, hrun, hsome, rfl⟩
    | minus hmark hrun hsome =>
        rw [exponent?_minus hmark]
        exact map_digits?_eq_some_iff.mpr ⟨_, hrun, hsome, rfl⟩

/-- An exponent, or nothing, does not go on with a digit or a point. -/
theorem Scale.noDigit {cs : List Char} {e : Int} (h : Scale cs e) : NoDigit cs := by
  cases h with
  | absent => exact NoDigit.nil
  | unsigned hmark _ _ | plus hmark _ _ | minus hmark _ _ =>
      rcases hmark with hmark | hmark
      all_goals
        rw [hmark]
        exact NoDigit.cons rfl

/-- An exponent does not start with a point. -/
theorem Scale.ne_point {cs : List Char} {e : Int} (h : Scale cs e) (rest : List Char) :
    cs ≠ '.' :: rest := by
  intro heq
  rw [heq] at h
  cases h with
  | unsigned hmark _ _ | plus hmark _ _ | minus hmark _ _ => simp at hmark

/-- There is no fraction without a point. -/
theorem spanFraction_of_ne_point {cs : List Char} (h : ∀ rest, cs ≠ '.' :: rest) :
    spanFraction cs = ([], cs) := by
  unfold spanFraction
  split
  · exact absurd rfl (h _)
  · rfl

/-- **Digits around a point**, with an exponent after them, are cut off as such. -/
theorem span_mantissa {ms es : List Char} {whole fraction : List Nat} {e : Int}
    (hmantissa : Mantissa ms whole fraction) (hscale : Scale es e) :
    ∃ rest, spanDigits (ms ++ es) = (whole, rest) ∧ spanFraction rest = (fraction, es) ∧
      ¬(whole = [] ∧ fraction = []) := by
  cases hmantissa with
  | whole hrun hsome =>
      exact ⟨es, spanDigits_append hrun hscale.noDigit,
        spanFraction_of_ne_point hscale.ne_point, fun hnone => hsome hnone.1⟩
  | @pointed cs _ gs _ hrun hsome hfraction =>
      refine ⟨'.' :: (gs ++ es), ?_, spanDigits_append hfraction hscale.noDigit,
        fun hnone => hsome hnone.1⟩
      rw [List.append_assoc]
      exact spanDigits_append hrun (NoDigit.cons rfl)
  | @fraction gs _ hfraction hsome =>
      exact ⟨'.' :: (gs ++ es), spanDigits_of_noDigit (NoDigit.cons rfl),
        spanDigits_append hfraction hscale.noDigit, fun hnone => hsome hnone.2⟩

/-- What was cut off are digits around a point. -/
theorem mantissa_of_span {body rest es : List Char} {whole fraction : List Nat}
    (hwhole : spanDigits body = (whole, rest)) (hfraction : spanFraction rest = (fraction, es))
    (hsome : ¬(whole = [] ∧ fraction = [])) :
    ∃ ms, Mantissa ms whole fraction ∧ body = ms ++ es := by
  obtain ⟨run, hrun, hbody, -⟩ := spanDigits_eq hwhole
  by_cases hpoint : ∃ tail, rest = '.' :: tail
  · obtain ⟨tail, rfl⟩ := hpoint
    obtain ⟨after, hafter, htail, -⟩ := spanDigits_eq hfraction
    refine ⟨run ++ '.' :: after, ?_, ?_⟩
    · by_cases hnone : whole = []
      · have hnil : run = [] := by
          rw [hnone] at hrun
          exact List.eq_nil_of_length_eq_zero hrun.length_eq
        rw [hnone, hnil]
        exact Mantissa.fraction hafter fun hempty => hsome ⟨hnone, hempty⟩
      · exact Mantissa.pointed hrun hnone hafter
    · rw [hbody, htail, List.append_assoc, List.cons_append]
  · rw [spanFraction_of_ne_point fun tail heq => hpoint ⟨tail, heq⟩] at hfraction
    cases hfraction
    exact ⟨run, Mantissa.whole hrun fun hnone => hsome ⟨hnone, rfl⟩, hbody⟩

/-- What starts with a digit or a point has no minus sign in front. -/
theorem Mantissa.ne_minus {ms es : List Char} {whole fraction : List Nat}
    (h : Mantissa ms whole fraction) (rest : List Char) : ms ++ es ≠ '-' :: rest := by
  cases h with
  | fraction _ _ => simp
  | whole hrun hsome | pointed hrun hsome _ =>
      cases whole with
      | nil => exact absurd rfl hsome
      | cons d ds =>
          obtain ⟨c, tail, rfl, hdigit, -⟩ := hrun.exists_cons
          intro heq
          exact (ne_of_digit hdigit).1 (List.cons.inj heq).1

/-- Where there is no minus sign, none is taken. -/
theorem spanSign_of_ne_minus {cs : List Char} (h : ∀ rest, cs ≠ '-' :: rest) :
    spanSign cs = (false, cs) := by
  unfold spanSign
  split
  · exact absurd rfl (h _)
  · rfl

/-- **Numerals.**  A text is read as a numeral exactly when the grammar spells
this numeral with it. -/
theorem parse?_eq_some_iff {cs : List Char} {n : Numeral} :
    parse? cs = some n ↔ Spells cs n := by
  constructor
  · -- The parts are taken off the front one by one, and then only the exponent can fail.
    intro h
    cases hsign : spanSign cs with
    | mk negative body =>
        cases hwhole : spanDigits body with
        | mk whole rest =>
            cases hfraction : spanFraction rest with
            | mk fraction es =>
                simp only [parse?, hsign, hwhole, hfraction] at h
                by_cases hnone : whole = [] ∧ fraction = []
                · rw [if_pos hnone] at h
                  cases h
                · rw [if_neg hnone] at h
                  obtain ⟨e, he, rfl⟩ := Option.map_eq_some_iff.mp h
                  obtain ⟨ms, hmantissa, rfl⟩ := mantissa_of_span hwhole hfraction hnone
                  have hscale := exponent?_eq_some_iff.mp he
                  unfold spanSign at hsign
                  split at hsign
                  · cases hsign
                    exact Spells.negative hmantissa hscale
                  · cases hsign
                    exact Spells.positive hmantissa hscale
  · intro h
    cases h with
    | positive hmantissa hscale =>
        obtain ⟨rest, hwhole, hfraction, hsome⟩ := span_mantissa hmantissa hscale
        simp only [parse?, spanSign_of_ne_minus hmantissa.ne_minus, hwhole, hfraction]
        rw [if_neg hsome, exponent?_eq_some_iff.mpr hscale]
        rfl
    | negative hmantissa hscale =>
        obtain ⟨rest, hwhole, hfraction, hsome⟩ := span_mantissa hmantissa hscale
        simp only [parse?, spanSign, hwhole, hfraction]
        rw [if_neg hsome, exponent?_eq_some_iff.mpr hscale]
        rfl

/-- No numeral is read exactly from the texts that are none. -/
theorem parse?_eq_none_iff {cs : List Char} : parse? cs = none ↔ ¬IsNumeral cs := by
  constructor
  · intro h hnumeral
    obtain ⟨n, hspells⟩ := hnumeral
    rw [parse?_eq_some_iff.mpr hspells] at h
    cases h
  · intro h
    cases hparse : parse? cs with
    | none => rfl
    | some n => exact absurd ⟨n, parse?_eq_some_iff.mp hparse⟩ h

/-- The characters that numerals are made of. -/
def Part (c : Char) : Prop :=
  Text.isDigit c = true ∨ c ∈ ['-', '+', '.', 'e', 'E']

theorem Run.parts {cs : List Char} {ds : List Nat} (h : Run cs ds) :
    ∀ c ∈ cs, Part c := by
  intro c hc
  have hmem : Text.digitValue? c ∈ ds.map some := by
    rw [← h]
    exact List.mem_map_of_mem hc
  obtain ⟨d, -, hd⟩ := List.mem_map.mp hmem
  left
  rw [Text.isDigit, ← hd]
  rfl

/-- Digits and the point may stand in numerals. -/
theorem Mantissa.parts {cs : List Char} {whole fraction : List Nat}
    (h : Mantissa cs whole fraction) : ∀ c ∈ cs, Part c := by
  have hpoint : Part '.' := Or.inr (by decide)
  cases h with
  | whole hrun _ => exact hrun.parts
  | pointed hrun _ hfraction =>
      rw [List.forall_mem_append, List.forall_mem_cons]
      exact ⟨hrun.parts, hpoint, hfraction.parts⟩
  | fraction hfraction _ =>
      rw [List.forall_mem_cons]
      exact ⟨hpoint, hfraction.parts⟩

theorem part_of_mark {mark : Char} (h : mark = 'e' ∨ mark = 'E') : Part mark := by
  right
  rcases h with h | h
  all_goals
    rw [h]
    decide

/-- The mark, a sign and digits may stand in numerals. -/
theorem Scale.parts {cs : List Char} {e : Int} (h : Scale cs e) : ∀ c ∈ cs, Part c := by
  have hplus : Part '+' := Or.inr (by decide)
  have hminus : Part '-' := Or.inr (by decide)
  cases h with
  | absent =>
      intro c hc
      cases hc
  | unsigned hmark hrun _ =>
      rw [List.forall_mem_cons]
      exact ⟨part_of_mark hmark, hrun.parts⟩
  | plus hmark hrun _ =>
      rw [List.forall_mem_cons, List.forall_mem_cons]
      exact ⟨part_of_mark hmark, hplus, hrun.parts⟩
  | minus hmark hrun _ =>
      rw [List.forall_mem_cons, List.forall_mem_cons]
      exact ⟨part_of_mark hmark, hminus, hrun.parts⟩

/-- A numeral holds nothing but digits, signs, points and marks. -/
theorem Spells.parts {cs : List Char} {n : Numeral} (h : Spells cs n) :
    ∀ c ∈ cs, Part c := by
  have hminus : Part '-' := Or.inr (by decide)
  cases h with
  | positive hmantissa hscale =>
      rw [List.forall_mem_append]
      exact ⟨hmantissa.parts, hscale.parts⟩
  | negative hmantissa hscale =>
      rw [List.forall_mem_cons, List.forall_mem_append]
      exact ⟨hminus, hmantissa.parts, hscale.parts⟩

/-- The digits around the point are at least one. -/
theorem Mantissa.ne_nil {cs : List Char} {whole fraction : List Nat}
    (h : Mantissa cs whole fraction) : cs ≠ [] := by
  cases h with
  | whole hrun hsome =>
      intro hnil
      rw [hnil] at hrun
      exact hsome (List.eq_nil_of_length_eq_zero hrun.length_eq.symm)
  | pointed _ _ _ => simp
  | fraction _ _ => simp

theorem Spells.ne_nil {cs : List Char} {n : Numeral} (h : Spells cs n) : cs ≠ [] := by
  cases h with
  | positive hmantissa _ =>
      intro hnil
      exact hmantissa.ne_nil (List.append_eq_nil_iff.mp hnil).1
  | negative _ _ => simp

end Numeral

end DynLisp
