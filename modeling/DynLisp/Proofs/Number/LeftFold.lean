import DynLisp.Proofs.Number.ReadBack
import DynLisp.Proofs.Number.Summation
import DynLisp.Proofs.Number.Whole
import Mathlib.Algebra.Group.Prod
import Mathlib.Algebra.GroupWithZero.Nat
import Mathlib.Data.List.Induction

/-!
# Arithmetic from the left

Which of the arithmetic operations on many numbers are left folds, and for how many numbers.

* `Number.StepsAt` — one more number is put to the result of the others;
* `Number.NestsAt` — the result comes from results for two numbers, from the left.

Differences, quotients and remainders are folds by definition; a product starts from one, and
a sum is added to zero, which leaves everything as it is but for the sign of a zero
(`Number.one_mul`, `Number.zero_add_add`).  Sums step where `SumGoesOn` says so
(`Number.sum_stepsAt_iff`) and nest below eight terms (`Number.sum_nestsAt_iff`).  That they do
not elsewhere is shown with one great number, to which ones can be added in pairs but not one
by one: what its sums come to is counted by `Number.Absorbs`.
-/

namespace DynLisp

namespace Number

/-! ### Zero and one -/

/-- A magnitude other than zero is recovered from its units with the sign. -/
theorem ofInt_units {negative : Bool} {r : Rank} (h : r.units ≠ 0) :
    ofInt (if negative then -(r.units : Int) else r.units) = .signed negative r := by
  have hround := Rank.nearest_units_one r
  cases negative with
  | false =>
      simp only [Bool.false_eq_true, if_false, ofInt, ofUnits, Int.natAbs_natCast, hround]
      rw [decide_eq_false (by omega)]
  | true =>
      simp only [if_true, ofInt, ofUnits, Int.natAbs_neg, Int.natAbs_natCast, hround]
      rw [decide_eq_true (by omega)]

/-- A zero added to a number leaves it as it is, but for the sign of a zero. -/
theorem signed_zero_add (m n : Bool) (r : Rank) :
    add (.signed m (Rank.ofNat 0)) (.signed n r) =
      if r = Rank.ofNat 0 then .signed (m && n) (Rank.ofNat 0) else .signed n r := by
  have hfinite : Rank.ofNat 0 ≠ Rank.infinite := by decide
  have hunits : (Rank.ofNat 0).units = 0 := rfl
  have hzero : ∀ b : Bool,
      (if b then -((Rank.ofNat 0).units : Int) else (Rank.ofNat 0).units) = 0 := by
    intro b
    rw [hunits]
    cases b <;> rfl
  by_cases hinfinite : r = Rank.infinite
  · have hr : r ≠ Rank.ofNat 0 := by
      rw [hinfinite]
      exact hfinite.symm
    simp only [add, if_neg hfinite, if_pos hinfinite, if_neg hr]
  · simp only [add, if_neg hfinite, if_neg hinfinite, hzero, Int.zero_add]
    by_cases hr : r = Rank.ofNat 0
    · subst hr
      rw [if_pos rfl, if_pos (hzero n)]
    · have hunits : r.units ≠ 0 := fun h => hr (Rank.eq_zero_of_units h)
      rw [if_neg hr, ofInt_units hunits, if_neg]
      cases n <;> simpa using hunits

theorem positiveZero_signed (n : Bool) (r : Rank) :
    (signed n r).positiveZero = if r = Rank.ofNat 0 then zero else .signed n r := by
  by_cases hr : r = Rank.ofNat 0
  · rw [hr, positiveZero_zero, if_pos rfl]
  · rw [if_neg hr, positiveZero, if_neg]
    intro h
    exact hr (signed.inj h).2

/-- Zero added to a number makes a negative zero positive, and that is all. -/
theorem zero_add (y : Number) : add zero y = y.positiveZero := by
  cases y with
  | nan => rfl
  | signed n r => rw [zero, signed_zero_add, positiveZero_signed, Bool.false_and, zero]

/-- A zero that is added first does not change a sum to which zero is added. -/
theorem zero_add_add (x y : Number) : add zero (add (add zero x) y) = add zero (add x y) := by
  rw [zero_add x, zero_add, zero_add]
  by_cases hx : x = .signed true (Rank.ofNat 0)
  · rw [hx, positiveZero_zero, zero_add]
    cases y with
    | nan => rfl
    | signed n r =>
        rw [signed_zero_add, positiveZero_signed]
        split_ifs with hr
        · rw [positiveZero_zero, zero, positiveZero_zero, zero]
        · rfl
  · have hsame : x.positiveZero = x := if_neg hx
    rw [hsame]

/-- One is a finite positive magnitude. -/
theorem exists_one : ∃ r : Rank, r ≠ Rank.infinite ∧ r.units = Rank.one ∧
    one = .signed false r := by
  obtain ⟨k, hk, hone⟩ : ∃ k, k ≤ 2045 ∧ Rank.one = 2 ^ k :=
    ⟨1074, by decide, Rank.one_eq⟩
  obtain ⟨r, hfinite, hunits⟩ := Rank.exists_units (m := 1) (by decide) hk
  rw [Nat.one_mul, ← hone] at hunits
  refine ⟨r, hfinite, hunits, ?_⟩
  rw [one, ofNat, ofUnits, Nat.one_mul, ← hunits, Rank.nearest_units_one]

/-- Multiplying from one on gives the other factor, even if that is not a number. -/
theorem one_mul (y : Number) : mul one y = y := by
  obtain ⟨r, hfinite, hunits, hone⟩ := exists_one
  have hsome : r.units ≠ 0 := hunits ▸ Nat.pos_iff_ne_zero.mp Rank.one_pos
  rw [hone]
  cases y with
  | nan => rfl
  | signed n s =>
      by_cases hinfinite : s = Rank.infinite
      · have hmore : s.units ≠ 0 := by
          rw [hinfinite]
          intro h
          exact absurd (Rank.eq_zero_of_units h) (by decide)
        simp only [mul, if_pos (Or.inr hinfinite : r = _ ∨ _),
          if_neg (not_or.mpr ⟨hsome, hmore⟩)]
        rw [infinity, hinfinite]
        cases n <;> rfl
      · simp only [mul, if_neg (not_or.mpr ⟨hfinite, hinfinite⟩), hunits, ofUnits,
          Nat.mul_comm Rank.one, Rank.nearest_units s Rank.one_pos]
        cases n <;> rfl

/-! ### One more number -/

/-- With `n` numbers, one more is put to the result of the others. -/
def StepsAt (op : List Number → Number) (n : Nat) : Prop :=
  ∀ xs x, xs.length = n → op (xs ++ [x]) = op [op xs, x]

/-- The result for `n` numbers comes from results for two, from the left. -/
def NestsAt (op : List Number → Number) (n : Nat) : Prop :=
  ∀ first rest, rest.length + 1 = n →
    op (first :: rest) = rest.foldl (fun acc x => op [acc, x]) first

/-- **Steps up to a number** of numbers make the result for this number. -/
theorem nestsAt_of_steps {op : List Number → Number} {n : Nat} (hn : 2 ≤ n)
    (h : ∀ k, 2 ≤ k → k < n → StepsAt op k) : NestsAt op n := by
  intro first rest hlen
  induction rest using List.reverseRecOn generalizing n with
  | nil => simp only [List.length_nil] at hlen; omega
  | append_singleton rest x ih =>
      rw [List.length_append, List.length_singleton] at hlen
      cases rest with
      | nil => rfl
      | cons second rest =>
          rw [List.length_cons] at hlen
          have hothers := ih (n := rest.length + 2) (by omega)
            (fun k hlow hhigh => h k hlow (by omega)) rfl
          rw [List.foldl_concat, ← hothers, ← List.cons_append,
            h (rest.length + 2) (by omega) (by omega) _ _ rfl]

/-- A fold that starts with the first number takes one number more at its end. -/
theorem foldFirst_stepsAt (op : Number → Number → Number) {n : Nat} (hn : n ≠ 0) :
    StepsAt (foldFirst op zero) n := by
  intro xs x hlen
  rw [foldFirst_concat (by rintro rfl; exact hn hlen.symm)]
  rfl

/-- Products are folds from one on, so they take one number more however many there are.
-/
theorem product_stepsAt (n : Nat) : StepsAt product n := by
  intro xs x _
  rw [product, List.foldl_concat, product, List.foldl_cons, one_mul]
  rfl

/-- Sums do so where the sum goes on. -/
theorem sum_stepsAt {n : Nat} (hn : n ≠ 0) (h : SumGoesOn n) : StepsAt sum n := by
  intro xs x hlen
  have hne : xs ≠ [] := by
    rintro rfl
    exact hn hlen.symm
  have hpair : blockSum add zero [add zero (blockSum add zero xs), x] =
      add (add zero (blockSum add zero xs)) x := blockSum_of_short (by decide : 2 < 8)
  rw [sum, blockSum_concat hne (hlen.symm ▸ h), sum, sum, hpair, zero_add_add]

/-! ### Where a long sum does not go on -/

/-- The greatest number up to which all whole numbers are numbers. -/
def big : Number := ofNat (2 ^ 53)

/-- What a sum of zeros, ones and one great number comes to.  Up to two ones alone are added
up, and a single one is lost beside the great number. -/
structure Absorbs (a : Number) (counts : Nat × Nat) : Prop where
  ones : counts.1 = 0 → counts.2 ≤ 2 → a = ofNat counts.2
  great : counts.1 = 1 → counts.2 ≤ 1 → a = big

/-- Adding numbers of this kind adds what they count for. -/
theorem absorbs_represents : Represents add zero Absorbs where
  zero := ⟨fun _ _ => by decide +kernel, fun h => nomatch h⟩
  add := by
    have hones : ∀ j : Fin 3, ∀ k : Fin 3, j.val + k.val ≤ 2 →
        add (ofNat j.val) (ofNat k.val) = ofNat (j.val + k.val) := by decide +kernel
    have hleft : ∀ k : Fin 2, add big (ofNat k.val) = big := by decide +kernel
    have hright : ∀ k : Fin 2, add (ofNat k.val) big = big := by decide +kernel
    rintro a b ⟨m, j⟩ ⟨n, k⟩ ha hb
    constructor
    · intro hgreat hfew
      simp only [Prod.fst_add, Prod.snd_add] at hgreat hfew ⊢
      rw [ha.ones (by show m = 0; omega) (by show j ≤ 2; omega),
        hb.ones (by show n = 0; omega) (by show k ≤ 2; omega)]
      exact hones ⟨j, by omega⟩ ⟨k, by omega⟩ hfew
    · intro hgreat hfew
      simp only [Prod.fst_add, Prod.snd_add] at hgreat hfew
      rcases Nat.eq_zero_or_pos m with rfl | hm
      · rw [ha.ones rfl (by show j ≤ 2; omega),
          hb.great (by show n = 1; omega) (by show k ≤ 1; omega)]
        exact hright ⟨j, by omega⟩
      · rw [ha.great (by show m = 1; omega) (by show j ≤ 1; omega),
          hb.ones (by show n = 0; omega) (by show k ≤ 2; omega)]
        exact hleft ⟨k, by omega⟩

theorem forall₂_replicate {a : Number} {m : Nat × Nat} (h : Absorbs a m) (k : Nat) :
    List.Forall₂ Absorbs (List.replicate k a) (List.replicate k m) := by
  induction k with
  | zero => exact .nil
  | succ k ih => exact .cons h ih

/-- A great number, zeros, and ones at the end. -/
def terms (zeros ones : Nat) : List Number :=
  big :: (List.replicate zeros zero ++ List.replicate ones one)

/-- What the terms count for. -/
def termCounts (zeros ones : Nat) : List (Nat × Nat) :=
  (1, 0) :: (List.replicate zeros 0 ++ List.replicate ones (0, 1))

theorem absorbs_big : Absorbs big (1, 0) := ⟨(fun h => nomatch h), fun _ _ => rfl⟩

theorem absorbs_one : Absorbs one (0, 1) := ⟨fun _ _ => rfl, fun h => nomatch h⟩

/-- The terms count for what they are made of. -/
theorem absorbs_terms (zeros ones : Nat) :
    List.Forall₂ Absorbs (terms zeros ones) (termCounts zeros ones) :=
  .cons absorbs_big (List.rel_append (forall₂_replicate absorbs_represents.zero zeros)
    (forall₂_replicate absorbs_one ones))

/-- All in all, they are one great number and the ones at the end. -/
theorem sum_termCounts (zeros ones : Nat) : (termCounts zeros ones).sum = (1, ones) := by
  rw [termCounts, List.sum_cons, List.sum_append, List.sum_replicate, List.sum_replicate,
    nsmul_zero, AddMonoid.zero_add]
  simp

/-- One one is lost beside the great number. -/
theorem sum_terms_one (zeros : Nat) : sum (terms zeros 1) = big := by
  have hblock := blockSum_represents absorbs_represents (absorbs_terms zeros 1)
  rw [sum_termCounts] at hblock
  rw [sum, hblock.great rfl (Nat.le_refl 1)]
  decide +kernel

/-- Two ones are not, if they end up in one block without the great number. -/
theorem blockSum_terms_two_long {zeros : Nat} (h : 128 < zeros + 3) :
    blockSum add zero (terms zeros 2) = add big (ofNat 2) := by
  have hlen : (terms zeros 2).length = zeros + 3 := by simp [terms]
  obtain ⟨d, hd⟩ : ∃ d, cutPoint (zeros + 3) = d + 1 :=
    Nat.exists_eq_succ_of_ne_zero (by unfold cutPoint; omega)
  have hle : d ≤ zeros := by
    unfold cutPoint at hd
    omega
  have hfirst : ((termCounts zeros 2).take (d + 1)).sum = (1, 0) := by
    rw [termCounts, List.take_succ_cons, List.take_append_of_le_length (by simpa using hle),
      List.take_replicate, List.sum_cons, List.sum_replicate, nsmul_zero]
    rfl
  have hsecond : ((termCounts zeros 2).drop (d + 1)).sum = (0, 2) := by
    have htotal := List.sum_take_add_sum_drop (termCounts zeros 2) (d + 1)
    rw [hfirst, sum_termCounts] at htotal
    have hgreat := congrArg Prod.fst htotal
    have hones := congrArg Prod.snd htotal
    simp only [Prod.fst_add, Prod.snd_add] at hgreat hones
    exact Prod.ext (by show _ = 0; omega) (by show _ = 2; omega)
  have hterms := absorbs_terms zeros 2
  have hleft := blockSum_represents absorbs_represents (List.forall₂_take (d + 1) hterms)
  have hright := blockSum_represents absorbs_represents (List.forall₂_drop (d + 1) hterms)
  rw [hfirst] at hleft
  rw [hsecond] at hright
  rw [blockSum_of_long (by rw [hlen]; exact h), hlen, hd, hleft.great rfl (Nat.zero_le _),
    hright.ones rfl (Nat.le_refl 2)]

/-- They also are not if they are the last of a round. -/
theorem blockSum_terms_two_block {zeros : Nat} (hhigh : zeros + 3 ≤ 128)
    (hround : (zeros + 3) % 8 = 0) : blockSum add zero (terms zeros 2) = add big (ofNat 2) := by
  have hlen : (terms zeros 2).length = zeros + 3 := by simp [terms]
  rw [blockSum_of_block (by omega) (by omega)]
  rcases Nat.lt_or_ge zeros 13 with hone | hmore
  · obtain rfl : zeros = 5 := by omega
    decide +kernel
  · -- The great number opens the first round, and the ones close the last.
    obtain ⟨i, rfl⟩ : ∃ i, zeros = 7 + (8 * i + 6) := ⟨(zeros - 13) / 8, by omega⟩
    have hterms : terms (7 + (8 * i + 6)) 2 = (big :: List.replicate 7 zero) ++
        (List.replicate (8 * i) zero ++ (List.replicate 6 zero ++ List.replicate 2 one)) := by
      simp only [terms, List.replicate_add, List.cons_append, List.append_assoc]
    have hlanes : (big :: List.replicate 7 zero).length = 8 := rfl
    have hsame : ∀ a ∈ big :: List.replicate 7 zero, add a zero = a := by decide +kernel
    rw [hterms, laneSum, List.take_left' hlanes, List.drop_left' hlanes, deal_zeros hlanes hsame]
    decide +kernel

/-- **One more number** is put to the sum of the others exactly if the sum goes on. -/
theorem sum_stepsAt_iff {n : Nat} (hn : 2 ≤ n) : StepsAt sum n ↔ SumGoesOn n := by
  refine ⟨fun h => ?_, sum_stepsAt (by omega)⟩
  by_contra hstops
  obtain ⟨zeros, rfl⟩ : ∃ zeros, n = zeros + 2 := ⟨n - 2, by omega⟩
  have hlen : (terms zeros 1).length = zeros + 2 := by simp [terms]
  have hmore : terms zeros 1 ++ [one] = terms zeros 2 := by
    simp only [terms, List.cons_append, List.append_assoc]
    rfl
  have hsum : blockSum add zero (terms zeros 2) = add big (ofNat 2) := by
    unfold SumGoesOn at hstops
    rcases Nat.lt_or_ge 128 (zeros + 3) with hlong | hhigh
    · exact blockSum_terms_two_long hlong
    · exact blockSum_terms_two_block hhigh (by omega)
  have hstep := h _ one hlen
  rw [hmore, sum_terms_one, sum, hsum] at hstep
  exact absurd hstep (by decide +kernel)

/-! ### Where a long sum does not come from the left -/

/-- The first round of a sum that is lost when it is added from the left. -/
def firstRound : List Number := [big, zero, zero, zero, zero, zero, one, one]

/-- A fold stays where it starts if no step leads away. -/
theorem foldl_eq_self {op : Number → Number → Number} {acc : Number} {xs : List Number}
    (h : ∀ x ∈ xs, op acc x = acc) : xs.foldl op acc = acc := by
  induction xs with
  | nil => rfl
  | cons x xs ih =>
      rw [List.foldl_cons, h x List.mem_cons_self]
      exact ih fun y hy => h y (List.mem_cons_of_mem x hy)

/-- Zeros add up to zero, in whatever order. -/
theorem blockSum_zeros (zeros : Nat) : blockSum add zero (List.replicate zeros zero) = zero := by
  have hzeros := blockSum_represents absorbs_represents
    (forall₂_replicate absorbs_represents.zero zeros)
  rw [List.sum_replicate, nsmul_zero] at hzeros
  rw [hzeros.ones rfl (Nat.zero_le _)]
  decide +kernel

/-- Zeros after the first round do not change its sum. -/
theorem blockSum_firstRound (zeros : Nat) :
    blockSum add zero (firstRound ++ List.replicate zeros zero) = add big (ofNat 2) := by
  have htotal : add (add big (ofNat 2)) zero = add big (ofNat 2) := by decide +kernel
  have hlen : (firstRound ++ List.replicate zeros zero).length = zeros + 8 := by
    rw [List.length_append, List.length_replicate, Nat.add_comm]
    rfl
  rcases Nat.lt_or_ge 128 (zeros + 8) with hlong | hhigh
  · -- The first round stays at the front of the first part.
    obtain ⟨first, hfirst⟩ : ∃ first, cutPoint (zeros + 8) = first + 8 :=
      ⟨cutPoint (zeros + 8) - 8, by unfold cutPoint; omega⟩
    obtain ⟨second, rfl⟩ : ∃ second, zeros = first + second :=
      Nat.exists_eq_add_of_le (by unfold cutPoint at hfirst; omega)
    have hfront : (firstRound ++ List.replicate first zero).length = first + 8 := by
      rw [List.length_append, List.length_replicate, Nat.add_comm]
      rfl
    rw [blockSum_of_long (by omega), hlen, hfirst, List.replicate_add, ← List.append_assoc,
      List.take_left' hfront, List.drop_left' hfront, blockSum_firstRound first, blockSum_zeros,
      htotal]
  · obtain ⟨i, rest, hrest, rfl⟩ : ∃ i rest, rest < 8 ∧ zeros = 8 * i + rest :=
      ⟨zeros / 8, zeros % 8, by omega, by omega⟩
    have hround : firstRound.length = 8 := rfl
    have hsame : ∀ a ∈ firstRound, add a zero = a := by decide +kernel
    have hpairs : pairUp add (pairUp add (pairUp add firstRound)) = [add big (ofNat 2)] := by
      decide +kernel
    rw [blockSum_of_block (by omega) (by omega), laneSum, List.take_left' hround,
      List.drop_left' hround, List.replicate_add, deal_zeros hround hsame,
      deal_of_short (by rwa [List.length_replicate])]
    simp only [hpairs, List.cons_append, List.nil_append, foldFirst]
    exact foldl_eq_self fun x hx => by rw [List.eq_of_mem_replicate hx, htotal]
termination_by zeros
decreasing_by
  unfold cutPoint at hfirst
  omega

/-- **The nested sums of two** are the sum of all exactly if these are fewer than eight. -/
theorem sum_nestsAt_iff {n : Nat} (hn : 2 ≤ n) : NestsAt sum n ↔ n < 8 := by
  constructor
  · intro h
    by_contra hmore
    obtain ⟨zeros, rfl⟩ : ∃ zeros, n = zeros + 8 := ⟨n - 8, by omega⟩
    have hnested := h big (firstRound.tail ++ List.replicate zeros zero) (by simp [firstRound])
    have hlost : ∀ x ∈ firstRound.tail ++ List.replicate zeros zero, sum [big, x] = big := by
      have hzero : sum [big, zero] = big := by decide +kernel
      have hround : ∀ x ∈ firstRound.tail, sum [big, x] = big := by decide +kernel
      intro x hx
      rcases List.mem_append.mp hx with hx | hx
      · exact hround x hx
      · rw [List.eq_of_mem_replicate hx, hzero]
    have hall : big :: (firstRound.tail ++ List.replicate zeros zero) =
        firstRound ++ List.replicate zeros zero := rfl
    rw [foldl_eq_self hlost, hall, sum, blockSum_firstRound] at hnested
    exact absurd hnested (by decide +kernel)
  · intro hless
    exact nestsAt_of_steps hn fun k hlow hhigh => sum_stepsAt (by omega) (.inl (by omega))

end Number

end DynLisp
