import DynLisp.Number.Summation
import Mathlib.Algebra.BigOperators.Group.List.Basic

/-!
# The shape of a long sum

What a long sum adds to what depends on the number of its terms alone.  With any addition:

* `blockSum_concat` — one more term is added to the sum of the others, unless it fills up a
  round of eight or makes the sum too long for one block (`SumGoesOn`);
* `blockSum_represents` — if an addition stands for another one that is associative and
  commutative, then the sum stands for the sum of all terms, each taken once.

Dealing goes by rounds (`deal_round`) until fewer than eight terms are left (`deal_of_short`);
what is said of it is shown by induction on the rounds (`rounds_induction`).
-/

namespace DynLisp

/-- The numbers of terms whose sum goes on with one more: it is added to the sum so far. -/
def SumGoesOn (n : Nat) : Prop := n < 7 ∨ 8 ≤ n ∧ n < 128 ∧ n % 8 ≠ 7

section Shape

variable {α : Type} {add : α → α → α} {zero : α}

/-- One more term at the end of a left fold is added last. -/
theorem foldFirst_concat {xs : List α} (h : xs ≠ []) (x : α) :
    foldFirst add zero (xs ++ [x]) = add (foldFirst add zero xs) x := by
  cases xs with
  | nil => exact absurd rfl h
  | cons y ys => rw [List.cons_append, foldFirst, foldFirst, List.foldl_concat]

/-! ### Dealing -/

/-- Fewer than eight terms are left over. -/
theorem deal_of_short {lanes ys : List α} (h : ys.length < 8) :
    deal add lanes ys = (lanes, ys) := by
  unfold deal
  split
  · simp only [List.length_cons] at h
    omega
  · rfl

/-- A round of eight terms goes to the eight lanes. -/
theorem deal_round {block : List α} (h : block.length = 8) (lanes rest : List α) :
    deal add lanes (block ++ rest) = deal add (List.zipWith add lanes block) rest := by
  match block, h with
  | [_, _, _, _, _, _, _, _], _ => rfl

/-- What holds of fewer than eight terms, and of a round and more if it holds of the others,
holds of all lists of terms. -/
theorem rounds_induction {P : List α → Prop} (short : ∀ ys, ys.length < 8 → P ys)
    (round : ∀ block rest, block.length = 8 → P rest → P (block ++ rest)) (ys : List α) :
    P ys := by
  by_cases h : ys.length < 8
  · exact short ys h
  · rw [← List.take_append_drop 8 ys]
    have hblock : (ys.take 8).length = 8 := by
      rw [List.length_take]
      omega
    exact round _ _ hblock (rounds_induction short round (ys.drop 8))
termination_by ys.length
decreasing_by
  rw [List.length_drop]
  omega

/-- One more term is left over with the others, unless it completes a round. -/
theorem deal_concat {ys : List α} (h : ys.length % 8 ≠ 7) (x : α) (lanes : List α) :
    deal add lanes (ys ++ [x]) = ((deal add lanes ys).1, (deal add lanes ys).2 ++ [x]) := by
  induction ys using rounds_induction generalizing lanes with
  | short ys hshort =>
      have hmore : (ys ++ [x]).length < 8 := by
        rw [List.length_append, List.length_singleton]
        omega
      rw [deal_of_short hmore, deal_of_short hshort]
  | round block rest hblock ih =>
      rw [List.length_append, hblock, Nat.add_mod_left] at h
      rw [List.append_assoc, deal_round hblock, deal_round hblock, ih h]

/-- Dealing leaves no lane out. -/
theorem deal_ne_nil {lanes : List α} (h : lanes ≠ []) (ys : List α) :
    (deal add lanes ys).1 ≠ [] := by
  induction ys using rounds_induction generalizing lanes with
  | short ys hshort => rwa [deal_of_short hshort]
  | round block rest hblock ih =>
      rw [deal_round hblock]
      refine ih fun hnil => ?_
      rcases List.zipWith_eq_nil_iff.mp hnil with hlanes | rfl
      · exact h hlanes
      · cases hblock

/-- Pairs of lanes are lanes. -/
theorem pairUp_ne_nil {lanes : List α} (h : lanes ≠ []) : pairUp add lanes ≠ [] := by
  unfold pairUp
  split
  · exact List.cons_ne_nil _ _
  · exact h

/-- One more term comes after the sum of the lanes, unless it completes a round. -/
theorem laneSum_concat {xs : List α} (hlow : 8 ≤ xs.length) (h : xs.length % 8 ≠ 7) (x : α) :
    laneSum add zero (xs ++ [x]) = add (laneSum add zero xs) x := by
  have htake : (xs ++ [x]).take 8 = xs.take 8 := List.take_append_of_le_length hlow
  have hdrop : (xs ++ [x]).drop 8 = xs.drop 8 ++ [x] := List.drop_append_of_le_length hlow
  have hrest : (xs.drop 8).length % 8 ≠ 7 := by
    rw [List.length_drop]
    omega
  have hlanes : xs.take 8 ≠ [] := by
    rw [← List.length_pos_iff, List.length_take]
    omega
  have hsome : pairUp add (pairUp add (pairUp add (deal add (xs.take 8) (xs.drop 8)).1)) ≠ [] :=
    pairUp_ne_nil (pairUp_ne_nil (pairUp_ne_nil (deal_ne_nil hlanes _)))
  simp only [laneSum, htake, hdrop, deal_concat hrest, ← List.append_assoc]
  exact foldFirst_concat (List.append_ne_nil_of_left_ne_nil hsome _) x

/-- Rounds of zeros leave the lanes as they are. -/
theorem deal_zeros {lanes : List α} (hlen : lanes.length = 8) (h : ∀ a ∈ lanes, add a zero = a)
    (i : Nat) (rest : List α) :
    deal add lanes (List.replicate (8 * i) zero ++ rest) = deal add lanes rest := by
  have hsame : List.zipWith add lanes (List.replicate 8 zero) = lanes := by
    refine List.ext_getElem (by rw [List.length_zipWith, List.length_replicate, hlen, Nat.min_self])
      fun j hj hj' => ?_
    rw [List.getElem_zipWith, List.getElem_replicate]
    exact h _ (List.getElem_mem hj')
  induction i with
  | zero => rw [Nat.mul_zero, List.replicate_zero, List.nil_append]
  | succ i ih =>
      rw [Nat.mul_succ, Nat.add_comm, List.replicate_add, List.append_assoc,
        deal_round List.length_replicate, hsame, ih]

/-! ### Blocks -/

/-- Fewer than eight terms are added from the left. -/
theorem blockSum_of_short {xs : List α} (h : xs.length < 8) :
    blockSum add zero xs = foldFirst add zero xs := by
  rw [blockSum, if_pos h]

/-- Eight to 128 terms are added in lanes. -/
theorem blockSum_of_block {xs : List α} (hlow : 8 ≤ xs.length) (hhigh : xs.length ≤ 128) :
    blockSum add zero xs = laneSum add zero xs := by
  rw [blockSum, if_neg (by omega), if_pos hhigh]

/-- More terms are cut in two. -/
theorem blockSum_of_long {xs : List α} (h : 128 < xs.length) :
    blockSum add zero xs = add (blockSum add zero (xs.take (cutPoint xs.length)))
      (blockSum add zero (xs.drop (cutPoint xs.length))) := by
  rw [blockSum, if_neg (by omega), if_neg (by omega)]

/-- **One more term** is added to the sum of the others. -/
theorem blockSum_concat {xs : List α} (hne : xs ≠ []) (h : SumGoesOn xs.length) (x : α) :
    blockSum add zero (xs ++ [x]) = add (blockSum add zero xs) x := by
  have hlen : (xs ++ [x]).length = xs.length + 1 := by
    rw [List.length_append, List.length_singleton]
  rcases h with hshort | ⟨hlow, hhigh, hround⟩
  · rw [blockSum_of_short (by omega), blockSum_of_short (by omega), foldFirst_concat hne]
  · rw [blockSum_of_block (by omega) (by omega), blockSum_of_block hlow (by omega),
      laneSum_concat hlow hround]

/-! ### What a sum stands for -/

section Represents

variable {M : Type} [AddCommMonoid M] {R : α → M → Prop}

/-- Under a relation, an addition stands for another one, and its zero for zero. -/
structure Represents (add : α → α → α) (zero : α) (R : α → M → Prop) : Prop where
  zero : R zero 0
  add : ∀ {a b m n}, R a m → R b n → R (add a b) (m + n)

variable (hR : Represents add zero R)

include hR

/-- A fold stands for the start and the sum of the terms. -/
theorem foldl_represents {xs : List α} {ms : List M} (h : List.Forall₂ R xs ms) {a : α} {m : M}
    (ha : R a m) : R (xs.foldl add a) (m + ms.sum) := by
  induction h generalizing a m with
  | nil => rwa [List.sum_nil, add_zero]
  | cons hx _ ih =>
      rw [List.foldl_cons, List.sum_cons, ← add_assoc]
      exact ih (hR.add ha hx)

/-- So does the fold that starts with the first term. -/
theorem foldFirst_represents {xs : List α} {ms : List M} (h : List.Forall₂ R xs ms) :
    R (foldFirst add zero xs) ms.sum := by
  cases h with
  | nil => exact hR.zero
  | cons hx hrest =>
      rw [List.sum_cons]
      exact foldl_represents hR hrest hx

/-- Adding lane by lane stands for adding lane by lane. -/
theorem zipWith_represents {xs ys : List α} {ms ns : List M} (hx : List.Forall₂ R xs ms)
    (hy : List.Forall₂ R ys ns) :
    List.Forall₂ R (List.zipWith add xs ys) (List.zipWith (· + ·) ms ns) := by
  induction hx generalizing ys ns with
  | nil => exact .nil
  | cons hx _ ih =>
      cases hy with
      | nil => exact .nil
      | cons hy hrest => exact .cons (hR.add hx hy) (ih hrest)

/-- Adding in pairs keeps the total. -/
theorem pairUp_represents {xs : List α} {ms : List M} (h : List.Forall₂ R xs ms) :
    ∃ ns, List.Forall₂ R (pairUp add xs) ns ∧ ns.sum = ms.sum := by
  induction xs using pairUp.induct generalizing ms with
  | case1 x y rest ih =>
      obtain _ | ⟨hx, _ | ⟨hy, hrest⟩⟩ := h
      obtain ⟨ns, hns, hsum⟩ := ih hrest
      refine ⟨_ :: ns, .cons (hR.add hx hy) hns, ?_⟩
      rw [List.sum_cons, List.sum_cons, List.sum_cons, hsum, add_assoc]
  | case2 rest hshort =>
      rw [pairUp]
      · exact ⟨ms, h, rfl⟩
      · exact hshort

/-- Dealing keeps the total of the lanes and the terms. -/
theorem deal_represents {lanes xs : List α} {ns ms : List M} (hlen : lanes.length = 8)
    (hlanes : List.Forall₂ R lanes ns) (h : List.Forall₂ R xs ms) :
    ∃ ns' ms', List.Forall₂ R (deal add lanes xs).1 ns' ∧
      List.Forall₂ R (deal add lanes xs).2 ms' ∧ ns'.sum + ms'.sum = ns.sum + ms.sum := by
  induction xs using rounds_induction generalizing lanes ns ms with
  | short xs hshort =>
      rw [deal_of_short hshort]
      exact ⟨ns, ms, hlanes, h, rfl⟩
  | round block rest hblock ih =>
      have hfirst := List.forall₂_take 8 h
      have hothers := List.forall₂_drop 8 h
      rw [← hblock, List.take_left] at hfirst
      rw [← hblock, List.drop_left] at hothers
      have hsame : ns.length = (ms.take block.length).length := by
        rw [← hlanes.length_eq, ← hfirst.length_eq, hlen, hblock]
      obtain ⟨ns', ms', hns', hms', hsum⟩ := ih (by
        rw [List.length_zipWith, hlen, hblock, Nat.min_self]) (zipWith_represents hR hlanes hfirst)
        hothers
      rw [deal_round hblock]
      refine ⟨ns', ms', hns', hms', ?_⟩
      rw [hsum, ← List.sum_add_sum_eq_sum_zipWith_of_length_eq _ _ hsame, add_assoc,
        List.sum_take_add_sum_drop]

/-- In lanes, too, every term is taken once. -/
theorem laneSum_represents {xs : List α} {ms : List M} (hlen : 8 ≤ xs.length)
    (h : List.Forall₂ R xs ms) : R (laneSum add zero xs) ms.sum := by
  have htake : (xs.take 8).length = 8 := by
    rw [List.length_take]
    omega
  obtain ⟨ns, rest, hns, hrest, hsum⟩ :=
    deal_represents hR htake (List.forall₂_take 8 h) (List.forall₂_drop 8 h)
  obtain ⟨ns₄, h₄, hsum₄⟩ := pairUp_represents hR hns
  obtain ⟨ns₂, h₂, hsum₂⟩ := pairUp_represents hR h₄
  obtain ⟨ns₁, h₁, hsum₁⟩ := pairUp_represents hR h₂
  have htotal := foldFirst_represents hR (List.rel_append h₁ hrest)
  rwa [List.sum_append, hsum₁, hsum₂, hsum₄, hsum, List.sum_take_add_sum_drop] at htotal

/-- **Every term once.**  If an addition stands for one that is associative and commutative,
then a long sum stands for the sum of all of its terms. -/
theorem blockSum_represents {xs : List α} {ms : List M} (h : List.Forall₂ R xs ms) :
    R (blockSum add zero xs) ms.sum := by
  rcases Nat.lt_or_ge xs.length 8 with hshort | hlow
  · rw [blockSum_of_short hshort]
    exact foldFirst_represents hR h
  · rcases Nat.lt_or_ge 128 xs.length with hlong | hhigh
    · rw [blockSum_of_long hlong, ← List.sum_take_add_sum_drop ms (cutPoint xs.length)]
      exact hR.add (blockSum_represents (List.forall₂_take _ h))
        (blockSum_represents (List.forall₂_drop _ h))
    · rw [blockSum_of_block hlow hhigh]
      exact laneSum_represents hR hlow h
termination_by xs.length
decreasing_by
  · rw [List.length_take, cutPoint]
    omega
  · rw [List.length_drop, cutPoint]
    omega

end Represents

end Shape

end DynLisp
