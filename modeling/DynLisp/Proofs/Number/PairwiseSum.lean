import DynLisp.Proofs.Number.Summation
import Mathlib.Algebra.BigOperators.Fin

/-!
# Pairwise sums

The scheme of a long sum, told by the places of its terms and for any addition.

* `PairwiseSum` — what comes of the terms; a derivation is a run of the recursion that ends;
* `PairwiseSum.unique`, `pairwiseSum_blockSum` — one term or more have exactly one such total,
  and `blockSum` computes it;
* `PairwiseSum.map` — a map from one addition to another one takes totals to totals;
* `exists_sumTree` — so the scheme is an expression (`SumTree`), and this has every place once.

Lanes are filled round by round.  What is in a lane in the end is the sum of a column of the
terms, every eighth one, from the left (`deal_columns`).
-/

namespace DynLisp

universe u v

section Scheme

variable {α : Type u} {β : Type v}

/-- A sum from the left, of one term or more. -/
inductive LeftSum (add : α → α → α) : List α → α → Prop
  | intro (x : α) (xs : List α) : LeftSum add (x :: xs) (xs.foldl add x)

/-- Every eighth term from the given place on, as far as there are full rounds. -/
def column (xs : List α) (j : Nat) : List α :=
  (List.range (xs.length / 8)).filterMap fun k => xs[8 * k + j]?

/-- The scheme.  Fewer than eight terms are added from the left.  Up to 128 terms make eight
columns, whose sums are added in pairs and in pairs of pairs, and the terms after the last full
round are added one by one.  More terms are cut at the greatest multiple of eight up to their
middle, and the totals of both parts are added. -/
inductive PairwiseSum (add : α → α → α) : List α → α → Prop
  | few {xs : List α} {total : α} (hshort : xs.length < 8) (htotal : LeftSum add xs total) :
      PairwiseSum add xs total
  | lanes {xs : List α} {r : Fin 8 → α} (hlow : 8 ≤ xs.length) (hhigh : xs.length ≤ 128)
      (hlanes : ∀ j : Fin 8, LeftSum add (column xs j) (r j)) :
      PairwiseSum add xs ((xs.drop (8 * (xs.length / 8))).foldl add
        (add (add (add (r 0) (r 1)) (add (r 2) (r 3))) (add (add (r 4) (r 5)) (add (r 6) (r 7)))))
  | halves {xs : List α} {h : Nat} {front back : α} (hlong : 128 < xs.length) (hround : 8 ∣ h)
      (hle : h ≤ xs.length / 2) (hlt : xs.length / 2 < h + 8)
      (hfront : PairwiseSum add (xs.take h) front) (hback : PairwiseSum add (xs.drop h) back) :
      PairwiseSum add xs (add front back)

variable {add : α → α → α}

/-- Terms have one sum from the left. -/
theorem LeftSum.unique {xs : List α} {a b : α} (ha : LeftSum add xs a) (hb : LeftSum add xs b) :
    a = b := by
  cases ha
  cases hb
  rfl

/-- The scheme makes no more than one total of its terms. -/
theorem PairwiseSum.unique {xs : List α} {a b : α} (ha : PairwiseSum add xs a)
    (hb : PairwiseSum add xs b) : a = b := by
  -- The rules are for different numbers of terms, and the number determines the cut.
  induction ha generalizing b with
  | few hshort htotal =>
      cases hb with
      | few _ htotal' => exact htotal.unique htotal'
      | lanes hlow _ _ => omega
      | halves hlong _ _ _ _ _ => omega
  | lanes hlow hhigh hlanes =>
      cases hb with
      | few hshort _ => omega
      | lanes _ _ hlanes' => rw [funext fun j => (hlanes j).unique (hlanes' j)]
      | halves hlong _ _ _ _ _ => omega
  | @halves _ h _ _ hlong hround hle hlt _ _ ihfront ihback =>
      cases hb with
      | few hshort _ => omega
      | lanes _ hhigh _ => omega
      | @halves _ h' _ _ _ hround' hle' hlt' hfront' hback' =>
          obtain rfl : h = h' := by omega
          rw [ihfront hfront', ihback hback']

/-! ### Other additions -/

section Map

variable {add' : β → β → β} {f : α → β} (hf : ∀ a b, f (add a b) = add' (f a) (f b))

include hf

/-- A map that respects the addition goes through a fold. -/
theorem foldl_map_hom (xs : List α) (a : α) :
    (xs.map f).foldl add' (f a) = f (xs.foldl add a) := by
  rw [List.foldl_map, List.foldl_hom f fun b x => (hf b x).symm]

/-- So it takes sums from the left to such sums. -/
theorem LeftSum.map {xs : List α} {total : α} (h : LeftSum add xs total) :
    LeftSum add' (xs.map f) (f total) := by
  cases h with
  | intro x xs =>
      rw [← foldl_map_hom hf]
      exact .intro (f x) (xs.map f)

omit hf in
/-- The columns of mapped terms are mapped columns. -/
theorem column_map (xs : List α) (j : Nat) : column (xs.map f) j = (column xs j).map f := by
  simp only [column, List.length_map, List.getElem?_map, List.map_filterMap]

/-- A map from one addition to another one takes totals to totals. -/
theorem PairwiseSum.map {xs : List α} {total : α} (h : PairwiseSum add xs total) :
    PairwiseSum add' (xs.map f) (f total) := by
  induction h with
  | few hshort htotal => exact .few (by rwa [List.length_map]) (htotal.map hf)
  | @lanes xs r hlow hhigh hlanes =>
      rw [← foldl_map_hom hf, List.map_drop, ← List.length_map f]
      simp only [hf]
      refine .lanes (r := f ∘ r) (by rwa [List.length_map]) (by rwa [List.length_map]) fun j => ?_
      rw [column_map]
      exact (hlanes j).map hf
  | halves hlong hround hle hlt _ _ ihfront ihback =>
      rw [hf]
      rw [List.map_take] at ihfront
      rw [List.map_drop] at ihback
      rw [← List.length_map f] at hlong hle hlt
      exact .halves hlong hround hle hlt ihfront ihback

end Map

end Scheme

/-! ### Blocks -/

section Blocks

variable {α : Type} {add : α → α → α} {zero : α}

/-- A list of `n` elements is a table of `n` places. -/
theorem exists_eq_ofFn {n : Nat} {xs : List α} (h : xs.length = n) :
    ∃ x : Fin n → α, xs = List.ofFn x := by
  subst h
  exact ⟨xs.get, (List.ofFn_get xs).symm⟩

/-- No round is complete, so the columns are empty. -/
theorem column_of_short {xs : List α} (h : xs.length < 8) (j : Nat) : column xs j = [] := by
  rw [column, Nat.div_eq_of_lt h]
  rfl

/-- A full round puts one term in front of each column. -/
theorem column_round (block : Fin 8 → α) (rest : List α) (j : Fin 8) :
    column (List.ofFn block ++ rest) j = block j :: column rest j := by
  have hrounds : (List.ofFn block ++ rest).length / 8 = rest.length / 8 + 1 := by
    rw [List.length_append, List.length_ofFn]
    omega
  have hfirst : (List.ofFn block ++ rest)[8 * 0 + j.val]? = some (block j) := by
    rw [Nat.mul_zero, Nat.zero_add, List.getElem?_append_left (by simp), List.getElem?_ofFn]
    simp
  have hothers : ∀ k, (List.ofFn block ++ rest)[8 * (k + 1) + j.val]? = rest[8 * k + j.val]? := by
    intro k
    rw [List.getElem?_append_right (by rw [List.length_ofFn]; omega), List.length_ofFn]
    congr 1
    omega
  rw [column, hrounds, List.range_succ_eq_map, List.filterMap_cons, hfirst, List.filterMap_map]
  simp only [Function.comp_def, Nat.succ_eq_add_one, hothers]
  rfl

/-- What is in the lanes in the end, and which terms are left.  The lanes start with anything, as
each round leaves others behind. -/
theorem deal_columns (lane : Fin 8 → α) (ys : List α) :
    deal add (List.ofFn lane) ys =
      (List.ofFn fun j => (column ys j).foldl add (lane j), ys.drop (8 * (ys.length / 8))) := by
  induction ys using rounds_induction generalizing lane with
  | short ys hshort =>
      simp only [deal_of_short hshort, column_of_short hshort, Nat.div_eq_of_lt hshort,
        Nat.mul_zero, List.drop_zero, List.foldl_nil]
  | round block rest hblock ih =>
      obtain ⟨b, rfl⟩ := exists_eq_ofFn hblock
      have hlanes : List.zipWith add (List.ofFn lane) (List.ofFn b) =
          List.ofFn fun j => add (lane j) (b j) := by
        refine List.ext_getElem (by simp) fun j hj hj' => ?_
        simp only [List.getElem_zipWith, List.getElem_ofFn]
      have hrest : (List.ofFn b ++ rest).drop (8 * ((List.ofFn b ++ rest).length / 8)) =
          rest.drop (8 * (rest.length / 8)) := by
        rw [List.length_append, hblock, Nat.add_div_left _ (by decide), Nat.mul_succ, Nat.add_comm,
          ← List.drop_drop, List.drop_left' hblock]
      rw [deal_round hblock, hlanes, ih, hrest]
      simp only [column_round, List.foldl_cons]

/-- The eight lanes are added in pairs, the pairs in pairs, and the last two. -/
theorem pairUp_lanes (r : Fin 8 → α) : pairUp add (pairUp add (pairUp add (List.ofFn r))) =
    [add (add (add (r 0) (r 1)) (add (r 2) (r 3))) (add (add (r 4) (r 5)) (add (r 6) (r 7)))] :=
  rfl

/-- Eight to 128 terms are added in lanes, as the scheme says. -/
theorem pairwiseSum_laneSum {xs : List α} (hlow : 8 ≤ xs.length) (hhigh : xs.length ≤ 128) :
    PairwiseSum add xs (laneSum add zero xs) := by
  have htake : (xs.take 8).length = 8 := by
    rw [List.length_take]
    omega
  obtain ⟨first, hfirst⟩ := exists_eq_ofFn htake
  have hlanes : ∀ j : Fin 8,
      LeftSum add (column xs j) ((column (xs.drop 8) j).foldl add (first j)) := by
    intro j
    have hcolumn : column xs j = first j :: column (xs.drop 8) j := by
      rw [← column_round, ← hfirst, List.take_append_drop]
    rw [hcolumn]
    exact .intro (first j) (column (xs.drop 8) j)
  have hrest : (xs.drop 8).drop (8 * ((xs.drop 8).length / 8)) = xs.drop (8 * (xs.length / 8)) := by
    rw [List.drop_drop, List.length_drop]
    congr 1
    omega
  simp only [laneSum, hfirst, deal_columns, hrest, pairUp_lanes, List.singleton_append, foldFirst]
  exact .lanes hlow hhigh hlanes

/-- **The recursion ends** for one term and more, with the total that `blockSum` computes. -/
theorem pairwiseSum_blockSum {xs : List α} (hne : xs ≠ []) :
    PairwiseSum add xs (blockSum add zero xs) := by
  induction xs using blockSum.induct with
  | case1 xs hshort =>
      rw [blockSum_of_short hshort]
      cases xs with
      | nil => exact absurd rfl hne
      | cons x xs => exact .few hshort (.intro x xs)
  | case2 xs hlow hhigh =>
      rw [Nat.not_lt] at hlow
      rw [blockSum_of_block hlow hhigh]
      exact pairwiseSum_laneSum hlow hhigh
  | case3 xs hlow hhigh ihfront ihback =>
      have hlong : 128 < xs.length := Nat.not_le.mp hhigh
      -- Both parts have 64 terms or more.
      have hfront : xs.take (cutPoint xs.length) ≠ [] := by
        rw [← List.length_pos_iff, List.length_take, cutPoint]
        omega
      have hback : xs.drop (cutPoint xs.length) ≠ [] := by
        rw [← List.length_pos_iff, List.length_drop, cutPoint]
        omega
      rw [blockSum_of_long hlong]
      refine .halves hlong ?_ ?_ ?_ (ihfront hfront) (ihback hback)
      all_goals
        unfold cutPoint
        omega

end Blocks

/-! ### Expressions -/

/-- An expression of additions: of zero, and of terms that are given by their places. -/
inductive SumTree (ι : Type) where
  | zero
  | term (place : ι)
  | add (left right : SumTree ι)

namespace SumTree

variable {ι : Type} {α : Type u}

/-- The places of the terms, from left to right. -/
def places : SumTree ι → List ι
  | .zero => []
  | .term place => [place]
  | .add left right => left.places ++ right.places

/-- The value of an expression, with an addition and its zero, and terms at the places. -/
def eval (add : α → α → α) (zero : α) (x : ι → α) : SumTree ι → α
  | .zero => zero
  | .term place => x place
  | .add left right => add (left.eval add zero x) (right.eval add zero x)

/-- With an associative addition, the value is the sum of the terms in the order of the places. -/
theorem eval_eq_sum {M : Type u} [AddMonoid M] (tree : SumTree ι) (x : ι → M) :
    tree.eval (· + ·) 0 x = (tree.places.map x).sum := by
  induction tree with
  | zero => rfl
  | term place => rw [eval, places, List.map_singleton, List.sum_singleton]
  | add left right ihleft ihright =>
      rw [eval, places, List.map_append, List.sum_append, ihleft, ihright]

theorem count_of_perm {n : Nat} {tree : SumTree (Fin n)}
    (h : tree.places.Perm (List.finRange n)) (i : Fin n) : tree.places.count i = 1 := by
  rw [h.count_eq]
  exact List.count_eq_one_of_mem (List.nodup_finRange n) (List.mem_finRange i)

/-- A tree with each place once adds up all terms, where the order does not matter. -/
theorem eval_of_perm {M : Type u} [AddCommMonoid M] {n : Nat} {tree : SumTree (Fin n)}
    (h : tree.places.Perm (List.finRange n)) (x : Fin n → M) :
    tree.eval (· + ·) 0 x = ∑ i, x i := by
  rw [tree.eval_eq_sum, (h.map x).sum_eq, Fin.sum_univ_def]

/-- Addition of expressions stands for the union of their places, each as often as it occurs. -/
theorem places_represents :
    Represents SumTree.add .zero
      fun (tree : SumTree ι) (s : Multiset ι) => ↑tree.places = s where
  zero := rfl
  add := by
    rintro a b _ _ rfl rfl
    rw [places, Multiset.coe_add]

end SumTree

/-- The value of the expression that the scheme makes is what it makes of the terms, whatever
the addition is. -/
theorem PairwiseSum.eval {n : Nat} {α : Type u} {tree : SumTree (Fin n)}
    (h : PairwiseSum .add (List.ofFn .term) tree) (add : α → α → α) (zero : α)
    (x : Fin n → α) :
    PairwiseSum add (List.ofFn x) (tree.eval add zero x) := by
  have hvalues := h.map (f := SumTree.eval add zero x) fun _ _ => rfl
  rwa [List.map_ofFn] at hvalues

/-- The scheme makes one expression of one place or more, which has every place once. -/
theorem exists_sumTree {n : Nat} (hn : 0 < n) : ∃ tree : SumTree (Fin n),
    tree.places.Perm (List.finRange n) ∧ PairwiseSum .add (List.ofFn .term) tree := by
  have hne : (List.ofFn fun i : Fin n => SumTree.term i) ≠ [] := by
    rwa [← List.length_pos_iff, List.length_ofFn]
  refine ⟨blockSum .add .zero (List.ofFn .term), ?_, pairwiseSum_blockSum hne⟩
  have hterms : List.Forall₂ (fun (tree : SumTree (Fin n)) (s : Multiset (Fin n)) =>
      ↑tree.places = s) (List.ofFn .term) ((List.finRange n).map fun i => {i}) := by
    rw [List.ofFn_eq_map, List.forall₂_map_left_iff, List.forall₂_map_right_iff,
      List.forall₂_same]
    exact fun _ _ => rfl
  have htotal := blockSum_represents SumTree.places_represents hterms
  rw [← Multiset.sum_coe, ← Multiset.map_coe, Multiset.sum_map_singleton] at htotal
  exact Multiset.coe_eq_coe.mp htotal

end DynLisp
