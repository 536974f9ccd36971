import DynLisp.Proofs.Eval.Calls

/-!
# Mapping over pieces of a list

`map` calls its closure with one piece of the list after the other, each as long as the
closure has parameters.

* `chunks_append_of_length` — whole pieces are cut off one by one, whatever stands behind
  them; `chunks_eq` — the pieces of any list: the whole ones and, if the list does not
  come out even, a short one;
* `apply_map` — mapping is calling with the pieces in turn, so that what it reports is
  made of what the calls report from the world as it is at the start (`report_map`);
* `map_goes_by_whole_pieces` — the elements of a result, the end of a list that does not
  come out even, and mapping over two lists put together.
-/

namespace DynLisp

open Eval

/-- The piece with the given number of a list that is cut into pieces of one width. -/
def piece {α : Type} (width : Nat) (xs : List α) (i : Nat) : List α :=
  (xs.drop (i * width)).take width

section Pieces

variable {α : Type} {width : Nat} {xs : List α}

theorem piece_drop (width : Nat) (xs : List α) (i : Nat) :
    piece width (xs.drop width) i = piece width xs (i + 1) := by
  rw [piece, piece, List.drop_drop, Nat.succ_mul, Nat.add_comm width]

/-- A piece that lies in front of a place does not change when the list is cut there. -/
theorem piece_take {i n : Nat} (h : i < n) : piece width (xs.take (n * width)) i =
    piece width xs i := by
  have hroom : width ≤ n * width - i * width := by
    have hle := Nat.mul_le_mul_right width h
    rw [Nat.succ_mul] at hle
    omega
  rw [piece, piece, List.drop_take, List.take_take, Nat.min_eq_left hroom]

/-- The first piece is as much as there is of a width. -/
theorem chunks_of_ne_nil (width : Nat) (h : xs ≠ []) :
    chunks width xs = xs.take (width + 1) :: chunks width (xs.drop (width + 1)) := by
  obtain ⟨x, rest, rfl⟩ := List.exists_cons_of_ne_nil h
  rw [chunks, List.take_succ_cons, List.drop_succ_cons]

/-- **Whole pieces in front** are cut off one by one, whatever stands behind them. -/
theorem chunks_append_of_length {n : Nat} (h : xs.length = n * (width + 1)) (ys : List α) :
    chunks width (xs ++ ys) =
      (List.range n).map (piece (width + 1) xs) ++ chunks width ys := by
  induction n generalizing xs with
  | zero =>
      rw [Nat.zero_mul] at h
      rw [List.eq_nil_of_length_eq_zero h]
      rfl
  | succ n ih =>
      rw [Nat.succ_mul] at h
      have hle : width + 1 ≤ xs.length := by omega
      have hne : xs ++ ys ≠ [] := by
        have hpos : xs ≠ [] := List.length_pos_iff.mp (by omega)
        simp [hpos]
      have hrest : (xs.drop (width + 1)).length = n * (width + 1) := by
        rw [List.length_drop]
        omega
      have hfirst : piece (width + 1) xs 0 = xs.take (width + 1) := by
        rw [piece, Nat.zero_mul, List.drop_zero]
      rw [chunks_of_ne_nil width hne, List.take_append_of_le_length hle,
        List.drop_append_of_le_length hle, ih hrest, List.range_succ_eq_map,
        List.map_cons, List.map_map, hfirst, List.cons_append]
      congr 2
      exact List.map_congr_left fun i _ => piece_drop _ _ _

/-- Whole pieces in front are the pieces of what stands in front. -/
theorem chunks_append (h : width + 1 ∣ xs.length) (ys : List α) :
    chunks width (xs ++ ys) = chunks width xs ++ chunks width ys := by
  obtain ⟨n, hn⟩ := h
  rw [Nat.mul_comm] at hn
  have hfront := chunks_append_of_length hn []
  rw [List.append_nil, chunks, List.append_nil] at hfront
  rw [chunks_append_of_length hn, hfront]

/-- A list that is no longer than a piece is one, if there is anything in it. -/
theorem chunks_of_length_le (h : xs.length ≤ width + 1) :
    chunks width xs = if xs = [] then [] else [xs] := by
  split
  · next hnil => rw [hnil, chunks]
  · next hne =>
    rw [chunks_of_ne_nil width hne, List.take_of_length_le h, List.drop_of_length_le h, chunks]

/-- **The pieces of a list**: the whole ones, and a short one with what is left. -/
theorem chunks_eq (width : Nat) (xs : List α) :
    let count := xs.length / (width + 1)
    chunks width xs = (List.range count).map (piece (width + 1) xs) ++
      if width + 1 ∣ xs.length then [] else [xs.drop (count * (width + 1))] := by
  intro count
  have hwhole : (xs.take (count * (width + 1))).length = count * (width + 1) := by
    rw [List.length_take, Nat.min_eq_left (Nat.div_mul_le_self ..)]
  have hleft : (xs.drop (count * (width + 1))).length = xs.length % (width + 1) := by
    rw [List.length_drop, Nat.mod_eq_sub_div_mul]
  have hshort : xs.length % (width + 1) < width + 1 := Nat.mod_lt _ (Nat.succ_pos width)
  have hrest : xs.drop (count * (width + 1)) = [] ↔ width + 1 ∣ xs.length := by
    rw [← List.length_eq_zero_iff, hleft, Nat.dvd_iff_mod_eq_zero]
  have hend : chunks width (xs.drop (count * (width + 1))) =
      if width + 1 ∣ xs.length then [] else [xs.drop (count * (width + 1))] := by
    rw [chunks_of_length_le (hleft ▸ Nat.le_of_lt hshort)]
    simp only [hrest]
  have hsplit := chunks_append_of_length hwhole (xs.drop (count * (width + 1)))
  rw [List.take_append_drop, hend] at hsplit
  rw [hsplit]
  congr 1
  exact List.map_congr_left fun i hi => piece_take (List.mem_range.mp hi)

end Pieces

/-- Mapping a closure with parameters is calling it with the pieces of the list in turn. -/
theorem apply_map (self : Evaluator) {formals : List String} (hformals : formals ≠ [])
    (body : Value) (items : List Value) (env : ScopeId) :
    Value.apply self (.native .map) [.closure formals body, .list items] env =
      (chunks (formals.length - 1) items).mapM
          (fun args => Value.apply self (.closure formals body) args env) >>=
        fun vs => pure (.list vs) := by
  obtain ⟨name, names, rfl⟩ := List.exists_cons_of_ne_nil hformals
  have heach := Builtin.callEach_eq_mapM self (name :: names) body env
    (chunks names.length items)
  exact congrArg (· >>= fun vs => pure (Value.list vs)) heach

/-- A value that has been changed was there before. -/
theorem exists_of_map_eq_ok {α β : Type} {f : α → β} {r : Except Halt α} {b : β}
    (h : r.map f = .ok b) : ∃ a, r = .ok a ∧ b = f a := by
  cases r with
  | error e => cases h
  | ok a => exact ⟨a, rfl, (Except.ok.inj h).symm⟩

section Mapping

variable (depth : Nat) {formals : List String} (hformals : formals ≠ []) (body : Value)
  (env : ScopeId)
include hformals

/-- **Mapping over two lists put together**, the first of which comes out even, is
mapping over the one and then over the other. -/
theorem apply_map_append {xs : List Value} (h : formals.length ∣ xs.length)
    (ys : List Value) :
    let map : List Value → Eval Value := fun items =>
      Value.apply (Value.evaluate depth) (.native .map) [.closure formals body, .list items] env
    map (xs ++ ys) = (do
      let us ← (← map xs).elements
      let vs ← (← map ys).elements
      pure (.list (us ++ vs))) := by
  have hwidth : formals.length - 1 + 1 = formals.length :=
    Nat.sub_add_cancel (List.length_pos_iff.mpr hformals)
  dsimp only
  rw [apply_map _ hformals, apply_map _ hformals, apply_map _ hformals,
    chunks_append (hwidth.symm ▸ h), List.mapM_append]
  simp only [bind_assoc, pure_bind, Value.elements]

variable {env} {w : World} (henv : env < w.forest.size)
include henv

/-- **What mapping reports**: the reports of the calls with the whole pieces in turn, each
made from the world as it is at the start, and then the error for a short piece if one is
left over. -/
theorem report_map (items : List Value) :
    let width := formals.length
    let calls : List (Report Value) := (List.range (items.length / width)).map fun i =>
      (w.perform (Value.apply (Value.evaluate depth) (.closure formals body)
        (piece width items i) env)).1
    let reports := Report.inTurn
      (calls ++ if width ∣ items.length then [] else [⟨.error (arityHalt formals), ""⟩])
    (w.perform (Value.apply (Value.evaluate depth) (.native .map)
        [.closure formals body, .list items] env)).1 =
      ⟨reports.result.map .list, reports.printed⟩ := by
  have hwidth : formals.length - 1 + 1 = formals.length :=
    Nat.sub_add_cancel (List.length_pos_iff.mpr hformals)
  have hshort : ∀ args : List Value, args.length < formals.length →
      (w.perform (Value.apply (Value.evaluate depth) (.closure formals body) args env)).1 =
        ⟨.error (arityHalt formals), ""⟩ := by
    intro args hargs
    rw [World.perform_eq_reported, Value.apply, Builtin.callClosure_apply,
      if_neg (Nat.ne_of_lt hargs)]
    rfl
  have hpieces := chunks_eq (formals.length - 1) items
  dsimp only at hpieces ⊢
  rw [hwidth] at hpieces
  rw [apply_map _ hformals, World.perform_bind_pure,
    Calls.report_mapM henv fun args => apply_calls depth _ args env, hpieces,
    List.map_append, List.map_map]
  split
  · rfl
  · next hdvd =>
    rw [List.map_singleton, hshort]
    · rfl
    · rw [List.length_drop, ← Nat.mod_eq_sub_div_mul]
      exact Nat.mod_lt _ (List.length_pos_iff.mpr hformals)

/-- **Where mapping gives a value**, the list came out even, and the elements of the value
are the values of the calls. -/
theorem values_of_map {items : List Value} {v : Value}
    (hv : (w.perform (Value.apply (Value.evaluate depth) (.native .map)
      [.closure formals body, .list items] env)).1.result = .ok v) :
    formals.length ∣ items.length ∧ ∃ vs, v = .list vs ∧
      vs.length = items.length / formals.length ∧ ∀ i u, vs[i]? = some u →
        (w.perform (Value.apply (Value.evaluate depth) (.closure formals body)
          (piece formals.length items i) env)).1.result = .ok u := by
  rw [report_map depth hformals body henv] at hv
  obtain ⟨vs, hvs, rfl⟩ := exists_of_map_eq_ok hv
  have hall := Report.values_of_inTurn hvs
  by_cases hdvd : formals.length ∣ items.length
  · rw [if_pos hdvd, List.append_nil] at hall
    exact ⟨hdvd, vs, rfl, Report.results_range_eq_iff.mp hall⟩
  · rw [if_neg hdvd, List.map_append, List.map_singleton] at hall
    have hmem : (Except.error (arityHalt formals) : Except Halt Value) ∈ vs.map .ok := by
      rw [← hall]
      simp
    simp at hmem

end Mapping

/-- **Mapping goes by whole pieces**, each as long as the closure has parameters.  If it
gives a value, the list came out even, and the value is the list of what calls with the
pieces give, each made in the scope as it was before; and if the list comes out even and
all these calls give values, it does give one.  A list that does not come out even is
never mapped.  The first call with a whole piece that fails ends the mapping with its
failure, after what was printed up to then; if none fails, what is left over of the list
ends it with the error for a wrong number of arguments.  Mapping over two lists put
together, the first of which comes out even, is mapping over the one and then over the
other. -/
theorem map_goes_by_whole_pieces (depth : Nat) {formals : List String}
    (hformals : formals ≠ []) (body : Value) {w : World} {env : ScopeId}
    (henv : env < w.forest.size) :
    let width := formals.length
    let map : List Value → Eval Value := fun items =>
      Value.apply (Value.evaluate depth) (.native .map) [.closure formals body, .list items] env
    let call : List Value → Nat → Report Value := fun items i =>
      (w.perform (Value.apply (Value.evaluate depth) (.closure formals body)
        (piece width items i) env)).1
    let printedBy : List Value → Nat → String := fun items n =>
      String.join ((List.range n).map fun i => (call items i).printed)
    (∀ items v, (w.perform (map items)).1.result = .ok v →
      width ∣ items.length ∧ ∃ vs, v = .list vs ∧ vs.length = items.length / width ∧
        ∀ i u, vs[i]? = some u → (call items i).result = .ok u) ∧
    (∀ items vs, width ∣ items.length → vs.length = items.length / width →
      (∀ i u, vs[i]? = some u → (call items i).result = .ok u) →
      (w.perform (map items)).1 =
        ⟨.ok (.list vs), printedBy items (items.length / width)⟩) ∧
    (∀ items i h, i < items.length / width →
      (∀ j, j < i → ∃ v, (call items j).result = .ok v) →
      (call items i).result = .error h →
      (w.perform (map items)).1 = ⟨.error h, printedBy items (i + 1)⟩) ∧
    (∀ items, ¬width ∣ items.length →
      (∀ v, (w.perform (map items)).1.result ≠ .ok v) ∧
      ((∀ i, i < items.length / width → ∃ v, (call items i).result = .ok v) →
        (w.perform (map items)).1 =
          ⟨.error (.error (.arity (some width) (some width))),
            printedBy items (items.length / width)⟩)) ∧
    ∀ xs ys, width ∣ xs.length → map (xs ++ ys) = (do
      let us ← (← map xs).elements
      let vs ← (← map ys).elements
      pure (.list (us ++ vs))) := by
  intro width map call printedBy
  have hreport := report_map depth hformals body henv
  refine ⟨fun items v hv => values_of_map depth hformals body henv hv,
    fun items vs heven hlength hcalls => ?_, fun items i h hi hbefore hfailed => ?_,
    fun items hodd => ⟨fun v hv => hodd (values_of_map depth hformals body henv hv).1,
      fun hcalls => ?_⟩,
    fun xs ys h => apply_map_append depth hformals body env h ys⟩
  · have hvalues := Report.results_range_eq_iff.mpr ⟨hlength, hcalls⟩
    rw [hreport, if_pos heven, List.append_nil, Report.inTurn_of_values hvalues, List.map_map]
    rfl
  · rw [hreport, Report.inTurn_range_of_failure hi hbefore hfailed]
    rfl
  · have hvalues : ∀ report ∈ (List.range (items.length / width)).map (call items),
        ∃ v, report.result = .ok v := by
      intro report hmem
      obtain ⟨i, hi, rfl⟩ := List.mem_map.mp hmem
      exact hcalls i (List.mem_range.mp hi)
    -- What is left over is one more piece, which is refused before anything is printed.
    rw [hreport, if_neg hodd, Report.inTurn_of_failure hvalues rfl]
    have hnothing : String.join [""] = "" := rfl
    simp only [List.map_append, List.map_map, List.map_singleton, String.join_append, hnothing,
      String.append_empty]
    rfl

/-- A closure of two parameters prints the second one.  Of five elements, four are two
whole pieces, and the fifth is left over. -/
theorem fifth_element_is_left_over :
    let w : World := ⟨Forest.empty.push none [], ""⟩
    let body : Value := .list [.native .print, .symbol "b"]
    let items : List Value := ["p", "q", "r", "s", "t"].map .string
    ["a", "b"] ≠ [] ∧ 0 < w.forest.size ∧
      (w.perform (Value.apply (Value.evaluate 2) (.native .map)
          [.closure ["a", "b"] body, .list items] 0)).1 =
        ⟨.error (.error (.arity (some 2) (some 2))), "qs"⟩ := by
  intro w body items
  have hformals : ["a", "b"] ≠ [] := by decide
  have henv : 0 < w.forest.size := by decide
  refine ⟨hformals, henv, ?_⟩
  obtain ⟨-, -, -, huneven, -⟩ := map_goes_by_whole_pieces 2 hformals body henv
  have hwhole : items.length / ["a", "b"].length = 2 := by decide
  refine ((huneven items (by decide)).2 fun i hi => ?_).trans ?_
  · rw [hwhole] at hi
    obtain rfl | rfl : i = 0 ∨ i = 1 := by omega
    · refine ⟨.string "q", ?_⟩
      simp only [w, body, items]
      with_unfolding_all rfl
    · refine ⟨.string "s", ?_⟩
      simp only [w, body, items]
      with_unfolding_all rfl
  · simp only [w, body, items]
    with_unfolding_all rfl

end DynLisp
