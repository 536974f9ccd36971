import DynLisp.Proofs.Eval.Refusal
import DynLisp.Proofs.Scope.Collected
import DynLisp.Proofs.Session.History

/-!
# Tables of symbols

A host program can bind symbols one by one, each with a call of its own, or it can collect
them in a table first and bind the table.

* `Value.symbols` — names with values, as a host program gives them;
* `Eval.defineEach` — one binding after the other, until one fails;
* `Eval.defineEach_apply`, `Eval.defineEach_refused` — names are all bound, and what is no
  symbol ends this, after what stands before it;
* `update_is_each_define` — binding the table in which names are collected does the same
  as binding the names one by one; and with a key that is no symbol, what stands before the
  first such key is bound and nothing else.
-/

namespace DynLisp

/-- Names with values, the names as symbols. -/
def Value.symbols (pairs : List (String × Value)) : List (Value × Value) :=
  pairs.map (Prod.map .symbol id)

namespace Eval

/-- Binds one symbol after the other. -/
def defineEach (scope : ScopeId) (pairs : List (Value × Value)) : Eval Unit :=
  pairs.forM fun pair => defineSymbol scope pair.1 pair.2

theorem defineEach_append (scope : ScopeId) (front back : List (Value × Value)) :
    defineEach scope (front ++ back) = defineEach scope front >>= fun _ => defineEach scope back :=
  List.forM_append

/-- A table is bound entry by entry. -/
theorem update_eq_defineEach (scope : ScopeId) (table : Bindings Value Value) :
    update scope table = defineEach scope table := by
  induction table with
  | nil => rfl
  | cons entry rest ih =>
      rw [update, ih]
      rfl

/-- **Symbols are all bound.** -/
theorem defineEach_apply (scope : ScopeId) (pairs : List (String × Value)) (w : World) :
    defineEach scope (Value.symbols pairs) w =
      .ok ()
        { w with forest :=
            pairs.foldl (fun f pair => f.define scope pair.1 pair.2) w.forest } := by
  rw [← update_eq_defineEach]
  exact update_apply scope pairs w

/-- **What is no symbol** ends this, and what stands before it stays bound. -/
theorem defineEach_refused {scope : ScopeId} {before after : List (Value × Value)}
    {key v : Value} {w w' : World} (hbefore : defineEach scope before w = .ok () w')
    (hkey : ¬key.Is .symbol) :
    defineEach scope (before ++ (key, v) :: after) w = .error (.error (.type .symbol)) w' := by
  have hrefused : defineEach scope ((key, v) :: after) w' =
      .error (.error (.type .symbol)) w' := by
    show (defineSymbol scope key v >>= fun _ => defineEach scope after) w' = _
    rw [defineSymbol, (Value.symbolName_checks key).unmet hkey]
    rfl
  rw [defineEach_append, bind_apply, hbefore]
  exact hrefused

end Eval

/-- A table has a first key that is no symbol if it has one at all. -/
theorem Value.exists_symbols_append {table : List (Value × Value)}
    (h : ∃ entry ∈ table, ¬entry.1.Is .symbol) :
    ∃ before key v after, table = symbols before ++ (key, v) :: after ∧ ¬key.Is .symbol := by
  induction table with
  | nil =>
      obtain ⟨entry, hmem, -⟩ := h
      cases hmem
  | cons first rest ih =>
      obtain ⟨key, v⟩ := first
      by_cases hkey : key.Is .symbol
      · obtain ⟨name, rfl⟩ := hkey
        obtain ⟨entry, hmem, hentry⟩ := h
        have hne : entry ≠ (.symbol name, v) := by
          intro heq
          exact hentry ⟨name, congrArg Prod.fst heq⟩
        obtain ⟨before, key', v', after, hrest, hkey'⟩ :=
          ih ⟨entry, (List.mem_cons.mp hmem).resolve_left hne, hentry⟩
        exact ⟨(name, v) :: before, key', v', after, congrArg (_ :: ·) hrest, hkey'⟩
      · exact ⟨[], key, v, rest, rfl, hkey⟩

open Eval

/-- **Binding a table is binding its symbols one by one.**  In any scope, whatever it has
already and however often names are repeated, the table in which names are collected leaves
the same scopes as the names do one by one: its own scope has gained all of them, and no other
scope has changed.  If a table has a key that is no symbol, then binding it is an error that
says so; what stands in the table before the first such key has been bound, as it would have
been one by one, and nothing else. -/
theorem update_is_each_define (scope : ScopeId) (w : World) :
    (∀ (table : Bindings Value Value) (pairs : List (String × Value)),
      table.Collects (Value.symbols pairs) → ∃ f,
        update scope table w = .ok () { w with forest := f } ∧
        defineEach scope (Value.symbols pairs) w = .ok () { w with forest := f } ∧
        w.forest.Gains f scope pairs) ∧
    (∀ table : Bindings Value Value, (∃ entry ∈ table, ¬entry.1.Is .symbol) →
      ∃ before key v after f,
        table = Value.symbols before ++ (key, v) :: after ∧ ¬key.Is .symbol ∧
        update scope table w = .error (.error (.type .symbol)) { w with forest := f } ∧
        defineEach scope (Value.symbols before) w = .ok () { w with forest := f } ∧
        w.forest.Gains f scope before) ∧
    (Error.type .symbol).message = "TypeError: Expected Symbol." := by
  refine ⟨?_, ?_, rfl⟩
  · intro table pairs hcollects
    have htable : table = Value.symbols (Bindings.ofList pairs) :=
      hcollects.eq_ofList.trans (Bindings.ofList_map (fun _ _ => Value.symbol.inj) pairs)
    have hgains := Forest.gains_foldl_define w.forest scope pairs
    have hcollected := Forest.gains_foldl_define w.forest scope (Bindings.ofList pairs)
    refine ⟨_, ?_, defineEach_apply scope pairs w, hgains⟩
    rw [update_eq_defineEach, htable, defineEach_apply,
      hcollected.of_ofList.unique hgains]
  · intro table hentry
    obtain ⟨before, key, v, after, rfl, hkey⟩ := Value.exists_symbols_append hentry
    have hbefore := defineEach_apply scope before w
    refine ⟨before, key, v, after, _, rfl, hkey, ?_, hbefore,
      Forest.gains_foldl_define w.forest scope before⟩
    rw [update_eq_defineEach]
    exact defineEach_refused hbefore hkey

/-- A name that comes twice in the pairs, names that are there already, and a key that is no
symbol between two that are. -/
theorem repeated_symbol_keeps_its_place :
    let w : World := ⟨⟨#[⟨none, [("a", .nil), ("b", .nil)]⟩]⟩, ""⟩
    let pairs : List (String × Value) :=
      [("c", .nil), ("b", .bool true), ("c", .bool false), ("a", .nil)]
    let table : Bindings Value Value :=
      [(.symbol "c", .bool false), (.symbol "b", .bool true), (.symbol "a", .nil)]
    let mixed : Bindings Value Value :=
      [(.symbol "a", .bool true), (.nil, .nil), (.symbol "b", .bool true)]
    table.Collects (Value.symbols pairs) ∧
      (∃ f, update 0 table w = .ok () { w with forest := f } ∧
        defineEach 0 (Value.symbols pairs) w = .ok () { w with forest := f } ∧
        f.scopes[0]? = some ⟨none, [("a", .nil), ("b", .bool true), ("c", .bool false)]⟩) ∧
      (∃ entry ∈ mixed, ¬entry.1.Is .symbol) ∧
      ∃ f, update 0 mixed w = .error (.error (.type .symbol)) { w with forest := f } ∧
        f.scopes[0]? = some ⟨none, [("a", .bool true), ("b", .nil)]⟩ := by
  intro w pairs table mixed
  have hcollects : table.Collects (Value.symbols pairs) := by
    have htable : table = Bindings.ofList (Value.symbols pairs) := by decide
    rw [htable]
    exact Bindings.collects_ofList _
  have hnil : ¬Value.nil.Is .symbol := by
    intro h
    obtain ⟨name, hname⟩ := h
    cases hname
  have hmixed : ∃ entry ∈ mixed, ¬entry.1.Is .symbol :=
    ⟨(.nil, .nil), by simp [mixed], hnil⟩
  obtain ⟨htables, hrefused, -⟩ := update_is_each_define 0 w
  obtain ⟨f, hupdate, hdefine, hgains⟩ := htables table pairs hcollects
  obtain ⟨before, key, v, after, g, hsplit, hkey, hfails, -, hbefore⟩ := hrefused mixed hmixed
  refine ⟨hcollects, ⟨f, hupdate, hdefine, hgains.own⟩, hmixed, g, hfails, ?_⟩
  -- Exactly one entry stands before the first key that is no symbol.
  match before, hsplit, hbefore with
  | [], hsplit, _ =>
      have hfirst : Value.symbol "a" = key := by simp_all [mixed, Value.symbols]
      exact absurd ⟨"a", hfirst.symm⟩ hkey
  | [pair], hsplit, hbefore =>
      have hpair : pair = ("a", .bool true) := by
        simp only [mixed, Value.symbols] at hsplit
        grind
      subst hpair
      exact hbefore.own
  | _ :: second :: _, hsplit, _ =>
      have hsecond : Value.nil = .symbol second.1 := by
        simp_all [mixed, Value.symbols, Prod.ext_iff]
      cases hsecond

end DynLisp
