import DynLisp.Proofs.Scope.Record
import DynLisp.Proofs.Session.Deeds

/-!
# Scopes as nested tables

A host program opens scopes around others, binds names in them, one by one or by tables,
and opens the scopes of calls, in any order and in any of the scopes that are there.
What all this leaves behind can be told from what was done, without the forest.

* `Act` — one such thing, with names where the host program gives symbols;
* `Act.note` — how it is recorded;
* `World.MadeBy.asRecorded` — the forest of a world that was made by acts is as they are
  recorded, by induction on the acts;
* `Eval.bindArguments_apply` — what comes of opening the scope of a call, whether the
  numbers agree or not.
-/

namespace DynLisp

/-- What a host program does to scopes and names. -/
inductive Act where
  /-- To open a scope around which there is another one, or nothing. -/
  | openScope (outer : Option ScopeId)
  /-- To bind a name. -/
  | define (scope : ScopeId) (name : String) (v : Value)
  /-- To bind the names of a table. -/
  | update (scope : ScopeId) (table : List (String × Value))
  /-- To open the scope of a call. -/
  | bindArguments (formals : List String) (args : List Value) (caller : ScopeId)

namespace Act

/-- The deed that an act is, with the names as symbols. -/
def deed : Act → Deed
  | .openScope outer => .openScope outer
  | .define scope name v => .define scope (.symbol name) v
  | .update scope table => .update scope (table.map fun pair => (.symbol pair.1, pair.2))
  | .bindArguments formals args caller =>
      .bindArguments (formals.map .symbol) args caller

/-- How an act is recorded.  A call with another number of arguments than parameters
leaves nothing to record. -/
def note (r : Record) : Act → Record
  | .openScope outer => r.opening outer []
  | .define scope name v => r.binding scope [(name, v)]
  | .update scope table => r.binding scope table
  | .bindArguments formals args caller =>
      if args.length = formals.length then r.opening (some caller) (formals.zip args) else r

end Act

/-- The record of acts, one after the other. -/
def Record.ofActs (acts : List Act) : Record := acts.foldl Act.note .empty

theorem Record.ofActs_concat (acts : List Act) (act : Act) :
    ofActs (acts ++ [act]) = act.note (ofActs acts) := by
  simp [ofActs]

/-- The world is made by the acts from nothing, each done to a scope that was there. -/
inductive World.MadeBy : World → List Act → Prop
  | nothing : MadeBy .empty []
  | act {w : World} {acts : List Act} (h : MadeBy w acts) (act : Act)
      (hscope : ∀ s ∈ act.deed.scope?, s < w.forest.size) :
      MadeBy (act.deed.after w) (acts ++ [act])

namespace Eval

theorem symbolNames_map (names : List String) (w : World) :
    symbolNames (names.map .symbol) w = .ok names w := by
  induction names with
  | nil => rfl
  | cons name rest ih =>
      rw [List.map_cons, symbolNames, bind_apply]
      show (symbolNames (rest.map .symbol) >>= fun names => pure (name :: names) : Eval _) w = _
      rw [bind_apply, ih]
      rfl

/-- **Opening the scope of a call** with symbols for parameters is opening it with their
names: the number of arguments is checked twice, to the same end. -/
theorem bindArguments_apply (formals : List String) (args : List Value)
    (caller : ScopeId) (w : World) :
    bindArguments (formals.map .symbol) args caller w = enter formals args caller w := by
  rw [bindArguments, List.length_map, bind_apply, checkArity_apply]
  by_cases hlen : args.length = formals.length
  · rw [if_pos hlen]
    show (symbolNames (formals.map .symbol) >>= fun names => enter names args caller) w = _
    rw [bind_apply, symbolNames_map]
  · rw [if_neg hlen, enter_apply, if_neg hlen]
    rfl

theorem defineSymbol_apply (s : ScopeId) (name : String) (v : Value) (w : World) :
    defineSymbol s (.symbol name) v w = .ok () { w with forest := w.forest.define s name v } :=
  rfl

/-- Binding the names of a table is binding them one after the other. -/
theorem update_apply (s : ScopeId) (table : List (String × Value)) (w : World) :
    update s (table.map fun pair => (.symbol pair.1, pair.2)) w =
      .ok ()
        { w with forest :=
            table.foldl (fun f pair => f.define s pair.1 pair.2) w.forest } := by
  induction table generalizing w with
  | nil => rfl
  | cons pair rest ih =>
      rw [List.map_cons, update, bind_apply, defineSymbol_apply]
      exact ih _

end Eval

/-- **One act** keeps the forest and the record in step. -/
theorem Act.asRecorded (act : Act) {w : World} {r : Record} (h : w.forest.AsRecorded r)
    (hscope : ∀ s ∈ act.deed.scope?, s < w.forest.size) :
    (act.deed.after w).forest.AsRecorded (act.note r) := by
  cases act with
  | openScope outer => exact h.push outer []
  | define s name v => exact h.define (hscope s rfl) name v
  | update s table =>
      show ((Eval.update s _).after w).forest.AsRecorded _
      unfold Eval.after
      rw [Eval.update_apply]
      exact h.foldl_define (hscope s rfl) table
  | bindArguments formals args caller =>
      show ((Eval.bindArguments _ args caller).after w).forest.AsRecorded _
      unfold Eval.after
      rw [Eval.bindArguments_apply, Eval.enter_apply, Act.note]
      by_cases hlen : args.length = formals.length
      · rw [if_pos hlen, if_pos hlen]
        exact h.push (some caller) (formals.zip args)
      · rw [if_neg hlen, if_neg hlen]
        exact h

namespace World.MadeBy

variable {w : World} {acts : List Act}

/-- **All acts together** do so. -/
theorem asRecorded (h : w.MadeBy acts) : w.forest.AsRecorded (Record.ofActs acts) := by
  induction h with
  | nothing => exact Forest.asRecorded_empty
  | act _ act hscope ih =>
      rw [Record.ofActs_concat]
      exact act.asRecorded ih hscope

/-- Acts are deeds. -/
theorem leads (h : w.MadeBy acts) : World.Leads .empty w := by
  induction h with
  | nothing => exact .stay
  | act _ act hscope ih => exact ih.deed act.deed hscope

end World.MadeBy

namespace Forest

variable {f : Forest} {caller : ScopeId} {formals : List String} {args : List Value}
  {name : String}

/-- In the scope of a call, a parameter means the argument at the last place at which the
parameter stands. -/
theorem get?_push_zip_of_last (hcaller : caller < f.size) {i : Nat} {v : Value}
    (hname : formals[i]? = some name) (hv : args[i]? = some v)
    (hlast : ∀ j, i < j → formals[j]? ≠ some name) :
    (f.push (some caller) (Bindings.ofList (formals.zip args))).get? f.size name = some v := by
  have hpair : (formals.zip args)[i]? = some (name, v) :=
    List.getElem?_zip_eq_some.mpr ⟨hname, hv⟩
  have hmeans : (Bindings.ofList (formals.zip args)).get? name = some v := by
    rw [Bindings.get?_ofList_eq_some_iff]
    obtain ⟨hi, hget⟩ := List.getElem?_eq_some_iff.mp hpair
    refine ⟨(formals.zip args).take i, (formals.zip args).drop (i + 1), ?_, ?_⟩
    · rw [← hget, ← List.drop_eq_getElem_cons hi, List.take_append_drop]
    · intro u hu
      obtain ⟨k, hk⟩ := List.mem_iff_getElem?.mp hu
      rw [List.getElem?_drop] at hk
      exact hlast _ (by omega) (List.getElem?_zip_eq_some.mp hk).1
  rw [get?_push_self _ hcaller, hmeans]
  rfl

/-- Every other name means there what it means to the caller. -/
theorem get?_push_zip_of_not_mem (hcaller : caller < f.size) (hname : name ∉ formals) :
    (f.push (some caller) (Bindings.ofList (formals.zip args))).get? f.size name =
      (f.push (some caller) (Bindings.ofList (formals.zip args))).get? caller name := by
  have hnone : (Bindings.ofList (formals.zip args)).get? name = none := by
    rw [Bindings.get?_ofList_eq_none_iff]
    intro v hv
    exact hname (List.of_mem_zip hv).1
  rw [get?_push_self _ hcaller, hnone, (extends_push f _ _).get?_eq hcaller]
  rfl

/-- Every other name means there what it meant to the caller. -/
theorem get?_push_zip_of_free (hcaller : caller < f.size) (hname : name ∉ formals) :
    (f.push (some caller) (Bindings.ofList (formals.zip args))).get? f.size name =
      f.get? caller name := by
  rw [get?_push_zip_of_not_mem hcaller hname, (extends_push f _ _).get?_eq hcaller]

/-- A parameter that stands once means its argument. -/
theorem get?_push_zip_of_nodup (hcaller : caller < f.size) (hformals : formals.Nodup) {i : Nat}
    {v : Value} (hname : formals[i]? = some name) (hv : args[i]? = some v) :
    (f.push (some caller) (Bindings.ofList (formals.zip args))).get? f.size name = some v := by
  refine get?_push_zip_of_last hcaller hname hv fun j hij hj => ?_
  have hi : i < formals.length := (List.getElem?_eq_some_iff.mp hname).1
  exact Nat.ne_of_lt hij ((List.getElem?_inj hi hformals).mp (hname.trans hj.symm))

end Forest

/-- **Scopes are nested tables.**  In a world that acts have made,

* there are the scopes that were opened, linked as they were opened;
* a name is found in the first scope on the walk outwards in which it was ever bound, and
  is not found if there is none;
* it means there what it was bound to last.  It has no meaning, and looking it up is an
  error that names it, just when it is not found;
* each scope has its names in the order in which they were first bound;
* opening the scope of a call with another number of arguments than parameters is an error
  with the number of parameters, and does nothing.  Otherwise it opens one scope, around
  it the caller's, and changes no other.  A parameter means there the argument at its last
  place, and every other name means what it means to the caller. -/
theorem scopes_are_nested_tables {w : World} {acts : List Act} (h : w.MadeBy acts) :
    let r := Record.ofActs acts
    (w.forest.size = r.outers.length ∧ ∀ s, w.forest.link? s = r.outers[s]?.join) ∧
    (∀ s name,
      (∀ t, w.forest.find? s name = some t ↔
        ∃ nearer farther, w.forest.Walk s (nearer ++ t :: farther) ∧ r.Binds t name ∧
          ∀ u ∈ nearer, ¬ r.Binds u name) ∧
      (w.forest.find? s name = none ↔
        ∀ path, w.forest.Walk s path → ∀ t ∈ path, ¬ r.Binds t name) ∧
      (∀ v, w.forest.get? s name = some v ↔
        ∃ t, w.forest.find? s name = some t ∧ r.BindsLast t name v) ∧
      (w.forest.get? s name = none ↔ w.forest.find? s name = none) ∧
      (∀ v, Eval.lookup s name w = .ok v w ↔ w.forest.get? s name = some v) ∧
      (Eval.lookup s name w = .error (.error (.unresolved name)) w ↔
        w.forest.get? s name = none)) ∧
    (∀ s, (w.forest.bindings s).keys = ((r.within s).map (·.1)).eraseDups) ∧
    ∀ (formals : List String) args caller, caller < w.forest.size →
      (args.length ≠ formals.length →
        Eval.bindArguments (formals.map .symbol) args caller w =
          .error (.error (.arity (some formals.length) (some formals.length))) w) ∧
      (args.length = formals.length → ∃ w',
        Eval.bindArguments (formals.map .symbol) args caller w = .ok w.forest.size w' ∧
          w'.forest.size = w.forest.size + 1 ∧
          w'.forest.link? w.forest.size = some caller ∧
          (∀ id, id < w.forest.size → w'.forest.scopes[id]? = w.forest.scopes[id]?) ∧
          (∀ (i : Nat) name v, formals[i]? = some name → args[i]? = some v →
            (∀ j, i < j → formals[j]? ≠ some name) →
            Eval.lookup w.forest.size name w' = .ok v w') ∧
          ∀ name, name ∉ formals →
            Eval.lookup w.forest.size name w' = Eval.lookup caller name w') := by
  intro r
  have hrecord : w.forest.AsRecorded r := h.asRecorded
  have hlinked : w.forest.Linked := h.leads.linked
  refine ⟨⟨hrecord.size_eq, hrecord.link?_eq⟩, ?_, hrecord.keys_eq, ?_⟩
  · intro s name
    refine ⟨fun t => hrecord.find?_eq_some_iff hlinked, hrecord.find?_eq_none_iff hlinked,
      fun v => hrecord.get?_eq_some_iff, hrecord.get?_eq_none_iff hlinked, ?_, ?_⟩
    · intro v
      rw [Eval.lookup_apply]
      cases w.forest.get? s name with
      | none => simp
      | some u => simp
    · rw [Eval.lookup_apply]
      cases w.forest.get? s name with
      | none => simp
      | some u => simp
  · intro formals args caller hcaller
    rw [Eval.bindArguments_apply, Eval.enter_apply]
    constructor
    · intro hlen
      exact if_neg hlen
    · intro hlen
      refine ⟨_, if_pos hlen, Forest.size_push _ _, Forest.link?_push_self _ _,
        fun id hid => Forest.scopes_push_of_lt _ _ hid, ?_, ?_⟩
      · -- The table of the call is made from pairs, so of equal names the last one counts.
        intro i name v hname hv hlast
        rw [Eval.lookup_apply, Forest.get?_push_zip_of_last hcaller hname hv hlast]
      · intro name hname
        rw [Eval.lookup_apply, Eval.lookup_apply,
          Forest.get?_push_zip_of_not_mem hcaller hname]

/-- A name that is bound in the outer one of two scopes after the inner one is opened is
found from there; in the inner one a name is bound twice and keeps its place; and of two
parameters with one name the last one counts. -/
theorem later_binding_is_found_from_inside :
    let acts : List Act := [.openScope none, .define 0 "x" .nil, .openScope (some 0),
      .update 1 [("y", .bool true), ("x", .nil), ("y", .bool false)], .define 0 "z" .nil]
    let w : World := acts.foldl (fun w act => act.deed.after w) .empty
    w.MadeBy acts ∧ 1 < w.forest.size ∧
      w.forest.find? 1 "z" = some 0 ∧
      w.forest.get? 1 "y" = some (.bool false) ∧
      (w.forest.bindings 1).keys = ["y", "x"] ∧
      Eval.bindArguments [.symbol "a"] [] 1 w = .error (.error (.arity (some 1) (some 1))) w ∧
      ∃ w', Eval.bindArguments [.symbol "a", .symbol "a"] [.nil, .bool true] 1 w = .ok 2 w' ∧
        Eval.lookup 2 "a" w' = .ok (.bool true) w' := by
  intro acts w
  have hthere : ∀ {s n : Nat}, s < n → ∀ t ∈ some s, t < n := by
    intro s n hs t ht
    cases ht
    exact hs
  have hnowhere : ∀ t ∈ (Act.openScope none).deed.scope?, t < World.empty.forest.size := by
    intro t ht
    cases ht
  have houter := World.MadeBy.nothing.act (.openScope none) hnowhere
  have hx := houter.act (.define 0 "x" .nil) (hthere Nat.zero_lt_one)
  have hinner := hx.act (.openScope (some 0)) (hthere Nat.zero_lt_one)
  have htable := hinner.act (.update 1 [("y", .bool true), ("x", .nil), ("y", .bool false)])
    (hthere (Nat.lt_succ_self 1))
  have hmade : w.MadeBy acts := htable.act (.define 0 "z" .nil) (hthere Nat.zero_lt_two)
  have hsize : 1 < w.forest.size := Nat.lt_succ_self 1
  obtain ⟨-, hnames, hkeys, hcalls⟩ := scopes_are_nested_tables hmade
  have hfind : ∀ s name t, w.forest.find? s name = some t ↔ _ := fun s name => (hnames s name).1
  have hy : w.forest.find? 1 "y" = some 1 := by
    refine (hfind 1 "y" 1).mpr ⟨[], [0], .next rfl (.last rfl), ⟨.bool true, ?_⟩, ?_⟩
    · decide
    · intro s hs
      cases hs
  refine ⟨hmade, hsize, ?_, ?_, hkeys 1, ?_, ?_⟩
  · refine (hfind 1 "z" 0).mpr ⟨[1], [], .next rfl (.last rfl), ⟨.nil, ?_⟩, ?_⟩
    · decide
    · intro s hs
      rw [List.mem_singleton.mp hs]
      rintro ⟨v, hv⟩
      simp [acts, Record.ofActs, Act.note, Record.binding, Record.opening, Record.empty] at hv
  · refine ((hnames 1 "y").2.2.1 _).mpr ⟨1, hy, ?_⟩
    refine ⟨[(0, "x", .nil), (1, "y", .bool true), (1, "x", .nil)], [(0, "z", .nil)], rfl, ?_⟩
    intro u hu
    cases List.mem_singleton.mp hu
  · exact (hcalls ["a"] [] 1 hsize).1 (by decide)
  · obtain ⟨w', hrun, -, -, -, hformals, -⟩ :=
      (hcalls ["a", "a"] [.nil, .bool true] 1 hsize).2 rfl
    refine ⟨w', hrun, hformals 1 "a" _ rfl rfl ?_⟩
    intro j hj
    rw [List.getElem?_eq_none hj]
    intro hnone
    cases hnone

end DynLisp
