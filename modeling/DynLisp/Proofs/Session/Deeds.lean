import DynLisp.Proofs.Eval.Footprint
import DynLisp.Proofs.Scope.Growth

/-!
# Scopes only grow

A host program can do more to scopes than send texts to a session: it can open scopes
around others, bind names in them one by one or by tables, and evaluate and apply there
what it has built itself.  A `Deed` is one such thing; it may fail, and what it did until
then stays.  `World.Leads` says that deeds lead from one world to another.

* `growth` — an evaluation opens scopes inside the scope at hand only, and changes no
  links;
* `Deed.grows`, `World.Leads.grows` — so one deed lets the forest grow, and so do all
  deeds together;
* `scopes_only_grow` — in the worlds that deeds lead to, all walks outwards end, at a
  scope that has no outer one, and links never change; and what an evaluation opens is
  inside its scope.
-/

namespace DynLisp

/-- The footprint of growing: all scopes that are opened are inside the scope at hand,
for an evaluation there as for a call from there. -/
def growth : Footprint :=
  let travel (s : ScopeId) : Travel := {
    rel := fun v w => s < v.forest.size → v.forest.GrowsAround s w.forest
    refl := fun w _ => (Forest.Grows.refl w.forest).growsAround rfl s
    trans := fun huv hvw hs =>
      (huv hs).trans (hvw (Nat.lt_of_lt_of_le hs (huv hs).size_le)) }
  { inside := fun _ s => travel s
    outside := travel
    emit := fun s w _ => (travel s).refl w
    enter := fun _ _ _ _ hin hs => .of_push hs (hin (by simp))
    call := fun _ _ _ _ hout => hout
    define := fun _ s w name v _ _ =>
      (Forest.grows_define w.forest s name v).growsAround Forest.size_define s }

namespace Footprint

open Eval

variable (F : Footprint)

/-- Opening the scope of a call is part of a call. -/
theorem enter_moves (formals : List String) (args : List Value) (caller : ScopeId) :
    Moves (F.outside caller) (Eval.enter formals args caller) := by
  intro w
  unfold after
  rw [enter_apply]
  by_cases hlen : args.length = formals.length
  · rw [if_pos hlen]
    apply F.enter
    exact (F.inside _ w.forest.size).refl _
  · rw [if_neg hlen]
    exact (F.outside caller).refl w

/-- So it is if the parameters are given as values. -/
theorem bindArguments_moves (formals args : List Value) (caller : ScopeId) :
    Moves (F.outside caller) (bindArguments formals args caller) := by
  have hnames : ∀ vs, Gives (symbolNames vs) fun _ => True := by
    intro vs
    induction vs with
    | nil => exact gives_pure trivial
    | cons v rest ih =>
        exact v.symbolName_gives.bind fun _ _ => ih.bind fun _ _ => gives_pure trivial
  have hcount := checkArity_gives args.length (some formals.length, some formals.length)
  refine hcount.bind_moves fun _ _ => (hnames formals).bind_moves fun names _ => ?_
  exact F.enter_moves names args caller

/-- Binding a symbol is part of an evaluation that may bind all names. -/
theorem defineSymbol_moves (s : ScopeId) (name v : Value) :
    Moves (F.inside (fun _ => True) s) (defineSymbol s name v) :=
  name.symbolName_gives.bind_moves fun _ _ => F.define_moves trivial s v

/-- So is binding a table. -/
theorem update_moves (s : ScopeId) (table : Bindings Value Value) :
    Moves (F.inside (fun _ => True) s) (update s table) := by
  induction table with
  | nil => exact moves_pure ()
  | cons pair rest ih => exact (F.defineSymbol_moves s pair.1 pair.2).bind fun _ _ => ih

theorem register_moves (s : ScopeId) :
    Moves (F.inside (fun _ => True) s) (register s) := F.update_moves s _

end Footprint

/-- What a host program can do to scopes. -/
inductive Deed where
  /-- To open a scope around which there is another one, or nothing. -/
  | openScope (outer : Option ScopeId)
  /-- To open the scope of a call. -/
  | bindArguments (formals args : List Value) (caller : ScopeId)
  /-- To bind a name. -/
  | define (scope : ScopeId) (name v : Value)
  /-- To bind the keys of a table. -/
  | update (scope : ScopeId) (table : Bindings Value Value)
  /-- To bind the built-in functions. -/
  | register (scope : ScopeId)
  /-- To evaluate a value. -/
  | evaluate (depth : Nat) (e : Value) (scope : ScopeId)
  /-- To apply a value to arguments. -/
  | apply (depth : Nat) (head : Value) (args : List Value) (scope : ScopeId)

namespace Deed

open Eval

/-- The scope that the deed is done to or done from. -/
def scope? : Deed → Option ScopeId
  | .openScope outer => outer
  | .bindArguments _ _ scope | .define scope _ _ | .update scope _ | .register scope
  | .evaluate _ _ scope | .apply _ _ _ scope => some scope

/-- The world after the deed, whether it succeeded or failed. -/
def after : Deed → World → World
  | .openScope outer => (Eval.openScope outer []).after
  | .bindArguments formals args caller => (Eval.bindArguments formals args caller).after
  | .define scope name v => (defineSymbol scope name v).after
  | .update scope table => (Eval.update scope table).after
  | .register scope => (Eval.register scope).after
  | .evaluate depth e scope => (Value.evaluate depth e scope).after
  | .apply depth head args scope =>
      (Value.apply (Value.evaluate depth) head args scope).after

/-- **One deed lets the forest grow.** -/
theorem grows (deed : Deed) {w : World} (hscope : ∀ s ∈ deed.scope?, s < w.forest.size) :
    w.forest.Grows (deed.after w).forest := by
  cases deed with
  | openScope outer => exact Forest.grows_push w.forest [] hscope
  | bindArguments formals args caller =>
      exact (growth.bindArguments_moves formals args caller w (hscope _ rfl)).toGrows
  | define scope name v =>
      exact (growth.defineSymbol_moves scope name v w (hscope _ rfl)).toGrows
  | update scope table =>
      exact (growth.update_moves scope table w (hscope _ rfl)).toGrows
  | register scope => exact (growth.register_moves scope w (hscope _ rfl)).toGrows
  | evaluate depth e scope =>
      exact (growth.evaluate_moves depth e scope w (hscope _ rfl)).toGrows
  | apply depth head args scope =>
      exact (growth.apply_moves depth head args scope w (hscope _ rfl)).toGrows

end Deed

namespace World

/-- Deeds lead from the world `w` to this one, each done to a scope that was there. -/
inductive Leads (w : World) : World → Prop
  | stay : Leads w w
  | deed {v : World} (h : Leads w v) (deed : Deed)
      (hscope : ∀ s ∈ deed.scope?, s < v.forest.size) : Leads w (deed.after v)

/-- **Deeds let the forest grow.** -/
theorem Leads.grows {v w : World} (h : Leads v w) : v.forest.Grows w.forest := by
  induction h with
  | stay => exact Forest.Grows.refl v.forest
  | deed _ deed hscope ih => exact ih.trans (deed.grows hscope)

/-- In the worlds that deeds lead to, all links lead to older scopes. -/
theorem Leads.linked {w : World} (h : Leads .empty w) : w.forest.Linked := by
  apply h.grows.linked
  intro id o hlink
  exact nomatch (hlink : none = some o)

end World

namespace Forest

/-- All scopes that were opened have the scope `s` on their chain, and the same root as
`s` has and had. -/
def OpensInside (s : ScopeId) (f g : Forest) : Prop :=
  ∀ id, f.size ≤ id → id < g.size →
    s ∈ g.chain id ∧ g.root id = g.root s ∧ g.root s = f.root s

/-- A linked forest that grows inside of a scope opens scopes inside of it only. -/
theorem GrowsAround.opensInside {f g : Forest} {s : ScopeId} (hfg : f.GrowsAround s g)
    (hf : f.Linked) (hs : s < f.size) : f.OpensInside s g := by
  intro id hnew hid
  have hg : g.Linked := hfg.linked hf
  have haround : g.Around s id := hfg.inner id hnew hid
  refine ⟨?_, haround.root_eq hg, hfg.root_eq hf hs⟩
  exact (hg.walk id).mem_iff_around.mpr haround

end Forest

/-- **Scopes are a forest that only grows.**  In a world that deeds lead to,

* every scope is linked to an older one, if to any;
* following links from any scope ends.  What is met on the way is the chain, its end is
  the root, which has no link, and a name is found in, and means what it is bound to in,
  the first scope on the way that binds it; if there is none, it is unresolved;
* later deeds lose no scope and change no link;
* every scope that is opened while something is evaluated or applied in a scope has this
  scope on its chain, and the same root. -/
theorem scopes_only_grow {w : World} (hw : World.Leads .empty w) :
    (∀ id o, w.forest.link? id = some o → o < id) ∧
    (∀ id, w.forest.Walk id (w.forest.chain id) ∧
      (w.forest.chain id).getLast? = some (w.forest.root id) ∧
      w.forest.link? (w.forest.root id) = none ∧
      ∀ name,
        w.forest.find? id name =
          (w.forest.chain id).find? (fun s => ((w.forest.bindings s).get? name).isSome) ∧
        w.forest.get? id name =
          (w.forest.chain id).findSome? (fun s => (w.forest.bindings s).get? name) ∧
        Eval.lookup id name w =
          match w.forest.get? id name with
          | some v => .ok v w
          | none => .error (.error (.unresolved name)) w) ∧
    (∀ w', w.Leads w' → w.forest.size ≤ w'.forest.size ∧
      ∀ id, id < w.forest.size → w'.forest.link? id = w.forest.link? id) ∧
    ∀ depth env, env < w.forest.size →
      (∀ e, w.forest.OpensInside env ((Value.evaluate depth e env).after w).forest) ∧
      ∀ head args, w.forest.OpensInside env
        ((Value.apply (Value.evaluate depth) head args env).after w).forest := by
  have hlinked : w.forest.Linked := hw.linked
  refine ⟨hlinked, ?_, ?_, ?_⟩
  · intro id
    have hwalk := hlinked.walk id
    obtain ⟨hlast, hroot⟩ := hwalk.getLast?_eq hlinked
    refine ⟨hwalk, hlast, hroot, fun name => ⟨hwalk.find?_eq hlinked name, ?_, ?_⟩⟩
    · exact hwalk.get?_eq hlinked name
    · exact Eval.lookup_apply id name w
  · intro w' hlater
    exact ⟨hlater.grows.size_le, hlater.grows.kept⟩
  · intro depth env henv
    constructor
    · intro e
      exact (growth.evaluate_moves depth e env w henv).opensInside hlinked henv
    · intro head args
      exact (growth.apply_moves depth head args env w henv).opensInside hlinked henv

/-- A closure that is called in a scope inside of a root: the scope of the call is the
third one, and it is inside of both. -/
theorem called_scope_is_inside :
    let root : World := (Deed.openScope none).after .empty
    let w : World := (Deed.bindArguments [.symbol "x"] [.nil] 0).after root
    let call : Value := .list [.closure ["y"] (.symbol "y"), .symbol "x"]
    let later := ((Value.evaluate 9 call 1).after w).forest
    World.Leads .empty w ∧ 1 < w.forest.size ∧ later.size = 3 ∧ 1 ∈ later.chain 2 ∧
      later.root 2 = later.root 1 ∧ later.root 1 = w.forest.root 1 := by
  intro root w call later
  have hroot : World.Leads .empty root := World.Leads.stay.deed (.openScope none) nofun
  have hw : World.Leads .empty w := by
    apply hroot.deed (.bindArguments [.symbol "x"] [.nil] 0)
    intro s hs
    cases hs
    exact Nat.zero_lt_one
  have hsize : w.forest.size = 2 := rfl
  have hlater : later.size = 3 := by
    simp only [later, call, w, root]
    with_unfolding_all rfl
  have hthere : 1 < w.forest.size := by omega
  have hnew : 2 < later.size := by omega
  have hinside := ((scopes_only_grow hw).2.2.2 9 1 hthere).1 call
  exact ⟨hw, hthere, hlater, hinside 2 (Nat.le_of_eq hsize) hnew⟩

end DynLisp
