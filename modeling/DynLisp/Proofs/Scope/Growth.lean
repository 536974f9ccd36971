import DynLisp.Proofs.Scope.Lookup

/-!
# Links between scopes

Every scope says which scope is right outside of it, if any; this is its **link**.  The
functions that walk outwards check at every link that it leads to an older scope.  This
module is about the links as they stand, without that check.

* `Forest.Linked` — all links lead to older scopes;
* `Forest.Walk` — the scopes that are met when links are followed to the end.  In a
  linked forest there is such a walk from every scope, and it meets the scopes of the
  chain (`Forest.Linked.walk`).  The root is where the walk ends
  (`Forest.Walk.getLast?_eq`), and a name means what the first scope on the walk binds
  it to that binds it at all (`Forest.Walk.find?_eq`, `Forest.Walk.get?_eq`);
* `Forest.Around` — one scope is around another, or is the same;
* `Forest.Grows` — no scope is lost, no link changes, and the links of new scopes lead
  to older ones.  So growing keeps a forest linked (`Forest.Grows.linked`) and keeps the
  root of every scope (`Forest.Grows.root_eq`);
* `Forest.GrowsAround` — growing where all new scopes have one scope around them.
-/

namespace DynLisp

namespace Forest

variable {f g h : Forest} {id o s t : ScopeId} {path : List ScopeId}

/-- The scope that a scope is linked to. -/
def link? (f : Forest) (id : ScopeId) : Option ScopeId := (f.scopes[id]?).bind (·.outer)

/-- Every link leads to an older scope. -/
def Linked (f : Forest) : Prop := ∀ id o, f.link? id = some o → o < id

/-- Following links from the scope on meets these scopes, and ends with the last of
them. -/
inductive Walk (f : Forest) : ScopeId → List ScopeId → Prop
  | last {id : ScopeId} (hlink : f.link? id = none) : Walk f id [id]
  | next {id o : ScopeId} {path : List ScopeId} (hlink : f.link? id = some o)
      (hrest : Walk f o path) : Walk f id (id :: path)

/-- Following links from a scope leads to the scope `s`. -/
inductive Around (f : Forest) (s : ScopeId) : ScopeId → Prop
  | here : Around f s s
  | next {id o : ScopeId} (hlink : f.link? id = some o) (hrest : Around f s o) :
      Around f s id

/-! ### One link -/

/-- A link is read off the scope. -/
theorem link?_congr (h : g.scopes[id]? = f.scopes[id]?) : g.link? id = f.link? id := by
  simp only [link?, h]

/-- Only scopes that are there are linked. -/
theorem lt_size_of_link? (hlink : f.link? id = some o) : id < f.size := by
  obtain ⟨scope, hscope, -⟩ := Option.bind_eq_some_iff.mp hlink
  obtain ⟨hid, -⟩ := Array.getElem?_eq_some_iff.mp hscope
  exact hid

/-- Nothing is outside of a scope without a link. -/
theorem outer?_of_link?_none (hlink : f.link? id = none) : f.outer? id = none := by
  unfold link? at hlink
  unfold outer?
  cases hscope : f.scopes[id]? with
  | none => rfl
  | some scope =>
      obtain ⟨outer, table⟩ := scope
      rw [hscope] at hlink
      cases outer with
      | none => rfl
      | some o => cases hlink

/-- Where links lead to older scopes, the check on the way outwards is passed. -/
theorem Linked.outer?_of_link? (hf : Linked f) (hlink : f.link? id = some o) :
    f.outer? id = some ⟨o, hf id o hlink⟩ := by
  have holder : o < id := hf id o hlink
  obtain ⟨scope, hscope, houter⟩ := Option.bind_eq_some_iff.mp hlink
  obtain ⟨outer, table⟩ := scope
  cases houter
  simp [outer?, hscope, holder]

/-! ### Following links -/

/-- **Walks end**, and they meet the scopes of the chain.  The induction is on the number
of the scope, as links lead to lower ones. -/
theorem Linked.walk (hf : Linked f) (id : ScopeId) : f.Walk id (f.chain id) := by
  induction id using Nat.strongRecOn with
  | ind id ih =>
      cases hlink : f.link? id with
      | none =>
          rw [chain, outer?_of_link?_none hlink]
          exact .last hlink
      | some o =>
          rw [chain, hf.outer?_of_link? hlink]
          exact .next hlink (ih o (hf id o hlink))

/-- The root is where the walk ends, and it has no link. -/
theorem Walk.getLast?_eq (hf : Linked f) (h : f.Walk id path) :
    path.getLast? = some (f.root id) ∧ f.link? (f.root id) = none := by
  induction h with
  | @last id hlink =>
      rw [root, outer?_of_link?_none hlink]
      exact ⟨rfl, hlink⟩
  | @next id o path hlink _ ih =>
      obtain ⟨hlast, hroot⟩ := ih
      rw [root, hf.outer?_of_link? hlink, List.getLast?_cons, hlast]
      exact ⟨rfl, hroot⟩

/-- A name is found in the first scope on the walk that binds it. -/
theorem Walk.find?_eq (hf : Linked f) (h : f.Walk id path) (name : String) :
    f.find? id name = path.find? fun s => ((f.bindings s).get? name).isSome := by
  induction h with
  | @last id hlink =>
      rw [find?, outer?_of_link?_none hlink, List.find?_singleton]
      cases (f.bindings id).get? name <;> rfl
  | @next id o path hlink _ ih =>
      rw [find?, hf.outer?_of_link? hlink, List.find?_cons]
      cases (f.bindings id).get? name with
      | some v => rfl
      | none => exact ih

/-- A name means what that scope binds it to. -/
theorem Walk.get?_eq (hf : Linked f) (h : f.Walk id path) (name : String) :
    f.get? id name = path.findSome? fun s => (f.bindings s).get? name := by
  induction h with
  | @last id hlink =>
      rw [get?_step, outer?_of_link?_none hlink]
      simp
  | @next id o path hlink _ ih =>
      rw [get?_step, hf.outer?_of_link? hlink, List.findSome?_cons]
      cases (f.bindings id).get? name with
      | some v => rfl
      | none => exact ih

/-- A walk meets the scopes around its start. -/
theorem Walk.mem_iff_around (h : f.Walk id path) : s ∈ path ↔ f.Around s id := by
  induction h with
  | @last id hlink =>
      constructor
      · intro hmem
        rw [List.mem_singleton.mp hmem]
        exact .here
      · intro haround
        cases haround with
        | here => exact List.mem_singleton_self _
        | next hlink' _ => exact nomatch hlink.symm.trans hlink'
  | @next id o path hlink _ ih =>
      constructor
      · intro hmem
        rcases List.mem_cons.mp hmem with rfl | hrest
        · exact .here
        · exact .next hlink (ih.mp hrest)
      · intro haround
        cases haround with
        | here => exact List.mem_cons_self
        | next hlink' hrest =>
            cases hlink.symm.trans hlink'
            exact List.mem_cons_of_mem _ (ih.mpr hrest)

theorem Around.trans (hst : f.Around s t) (htid : f.Around t id) : f.Around s id := by
  induction htid with
  | here => exact hst
  | next hlink _ ih => exact .next hlink ih

/-- Scopes have the same root as those around them. -/
theorem Around.root_eq (hf : Linked f) (h : f.Around s id) : f.root id = f.root s := by
  induction h with
  | here => rfl
  | @next id o hlink _ ih =>
      rw [root, hf.outer?_of_link? hlink]
      exact ih

/-! ### Growing -/

/-- **Growing.**  No scope is lost, no link changes, and new scopes are linked to older
ones, if to any. -/
structure Grows (f g : Forest) : Prop where
  size_le : f.size ≤ g.size
  kept : ∀ id, id < f.size → g.link? id = f.link? id
  fresh : ∀ id o, f.size ≤ id → g.link? id = some o → o < id

theorem Grows.refl (f : Forest) : Grows f f where
  size_le := Nat.le_refl f.size
  kept := fun _ _ => rfl
  fresh := by
    intro id o hid hlink
    have hthere : id < f.size := lt_size_of_link? hlink
    omega

theorem Grows.trans (hfg : Grows f g) (hgh : Grows g h) : Grows f h where
  size_le := Nat.le_trans hfg.size_le hgh.size_le
  kept := by
    intro id hid
    rw [hgh.kept id (Nat.lt_of_lt_of_le hid hfg.size_le), hfg.kept id hid]
  fresh := by
    intro id o hid hlink
    by_cases hg : id < g.size
    · rw [hgh.kept id hg] at hlink
      exact hfg.fresh id o hid hlink
    · exact hgh.fresh id o (by omega) hlink

/-- Binding a name changes no link. -/
theorem link?_define (name : String) (v : Value) :
    (f.define id name v).link? s = f.link? s := by
  by_cases hs : s = id
  · subst hs
    simp only [link?, scopes_define_self]
    cases f.scopes[s]? <;> rfl
  · exact link?_congr (scopes_define_of_ne hs)

theorem grows_define (f : Forest) (id : ScopeId) (name : String) (v : Value) :
    Grows f (f.define id name v) where
  size_le := Nat.le_of_eq size_define.symm
  kept := fun _ _ => link?_define name v
  fresh := by
    intro s o hs hlink
    rw [link?_define] at hlink
    exact (Grows.refl f).fresh s o hs hlink

/-- The links after a scope is opened. -/
theorem link?_push (outer : Option ScopeId) (table : Bindings String Value) :
    (f.push outer table).link? id = if id = f.size then outer else f.link? id := by
  unfold link?
  rw [scopes_push]
  split <;> rfl

/-- The scope that was opened last has the link that it was given. -/
theorem link?_push_self (outer : Option ScopeId) (table : Bindings String Value) :
    (f.push outer table).link? f.size = outer := by
  rw [link?_push, if_pos rfl]

/-- **Opening a scope** around nothing or around a scope that is there. -/
theorem grows_push (f : Forest) {outer : Option ScopeId} (table : Bindings String Value)
    (houter : ∀ o ∈ outer, o < f.size) : Grows f (f.push outer table) where
  size_le := by simp
  kept := fun _ hid => link?_congr (scopes_push_of_lt outer table hid)
  fresh := by
    intro id o hid hlink
    rw [link?_push] at hlink
    split at hlink
    · next hlast => exact hlast ▸ houter o hlink
    · exact absurd (lt_size_of_link? hlink) (Nat.not_lt_of_le hid)

/-- Growing keeps a forest linked. -/
theorem Grows.linked (hfg : Grows f g) (hf : Linked f) : Linked g := by
  intro id o hlink
  by_cases hid : id < f.size
  · rw [hfg.kept id hid] at hlink
    exact hf id o hlink
  · exact hfg.fresh id o (Nat.le_of_not_lt hid) hlink

/-- Growing keeps what is around a scope that is there. -/
theorem Grows.around (hfg : Grows f g) (h : f.Around s id) : g.Around s id := by
  induction h with
  | here => exact .here
  | next hlink _ ih =>
      apply Around.next _ ih
      rw [hfg.kept _ (lt_size_of_link? hlink), hlink]

/-- Growing keeps the roots. -/
theorem Grows.root_eq (hfg : Grows f g) (hf : Linked f) (hid : id < f.size) :
    g.root id = f.root id := by
  induction id using Nat.strongRecOn with
  | ind id ih =>
      have hkept := hfg.kept id hid
      rw [root, root]
      cases hlink : f.link? id with
      | none => rw [outer?_of_link?_none hlink, outer?_of_link?_none (hkept.trans hlink)]
      | some o =>
          have holder : o < id := hf id o hlink
          rw [hf.outer?_of_link? hlink,
            (hfg.linked hf).outer?_of_link? (hkept.trans hlink)]
          exact ih o holder (Nat.lt_trans holder hid)

/-- **Growing inside a scope**: all new scopes have the scope `s` around them. -/
structure GrowsAround (s : ScopeId) (f g : Forest) : Prop extends Grows f g where
  inner : ∀ id, f.size ≤ id → id < g.size → g.Around s id

/-- Where no scope is opened, nothing has to be inside. -/
theorem Grows.growsAround (hfg : Grows f g) (hsize : g.size = f.size) (s : ScopeId) :
    GrowsAround s f g where
  toGrows := hfg
  inner := by
    intro id hid hlt
    omega

theorem GrowsAround.trans (hfg : GrowsAround s f g) (hgh : GrowsAround s g h) :
    GrowsAround s f h where
  toGrows := hfg.toGrows.trans hgh.toGrows
  inner := by
    intro id hid hlt
    by_cases hg : id < g.size
    · exact hgh.around (hfg.inner id hid hg)
    · exact hgh.inner id (by omega) hlt

/-- **A call** opens its scope inside the caller's.  What grows inside the scope of the
call is then inside the caller's as well. -/
theorem GrowsAround.of_push {table : Bindings String Value} (hs : s < f.size)
    (hin : GrowsAround f.size (f.push (some s) table) g) : GrowsAround s f g where
  toGrows := by
    have hpush : Grows f (f.push (some s) table) := by
      apply grows_push
      intro o ho
      cases ho
      exact hs
    exact hpush.trans hin.toGrows
  inner := by
    intro id hid hlt
    have hnew : f.size < (f.push (some s) table).size := by simp
    have hcall : g.link? f.size = some s := by
      rw [hin.kept f.size hnew, link?_push_self]
    have haround : g.Around s f.size := .next hcall .here
    rcases Nat.eq_or_lt_of_le hid with rfl | hafter
    · exact haround
    · apply haround.trans
      apply hin.inner id _ hlt
      rw [size_push]
      exact hafter

end Forest

end DynLisp
