import DynLisp.Proofs.Scope.Growth
import Mathlib.Data.List.Induction

/-!
# What was ever bound

A `Record` is kept while scopes are opened and names are bound in them: around what each
scope was opened, and each binding that was made, oldest first, whatever became of it
later.  A forest that was made in this way (`Forest.AsRecorded`) can be told from its
record.

* `Forest.AsRecorded.push`, `Forest.AsRecorded.define` — what keeps a forest and its
  record in step;
* `Forest.AsRecorded.find?_eq_some_iff` — a name is found in the first scope on the walk
  outwards in which it was ever bound;
* `Forest.AsRecorded.get?_eq_some_iff` — there it means what it was bound to last;
* `Forest.AsRecorded.keys_eq` — a scope has its names in the order in which they were
  first bound.
-/

namespace DynLisp

namespace Bindings

variable {κ α : Type} [DecidableEq κ]

/-- A key that is new comes last, and a key that is there stays where it is. -/
theorem keys_insert (table : Bindings κ α) (key : κ) (value : α) :
    (insert table key value).keys =
      if key ∈ table.keys then table.keys else table.keys ++ [key] := by
  unfold keys
  induction table with
  | nil => rfl
  | cons binding rest ih =>
      obtain ⟨k, a⟩ := binding
      by_cases hk : k = key
      · subst hk
        simp [insert]
      · simp only [insert, hk, if_false, List.map_cons, ih, List.mem_cons, Ne.symm hk, false_or]
        split <;> rfl

/-- The last pair is inserted last. -/
theorem ofList_concat (pairs : List (κ × α)) (key : κ) (value : α) :
    ofList (pairs ++ [(key, value)]) = insert (ofList pairs) key value := by
  simp [ofList, insertAll]

/-- **The keys of a table from pairs** stand in the order in which they first came.  By
induction from the last pair. -/
theorem keys_ofList (pairs : List (κ × α)) :
    (ofList pairs).keys = (pairs.map (·.1)).eraseDups := by
  induction pairs using List.reverseRecOn with
  | nil => rfl
  | append_singleton front pair ih =>
      obtain ⟨key, value⟩ := pair
      rw [ofList_concat, keys_insert, ih, List.map_append, List.eraseDups_append]
      by_cases hkey : key ∈ front.map (·.1)
      · simp [List.removeAll, hkey]
      · simp [List.removeAll, hkey, List.eraseDups_cons]

/-- A key has the value of the last pair with this key. -/
theorem get?_ofList_eq_some_iff {pairs : List (κ × α)} {key : κ} {value : α} :
    (ofList pairs).get? key = some value ↔
      ∃ before after, pairs = before ++ (key, value) :: after ∧
        ∀ other, (key, other) ∉ after := by
  rw [ofList, get?_insertAll, get?, Option.or_none, List.lookup_eq_some_iff]
  constructor
  · rintro ⟨after, before, hpairs, hafter⟩
    refine ⟨before.reverse, after.reverse, ?_, ?_⟩
    · rw [← List.reverse_reverse pairs, hpairs]
      simp
    · intro other hmem
      have hne := hafter _ (List.mem_reverse.mp hmem)
      simp at hne
  · rintro ⟨before, after, rfl, hafter⟩
    refine ⟨after.reverse, before.reverse, by simp, ?_⟩
    rintro ⟨k, other⟩ hmem
    have hne : key ≠ k := by
      rintro rfl
      exact hafter other (List.mem_reverse.mp hmem)
    simpa using hne

/-- A key has no value if no pair has this key. -/
theorem get?_ofList_eq_none_iff {pairs : List (κ × α)} {key : κ} :
    (ofList pairs).get? key = none ↔ ∀ value, (key, value) ∉ pairs := by
  rw [ofList, get?_insertAll, get?, Option.or_none, List.lookup_eq_none_iff]
  constructor
  · intro h value hmem
    have hne := h _ (List.mem_reverse.mpr hmem)
    simp at hne
  · rintro h ⟨k, value⟩ hmem
    have hne : key ≠ k := by
      rintro rfl
      exact h value (List.mem_reverse.mp hmem)
    simpa using hne

end Bindings

/-- What is noted of scopes over time. -/
structure Record where
  /-- What each scope was opened around, oldest scope first. -/
  outers : List (Option ScopeId)
  /-- Each binding that was made, with its scope, oldest first. -/
  bindings : List (ScopeId × String × Value)

namespace Record

/-- Nothing has been done. -/
def empty : Record := ⟨[], []⟩

/-- Names are bound in a scope, one after the other. -/
def binding (r : Record) (s : ScopeId) (pairs : List (String × Value)) : Record :=
  ⟨r.outers, r.bindings ++ pairs.map (Prod.mk s)⟩

/-- A scope is opened, and names are bound in it. -/
def opening (r : Record) (outer : Option ScopeId) (pairs : List (String × Value)) : Record :=
  ⟨r.outers ++ [outer], r.bindings ++ pairs.map (Prod.mk r.outers.length)⟩

/-- What a binding binds, if it was made in the scope `s`. -/
def pairIn? (s : ScopeId) (binding : ScopeId × String × Value) : Option (String × Value) :=
  if binding.1 = s then some binding.2 else none

/-- The bindings that were made in one scope, oldest first. -/
def within (r : Record) (s : ScopeId) : List (String × Value) :=
  r.bindings.filterMap (pairIn? s)

/-- The name was ever bound in the scope. -/
def Binds (r : Record) (s : ScopeId) (name : String) : Prop :=
  ∃ v, (s, name, v) ∈ r.bindings

/-- The name was bound to the value in the scope, and has not been bound there since. -/
def BindsLast (r : Record) (s : ScopeId) (name : String) (v : Value) : Prop :=
  ∃ before after, r.bindings = before ++ (s, name, v) :: after ∧
    ∀ u, (s, name, u) ∉ after

variable {r : Record} {s t : ScopeId} {name : String} {v : Value}

/-- A binding is of the scope exactly if it was made there. -/
theorem pairIn?_eq_some_iff {binding : ScopeId × String × Value} {pair : String × Value} :
    pairIn? s binding = some pair ↔ binding = (s, pair) := by
  obtain ⟨s', pair'⟩ := binding
  simp [pairIn?]

/-- The bindings of a scope are those that were made there. -/
theorem mem_filterMap_pairIn? {bindings : List (ScopeId × String × Value)}
    {pair : String × Value} :
    pair ∈ bindings.filterMap (pairIn? s) ↔ (s, pair) ∈ bindings := by
  simp [List.mem_filterMap, pairIn?_eq_some_iff]

/-- Of the bindings in one scope, the last one with a name is the last one of all with
this scope and name. -/
theorem bindsLast_iff_within :
    r.BindsLast s name v ↔
      ∃ before after, r.within s = before ++ (name, v) :: after ∧
        ∀ u, (name, u) ∉ after := by
  constructor
  · rintro ⟨before, after, hbindings, hafter⟩
    refine ⟨before.filterMap (pairIn? s), after.filterMap (pairIn? s), ?_, ?_⟩
    · rw [within, hbindings, List.filterMap_append,
        List.filterMap_cons_some (pairIn?_eq_some_iff.mpr rfl)]
    · intro u hmem
      exact hafter u (mem_filterMap_pairIn?.mp hmem)
  · rintro ⟨before, after, hwithin, hafter⟩
    obtain ⟨front, back, hbindings, -, hback⟩ := List.filterMap_eq_append_iff.mp hwithin
    obtain ⟨skipped, binding, rest, rfl, -, hpair, hrest⟩ :=
      List.filterMap_eq_cons_iff.mp hback
    obtain rfl := pairIn?_eq_some_iff.mp hpair
    refine ⟨front ++ skipped, rest, ?_, ?_⟩
    · rw [hbindings, List.append_assoc]
    · intro u hmem
      apply hafter u
      rw [← hrest]
      exact mem_filterMap_pairIn?.mpr hmem

/-- What was bound in one scope is there in its place, and in no other. -/
theorem filterMap_pairIn?_map (pairs : List (String × Value)) :
    (pairs.map (Prod.mk s)).filterMap (pairIn? t) = if s = t then pairs else [] := by
  rw [List.filterMap_map]
  split
  · next hst =>
    have hpair : pairIn? t ∘ Prod.mk s = some := by
      funext pair
      exact pairIn?_eq_some_iff.mpr (by rw [hst])
    rw [hpair, List.filterMap_some]
  · next hst =>
    rw [List.filterMap_eq_nil_iff]
    intro pair _
    exact if_neg hst

/-- What is bound in one scope is noted there and nowhere else. -/
theorem within_binding (pairs : List (String × Value)) :
    (r.binding s pairs).within t = r.within t ++ if s = t then pairs else [] := by
  rw [within, binding, List.filterMap_append, filterMap_pairIn?_map]
  rfl

/-- What a scope is opened with is noted as bound there. -/
theorem within_opening (outer : Option ScopeId) (pairs : List (String × Value)) :
    (r.opening outer pairs).within t =
      r.within t ++ if r.outers.length = t then pairs else [] := by
  rw [within, opening, List.filterMap_append, filterMap_pairIn?_map]
  rfl

end Record

namespace Forest

variable {f : Forest} {r : Record} {id s t : ScopeId} {name : String} {v : Value}

/-- **A forest as it is recorded.**  It has the scopes of the record, with their links,
and in each scope the table of the bindings that were made there. -/
structure AsRecorded (f : Forest) (r : Record) : Prop where
  size_eq : f.size = r.outers.length
  link?_eq : ∀ id, f.link? id = r.outers[id]?.join
  bindings_eq : ∀ id, f.bindings id = Bindings.ofList (r.within id)
  there : ∀ b ∈ r.bindings, b.1 < r.outers.length

/-- The record of no scopes. -/
theorem asRecorded_empty : AsRecorded .empty .empty where
  size_eq := rfl
  link?_eq := fun _ => rfl
  bindings_eq := fun _ => rfl
  there := nofun

namespace AsRecorded

/-- Nothing is bound in a scope that is not there yet. -/
theorem within_eq_nil (h : f.AsRecorded r) (hid : r.outers.length ≤ id) :
    r.within id = [] := by
  rw [List.eq_nil_iff_forall_not_mem]
  intro pair hmem
  have hthere := h.there _ (Record.mem_filterMap_pairIn?.mp hmem)
  exact Nat.not_lt_of_le hid hthere

/-- **Opening a scope** with a table is recorded with the pairs of the table. -/
theorem push (h : f.AsRecorded r) (outer : Option ScopeId) (pairs : List (String × Value)) :
    (f.push outer (Bindings.ofList pairs)).AsRecorded (r.opening outer pairs) where
  size_eq := by
    rw [size_push, h.size_eq, Record.opening, List.length_append]
    rfl
  link?_eq := by
    intro id
    rw [link?_push, h.size_eq, Record.opening, h.link?_eq]
    by_cases hid : id = r.outers.length
    · rw [if_pos hid, hid, List.getElem?_concat_length]
      rfl
    · rw [if_neg hid]
      by_cases hlt : id < r.outers.length
      · rw [List.getElem?_append_left hlt]
      · have hbeyond : (r.outers ++ [outer]).length ≤ id := by
          rw [List.length_append]
          exact Nat.lt_of_le_of_ne (Nat.le_of_not_lt hlt) (Ne.symm hid)
        rw [List.getElem?_eq_none hbeyond, List.getElem?_eq_none (Nat.le_of_not_lt hlt)]
  bindings_eq := by
    intro id
    rw [bindings_push, h.size_eq, Record.within_opening]
    by_cases hid : id = r.outers.length
    · rw [if_pos hid, if_pos hid.symm, h.within_eq_nil (Nat.le_of_eq hid.symm),
        List.nil_append]
    · rw [if_neg hid, if_neg (Ne.symm hid), List.append_nil, h.bindings_eq]
  there := by
    intro b hb
    have hlength : (r.opening outer pairs).outers.length = r.outers.length + 1 := by
      simp [Record.opening]
    rw [hlength]
    rcases List.mem_append.mp hb with hold | hnew
    · exact Nat.lt_succ_of_lt (h.there b hold)
    · obtain ⟨pair, -, rfl⟩ := List.mem_map.mp hnew
      exact Nat.lt_succ_self _

/-- **Binding a name** in a scope that is there is recorded as such. -/
theorem define (h : f.AsRecorded r) (hs : s < f.size) (name : String) (v : Value) :
    (f.define s name v).AsRecorded (r.binding s [(name, v)]) where
  size_eq := size_define.trans h.size_eq
  link?_eq := by
    intro id
    rw [link?_define]
    exact h.link?_eq id
  bindings_eq := by
    intro id
    rw [Record.within_binding]
    by_cases hid : s = id
    · subst hid
      rw [if_pos rfl, Bindings.ofList_concat, ← h.bindings_eq, bindings_define_self hs]
    · rw [if_neg hid, List.append_nil, ← h.bindings_eq,
        bindings_congr (scopes_define_of_ne (Ne.symm hid))]
  there := by
    intro b hb
    rcases List.mem_append.mp hb with hold | hnew
    · exact h.there b hold
    · obtain rfl := List.mem_singleton.mp hnew
      exact h.size_eq ▸ hs

/-- So are names bound one after the other.  By induction on the pairs. -/
theorem foldl_define (h : f.AsRecorded r) (hs : s < f.size) (pairs : List (String × Value)) :
    (pairs.foldl (fun g pair => g.define s pair.1 pair.2) f).AsRecorded
      (r.binding s pairs) := by
  induction pairs generalizing f r with
  | nil => simpa [Record.binding] using h
  | cons pair rest ih =>
      have hrest := ih (h.define hs pair.1 pair.2) (by rwa [size_define])
      simpa [Record.binding] using hrest

/-! ### What the record says -/

/-- In its own table a name has the value to which it was bound last. -/
theorem get?_bindings_eq_some_iff (h : f.AsRecorded r) :
    (f.bindings s).get? name = some v ↔ r.BindsLast s name v := by
  rw [h.bindings_eq, Bindings.get?_ofList_eq_some_iff, Record.bindsLast_iff_within]

/-- A scope has no value for a name exactly if it was never bound there. -/
theorem get?_bindings_eq_none_iff (h : f.AsRecorded r) :
    (f.bindings s).get? name = none ↔ ¬ r.Binds s name := by
  rw [h.bindings_eq, Bindings.get?_ofList_eq_none_iff, Record.Binds, not_exists]
  exact forall_congr' fun v => not_congr Record.mem_filterMap_pairIn?

theorem isSome_get?_bindings_iff (h : f.AsRecorded r) :
    ((f.bindings s).get? name).isSome = true ↔ r.Binds s name := by
  rw [← not_iff_not, ← h.get?_bindings_eq_none_iff]
  simp

/-- **Where a name is found**: in the first scope on the walk in which it was ever
bound. -/
theorem find?_eq_some_iff (h : f.AsRecorded r) (hf : f.Linked) :
    f.find? id name = some t ↔
      ∃ nearer farther, f.Walk id (nearer ++ t :: farther) ∧ r.Binds t name ∧
        ∀ s ∈ nearer, ¬ r.Binds s name := by
  constructor
  · intro hfind
    rw [(hf.walk id).find?_eq hf name, List.find?_eq_some_iff_append] at hfind
    obtain ⟨hbinds, nearer, farther, hchain, hnearer⟩ := hfind
    refine ⟨nearer, farther, hchain ▸ hf.walk id, h.isSome_get?_bindings_iff.mp hbinds, ?_⟩
    intro s hs hbinds
    have hnone := hnearer s hs
    rw [h.isSome_get?_bindings_iff.mpr hbinds] at hnone
    cases hnone
  · rintro ⟨nearer, farther, hwalk, hbinds, hnearer⟩
    rw [hwalk.find?_eq hf name, List.find?_eq_some_iff_append]
    refine ⟨h.isSome_get?_bindings_iff.mpr hbinds, nearer, farther, rfl, ?_⟩
    intro s hs
    rw [h.get?_bindings_eq_none_iff.mpr (hnearer s hs)]
    rfl

/-- A name is not found if it was bound in no scope on the walk. -/
theorem find?_eq_none_iff (h : f.AsRecorded r) (hf : f.Linked) :
    f.find? id name = none ↔ ∀ path, f.Walk id path → ∀ t ∈ path, ¬ r.Binds t name := by
  constructor
  · intro hfind path hwalk t ht hbinds
    rw [hwalk.find?_eq hf name, List.find?_eq_none] at hfind
    exact hfind t ht (h.isSome_get?_bindings_iff.mpr hbinds)
  · intro hnone
    rw [(hf.walk id).find?_eq hf name, List.find?_eq_none]
    intro t ht hbinds
    exact hnone _ (hf.walk id) t ht (h.isSome_get?_bindings_iff.mp hbinds)

/-- **What a name means**: the value to which it was bound last in the scope in which it
is found. -/
theorem get?_eq_some_iff (h : f.AsRecorded r) :
    f.get? id name = some v ↔ ∃ t, f.find? id name = some t ∧ r.BindsLast t name v := by
  rw [get?, Option.bind_eq_some_iff]
  exact exists_congr fun t => and_congr_right fun _ => h.get?_bindings_eq_some_iff

/-- A name that is found has a meaning. -/
theorem get?_eq_none_iff (h : f.AsRecorded r) (hf : f.Linked) :
    f.get? id name = none ↔ f.find? id name = none := by
  rw [get?, Option.bind_eq_none_iff]
  constructor
  · intro hnone
    cases hfind : f.find? id name with
    | none => rfl
    | some t =>
        obtain ⟨-, -, -, hbinds, -⟩ := (h.find?_eq_some_iff hf).mp hfind
        exact absurd hbinds (h.get?_bindings_eq_none_iff.mp (hnone t hfind))
  · intro hfind t ht
    rw [hfind] at ht
    cases ht

/-- **The names of a scope** stand in the order in which they were first bound there. -/
theorem keys_eq (h : f.AsRecorded r) (s : ScopeId) :
    (f.bindings s).keys = ((r.within s).map (·.1)).eraseDups := by
  rw [h.bindings_eq, Bindings.keys_ofList]

end AsRecorded

end Forest

end DynLisp
