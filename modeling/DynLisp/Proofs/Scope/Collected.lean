import DynLisp.Proofs.Scope.Record
import Mathlib.Data.List.Nodup

/-!
# Tables that collect pairs

A table **collects** a list of pairs if it has each key where the key came first, with the
value that came last.  There is one such table, and `Bindings.ofList` makes it.

* `Bindings.insert_insert_self`, `Bindings.insert_insert_of_mem` — of two insertions with the
  same key the second one counts, and a key that is there can be inserted before another one
  or after it;
* `Bindings.insertAll_ofList` — inserting the collected pairs into any table comes to the same
  as inserting the pairs themselves, one after the other, with all their repetitions;
* `Bindings.Collects.eq_ofList` — what collects the pairs is the table that is made of them;
* `Forest.Gains` — what becomes of a forest when pairs are bound in one of its scopes, which
  is the same for pairs and for collected pairs.
-/

namespace DynLisp

namespace Bindings

variable {κ α : Type} [DecidableEq κ] {table s t : Bindings κ α} {pairs : List (κ × α)}
  {key other : κ} {a b : α}

theorem mem_keys_insert :
    other ∈ (insert table key a).keys ↔ other = key ∨ other ∈ table.keys := by
  rw [keys_insert]
  by_cases hkey : key ∈ table.keys
  · rw [if_pos hkey]
    refine ⟨Or.inr, fun h => ?_⟩
    rcases h with heq | hmem
    · exact heq ▸ hkey
    · exact hmem
  · rw [if_neg hkey, List.mem_append, List.mem_singleton, or_comm]

/-- Of two insertions with the same key the second one counts. -/
theorem insert_insert_self (table : Bindings κ α) (key : κ) (a b : α) :
    insert (insert table key a) key b = insert table key b := by
  induction table with
  | nil => simp [insert]
  | cons binding rest ih =>
      obtain ⟨k, c⟩ := binding
      by_cases hk : k = key
      · simp [insert, hk]
      · simp [insert, hk, ih]

/-- **A key that is there keeps its place.**  So it makes no difference whether it is inserted
before another one or after it. -/
theorem insert_insert_of_mem (hkey : key ∈ table.keys) (hne : other ≠ key) :
    insert (insert table other b) key a = insert (insert table key a) other b := by
  induction table with
  | nil => cases hkey
  | cons binding rest ih =>
      obtain ⟨k, c⟩ := binding
      by_cases hk : k = key
      · subst hk
        simp [insert, Ne.symm hne]
      · have hrest : key ∈ keys rest := (List.mem_cons.mp hkey).resolve_left (Ne.symm hk)
        by_cases ho : k = other
        · subst ho
          simp [insert, hk]
        · simp [insert, hk, ho, ih hrest]

/-- The same past any number of other keys. -/
theorem insert_insertAll_of_mem (hkey : key ∈ table.keys) (hpairs : key ∉ pairs.map (·.1)) :
    insert (insertAll table pairs) key a = insertAll (insert table key a) pairs := by
  induction pairs generalizing table with
  | nil => rfl
  | cons pair rest ih =>
      have hne : key ≠ pair.1 := List.ne_of_not_mem_cons hpairs
      have hrest : key ∉ rest.map (·.1) := List.not_mem_of_not_mem_cons hpairs
      have hstill : key ∈ (insert table pair.1 pair.2).keys := mem_keys_insert.mpr (Or.inr hkey)
      calc insert (insertAll (insert table pair.1 pair.2) rest) key a
          = insertAll (insert (insert table pair.1 pair.2) key a) rest := ih hstill hrest
        _ = insertAll (insert (insert table key a) pair.1 pair.2) rest := by
            rw [insert_insert_of_mem hkey (Ne.symm hne)]

theorem nodup_keys_ofList (pairs : List (κ × α)) : (ofList pairs).keys.Nodup := by
  induction pairs using List.reverseRecOn with
  | nil => exact List.nodup_nil
  | append_singleton front pair ih =>
      rw [ofList_concat, keys_insert]
      split
      · exact ih
      · next hnew =>
          rw [← List.concat_eq_append]
          exact List.Nodup.concat hnew ih

/-- **One more insertion into a table** is one more insertion wherever the table is inserted.
By induction on the table: where the key is met, it is moved to the end past the others. -/
theorem insertAll_insert (hs : s.keys.Nodup) :
    insertAll table (insert s key a) = insert (insertAll table s) key a := by
  induction s generalizing table with
  | nil => rfl
  | cons binding rest ih =>
      obtain ⟨k, b⟩ := binding
      obtain ⟨hnew, hrest⟩ := List.nodup_cons.mp hs
      by_cases hk : k = key
      · subst hk
        have hthere : k ∈ (insert table k b).keys := mem_keys_insert.mpr (Or.inl rfl)
        calc insertAll table (insert ((k, b) :: rest) k a)
            = insertAll (insert table k a) rest := by rw [insert, if_pos rfl]; rfl
          _ = insertAll (insert (insert table k b) k a) rest := by rw [insert_insert_self]
          _ = insert (insertAll (insert table k b) rest) k a :=
              (insert_insertAll_of_mem hthere hnew).symm
      · rw [insert, if_neg hk]
        exact ih hrest

/-- **Collected pairs come to the same.**  Inserting the table of a list of pairs is inserting
the pairs one after the other.  By induction from the last pair. -/
theorem insertAll_ofList (table : Bindings κ α) (pairs : List (κ × α)) :
    insertAll table (ofList pairs) = insertAll table pairs := by
  induction pairs using List.reverseRecOn with
  | nil => rfl
  | append_singleton front pair ih =>
      rw [ofList_concat, insertAll_insert (nodup_keys_ofList front), ih]
      simp [insertAll]

/-- **The table collects the pairs**: it has each key where it came first, with the value that
came last. -/
structure Collects (table : Bindings κ α) (pairs : List (κ × α)) : Prop where
  keys_eq : table.keys = (pairs.map (·.1)).eraseDups
  last : ∀ key value, table.get? key = some value ↔
    ∃ before after, pairs = before ++ (key, value) :: after ∧ ∀ other, (key, other) ∉ after

theorem collects_ofList (pairs : List (κ × α)) : (ofList pairs).Collects pairs where
  keys_eq := keys_ofList pairs
  last := fun _ _ => get?_ofList_eq_some_iff

/-- Two tables are the same if they have the same keys in the same order with the same
values. -/
theorem eq_of_keys_eq (hkeys : s.keys = t.keys) (hnodup : s.keys.Nodup)
    (hget : ∀ key ∈ s.keys, s.get? key = t.get? key) : s = t := by
  induction s generalizing t with
  | nil => exact (List.map_eq_nil_iff.mp hkeys.symm).symm
  | cons binding rest ih =>
      obtain ⟨k, a⟩ := binding
      cases t with
      | nil => cases hkeys
      | cons binding' rest' =>
          obtain ⟨k', a'⟩ := binding'
          obtain ⟨rfl, hrestKeys⟩ := List.cons.inj hkeys
          obtain ⟨hnew, hrestNodup⟩ := List.nodup_cons.mp hnodup
          have hfirst : some a = some a' := by
            simpa [get?] using hget k List.mem_cons_self
          have hrest : rest = rest' := by
            refine ih hrestKeys hrestNodup fun key hkey => ?_
            have hne : k ≠ key := fun heq => hnew (heq ▸ hkey)
            simpa [get?, hne] using hget key (List.mem_cons_of_mem _ hkey)
          rw [Option.some.inj hfirst, hrest]

/-- **What collects the pairs** is the table that is made of them. -/
theorem Collects.eq_ofList (h : table.Collects pairs) : table = ofList pairs := by
  have hkeys : table.keys = (ofList pairs).keys := h.keys_eq.trans (keys_ofList pairs).symm
  refine eq_of_keys_eq hkeys (hkeys ▸ nodup_keys_ofList pairs) fun key _ => ?_
  apply Option.ext
  intro value
  rw [h.last, get?_ofList_eq_some_iff]

/-- Other names for the keys, of which no two become the same, stay in their places. -/
theorem insert_map {ι : Type} [DecidableEq ι] {rename : ι → κ}
    (hrename : Function.Injective rename) (table : Bindings ι α) (key : ι) (a : α) :
    insert (table.map (Prod.map rename id)) (rename key) a =
      (insert table key a).map (Prod.map rename id) := by
  induction table with
  | nil => rfl
  | cons binding rest ih =>
      obtain ⟨k, c⟩ := binding
      by_cases hk : k = key
      · simp [insert, hk]
      · have hne : rename k ≠ rename key := fun heq => hk (hrename heq)
        simp [insert, hk, hne, ih]

theorem ofList_map {ι : Type} [DecidableEq ι] {rename : ι → κ}
    (hrename : Function.Injective rename) (pairs : List (ι × α)) :
    ofList (pairs.map (Prod.map rename id)) = (ofList pairs).map (Prod.map rename id) := by
  induction pairs using List.reverseRecOn with
  | nil => rfl
  | append_singleton front pair ih =>
      obtain ⟨key, value⟩ := pair
      calc ofList ((front ++ [(key, value)]).map (Prod.map rename id))
          = insert (ofList (front.map (Prod.map rename id))) (rename key) value := by
            rw [List.map_append]
            exact ofList_concat _ _ _
        _ = (insert (ofList front) key value).map (Prod.map rename id) := by
            rw [ih, insert_map hrename]
        _ = (ofList (front ++ [(key, value)])).map (Prod.map rename id) := by rw [ofList_concat]

end Bindings

/-- **The scope gains the pairs**: they are bound in it, one after the other, and every other
scope is as it was. -/
structure Forest.Gains (f g : Forest) (s : ScopeId) (pairs : List (String × Value)) : Prop where
  own : g.scopes[s]? = (f.scopes[s]?).map fun scope =>
    { scope with bindings := scope.bindings.insertAll pairs }
  others : ∀ other, other ≠ s → g.scopes[other]? = f.scopes[other]?

namespace Forest

variable {f g h : Forest} {s : ScopeId} {pairs : List (String × Value)}

/-- By induction on the pairs. -/
theorem gains_foldl_define (f : Forest) (s : ScopeId) (pairs : List (String × Value)) :
    f.Gains (pairs.foldl (fun g pair => g.define s pair.1 pair.2) f) s pairs := by
  induction pairs generalizing f with
  | nil => exact ⟨by simp [Bindings.insertAll], fun _ _ => rfl⟩
  | cons pair rest ih =>
      obtain ⟨hown, hothers⟩ := ih (f.define s pair.1 pair.2)
      refine ⟨?_, fun other hne => ?_⟩
      · rw [List.foldl_cons, hown, scopes_define_self, Option.map_map]
        rfl
      · rw [List.foldl_cons, hothers other hne, scopes_define_of_ne hne]

/-- What a scope gains settles the forest. -/
theorem Gains.unique (hg : f.Gains g s pairs) (hh : f.Gains h s pairs) : g = h := by
  have hscopes : g.scopes = h.scopes := by
    refine Array.ext_getElem? fun other => ?_
    by_cases hother : other = s
    · rw [hother, hg.own, hh.own]
    · rw [hg.others other hother, hh.others other hother]
  exact congrArg Forest.mk hscopes

/-- To gain the collected pairs is to gain the pairs. -/
theorem Gains.of_ofList (hg : f.Gains g s (Bindings.ofList pairs)) : f.Gains g s pairs where
  own := by
    rw [hg.own]
    simp only [Bindings.insertAll_ofList]
  others := hg.others

end Forest

end DynLisp
