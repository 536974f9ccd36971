import DynLisp.Proofs.Scope.Lookup

/-!
# What scopes hold

Which values can be found in the tables of a forest, wherever they are.  A value
that is found after a change was there before, or is what the change brought.

* `Forest.exists_mem_of_get?` — what a name means is bound in some scope;
* `Forest.mem_bindings_define` — binding a name brings one value;
* `Forest.mem_bindings_push` — opening a scope brings its own table.

So whatever is true of all values in a forest stays true as long as nothing else
is brought in, and no proof of that kind needs to walk the scopes again.
-/

namespace DynLisp

namespace Bindings

variable {κ α : Type} [DecidableEq κ]

/-- A value that a key has is one of the table. -/
theorem mem_of_get? {table : Bindings κ α} {key : κ} {value : α}
    (h : table.get? key = some value) : (key, value) ∈ table := by
  induction table with
  | nil => cases h
  | cons binding rest ih =>
      obtain ⟨k, a⟩ := binding
      rw [get?] at h
      split at h
      · next hk =>
        cases h
        rw [hk]
        exact List.mem_cons_self
      · exact List.mem_cons_of_mem _ (ih h)

/-- An insertion brings no value but its own. -/
theorem mem_insert {table : Bindings κ α} {key other : κ} {value a : α}
    (h : (other, a) ∈ insert table key value) : a = value ∨ (other, a) ∈ table := by
  induction table with
  | nil =>
      cases List.mem_singleton.mp h
      exact Or.inl rfl
  | cons binding rest ih =>
      obtain ⟨k, b⟩ := binding
      rw [insert] at h
      split at h
      · rcases List.mem_cons.mp h with heq | hrest
        · cases heq
          exact Or.inl rfl
        · exact Or.inr (List.mem_cons_of_mem _ hrest)
      · rcases List.mem_cons.mp h with heq | hrest
        · rw [heq]
          exact Or.inr List.mem_cons_self
        · exact (ih hrest).imp_right (List.mem_cons_of_mem _)

/-- Insertions bring no values but their own, perhaps under other keys. -/
theorem mem_insertAll {table : Bindings κ α} {pairs : List (κ × α)} {key : κ} {a : α}
    (h : (key, a) ∈ insertAll table pairs) :
    (key, a) ∈ table ∨ ∃ k, (k, a) ∈ pairs := by
  induction pairs generalizing table with
  | nil => exact Or.inl h
  | cons pair rest ih =>
      have hrest : (key, a) ∈ insertAll (insert table pair.1 pair.2) rest := h
      rcases ih hrest with htable | ⟨k, hk⟩
      · rcases mem_insert htable with rfl | hold
        · exact Or.inr ⟨pair.1, List.mem_cons_self⟩
        · exact Or.inl hold
      · exact Or.inr ⟨k, List.mem_cons_of_mem _ hk⟩

/-- A table from pairs holds values of the pairs only. -/
theorem mem_ofList {pairs : List (κ × α)} {key : κ} {a : α}
    (h : (key, a) ∈ ofList pairs) : ∃ k, (k, a) ∈ pairs :=
  (mem_insertAll h).resolve_left List.not_mem_nil

end Bindings

namespace Forest

variable {f : Forest} {id : ScopeId} {name : String} {v : Value}

/-- A name means a value that some scope binds it to. -/
theorem exists_mem_of_get? (h : f.get? id name = some v) :
    ∃ s, (name, v) ∈ f.bindings s := by
  unfold get? at h
  obtain ⟨s, -, hs⟩ := Option.bind_eq_some_iff.mp h
  exact ⟨s, Bindings.mem_of_get? hs⟩

/-- Binding a name brings no value but its own. -/
theorem mem_bindings_define {s : ScopeId} {other : String} {u : Value}
    (h : (other, u) ∈ (f.define id name v).bindings s) :
    u = v ∨ (other, u) ∈ f.bindings s := by
  by_cases hs : s = id
  · subst hs
    unfold bindings at h ⊢
    rw [scopes_define_self] at h
    cases hscope : f.scopes[s]? with
    | none =>
        rw [hscope] at h
        cases h
    | some scope =>
        rw [hscope] at h
        exact Bindings.mem_insert h
  · rw [bindings_congr (scopes_define_of_ne hs)] at h
    exact Or.inr h

/-- Opening a scope brings no bindings but its own. -/
theorem mem_bindings_push {outer : Option ScopeId} {table : Bindings String Value}
    {s : ScopeId} {binding : String × Value}
    (h : binding ∈ (f.push outer table).bindings s) :
    binding ∈ table ∨ binding ∈ f.bindings s := by
  rw [bindings_push] at h
  split at h
  · exact Or.inl h
  · exact Or.inr h

end Forest

end DynLisp
