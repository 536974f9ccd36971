import DynLisp.Scope.Forest

/-!
# Looking up names

What the two ways of changing a forest — binding a name in a scope and opening
a scope — do to the scopes one by one, and from there to what a name means.

* `Bindings.get?_insert`, `Bindings.keys_prefix_insert` — a table after an
  insertion;
* `Forest.scopes_define_of_ne`, `Forest.scopes_push_of_lt` — every other scope
  stays as it is;
* `Forest.get?_step` — a name means what the scope itself says, and otherwise
  what the scope around it says;
* `Forest.get?_define` — a binding is seen from the scope that holds it;
* `Forest.get?_push_self` — a fresh scope sees its own bindings first and then
  what the scope around it sees;
* `Forest.Extends.get?_eq` — what can be seen from a scope depends on the
  scopes that are there already, and on no later ones.
-/

namespace DynLisp

namespace Bindings

variable {κ α : Type} [DecidableEq κ]

/-- **A table after an insertion.**  The key has the new value, and every other
key has the value it had. -/
theorem get?_insert (table : Bindings κ α) (key : κ) (value : α) (other : κ) :
    (insert table key value).get? other =
      if key = other then some value else table.get? other := by
  induction table with
  | nil => simp [insert, get?]
  | cons binding rest ih =>
      obtain ⟨k, a⟩ := binding
      by_cases hk : k = key
      · subst hk
        by_cases ho : k = other
        · simp [insert, get?, ho]
        · simp [insert, get?, ho]
      · by_cases ho : k = other
        · subst ho
          simp [insert, get?, hk, Ne.symm hk]
        · simp [insert, get?, hk, ho, ih]

/-- An insertion keeps the keys in their places. -/
theorem keys_prefix_insert (table : Bindings κ α) (key : κ) (value : α) :
    table.keys <+: (insert table key value).keys := by
  induction table with
  | nil => exact List.nil_prefix
  | cons binding rest ih =>
      obtain ⟨k, a⟩ := binding
      by_cases hk : k = key
      · subst hk
        simp [insert, keys]
      · simpa [insert, keys, hk] using ih

/-- **A table from pairs.**  The last pair with a key gives its value; a key
without a pair has the value it had before. -/
theorem get?_insertAll (table : Bindings κ α) (pairs : List (κ × α)) (key : κ) :
    (insertAll table pairs).get? key =
      (pairs.reverse.lookup key).or (table.get? key) := by
  induction pairs generalizing table with
  | nil => simp [insertAll]
  | cons pair rest ih =>
      obtain ⟨k, a⟩ := pair
      have htail := ih (insert table k a)
      simp only [insertAll, List.foldl_cons] at htail ⊢
      rw [htail, get?_insert, List.reverse_cons, List.lookup_append]
      by_cases hk : k = key
      · subst hk
        simp
      · have hne : (key == k) = false := by simpa using Ne.symm hk
        simp [List.lookup_cons, hk, hne]

end Bindings

namespace Forest

variable {f g : Forest} {id : ScopeId} {name : String} {v : Value}

/-- Binding a name leaves all scopes but one as they are. -/
theorem scopes_define_of_ne {other : ScopeId} (h : other ≠ id) :
    (f.define id name v).scopes[other]? = f.scopes[other]? := by
  simp [define, Array.getElem?_modify, Ne.symm h]

/-- Binding a name changes the bindings of its scope and not its outer one. -/
theorem scopes_define_self :
    (f.define id name v).scopes[id]? =
      (f.scopes[id]?).map fun scope =>
        { scope with bindings := scope.bindings.insert name v } := by
  simp [define, Array.getElem?_modify]

/-- The table of the scope in which a name is bound. -/
theorem bindings_define_self (h : id < f.size) :
    (f.define id name v).bindings id = (f.bindings id).insert name v := by
  obtain ⟨scope, hscope⟩ : ∃ scope, f.scopes[id]? = some scope :=
    Option.isSome_iff_exists.mp (by simpa [size] using h)
  simp only [bindings, scopes_define_self, hscope, Option.map_some]

/-- Binding a name moves no scope. -/
theorem outer?_define_self : (f.define id name v).outer? id = f.outer? id := by
  unfold outer?
  rw [scopes_define_self]
  cases f.scopes[id]? with
  | none => rfl
  | some scope =>
      obtain ⟨outer, table⟩ := scope
      cases outer <;> rfl

/-- Binding a name opens no scope. -/
@[simp] theorem size_define : (f.define id name v).size = f.size := by
  simp [define, size]

/-- Opening a scope makes one more. -/
@[simp] theorem size_push (outer : Option ScopeId) (table : Bindings String Value) :
    (f.push outer table).size = f.size + 1 := by
  simp [push, size]

/-- The scopes after one is opened. -/
theorem scopes_push (outer : Option ScopeId) (table : Bindings String Value) :
    (f.push outer table).scopes[id]? =
      if id = f.size then some ⟨outer, table⟩ else f.scopes[id]? :=
  Array.getElem?_push

/-- Opening a scope leaves the scopes that are there as they are. -/
theorem scopes_push_of_lt (outer : Option ScopeId) (table : Bindings String Value)
    (h : id < f.size) : (f.push outer table).scopes[id]? = f.scopes[id]? := by
  rw [scopes_push, if_neg (Nat.ne_of_lt h)]

/-- The scope that was opened last. -/
theorem scopes_push_self (outer : Option ScopeId) (table : Bindings String Value) :
    (f.push outer table).scopes[f.size]? = some ⟨outer, table⟩ := by
  rw [scopes_push, if_pos rfl]

/-- The tables after a scope is opened. -/
theorem bindings_push (outer : Option ScopeId) (table : Bindings String Value) :
    (f.push outer table).bindings id = if id = f.size then table else f.bindings id := by
  unfold bindings
  rw [scopes_push]
  by_cases hid : id = f.size
  · rw [if_pos hid, if_pos hid]
  · rw [if_neg hid, if_neg hid]

/-- The bindings of a scope and the way outwards are read off the scope. -/
theorem bindings_congr (h : g.scopes[id]? = f.scopes[id]?) :
    g.bindings id = f.bindings id := by
  simp only [bindings, h]

theorem outer?_congr (h : g.scopes[id]? = f.scopes[id]?) :
    g.outer? id = f.outer? id := by
  simp only [outer?, h]

/-- **One step outwards.**  A name means what the scope itself binds it to, and
otherwise what it means in the scope around it. -/
theorem get?_step (f : Forest) (id : ScopeId) (name : String) :
    f.get? id name =
      ((f.bindings id).get? name).or
        ((f.outer? id).bind fun o => f.get? o.1 name) := by
  unfold get?
  rw [find?]
  cases hown : (f.bindings id).get? name with
  | some v => simp [hown]
  | none =>
      cases hout : f.outer? id with
      | none => simp
      | some o => simp

/-- **Only the scope and older ones are seen.**  The way outwards leads to older
scopes, so that a name means the same in two forests that agree up to a scope. -/
theorem get?_congr (h : ∀ o, o ≤ id → g.scopes[o]? = f.scopes[o]?) :
    g.get? id name = f.get? id name := by
  induction id using Nat.strongRecOn with
  | ind id ih =>
      have hsame := h id (Nat.le_refl id)
      rw [get?_step g, get?_step f, bindings_congr hsame, outer?_congr hsame]
      congr 1
      cases f.outer? id with
      | none => rfl
      | some o =>
          obtain ⟨o, ho⟩ := o
          exact ih o ho fun p hp => h p (Nat.le_trans hp (Nat.le_of_lt ho))

/-- Names mean something only where there is a scope. -/
theorem lt_size_of_get? (h : f.get? id name = some v) : id < f.size := by
  refine Nat.lt_of_not_le fun hid => ?_
  have hnone : f.scopes[id]? = none := Array.getElem?_eq_none hid
  have hbindings : f.bindings id = [] := by
    unfold bindings
    rw [hnone]
  have houter : f.outer? id = none := by
    unfold outer?
    rw [hnone]
  rw [get?_step, hbindings, houter] at h
  cases h

/-- All scopes of one forest are in another, unchanged. -/
def Extends (f g : Forest) : Prop :=
  f.size ≤ g.size ∧ ∀ id, id < f.size → g.scopes[id]? = f.scopes[id]?

theorem Extends.refl (f : Forest) : Extends f f :=
  ⟨Nat.le_refl _, fun _ _ => rfl⟩

theorem Extends.trans {h : Forest} (hfg : Extends f g) (hgh : Extends g h) :
    Extends f h := by
  refine ⟨Nat.le_trans hfg.1 hgh.1, ?_⟩
  intro id hid
  rw [hgh.2 id (Nat.lt_of_lt_of_le hid hfg.1), hfg.2 id hid]

theorem extends_push (f : Forest) (outer : Option ScopeId)
    (table : Bindings String Value) : Extends f (f.push outer table) :=
  ⟨by simp, fun _ hid => scopes_push_of_lt outer table hid⟩

/-- Scopes opened later do not change what a name means in an older one. -/
theorem Extends.get?_eq (h : Extends f g) (hid : id < f.size) (name : String) :
    g.get? id name = f.get? id name :=
  get?_congr fun o ho => h.2 o (Nat.lt_of_le_of_lt ho hid)

/-- **A fresh scope** sees its own bindings first and then what the scope
around it sees. -/
theorem get?_push_self {caller : ScopeId} (table : Bindings String Value)
    (h : caller < f.size) (name : String) :
    (f.push (some caller) table).get? f.size name =
      (table.get? name).or (f.get? caller name) := by
  have hout := (extends_push f (some caller) table).get?_eq h name
  have hscope := scopes_push_self (f := f) (some caller) table
  rw [get?_step]
  simp [bindings, outer?, hscope, h, hout]

/-- **A binding is seen** from the scope that holds it, and all other names mean
there what they meant. -/
theorem get?_define (h : id < f.size) (other : String) :
    (f.define id name v).get? id other =
      if name = other then some v else f.get? id other := by
  have hbeyond : ∀ o : ScopeId, o < id →
      (f.define id name v).get? o other = f.get? o other := fun o ho =>
    get?_congr fun p hp =>
      scopes_define_of_ne (Nat.ne_of_lt (Nat.lt_of_le_of_lt hp ho))
  rw [get?_step, get?_step f, outer?_define_self, bindings_define_self h,
    Bindings.get?_insert]
  by_cases hn : name = other
  · simp [hn]
  · simp only [hn, if_false]
    congr 1
    cases f.outer? id with
    | none => rfl
    | some o => exact hbeyond o.1 o.2

/-- **Bindings one after the other** are seen: the last one of a name gives its value, and
a name that is not bound means what it meant. -/
theorem get?_foldl_define (h : id < f.size) (pairs : List (String × Value))
    (other : String) :
    (pairs.foldl (fun g pair => g.define id pair.1 pair.2) f).get? id other =
      (pairs.reverse.lookup other).or (f.get? id other) := by
  induction pairs generalizing f with
  | nil => simp
  | cons pair rest ih =>
      obtain ⟨key, value⟩ := pair
      rw [List.foldl_cons, ih (by simpa using h), get?_define h, List.reverse_cons,
        List.lookup_append]
      by_cases hk : key = other
      · subst hk
        simp
      · have hne : (other == key) = false := by simpa using Ne.symm hk
        simp [List.lookup_cons, hk, hne]

end Forest

end DynLisp
