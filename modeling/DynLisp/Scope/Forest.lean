import DynLisp.Scope.Bindings
import DynLisp.Value.Basic

/-!
# Scopes

A scope holds bindings of names and has at most one outer scope.  A call opens
a scope whose outer one is the scope of the *caller*: what a name means is
settled by who calls, not by where a closure was written.

All scopes of a run live in a `Forest`, numbered in the order in which they
were opened.  Outer scopes are older, so that walking outwards ends; the walks
check this where they take a step, and need no other promise.
-/

namespace DynLisp

/-- A scope by its number. -/
abbrev ScopeId := Nat

/-- One scope. -/
structure Scope where
  outer : Option ScopeId
  bindings : Bindings String Value

/-- All scopes opened so far. -/
structure Forest where
  scopes : Array Scope

namespace Forest

/-- No scopes. -/
def empty : Forest := ⟨#[]⟩

instance : Inhabited Forest := ⟨empty⟩

/-- How many scopes there are; also the number of the next one. -/
def size (f : Forest) : Nat := f.scopes.size

/-- The scope right outside, if there is one and it is older. -/
def outer? (f : Forest) (id : ScopeId) : Option { o : ScopeId // o < id } :=
  match f.scopes[id]? with
  | some ⟨some o, _⟩ => if h : o < id then some ⟨o, h⟩ else none
  | _ => none

/-- The bindings of one scope. -/
def bindings (f : Forest) (id : ScopeId) : Bindings String Value :=
  match f.scopes[id]? with
  | some scope => scope.bindings
  | none => []

/-- The scope and those around it, innermost first. -/
def chain (f : Forest) (id : ScopeId) : List ScopeId :=
  match f.outer? id with
  | some ⟨o, _⟩ => id :: chain f o
  | none => [id]
termination_by id

/-- The outermost scope around a scope. -/
def root (f : Forest) (id : ScopeId) : ScopeId :=
  match f.outer? id with
  | some ⟨o, _⟩ => root f o
  | none => id
termination_by id

/-- The nearest scope, from `id` outwards, in which the name is bound. -/
def find? (f : Forest) (id : ScopeId) (name : String) : Option ScopeId :=
  match (f.bindings id).get? name with
  | some _ => some id
  | none =>
    match f.outer? id with
    | some ⟨o, _⟩ => find? f o name
    | none => none
termination_by id

/-- The value that a name has, seen from a scope. -/
def get? (f : Forest) (id : ScopeId) (name : String) : Option Value :=
  (f.find? id name).bind fun s => (f.bindings s).get? name

/-- Opens a scope with the given bindings. -/
def push (f : Forest) (outer : Option ScopeId) (bindings : Bindings String Value) :
    Forest :=
  ⟨f.scopes.push ⟨outer, bindings⟩⟩

/-- Binds a name in one scope and in no other. -/
def define (f : Forest) (id : ScopeId) (name : String) (v : Value) : Forest :=
  ⟨f.scopes.modify id fun scope =>
    { scope with bindings := scope.bindings.insert name v }⟩

end Forest

end DynLisp
