import DynLisp.Scope.Forest
import DynLisp.Value.Inspect

/-!
# Inspecting scopes

A scope is shown as its names with their values, in the order in which the
names came.  `Forest.inspectScope` shows one scope and says whether it has an
outer one; `Forest.inspectChain` shows a scope with all those around it.
-/

namespace DynLisp

/-- The names and values of one scope. -/
def Bindings.inspect (bindings : Bindings String Value) : String :=
  "\x7b" ++ ", ".intercalate (bindings.map fun b => b.1 ++ ": " ++ b.2.inspect)
    ++ "\x7d"

namespace Forest

/-- One scope. -/
def inspectScope (f : Forest) (id : ScopeId) : String :=
  (f.bindings id).inspect ++ if (f.outer? id).isSome then " -> ..." else ""

/-- A scope and those around it, innermost first. -/
def inspectChain (f : Forest) (id : ScopeId) : String :=
  "<Environment chain: "
    ++ " -> ".intercalate ((f.chain id).map fun s => (f.bindings s).inspect)
    ++ ">"

end Forest

end DynLisp
