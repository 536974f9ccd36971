import DynLisp.Number.Basic
import DynLisp.Value.Builtin

/-!
# Values

Programs and data are of one type: what is read, what is evaluated and what
evaluation gives are all values.  A closure is its formal parameters and a
body that is evaluated anew at every call; it holds no scope.
-/

namespace DynLisp

/-- A value of the language, or a program. -/
inductive Value where
  | bool (b : Bool)
  | nil
  | number (x : Number)
  | string (text : String)
  | char (c : Char)
  | symbol (name : String)
  | list (items : List Value)
  | closure (formals : List String) (body : Value)
  | native (function : Builtin)

namespace Value

instance : Inhabited Value := ⟨.nil⟩

mutual

/-- Whether two values are the same. -/
def same : Value → Value → Bool
  | .bool a, .bool b => a == b
  | .nil, .nil => true
  | .number x, .number y => decide (x = y)
  | .string s, .string t => s == t
  | .char c, .char d => c == d
  | .symbol m, .symbol n => m == n
  | .list xs, .list ys => sameItems xs ys
  | .closure f b, .closure g c => decide (f = g) && same b c
  | .native f, .native g => decide (f = g)
  | _, _ => false

/-- Whether two lists hold the same values in the same order. -/
def sameItems : List Value → List Value → Bool
  | [], [] => true
  | x :: xs, y :: ys => same x y && sameItems xs ys
  | _, _ => false

end

mutual

/-- Values that compare as the same are equal. -/
theorem eq_of_same : ∀ v w : Value, same v w = true → v = w
  | .bool _, w, h => by cases w <;> simp_all [same]
  | .nil, w, h => by cases w <;> simp_all [same]
  | .number _, w, h => by cases w <;> simp_all [same]
  | .string _, w, h => by cases w <;> simp_all [same]
  | .char _, w, h => by cases w <;> simp_all [same]
  | .symbol _, w, h => by cases w <;> simp_all [same]
  | .list xs, w, h => by
    cases w <;> simp_all [same]
    exact eq_of_sameItems xs _ h
  | .closure _ b, w, h => by
    cases w <;> simp_all [same]
    exact eq_of_same b _ h.2
  | .native _, w, h => by cases w <;> simp_all [same]

theorem eq_of_sameItems : ∀ vs ws : List Value, sameItems vs ws = true → vs = ws
  | [], ws, h => by cases ws <;> simp_all [sameItems]
  | v :: vs, ws, h => by
    cases ws with
    | nil => simp [sameItems] at h
    | cons w ws =>
      simp only [sameItems, Bool.and_eq_true] at h
      rw [eq_of_same v w h.1, eq_of_sameItems vs ws h.2]

end

mutual

/-- Every value compares as the same as itself. -/
theorem same_self : ∀ v : Value, same v v = true
  | .bool _ | .nil | .number _ | .string _ | .char _ | .symbol _
  | .native _ => by simp [same]
  | .list xs => by simp [same, sameItems_self xs]
  | .closure _ b => by simp [same, same_self b]

theorem sameItems_self : ∀ vs : List Value, sameItems vs vs = true
  | [] => rfl
  | v :: vs => by simp [sameItems, same_self v, sameItems_self vs]

end

instance : DecidableEq Value := fun v w =>
  if h : same v w = true then .isTrue (eq_of_same v w h)
  else .isFalse fun e => h (e ▸ same_self v)

/-- Whether the value can be called. -/
def isCallable : Value → Bool
  | .closure .. | .native _ => true
  | _ => false

mutual

/-- How many lists are nested around the deepest value; the empty list counts
as nothing nested. -/
def depth : Value → Nat
  | .list [] => 0
  | .list (v :: vs) => 1 + max (depth v) (depthItems vs)
  | _ => 0

/-- The greatest depth in a list. -/
def depthItems : List Value → Nat
  | [] => 0
  | v :: vs => max (depth v) (depthItems vs)

end

mutual

/-- How many values other than lists the value is made of. -/
def leaves : Value → Nat
  | .list vs => leavesItems vs
  | _ => 1

/-- How many values other than lists a list is made of. -/
def leavesItems : List Value → Nat
  | [] => 0
  | v :: vs => leaves v + leavesItems vs

end

end Value

end DynLisp
