import DynLisp.Prelude
import DynLisp.Proofs.Session.History
import DynLisp.Proofs.Session.Texts

/-!
# The standard prelude

The prelude is a text of definitions in the language itself.  Reading it gives their
forms, and evaluating these binds its functions after the built-in ones.

* `readAll_standardPrelude` — the forms of the prelude;
* `Eval.openSession_standard` — what opening a session with it does;
* `get?_standard` — what a name means in a session that has just been opened so, and
  `get?_standard_native`, `get?_standard_function` for the names of the functions.
-/

namespace DynLisp

open Eval

/-! ### The text of the prelude -/

/-- The code of a fold over `xs`: where it starts, and what it goes on with from `acc` and
an element, whose name is given. -/
def foldCode (element : String) (step start : Value) : Value :=
  .list [.symbol "foldl",
    .list [.symbol "\\", .list [.symbol "acc", .symbol element], step], start, .symbol "xs"]

/-- A function of one parameter, with its name. -/
structure NamedFunction where
  name : String
  parameter : String
  body : Value

namespace NamedFunction

/-- The form that defines the function. -/
def form (function : NamedFunction) : Value :=
  .list [.symbol "fn", .symbol function.name, .symbol function.parameter, function.body]

/-- What the function's definition binds. -/
def binding (function : NamedFunction) : String × Value :=
  (function.name, .closure [function.parameter] function.body)

end NamedFunction

/-- The functions of the prelude. -/
def preludeFunctions : List NamedFunction :=
  [⟨"inc", "n", .list [.symbol "+", .symbol "n", .number .one]⟩,
   ⟨"dec", "n", .list [.symbol "-", .symbol "n", .number .one]⟩,
   ⟨"sum", "xs",
      foldCode "x" (.list [.symbol "+", .symbol "acc", .symbol "x"]) (.number .zero)⟩,
   ⟨"product", "xs",
      foldCode "x" (.list [.symbol "*", .symbol "acc", .symbol "x"]) (.number .one)⟩,
   ⟨"length", "xs",
      foldCode "_" (.list [.symbol "+", .symbol "acc", .number .one]) (.number .zero)⟩,
   ⟨"reverse", "xs",
      foldCode "x" (.list [.symbol "cons", .symbol "x", .symbol "acc"]) (.list [])⟩]

/-- What a session binds before its prelude. -/
def builtinBindings : List (String × Value) :=
  Builtin.all.map fun function => (function.name, .native function)

/-- The two lines of comment that the prelude starts with, and the empty line behind them. -/
def preludeHeading : List Char :=
  ';' :: (" Standard prelude, evaluated by Interpreter(prelude='auto').".toList ++ '\n' ::
    ';' :: (" Every top-level form is parenthesized so the file reads as a sequence.".toList ++
      ['\n', '\n']))

theorem gap_preludeHeading : Token.Gap preludeHeading :=
  .comment (by decide +kernel) (.comment (by decide +kernel) (.blank (by decide) .nil))

/-- **The forms of the prelude** define its functions. -/
theorem readAll_standardPrelude :
    Form.readAll (Token.tokenize standardPrelude true) =
      (preludeFunctions.map NamedFunction.form, none) := by
  -- The characters are put together from those of the lines, because taking apart a
  -- text that is itself put together takes much longer.
  have hlines : standardPrelude.toList = preludeHeading ++
      ("(fn inc n (+ n 1))\n".toList ++
      "(fn dec n (- n 1))\n".toList ++
      "\n".toList ++
      "(fn sum xs (foldl (\\ (acc x) (+ acc x)) 0 xs))\n".toList ++
      "(fn product xs (foldl (\\ (acc x) (* acc x)) 1 xs))\n".toList ++
      "\n".toList ++
      "(fn length xs (foldl (\\ (acc _) (+ acc 1)) 0 xs))\n".toList ++
      "(fn reverse xs (foldl (\\ (acc x) (cons x acc)) () xs))\n".toList) := by
    have hheading : preludeHeading =
        "; Standard prelude, evaluated by Interpreter(prelude='auto').\n".toList ++
        "; Every top-level form is parenthesized so the file reads as a sequence.\n".toList ++
        "\n".toList := by decide +kernel
    unfold standardPrelude
    rw [hheading]
    repeat rw [String.toList_append]
    simp only [List.append_assoc]
  rw [Token.tokenize, Token.explicit, hlines, gap_preludeHeading.scan_append]
  decide +kernel

namespace Eval

/-- Evaluating definitions of functions binds their names in turn. -/
theorem evalForms_functions (depth : Nat) (s : ScopeId) (last : Value)
    (functions : List NamedFunction) (w : World) :
    ∃ v, evalForms (depth + 1) s last (functions.map NamedFunction.form) w =
      .ok v { w with
        forest := (functions.map NamedFunction.binding).foldl
          (fun f pair => f.define s pair.1 pair.2) w.forest } := by
  induction functions generalizing w last with
  | nil => exact ⟨last, rfl⟩
  | cons function rest ih => exact ih function.binding.2 _

/-- Opening a session with the standard prelude binds the built-in functions and then
those of the prelude. -/
theorem openSession_standard (depth : Nat) :
    openSession (depth + 1) (some standardPrelude) World.empty =
      .ok 0 { World.empty with
        forest := (builtinBindings ++ preludeFunctions.map NamedFunction.binding).foldl
          (fun f pair => f.define 0 pair.1 pair.2) (Forest.empty.push none []) } := by
  have hregister := update_apply 0 builtinBindings
    { World.empty with forest := Forest.empty.push none [] }
  have hroot : openRoot World.empty =
      .ok 0 { World.empty with
        forest := builtinBindings.foldl (fun f pair => f.define 0 pair.1 pair.2)
          (Forest.empty.push none []) } := by
    have hopen : openScope none [] World.empty =
        .ok 0 { World.empty with forest := Forest.empty.push none [] } := rfl
    have htable : (Builtin.all.map fun f => (Value.symbol f.name, Value.native f)) =
        builtinBindings.map fun pair => (.symbol pair.1, pair.2) := rfl
    rw [openRoot, bind_apply, hopen]
    dsimp only
    rw [bind_apply, register, htable, hregister]
    rfl
  have hsend : send (depth + 1) standardPrelude 0 =
      evalForms (depth + 1) 0 .nil (preludeFunctions.map NamedFunction.form) := by
    rw [send_eq_evalRead, readAll_standardPrelude, evalRead_none]
  obtain ⟨v, hforms⟩ := evalForms_functions depth 0 .nil preludeFunctions
    { World.empty with
      forest := builtinBindings.foldl (fun f pair => f.define 0 pair.1 pair.2)
        (Forest.empty.push none []) }
  rw [openSession, bind_apply, hroot]
  dsimp only
  rw [hsend, bind_apply, hforms, List.foldl_append]
  rfl

end Eval

/-- The world of a session that has just been opened. -/
def World.opened (depth : Nat) (prelude : Option String) : World :=
  (World.empty.perform (openSession depth prelude)).2

/-- The world of a session that has just been opened with the standard prelude. -/
def World.standard : World := World.opened (sessionDepth none) (some standardPrelude)

/-- The scopes of a session with the standard prelude: its root, where the built-in functions
are bound and then those of the prelude. -/
theorem forest_opened_standard (depth : Nat) :
    (World.opened (depth + 1) (some standardPrelude)).forest =
      (builtinBindings ++ preludeFunctions.map NamedFunction.binding).foldl
        (fun f pair => f.define 0 pair.1 pair.2) (Forest.empty.push none []) := by
  have hrun : openSession (depth + 1) (some standardPrelude)
      { World.empty with printed := "" } = _ := openSession_standard depth
  rw [World.opened, perform_of_ok hrun]

/-- **What a name means** in a session with the standard prelude: one of its functions, or
else a built-in one. -/
theorem get?_standard (name : String) :
    World.standard.forest.get? 0 name =
      (builtinBindings ++ preludeFunctions.map NamedFunction.binding).reverse.lookup name := by
  have hroot : (Forest.empty.push none []).get? 0 name = none := by
    rw [Forest.get?_step]
    rfl
  have hdepth : sessionDepth none = 999 + 1 := rfl
  rw [World.standard, hdepth, forest_opened_standard, Forest.get?_foldl_define (by decide),
    hroot, Option.or_none]

/-- In a session with the standard prelude, the built-in functions have their names. -/
theorem get?_standard_native (function : Builtin) :
    World.standard.forest.get? 0 function.name = some (.native function) := by
  rw [get?_standard]
  cases function <;> rfl

/-- The functions of the prelude have theirs. -/
theorem get?_standard_function {function : NamedFunction} (h : function ∈ preludeFunctions) :
    World.standard.forest.get? 0 function.name =
      some (.closure [function.parameter] function.body) := by
  have hall : ∀ g ∈ preludeFunctions,
      (builtinBindings ++ preludeFunctions.map NamedFunction.binding).reverse.lookup g.name =
        some (.closure [g.parameter] g.body) := by
    simp only [preludeFunctions, List.forall_mem_cons]
    exact ⟨rfl, rfl, rfl, rfl, rfl, rfl, List.forall_mem_nil _⟩
  rw [get?_standard]
  exact hall function h

end DynLisp
