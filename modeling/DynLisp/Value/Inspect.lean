import DynLisp.Number.Text
import DynLisp.Text.Quoted
import DynLisp.Value.Basic

/-!
# Inspecting values

`Value.inspect` shows what a value is, for people who look into a scope: the
kind of each atom is visible, numbers keep their point, and a closure is shown
whole, with its parameters and its body.  `Value.plain` is the same without
the wrapping of the outermost atom; a closure shows its body in this form.
Programs never see these texts: what they print and format is `Value.toText`.
-/

namespace DynLisp

namespace Value

/-- A closure from its parameters and the text of its body. -/
def closureText (formals : List String) (body : String) : String :=
  "(\\ (" ++ " ".intercalate formals ++ ") " ++ body ++ ")"

mutual

/-- The value with its kind shown. -/
def inspect : Value → String
  | .bool true => "True"
  | .bool false => "False"
  | .nil => "nil"
  | .number x => x.inspect
  | .string text => Text.quote text
  | .char c => "Char(" ++ Text.quote (String.ofList [c]) ++ ")"
  | .symbol name => "Symbol(" ++ Text.quote name ++ ")"
  | .list items => "[" ++ ", ".intercalate (inspectItems items) ++ "]"
  | .closure formals body =>
    "<Lambda " ++ closureText formals (plain body) ++ ">"
  | .native function => "<function " ++ function.name ++ ">"

/-- The value as it stands in a closure's text. -/
def plain : Value → String
  | .bool true => "True"
  | .bool false => "False"
  | .nil => "nil"
  | .number x => x.inspect
  | .string text => text
  | .char c => String.ofList [c]
  | .symbol name => name
  | .list items => "[" ++ ", ".intercalate (inspectItems items) ++ "]"
  | .closure formals body => closureText formals (plain body)
  | .native function => "<function " ++ function.name ++ ">"

/-- Each value with its kind shown. -/
def inspectItems : List Value → List String
  | [] => []
  | v :: vs => inspect v :: inspectItems vs

end

end Value

end DynLisp
