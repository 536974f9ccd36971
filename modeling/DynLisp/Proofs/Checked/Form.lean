import DynLisp.Proofs.Checked.Atom
import DynLisp.Proofs.Reader.Sequence

/-!
# Reading forms, checked

Forms are read as ever, with the stack of open lists, but their atoms are read with
`Checked.read`.  The tokens of a text have characters, so a text is read without an
operation outside of its domain (`Checked.readAll_eq`, `Checked.parse_eq`).
-/

namespace DynLisp

namespace Checked

section Reading

variable (misuse : Halt)

/-- What one token does: it completes a form at the top, or it leaves lists
open. -/
def advance (stack : List (List Value)) (token : String) :
    Except Halt (Value ⊕ List (List Value)) :=
  if token = "(" then pure (.inr ([] :: stack))
  else if token = ")" then
    match stack with
    | [] => throw (.parse .unexpectedClose)
    | items :: outer => pure (Form.place (.list items.reverse) outer)
  else do
    let v ← read misuse token
    pure (Form.place v stack)

/-- Reads up to the end of the first form at the top. -/
def readFrom (stack : List (List Value)) : List String → Except Halt (Value × List String)
  | [] => throw (.parse .unclosed)
  | token :: rest => do
    match ← advance misuse stack token with
    | .inl v => pure (v, rest)
    | .inr stack => readFrom stack rest

/-- Reads one form; nothing at all reads as `nil`. -/
def parse : List String → Except Halt (Value × List String)
  | [] => pure (.nil, [])
  | tokens => readFrom misuse [] tokens

/-- Reads forms to the end of the tokens, with some lists open. -/
def readAllFrom (stack : List (List Value)) : List String → List Value × Option Halt
  | [] => ([], if stack.isEmpty then none else some (.parse .unclosed))
  | token :: rest =>
    match advance misuse stack token with
    | .ok (.inl v) =>
      let (forms, failure) := readAllFrom [] rest
      (v :: forms, failure)
    | .ok (.inr stack) => readAllFrom stack rest
    | .error h => ([], some h)

/-- All forms before the first error, and that error if there is one. -/
def readAll (tokens : List String) : List Value × Option Halt :=
  readAllFrom misuse [] tokens

end Reading

variable {misuse : Halt}

/-- On one token the checked step is the plain one, unless the token is empty. -/
theorem advance_eq (stack : List (List Value)) {token : String} (h : token ≠ "") :
    advance misuse stack token = Form.advance stack token := by
  unfold advance Form.advance
  by_cases hopen : token = "("
  · rw [if_pos hopen, if_pos hopen]
    rfl
  · rw [if_neg hopen, if_neg hopen]
    by_cases hclose : token = ")"
    · rw [if_pos hclose, if_pos hclose]
      cases stack <;> rfl
    · rw [if_neg hclose, if_neg hclose, read_eq h]
      cases Atom.read token <;> rfl

/-- So the loop that reads one form is the plain loop, by induction on the tokens. -/
theorem readFrom_eq {tokens : List String} (h : ∀ token ∈ tokens, token ≠ "")
    (stack : List (List Value)) : readFrom misuse stack tokens = Form.readFrom stack tokens := by
  induction tokens generalizing stack with
  | nil => rfl
  | cons token rest ih =>
      obtain ⟨htoken, hrest⟩ := List.forall_mem_cons.mp h
      rw [readFrom, Form.readFrom, advance_eq stack htoken]
      cases Form.advance stack token with
      | error cause => rfl
      | ok found =>
          cases found with
          | inl v => rfl
          | inr stack => exact ih hrest stack

/-- **Reading one form** of tokens that have characters. -/
theorem parse_eq {tokens : List String} (h : ∀ token ∈ tokens, token ≠ "") :
    parse misuse tokens = Form.parse tokens := by
  cases tokens with
  | nil => rfl
  | cons token rest => exact readFrom_eq h []

/-- And so is the loop that reads all forms. -/
theorem readAllFrom_eq {tokens : List String} (h : ∀ token ∈ tokens, token ≠ "")
    (stack : List (List Value)) :
    readAllFrom misuse stack tokens = Form.readAllFrom stack tokens := by
  induction tokens generalizing stack with
  | nil => rfl
  | cons token rest ih =>
      obtain ⟨htoken, hrest⟩ := List.forall_mem_cons.mp h
      rw [readAllFrom, Form.readAllFrom, advance_eq stack htoken]
      cases Form.advance stack token with
      | error cause => rfl
      | ok found =>
          cases found with
          | inl v =>
              dsimp only
              rw [ih hrest]
          | inr stack => exact ih hrest stack

/-- **Reading all forms** of tokens that have characters. -/
theorem readAll_eq {tokens : List String} (h : ∀ token ∈ tokens, token ≠ "") :
    readAll misuse tokens = Form.readAll tokens :=
  readAllFrom_eq h []

end Checked

end DynLisp
