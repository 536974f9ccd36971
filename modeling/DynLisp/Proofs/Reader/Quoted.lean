import DynLisp.Proofs.Reader.Lexeme
import Mathlib.Logic.Function.Basic

/-!
# Texts between double quotes

A text is written between double quotes with its escapes.  What is written so has no control
characters, it ends at its second quote whatever comes behind it, and it can be read back.

* `Escape.IsControl`, `Escape.not_isControl_of_mem_encode` — what stands between the quotes
  can be printed in one line;
* `Escape.encode_injective` — different texts are written differently;
* `Token.quoted`, `Token.tokenize_quoted` — what is written is one token, in front of the
  tokens of what follows;
* `escaping_is_invertible` — all of this together.
-/

namespace DynLisp

namespace Escape

/-- The control characters of ASCII. -/
def IsControl (c : Char) : Prop := c.toNat < 0x20 ∨ c.toNat = 0x7F

instance (c : Char) : Decidable (IsControl c) := by
  unfold IsControl
  exact inferInstance

/-- What has a simple code has one that is no control character. -/
theorem not_isControl_of_mem_simpleCodes {code c : Char} (h : (code, c) ∈ simpleCodes) :
    ¬IsControl code := by
  have hall : ∀ pair ∈ simpleCodes, ¬IsControl pair.1 := by decide
  exact hall _ h

/-- **One character** is written without control characters. -/
theorem not_isControl_of_mem_encodeChar {c d : Char} (h : d ∈ encodeChar c) : ¬IsControl d := by
  rcases encodeChar_cases c with ⟨code, hchar, hcode⟩ | ⟨hchar, hascii⟩ |
    ⟨hchar, -, -, hcontrol⟩
  · rw [hchar] at h
    rcases List.mem_cons.mp h with hd | hd
    · rw [hd]
      decide
    · rw [List.mem_singleton.mp hd]
      exact not_isControl_of_mem_simpleCodes hcode
  · have hall : ∀ n < 128, ('\\' :: 'u' :: '{' :: (Nat.toDigits 16 n ++ ['}'])).all
        (fun d => !decide (IsControl d)) = true := by decide
    rw [hchar] at h
    simpa using List.all_eq_true.mp (hall c.toNat hascii) d h
  · rw [hchar] at h
    rw [List.mem_singleton.mp h]
    exact hcontrol

/-- So is a text. -/
theorem not_isControl_of_mem_encode {cs : List Char} {d : Char} (h : d ∈ encode cs) :
    ¬IsControl d := by
  obtain ⟨c, -, hd⟩ := List.mem_flatMap.mp h
  exact not_isControl_of_mem_encodeChar hd

/-- **Different texts are written differently**, since they can be read back. -/
theorem encode_injective : Function.Injective encode := by
  intro cs ds h
  have hdecode := congrArg decode h
  rw [decode_encode, decode_encode] at hdecode
  exact Except.ok.inj hdecode

end Escape

namespace Token

/-- A text as it is written between double quotes. -/
def quoted (text : List Char) : String := String.ofList ('"' :: (Escape.encode text ++ ['"']))

/-- **One token**, and then the tokens of what follows. -/
theorem tokenize_quoted (text : List Char) (rest : String) :
    tokenize (quoted text ++ rest) false = quoted text :: tokenize rest false := by
  have hquote : '"' ∈ quotes := by decide
  have hliteral := scan_literal hquote (Escape.units_encode text) rest.toList
  have hsource : (quoted text ++ rest).toList =
      '"' :: (Escape.encode text ++ '"' :: rest.toList) := by
    simp [quoted]
  show (scan (.word []) (quoted text ++ rest).toList).map String.ofList = _
  rw [hsource, hliteral]
  rfl

end Token

open Escape Token

/-- **Escaping can be undone, and is safe between double quotes.**  With any text behind it,
what is written for a text stands for the text and for what the other one stands for; it is an
error only where the other one is.  So a text is read back, and no two are written alike.  No
control character is written.  Between double quotes it is one token, and what follows is cut
as it would be on its own. -/
theorem escaping_is_invertible :
    (∀ text rest, decode (encode text ++ rest) = (decode rest).map (text ++ ·)) ∧
    (∀ text, decode (encode text) = .ok text) ∧
    Function.Injective encode ∧
    (∀ text, ∀ c ∈ encode text, 0x20 ≤ c.toNat ∧ c.toNat ≠ 0x7F) ∧
    ∀ text rest, tokenize ("\"" ++ String.ofList (encode text) ++ "\"" ++ rest) false =
      ("\"" ++ String.ofList (encode text) ++ "\"") :: tokenize rest false := by
  refine ⟨decode_encode_append, decode_encode, encode_injective, ?_, ?_⟩
  · intro text c hc
    have hcontrol := not_isControl_of_mem_encode hc
    unfold IsControl at hcontrol
    omega
  · intro text rest
    have hquoted : "\"" ++ String.ofList (encode text) ++ "\"" = quoted text := by
      apply String.toList_injective
      simp [quoted]
    rw [hquoted]
    exact tokenize_quoted text rest

/-- A quote, a backslash, a control character, and a backslash behind the text. -/
example : tokenize ("\"" ++ String.ofList (encode ['"', '\\', '\x01']) ++ "\"" ++ "\\\" b") false =
    ["\"\\\"\\\\\\u\x7b1\x7d\"", "\\", "\" b"] := by
  decide

end DynLisp
