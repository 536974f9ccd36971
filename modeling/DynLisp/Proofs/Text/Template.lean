import DynLisp.Eval.Evaluate

/-!
# Templates with holes

Any texts can stand around the holes of a template, once their braces are written
twice, and any texts can fill the holes.  Filling a template reads it from the left;
it never takes a brace of a text for a side of a hole, because it is done with one
text, and with the last brace of it, before it looks at the hole behind.

* `Template.escape` — a text with its braces written twice;
* `Template.holed` — the template of some texts, with a hole between neighbours;
* `fillChars_escape_append`, `fillChars_hole` — filling what starts with a text, and
  what starts with a hole, whatever comes behind;
* `holes_filled_exactly` — what comes of a template and of values for its holes, also
  through the built-in function.
-/

namespace DynLisp

namespace Template

/-- The text with every brace written twice, on characters. -/
def escapeChars (text : List Char) : List Char :=
  text.flatMap fun c => if c = '{' ∨ c = '}' then [c, c] else [c]

/-- The text with every brace written twice. -/
def escape (text : String) : String := String.ofList (escapeChars text.toList)

/-- The template that says the first text, and then each further text behind a
hole. -/
def holed (first : String) (rest : List String) : String :=
  escape first ++ String.join (rest.map fun text => "\x7b\x7d" ++ escape text)

/-- A character that is no brace stands for itself. -/
theorem fillChars_cons {c : Char} (hopen : c ≠ '{') (hclose : c ≠ '}') (rest : List Char)
    (texts : List (List Char)) : fillChars (c :: rest) texts = c :: fillChars rest texts := by
  rw [fillChars]
  · exact fun _ h => absurd h hopen
  · exact fun _ h => absurd h hclose
  · exact fun _ _ h => absurd h hopen
  · exact fun _ _ _ _ h => absurd h hopen

/-- **A text in front.**  Filling gives the text that was escaped and goes on behind it,
with all that there is to fill in. -/
theorem fillChars_escape_append (text rest : List Char) (texts : List (List Char)) :
    fillChars (escapeChars text ++ rest) texts = text ++ fillChars rest texts := by
  induction text with
  | nil => rfl
  | cons c text ih =>
      rw [escapeChars, List.flatMap_cons, ← escapeChars, List.append_assoc, List.cons_append]
      by_cases hopen : c = '{'
      · subst hopen
        exact congrArg ('{' :: ·) ih
      · by_cases hclose : c = '}'
        · subst hclose
          exact congrArg ('}' :: ·) ih
        · rw [if_neg (by simp [hopen, hclose]), List.singleton_append,
            fillChars_cons hopen hclose, ih]

/-- **A hole in front** takes the first text, or the empty one if there are no more. -/
theorem fillChars_hole (rest : List Char) (texts : List String) :
    fillChars ('{' :: '}' :: rest) (texts.map String.toList) =
      (texts.getD 0 "").toList ++ fillChars rest (texts.tail.map String.toList) := by
  cases texts with
  | nil => rfl
  | cons text texts => rfl

/-- Texts behind holes: the holes are filled in turn. -/
theorem fillChars_holes (rest texts : List String) :
    fillChars (rest.flatMap fun text => '{' :: '}' :: escapeChars text.toList)
        (texts.map String.toList) =
      (String.join (rest.mapIdx fun i text => texts.getD i "" ++ text)).toList := by
  induction rest generalizing texts with
  | nil => rfl
  | cons text rest ih =>
      have hlater : ∀ i, texts.tail.getD i "" = texts.getD (i + 1) "" := by
        intro i
        cases texts <;> rfl
      rw [List.flatMap_cons, List.cons_append, List.cons_append, fillChars_hole,
        fillChars_escape_append, ih, List.mapIdx_cons, String.join_cons,
        String.toList_append, String.toList_append, List.append_assoc]
      simp only [hlater]

/-- **The holes are filled in turn** and the texts around them stay as they are. -/
theorem fill_holed (first : String) (rest texts : List String) :
    fill (holed first rest) texts =
      first ++ String.join (rest.mapIdx fun i text => texts.getD i "" ++ text) := by
  have hhole : ("\x7b\x7d" : String).toList = ['{', '}'] := rfl
  have hholed : (holed first rest).toList = escapeChars first.toList ++
      rest.flatMap fun text => '{' :: '}' :: escapeChars text.toList := by
    simp only [holed, escape, String.toList_append, String.toList_ofList, String.toList_join,
      List.flatMap_map, hhole, List.cons_append, List.nil_append]
  apply String.toList_inj.mp
  rw [fill, String.toList_ofList, hholed, fillChars_escape_append, fillChars_holes,
    String.toList_append]

/-- With arguments, the built-in function fills its template. -/
theorem apply_format (self : Value → ScopeId → Eval Value) (template : Value)
    {values : List Value} (hvalues : values ≠ []) (scope : ScopeId) :
    Value.apply self (.native .format) (template :: values) scope =
      pure (.string (fill template.toText (values.map Value.toText))) := by
  obtain ⟨v, rest, rfl⟩ := List.exists_cons_of_ne_nil hvalues
  rfl

/-- **Any texts can stand around the holes.**  A template that says texts with holes
between them is filled by writing down the first text and then, for each hole, what is
printed of the value in its place — nothing if there are not that many values — and the
text behind it.  Values beyond the last hole are dropped.  The built-in function gives
the same for a template that is such a text, when there is a value. -/
theorem holes_filled_exactly (first : String) (rest : List String) (values : List Value) :
    let result := first ++
      String.join (rest.mapIdx fun i text => (values.map Value.toText).getD i "" ++ text)
    fill (holed first rest) (values.map Value.toText) = result ∧
    ∀ (template : Value), template.toText = holed first rest → values ≠ [] →
      ∀ (depth : Nat) (scope : ScopeId),
        Value.apply (Value.evaluate depth) (.native .format) (template :: values) scope =
          pure (.string result) := by
  intro result
  have hfill := fill_holed first rest (values.map Value.toText)
  refine ⟨hfill, fun template htemplate hvalues depth scope => ?_⟩
  rw [apply_format _ template hvalues, htemplate, hfill]

/-- A hole between an opening and a closing brace, filled with what looks like a hole. -/
theorem braces_around_hole_filled :
    let template : Value := .string "a\x7b\x7b\x7b\x7d\x7d\x7db"
    let values : List Value := [.string "\x7b\x7d", .nil]
    template.toText = holed "a\x7b" ["\x7db"] ∧ values ≠ [] ∧
      Value.apply (Value.evaluate 0) (.native .format) (template :: values) 0 =
        pure (.string "a\x7b\x7b\x7d\x7db") := by
  intro template values
  have htemplate : template.toText = holed "a\x7b" ["\x7db"] := by decide
  have hvalues : values ≠ [] := by simp [values]
  refine ⟨htemplate, hvalues, ?_⟩
  exact (holes_filled_exactly "a\x7b" ["\x7db"] values).2 template htemplate hvalues 0 0

end Template

end DynLisp
