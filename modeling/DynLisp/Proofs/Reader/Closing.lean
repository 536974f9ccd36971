import DynLisp.Proofs.Reader.Seam
import DynLisp.Proofs.Text.Grammar

/-!
# Where a literal ends

Whether a literal is closed is decided twice.  The scan of the text goes forwards, steps
over backslashes together with what is behind them, and stops at a quote or at the end of
the text.  The reader of atoms looks at the last character of the token, and goes
backwards from there to count backslashes.  The two agree.

* `Token.scanStops` — the scan, with the place where each token stops; its tokens are
  those of `Token.scan` (`Token.map_scanStops`);
* `Token.allTell_scanStops` — what the place says of the token: a literal has units
  behind its opening quote, up to a closing one or up to the end;
* `Atom.isClosed_iff_of_tells` — so the test of the reader passes where the scan stopped
  at a quote, and nowhere else;
* `Token.Units.behind_backslash` — a quote inside is the second half of a pair;
* `Escape.Spells.units_of_append` — an escape that can be read ends where pairs end, so
  that no backslash is left over at the end of a literal.
-/

namespace DynLisp

namespace Token

/-- Where the scan of a token stops. -/
inductive Stop where
  /-- At the closing quote of a literal. -/
  | closingQuote
  /-- At the end of the text, inside a literal. -/
  | textEnd
  /-- The token is no literal. -/
  | outside
  deriving DecidableEq

/-- The tokens in the rest of the text, each with the place where it stops. -/
def scanStops : Mode → List Char → List (List Char × Stop)
  | .word read, [] => (flush read).map (·, .outside)
  | .word read, c :: rest =>
    let before := (flush read).map (·, Stop.outside)
    if isGap c then before ++ scanStops (.word []) rest
    else if c = '(' ∨ c = ')' then before ++ ([c], .outside) :: scanStops (.word []) rest
    else if c = ';' then before ++ scanStops .comment rest
    else if c = ',' then before ++ scanStops .mark rest
    else if isQuote c then before ++ scanStops (.literal c [c]) rest
    else scanStops (.word (c :: read)) rest
  | .comment, [] => []
  | .comment, c :: rest =>
    if c = '\n' then scanStops (.word []) rest else scanStops .comment rest
  | .mark, [] => [([','], .outside)]
  | .mark, c :: rest => ([',', c], .outside) :: scanStops (.word []) rest
  | .literal _ read, [] => [(read.reverse, .textEnd)]
  | .literal quote read, c :: rest =>
    if c = quote then ((c :: read).reverse, .closingQuote) :: scanStops (.word []) rest
    else if c = '\\' then scanStops (.escaped quote (c :: read)) rest
    else scanStops (.literal quote (c :: read)) rest
  | .escaped _ read, [] => [(read.reverse, .textEnd)]
  | .escaped quote read, c :: rest => scanStops (.literal quote (c :: read)) rest

/-- The tokens of a text, each with the place where it stops. -/
def stops (source : String) : List (List Char × Stop) := scanStops (.word []) source.toList

/-- Where tokens stop makes no difference to the scan. -/
theorem map_scanStops (mode : Mode) (text : List Char) :
    (scanStops mode text).map (·.1) = scan mode text := by
  have hflush : ∀ read, ((flush read).map (·, Stop.outside)).map (·.1) = flush read := by
    intro read
    simp [Function.comp_def]
  induction text generalizing mode with
  | nil => cases mode <;> simp [scanStops, scan, Function.comp_def]
  | cons c rest ih =>
      cases mode with
      | word read =>
          rw [scanStops, scan]
          repeat' split
          all_goals simp [hflush, ih]
      | comment =>
          rw [scanStops, scan]
          split <;> exact ih _
      | mark => rw [scanStops, scan, List.map_cons, ih]
      | literal quote read =>
          rw [scanStops, scan]
          repeat' split
          all_goals simp [ih]
      | escaped quote read => exact ih _

/-- What the characters read so far are: a piece of a word, or an opening quote and the
units behind it. -/
def Mode.Sound : Mode → Prop
  | .word read => ∀ c ∈ read, ¬Breaks c
  | .comment | .mark => True
  | .literal quote read =>
      quote ∈ quotes ∧ ∃ cs, Units quote cs ∧ read.reverse = quote :: cs
  | .escaped quote read =>
      quote ∈ quotes ∧ ∃ cs, Units quote cs ∧ read.reverse = quote :: (cs ++ ['\\'])

/-- What the place where the scan stops says of the token. -/
def Stop.Tells : Stop → List Char → Prop
  | .closingQuote, token =>
      ∃ quote cs, quote ∈ quotes ∧ Units quote cs ∧ token = quote :: (cs ++ [quote])
  | .textEnd, token =>
      ∃ quote cs, quote ∈ quotes ∧ Units quote cs ∧
        (token = quote :: cs ∨ token = quote :: (cs ++ ['\\']))
  | .outside, token => ∀ quote ∈ token.head?, quote ∉ quotes

/-- A token that starts with an unquoted character is no literal. -/
theorem outside_tells_cons {c : Char} (hc : c ∉ quotes) (cs : List Char) :
    Stop.outside.Tells (c :: cs) := by
  intro quote hquote
  rw [← Option.some.inj hquote]
  exact hc

/-- Words are no literals. -/
theorem outside_tells_of_mem_flush {read token : List Char} (hread : ∀ c ∈ read, ¬Breaks c)
    (hmem : token ∈ flush read) : Stop.outside.Tells token := by
  unfold flush at hmem
  split at hmem
  · cases hmem
  · rw [List.mem_singleton.mp hmem]
    intro quote hquote
    have hbreaks := hread quote (List.mem_reverse.mp (List.mem_of_head? hquote))
    exact fun h => hbreaks (Or.inr (Or.inr (Or.inr (Or.inr h))))

/-- Each token is what its stop says. -/
def AllTell (found : List (List Char × Stop)) : Prop :=
  ∀ token stop, (token, stop) ∈ found → stop.Tells token

theorem allTell_nil : AllTell [] := by
  intro token stop hmem
  cases hmem

theorem AllTell.cons {token : List Char} {stop : Stop} {more : List (List Char × Stop)}
    (htoken : stop.Tells token) (hmore : AllTell more) : AllTell ((token, stop) :: more) := by
  intro token' stop' hmem
  rcases List.mem_cons.mp hmem with heq | hrest
  · cases heq
    exact htoken
  · exact hmore token' stop' hrest

/-- The word that ends here is a token, and the scan goes on. -/
theorem AllTell.flush_append {read : List Char} {more : List (List Char × Stop)}
    (hread : ∀ c ∈ read, ¬Breaks c) (hmore : AllTell more) :
    AllTell ((flush read).map (·, Stop.outside) ++ more) := by
  intro token stop hmem
  rcases List.mem_append.mp hmem with hword | hrest
  · obtain ⟨word, hflush, heq⟩ := List.mem_map.mp hword
    cases heq
    exact outside_tells_of_mem_flush hread hflush
  · exact hmore token stop hrest

theorem sound_word_nil : (Mode.word []).Sound := by
  intro c hc
  cases hc

/-- A quote that opens a literal. -/
theorem sound_opening {quote : Char} (hquote : quote ∈ quotes) :
    (Mode.literal quote [quote]).Sound := ⟨hquote, [], .nil, rfl⟩

/-- Where the text ends, so does the token. -/
theorem allTell_end {mode : Mode} (hmode : mode.Sound) : AllTell (scanStops mode []) := by
  cases mode with
  | word read =>
      have hword := AllTell.flush_append hmode allTell_nil
      rwa [List.append_nil] at hword
  | comment => exact allTell_nil
  | mark => exact allTell_nil.cons (outside_tells_cons (by decide) [])
  | literal quote read =>
      obtain ⟨hquote, cs, hcs, hread⟩ := hmode
      exact allTell_nil.cons ⟨quote, cs, hquote, hcs, Or.inl hread⟩
  | escaped quote read =>
      obtain ⟨hquote, cs, hcs, hread⟩ := hmode
      exact allTell_nil.cons ⟨quote, cs, hquote, hcs, Or.inr hread⟩

section Step

variable {c quote : Char} {read rest : List Char}
  (hlater : ∀ mode : Mode, mode.Sound → AllTell (scanStops mode rest))

include hlater

/-- Outside of literals a character ends the word at hand or belongs to it. -/
theorem allTell_word (hmode : (Mode.word read).Sound) :
    AllTell (scanStops (.word read) (c :: rest)) := by
  rw [scanStops]
  split
  · exact .flush_append hmode (hlater _ sound_word_nil)
  split
  · next hparen =>
    have hunquoted : c ∉ quotes := by rcases hparen with rfl | rfl <;> decide
    have hmore := hlater _ sound_word_nil
    exact .flush_append hmode (hmore.cons (outside_tells_cons hunquoted []))
  split
  · exact .flush_append hmode (hlater .comment trivial)
  split
  · exact .flush_append hmode (hlater .mark trivial)
  split
  · next hquote => exact .flush_append hmode (hlater _ (sound_opening (isQuote_iff.mp hquote)))
  · next hgap hparen hsemicolon hcomma hquote =>
    have hword : ¬Breaks c := by
      rintro (h | h | h | h | h)
      · exact hgap (isGap_iff.mpr h)
      · exact hparen h
      · exact hsemicolon h
      · exact hcomma h
      · exact hquote (isQuote_iff.mpr h)
    exact hlater (.word (c :: read)) (List.forall_mem_cons.mpr ⟨hword, hmode⟩)

/-- In a literal a character closes it, or starts a pair, or is a unit. -/
theorem allTell_literal (hmode : (Mode.literal quote read).Sound) :
    AllTell (scanStops (.literal quote read) (c :: rest)) := by
  obtain ⟨hquote, cs, hcs, hread⟩ := hmode
  rw [scanStops]
  split
  · next hclose =>
    subst hclose
    have hmore := hlater _ sound_word_nil
    refine hmore.cons ⟨c, cs, hquote, hcs, ?_⟩
    rw [List.reverse_cons, hread, List.cons_append]
  split
  · next hbackslash =>
    apply hlater
    refine ⟨hquote, cs, hcs, ?_⟩
    rw [List.reverse_cons, hread, List.cons_append, hbackslash]
  · next hne hbackslash =>
    apply hlater
    refine ⟨hquote, cs ++ [c], hcs.append (.plain hne hbackslash .nil), ?_⟩
    rw [List.reverse_cons, hread, List.cons_append]

/-- Behind a backslash any character makes a unit with it. -/
theorem allTell_escaped (hmode : (Mode.escaped quote read).Sound) :
    AllTell (scanStops (.escaped quote read) (c :: rest)) := by
  obtain ⟨hquote, cs, hcs, hread⟩ := hmode
  apply hlater (.literal quote (c :: read))
  refine ⟨hquote, cs ++ ['\\', c], hcs.append (.escaped .nil), ?_⟩
  rw [List.reverse_cons, hread, List.cons_append, List.append_assoc]
  rfl

end Step

/-- **Where tokens stop.**  By induction on the text: whatever has been read of a token
keeps to the mode, and so each token is what its stop says. -/
theorem allTell_scanStops {mode : Mode} (hmode : mode.Sound) (text : List Char) :
    AllTell (scanStops mode text) := by
  induction text generalizing mode with
  | nil => exact allTell_end hmode
  | cons c rest ih =>
      have hlater : ∀ mode : Mode, mode.Sound → AllTell (scanStops mode rest) :=
        fun _ hsound => ih hsound
      cases mode with
      | word read => exact allTell_word hlater hmode
      | comment =>
          rw [scanStops]
          split
          · exact hlater _ sound_word_nil
          · exact hlater .comment trivial
      | mark =>
          have hmore := hlater _ sound_word_nil
          exact hmore.cons (outside_tells_cons (by decide) [c])
      | literal quote read => exact allTell_literal hlater hmode
      | escaped quote read => exact allTell_escaped hlater hmode

/-! ### Inside of a literal -/

/-- **A quote inside** is the second half of a pair. -/
theorem Units.behind_backslash {quote : Char} (hquote : quote ∈ quotes)
    {front back : List Char} (h : Units quote (front ++ quote :: back)) :
    ∃ pairs, front = pairs ++ ['\\'] ∧ Units quote pairs := by
  generalize htext : front ++ quote :: back = text at h
  induction h generalizing front with
  | nil => cases (List.append_eq_nil_iff.mp htext).2
  | @plain c cs hne hbackslash _ ih =>
      cases front with
      | nil => exact absurd (List.cons.inj htext).1.symm hne
      | cons d front =>
          obtain ⟨rfl, hrest⟩ := List.cons.inj htext
          obtain ⟨pairs, rfl, hpairs⟩ := ih hrest
          exact ⟨d :: pairs, rfl, .plain hne hbackslash hpairs⟩
  | @escaped c cs _ ih =>
      match front with
      | [] => exact absurd (List.cons.inj htext).1.symm (ne_backslash_of_mem_quotes hquote)
      | [d] =>
          obtain ⟨rfl, -⟩ := List.cons.inj htext
          exact ⟨[], rfl, .nil⟩
      | d :: e :: front =>
          obtain ⟨rfl, hmore⟩ := List.cons.inj htext
          obtain ⟨rfl, hrest⟩ := List.cons.inj hmore
          obtain ⟨pairs, rfl, hpairs⟩ := ih hrest
          exact ⟨'\\' :: e :: pairs, rfl, .escaped hpairs⟩

/-- Behind a pair there are units. -/
theorem Units.of_escaped {quote c : Char} {cs : List Char}
    (h : Units quote ('\\' :: c :: cs)) : Units quote cs := by
  cases h with
  | plain _ hbackslash _ => exact absurd rfl hbackslash
  | escaped hrest => exact hrest

/-- Behind characters without backslashes there are units. -/
theorem Units.of_append {quote : Char} {front back : List Char} (h : Units quote (front ++ back))
    (hfront : ∀ c ∈ front, c ≠ '\\') : Units quote back := by
  induction front with
  | nil => exact h
  | cons c front ih =>
      obtain ⟨hc, hmore⟩ := List.forall_mem_cons.mp hfront
      rw [List.cons_append] at h
      generalize front ++ back = text at h ih
      cases h with
      | plain _ _ hrest => exact ih hrest hmore
      | escaped _ => exact absurd rfl hc

end Token

namespace Escape

open Token (Units)

theorem SpellsNumber.ne_backslash {digits : List Char} {n : Nat} (h : SpellsNumber digits n) :
    ∀ c ∈ digits, c ≠ '\\' := by
  intro c hmem hbackslash
  have hdigit := h.mem_hexCharacters c hmem
  rw [hbackslash] at hdigit
  exact absurd hdigit (by decide +kernel)

/-- **Escapes end where pairs end**: only the first two characters of an escape make a
pair, as its digits and braces are no backslashes. -/
theorem Spells.units_of_append {quote d : Char} {body rest : List Char} (hbody : Spells body d)
    (h : Units quote (body ++ rest)) : Units quote rest := by
  cases hbody with
  | plain hplain => exact h.of_append (List.forall_mem_singleton.mpr hplain)
  | simple _ => exact h.of_escaped
  | two _ hvalue | four _ hvalue _ =>
      exact h.of_escaped.of_append hvalue.ne_backslash
  | @braced digits _ _ _ hvalue _ _ =>
      have hinner : ∀ c ∈ '{' :: (digits ++ ['}']), c ≠ '\\' := by
        intro c hmem
        rcases List.mem_cons.mp hmem with rfl | hrest
        · decide
        · rcases List.mem_append.mp hrest with hdigit | hclose
          · exact hvalue.ne_backslash c hdigit
          · rw [List.mem_singleton.mp hclose]
            decide
      exact h.of_escaped.of_append hinner

theorem Splits.units_of_append {quote : Char} {body rest : List Char}
    {units : List (List Char × Char)} (hbody : Splits body units)
    (h : Units quote (body ++ rest)) : Units quote rest := by
  obtain ⟨hspelled, rfl⟩ := hbody
  induction units with
  | nil => exact h
  | cons unit units ih =>
      obtain ⟨hunit, hunits⟩ := List.forall_mem_cons.mp hspelled
      rw [List.flatMap_cons, List.append_assoc] at h
      exact ih hunits (hunit.units_of_append h)

theorem bind_ne_error {ε α β : Type} {e : ε} {x : Except ε α} {k : α → Except ε β}
    (hx : x ≠ .error e) (hk : ∀ a, k a ≠ .error e) : (x >>= k) ≠ .error e := by
  cases x with
  | error cause =>
      intro h
      exact hx (congrArg Except.error (Except.error.inj h))
  | ok a => exact hk a

/-- An escape that has a code does not end in its backslash. -/
theorem unit_ne_trailing (code : Char) (rest : List Char) :
    unit '\\' (code :: rest) ≠ .error .trailing := by
  -- None of the readers of digits has this error, and a code that is none has its own.
  have hcharacter : ∀ n length, (do return (← character n, length) :
      Except EscapeError (Char × Nat)) ≠ .error .trailing := by
    intro n length
    refine bind_ne_error ?_ nofun
    unfold character
    split <;> nofun
  have hdigits : ∀ count, hexDigits code count rest ≠ .error .trailing := by
    intro count
    unfold hexDigits
    dsimp only
    repeat' split
    all_goals nofun
  have hbraced : ∀ inner, braced inner ≠ .error .trailing := by
    intro inner
    unfold braced
    dsimp only
    repeat' split
    all_goals nofun
  cases hcode : simple? code with
  | some d =>
      rw [unit_simple hcode]
      nofun
  | none =>
      by_cases hx : code = 'x'
      · subst hx
        exact bind_ne_error (hdigits 2) fun n => hcharacter n 3
      by_cases hu : code = 'u'
      · subst hu
        by_cases hbrace : rest.head? = some '{'
        · obtain ⟨inner, rfl⟩ := List.head?_eq_some_iff.mp hbrace
          exact bind_ne_error (hbraced inner) fun found => hcharacter found.1 _
        · rw [unit_four hbrace]
          exact bind_ne_error (hdigits 4) fun n => hcharacter n 5
      · rw [unit_unknown hcode hx hu]
        nofun

/-- Only a backslash at the end is left over. -/
theorem eq_of_unit_trailing {c : Char} {tail : List Char} (h : unit c tail = .error .trailing) :
    c = '\\' ∧ tail = [] := by
  by_cases hc : c = '\\'
  · subst hc
    cases tail with
    | nil => exact ⟨rfl, rfl⟩
    | cons code rest => exact absurd h (unit_ne_trailing code rest)
  · rw [unit.eq_def, if_neg hc] at h
    cases h

/-- **No backslash is left over** in the units of a literal. -/
theorem decode_ne_trailing {quote : Char} {body : List Char} (h : Units quote body) :
    decode body ≠ .error .trailing := by
  intro htrailing
  rcases decode_cases body with ⟨units, -, hdecode⟩ |
    ⟨front, units, c, tail, cause, rfl, hfront, hunit, hdecode⟩
  · cases htrailing.symm.trans hdecode
  · cases htrailing.symm.trans hdecode
    obtain ⟨rfl, rfl⟩ := eq_of_unit_trailing hunit
    cases hfront.units_of_append h with
    | plain _ hbackslash _ => exact hbackslash rfl

end Escape

namespace Atom

open Token (Stop Units quotes)

/-- The test for the end of a literal: it has two characters, the last of which is its
quote and not behind an odd number of backslashes. -/
def IsClosed (quote : Char) (token : List Char) : Prop :=
  2 ≤ token.length ∧ closes quote token.reverse = true

/-- **The test agrees with the scan**, whatever the token holds. -/
theorem isClosed_iff_of_tells {stop : Stop} {token : List Char} {quote : Char}
    (htells : stop.Tells token) (hhead : token.head? = some quote) (hquote : quote ∈ quotes) :
    IsClosed quote token ↔ stop = .closingQuote := by
  cases stop with
  | closingQuote =>
      obtain ⟨_, cs, -, hcs, rfl⟩ := htells
      cases hhead
      refine ⟨fun _ => rfl, fun _ => ⟨?_, closes_units hquote hcs⟩⟩
      rw [List.length_cons, List.length_append, List.length_singleton]
      omega
  | textEnd =>
      refine ⟨fun hclosed => ?_, nofun⟩
      obtain ⟨hlength, hcloses⟩ := hclosed
      obtain ⟨_, cs, -, hcs, rfl | rfl⟩ := htells
      · cases hhead
        have hne : cs ≠ [] := by
          rintro rfl
          exact Nat.not_succ_le_self 1 hlength
        rw [not_closes_units hquote hcs hne] at hcloses
        cases hcloses
      · cases hhead
        have hbackslash := Token.ne_backslash_of_mem_quotes hquote
        simp [closes, hbackslash] at hcloses
  | outside => exact absurd hquote (htells quote hhead)

/-- **Scan and reader agree on where a literal ends.**  `stops` gives the tokens of a text
with the places where their scans stop.  For every token that starts with a quote, the
reader's test passes just when the scan stopped at a closing quote.  If it does, every
quote of this kind between the two is the second half of a pair, the first half of which
is a backslash behind whole pairs and other characters; and no backslash is left over
when the escapes in between are read. -/
theorem closed_where_scan_stops (source : String) :
    (Token.stops source).map (fun found => String.ofList found.1) =
        Token.tokenize source false ∧
      ∀ token stop quote, (token, stop) ∈ Token.stops source → token.head? = some quote →
        quote ∈ quotes →
          (IsClosed quote token ↔ stop = .closingQuote) ∧
          (IsClosed quote token → ∃ inside, token = quote :: (inside ++ [quote]) ∧
            (∀ front back, inside = front ++ quote :: back →
              ∃ pairs, front = pairs ++ ['\\'] ∧ Units quote pairs) ∧
            Escape.decode inside ≠ .error .trailing) := by
  refine ⟨?_, ?_⟩
  · rw [Token.tokenize_false, Token.explicit, ← Token.map_scanStops, List.map_map]
    rfl
  · intro token stop quote hmem hhead hquote
    have htells := Token.allTell_scanStops Token.sound_word_nil _ _ _ hmem
    have hagree := isClosed_iff_of_tells htells hhead hquote
    refine ⟨hagree, fun hclosed => ?_⟩
    obtain rfl := hagree.mp hclosed
    obtain ⟨_, inside, -, hunits, rfl⟩ := htells
    cases hhead
    refine ⟨inside, rfl, ?_, Escape.decode_ne_trailing hunits⟩
    intro front back hinside
    rw [hinside] at hunits
    exact hunits.behind_backslash hquote

/-- Of two literals with a quote behind a backslash the first is closed, as there is
another quote, and the second is not. -/
theorem second_literal_is_not_closed :
    let first := ['"', 'a', '\\', '"', 'b', '"']
    let second := ['"', 'c', '\\', '"']
    let source := "\"a\\\"b\" \"c\\\""
    Token.tokenize source false = [String.ofList first, String.ofList second] ∧
      IsClosed '"' first ∧ ¬IsClosed '"' second ∧
      Escape.decode ['a', '\\', '"', 'b'] ≠ .error .trailing := by
  intro first second source
  have hstops : Token.stops source = [(first, .closingQuote), (second, .textEnd)] := by decide
  obtain ⟨htokens, hliterals⟩ := closed_where_scan_stops source
  have hmem : (first, .closingQuote) ∈ Token.stops source := by
    rw [hstops]
    exact List.mem_cons_self
  have hmem' : (second, .textEnd) ∈ Token.stops source := by
    rw [hstops]
    exact List.mem_cons_of_mem _ List.mem_cons_self
  have hfirst := hliterals first .closingQuote '"' hmem rfl (by decide)
  have hsecond := hliterals second .textEnd '"' hmem' rfl (by decide)
  have hclosed : IsClosed '"' first := hfirst.1.mpr rfl
  refine ⟨?_, hclosed, ?_, ?_⟩
  · rw [← htokens, hstops]
    rfl
  · intro hsecondClosed
    cases hsecond.1.mp hsecondClosed
  · obtain ⟨inside, hinside, -, hdecode⟩ := hfirst.2 hclosed
    have hsame : ['a', '\\', '"', 'b'] ++ ['"'] = inside ++ ['"'] := (List.cons.inj hinside).2
    rwa [List.append_cancel_right hsame]

end Atom

end DynLisp
