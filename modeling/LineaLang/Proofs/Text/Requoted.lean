import LineaLang.Proofs.Text.Plain
import LineaLang.Text.Unquoted

/-!
# `LineaLang.Proofs.Text.Requoted` — a quoted text is read back

Whatever code points a text holds, its literal stands on one line and denotes the text again. Which code points are
written as themselves is a matter of a table, and of the table only this is used: controls and surrogates are
escaped. The reader knows more escapes than the writer uses, so each way to write a code point is matched with the
rule that reads it; the literal as a whole follows code point by code point. The writer never calls a character by
name, so the names do not matter. An empty text needs a look of its own:
its two quotes must not be taken for the beginning of three.

## Contents

* `Text.quotedBy` — the literal of a text under a table of printable code points.
* `Text.escapedBy_cases` — how a code point is written, and what its escape means.
* `Text.stringLexeme_quotedBy` — a literal is a string as programs have them, so it is one line.
* `Text.clean_of_mem_quotedBy` — no control and no surrogate stands in a literal.
* `Text.literalAt?_quotedBy` — a quoted text is read back.
-/

namespace LineaLang

/-- **A table of the code points that show themselves**: controls and surrogates are not among them. -/
structure CodePoint.IsTable (printable : CodePoint → Bool) : Prop where
  control : ∀ c, c.isControl = true → printable c = false
  surrogate : ∀ c, c.isSurrogate = true → printable c = false

theorem CodePoint.isTable_isPrintable : IsTable isPrintable :=
  ⟨fun _ => isPrintable_of_isControl, fun _ => isPrintable_of_isSurrogate⟩

namespace Text

attribute [local instance (2000)] instPowNat

/-! ## Literals under a table -/

/-- One code point of a literal, when a table says which code points show themselves. -/
def escapedBy (printable : CodePoint → Bool) (quote c : CodePoint) : Text :=
  if c = quote ∨ c = CodePoint.ofChar '\\' then [CodePoint.ofChar '\\', c]
  else if c = CodePoint.ofChar '\n' then "\\n"
  else if c = CodePoint.ofChar '\r' then "\\r"
  else if c = CodePoint.ofChar '\t' then "\\t"
  else if printable c then [c]
  else if c.val < 0x100 then "\\x" ++ hexDigits 2 c.val
  else if c.val < 0x10000 then "\\u" ++ hexDigits 4 c.val
  else "\\U" ++ hexDigits 8 c.val

/-- The code points of a literal, between the quotes. -/
def escapedAllBy (printable : CodePoint → Bool) (quote : CodePoint) (text : Text) : Text :=
  text.flatMap (escapedBy printable quote)

/-- **The text as a literal**, when a table says which code points show themselves. -/
def quotedBy (printable : CodePoint → Bool) (text : Text) : Text :=
  quoteFor text :: (escapedAllBy printable (quoteFor text) text ++ [quoteFor text])

/-- Literals are written under the table of printable code points. -/
theorem quotedBy_isPrintable (text : Text) : text.quotedBy CodePoint.isPrintable = text.quoted := rfl

/-! ## Escapes -/

theorem foldlM_hexDigits (width n acc : Nat) :
    (hexDigits width n).foldlM (fun acc c => c.hexDigit?.map (16 * acc + ·)) acc =
      some (16 ^ width * acc + n % 16 ^ width) := by
  induction width generalizing n with
  | zero => simp [hexDigits, Nat.mod_one]
  | succ width ih =>
    rw [hexDigits, List.foldlM_append, ih]
    simp only [Option.bind_eq_bind, Option.bind_some, List.foldlM_cons, CodePoint.hexDigit?_ofHexDigit, Option.map_some,
      List.foldlM_nil, Option.pure_def]
    rw [Nat.pow_succ', Nat.mod_mul, Nat.mul_add, Nat.mul_assoc, Nat.add_assoc, Nat.add_comm (n % 16)]

/-- A code point is found by its number. -/
theorem numericEscape?_hexDigits {width : Nat} {c : CodePoint} (h : c.val < 16 ^ width) (rest : Text) :
    numericEscape? width (hexDigits width c.val ++ rest) = some ([c], width + 1) := by
  have htake : (hexDigits width c.val ++ rest).take width = hexDigits width c.val :=
    List.take_left' (length_hexDigits width c.val)
  have hvalue : hexValue? width (hexDigits width c.val ++ rest) = some c.val := by
    rw [hexValue?, htake, if_neg (by simp [length_hexDigits]), foldlM_hexDigits, Nat.mul_zero, Nat.zero_add,
      Nat.mod_eq_of_lt h]
  simp only [numericEscape?, hvalue, dif_pos c.isLt]

/-- **The letter after the backslash of an escape for `c`, and what else belongs to the escape**: read as `c`,
    whatever comes after it and whatever names characters have, and nothing in it could end a literal. -/
structure EscapeFor (c letter : CodePoint) (more : Text) : Prop where
  read : ∀ [CharacterNames] rest, escapeAt? (letter :: (more ++ rest)) = some ([c], more.length + 1)
  letter_isVisible : letter.isVisible = true
  more_isWordPart : ∀ d ∈ more, d.isWordPart = true

theorem escapeFor_hexDigits {letter : CodePoint} {width : Nat} {c : CodePoint} (hlt : c.val < 16 ^ width)
    (hread : ∀ [CharacterNames] more, escapeAt? (letter :: more) = numericEscape? width more)
    (hletter : letter.isVisible = true) : EscapeFor c letter (hexDigits width c.val) where
  read rest := by rw [hread, numericEscape?_hexDigits hlt, length_hexDigits]
  letter_isVisible := hletter
  more_isWordPart := isWordPart_hexDigits _ _

theorem EscapeFor.isVisible {c letter : CodePoint} {more : Text} (h : EscapeFor c letter more) :
    ∀ d ∈ letter :: more, d.isVisible = true :=
  List.forall_mem_cons.mpr
    ⟨h.letter_isVisible, fun d hd => CodePoint.isVisible_of_isWordPart (h.more_isWordPart d hd)⟩

/-- An escape of one letter. -/
theorem escapeFor_letter {c letter : CodePoint}
    (hread : ∀ [CharacterNames] rest, escapeAt? (letter :: rest) = some ([c], 1))
    (hletter : letter.isVisible = true) : EscapeFor c letter [] :=
  ⟨hread, hletter, List.forall_mem_nil _⟩

variable {printable : CodePoint → Bool} {quote : CodePoint}

/-- **How a code point is written** between quotes: as an escape for it, or as itself. -/
theorem escapedBy_cases (hquote : quote.isQuote = true) (c : CodePoint) :
    (∃ letter more, escapedBy printable quote c = CodePoint.ofChar '\\' :: letter :: more ∧
      EscapeFor c letter more) ∨
      (escapedBy printable quote c = [c] ∧ c ≠ quote ∧ c ≠ CodePoint.ofChar '\\' ∧ c ≠ newline ∧
        printable c = true) := by
  -- The writer tries these in turn: the two marks, three letters, the code point itself, and its number in one of
  -- three widths.
  unfold escapedBy
  split
  · rename_i hmark
    refine .inl ⟨_, _, rfl, ?_⟩
    rcases hmark with rfl | rfl
    · rcases eq_of_isQuote hquote with rfl | rfl <;> exact escapeFor_letter (fun _ => rfl) (by decide)
    · exact escapeFor_letter (fun _ => rfl) (by decide)
  rename_i hmark
  split
  · subst c
    exact .inl ⟨_, _, rfl, escapeFor_letter (fun _ => rfl) (by decide)⟩
  rename_i hnewline
  split
  · subst c
    exact .inl ⟨_, _, rfl, escapeFor_letter (fun _ => rfl) (by decide)⟩
  split
  · subst c
    exact .inl ⟨_, _, rfl, escapeFor_letter (fun _ => rfl) (by decide)⟩
  split
  · rename_i hprintable
    exact .inr ⟨rfl, fun h => hmark (.inl h), fun h => hmark (.inr h), hnewline, hprintable⟩
  split
  · rename_i hlt
    exact .inl ⟨_, _, rfl, escapeFor_hexDigits hlt (fun _ => rfl) (by decide)⟩
  split
  · rename_i hlt
    exact .inl ⟨_, _, rfl, escapeFor_hexDigits hlt (fun _ => rfl) (by decide)⟩
  · have hlt : c.val < 16 ^ 8 := Nat.lt_trans c.isLt (by decide)
    exact .inl ⟨_, _, rfl, escapeFor_hexDigits hlt (fun _ => rfl) (by decide)⟩

theorem backslash_ne_quote (hquote : quote.isQuote = true) : CodePoint.ofChar '\\' ≠ quote := by
  rintro rfl
  exact absurd hquote (by decide)

/-! ## What stands in a literal -/

theorem isQuote_quoteFor (text : Text) : (quoteFor text).isQuote = true := by
  unfold quoteFor
  split <;> rfl

/-- Parts of words may stand in a string as they are. -/
theorem stringBody_append {more rest : Text} (hquote : quote.isQuote = true)
    (hmore : ∀ d ∈ more, d.isWordPart = true) (h : StringBody quote rest) : StringBody quote (more ++ rest) := by
  induction more with
  | nil => exact h
  | cons d more ih =>
    rw [List.forall_mem_cons] at hmore
    refine .plain ?_ ?_ ?_ (ih hmore.2)
    · rintro rfl
      rcases eq_of_isQuote hquote with rfl | rfl <;> exact absurd hmore.1 (by decide)
    · rintro rfl
      exact absurd hmore.1 (by decide)
    · rintro rfl
      exact absurd hmore.1 (by decide)

theorem stringBody_escapedAllBy (hquote : quote.isQuote = true) (text : Text) :
    StringBody quote (escapedAllBy printable quote text) := by
  induction text with
  | nil => exact .nil
  | cons c text ih =>
    rw [escapedAllBy, List.flatMap_cons, ← escapedAllBy]
    obtain ⟨letter, more, hwritten, hescape⟩ | ⟨hself, hne, hbackslash, hnewline, -⟩ :=
      @escapedBy_cases printable quote hquote c
    · rw [hwritten, List.cons_append, List.cons_append]
      refine .escape ?_ (stringBody_append hquote hescape.more_isWordPart ih)
      rintro rfl
      exact absurd hescape.letter_isVisible (by decide)
    · rw [hself]
      exact .plain hne hbackslash hnewline ih

/-- **A literal is a string of a program**: its first quote is closed by its last. -/
theorem stringLexeme_quotedBy (text : Text) : StringLexeme (text.quotedBy printable) :=
  .quoted (isQuote_quoteFor text) (stringBody_escapedAllBy (isQuote_quoteFor text) text)

/-- What is written for one code point shows itself. -/
theorem clean_of_mem_escapedBy (htable : CodePoint.IsTable printable) (hquote : quote.isQuote = true)
    {c d : CodePoint} (hd : d ∈ escapedBy printable quote c) : d.isControl = false ∧ d.isSurrogate = false := by
  obtain ⟨letter, more, hwritten, hescape⟩ | ⟨hself, -, -, -, hprints⟩ := @escapedBy_cases printable quote hquote c
  · rw [hwritten] at hd
    rcases List.mem_cons.mp hd with rfl | hd
    · decide
    · exact CodePoint.clean_of_isVisible (hescape.isVisible d hd)
  · rw [hself, List.mem_singleton] at hd
    subst hd
    refine ⟨Bool.eq_false_iff.mpr fun hcontrol => ?_, Bool.eq_false_iff.mpr fun hsurrogate => ?_⟩
    · rw [htable.control d hcontrol] at hprints
      cases hprints
    · rw [htable.surrogate d hsurrogate] at hprints
      cases hprints

/-- **Controls and surrogates are always escaped.** -/
theorem clean_of_mem_quotedBy (htable : CodePoint.IsTable printable) {text : Text} {c : CodePoint}
    (hc : c ∈ text.quotedBy printable) : c.isControl = false ∧ c.isSurrogate = false := by
  have hquote := isQuote_quoteFor text
  have hends : (quoteFor text).isControl = false ∧ (quoteFor text).isSurrogate = false := by
    rcases eq_of_isQuote hquote with h | h <;> rw [h] <;> decide
  rcases List.mem_cons.mp hc with rfl | hc
  · exact hends
  rcases List.mem_append.mp hc with hbody | hlast
  · obtain ⟨d, -, hd⟩ := List.mem_flatMap.mp hbody
    exact clean_of_mem_escapedBy htable hquote hd
  · exact List.mem_singleton.mp hlast ▸ hends

/-- **A literal is one line.** -/
theorem newline_notMem_quoted (text : Text) : newline ∉ text.quoted := by
  intro hmem
  have hclean := clean_of_mem_quotedBy CodePoint.isTable_isPrintable (quotedBy_isPrintable text ▸ hmem)
  exact absurd hclean.1 (by decide)

/-! ## The body of a literal -/

/-- The quoting that `quoted` uses. -/
def plainQuoting (quote : CodePoint) : Quoting := ⟨quote, false, false⟩

variable [CharacterNames]

/-- What an escape has used is passed over. -/
theorem bodyFrom?_eq_drop (q : Quoting) (skip : Nat) (text : Text) :
    bodyFrom? q skip text = bodyFrom? q 0 (text.drop skip) := by
  induction skip generalizing text with
  | zero => rfl
  | succ skip ih =>
    cases text with
    | nil => rfl
    | cons c rest => exact ih rest

omit [CharacterNames] in
/-- Only the quote closes a literal. -/
theorem dropStart?_closing {c : CodePoint} (rest : Text) :
    dropStart? (plainQuoting quote).closing (c :: rest) = if quote = c then some rest else none := by
  have hclosing : (plainQuoting quote).closing = [quote] := rfl
  rw [hclosing, dropStart?, dropStart?]

/-- A closing quote ends the body. -/
theorem bodyFrom?_closing (rest : Text) : bodyFrom? (plainQuoting quote) 0 (quote :: rest) = some ([], rest) := by
  rw [bodyFrom?, dropStart?_closing, if_pos rfl]

/-- An escape stands for the code point that it is for. -/
theorem bodyFrom?_escape (hquote : quote.isQuote = true) {c letter : CodePoint} {more : Text}
    (h : EscapeFor c letter more) (rest : Text) :
    bodyFrom? (plainQuoting quote) 0 (CodePoint.ofChar '\\' :: letter :: (more ++ rest)) =
      (bodyFrom? (plainQuoting quote) 0 rest).map fun (text, left) => (c :: text, left) := by
  have hescape : (plainQuoting quote).escapeAt? (letter :: (more ++ rest)) = some ([c], more.length + 1) :=
    h.read rest
  rw [bodyFrom?, dropStart?_closing, if_neg (Ne.symm (backslash_ne_quote hquote))]
  simp only [if_true, hescape, bodyFrom?_eq_drop _ (more.length + 1), List.drop_succ_cons, List.drop_left,
    List.singleton_append]

/-- **A code point is read back** from what is written for it. -/
theorem bodyFrom?_escapedBy (hquote : quote.isQuote = true) (c : CodePoint) (rest : Text) :
    bodyFrom? (plainQuoting quote) 0 (escapedBy printable quote c ++ rest) =
      (bodyFrom? (plainQuoting quote) 0 rest).map fun (text, left) => (c :: text, left) := by
  rcases escapedBy_cases hquote c with ⟨letter, more, hwritten, hescape⟩ | ⟨hself, hne, hbackslash, hnewline, -⟩
  · rw [hwritten]
    exact bodyFrom?_escape hquote hescape rest
  · rw [hself, List.singleton_append, bodyFrom?, dropStart?_closing, if_neg (Ne.symm hne)]
    simp only [if_neg hbackslash]
    rw [if_neg fun h => hnewline h.1]

theorem bodyFrom?_escapedAllBy (hquote : quote.isQuote = true) (text rest : Text) :
    bodyFrom? (plainQuoting quote) 0 (escapedAllBy printable quote text ++ quote :: rest) = some (text, rest) := by
  induction text with
  | nil => exact bodyFrom?_closing rest
  | cons c text ih =>
    rw [escapedAllBy, List.flatMap_cons, List.append_assoc, bodyFrom?_escapedBy hquote, ← escapedAllBy, ih]
    rfl

/-! ## The whole literal -/

omit [CharacterNames] in
/-- A literal with one quote at either end does not open with three. -/
theorem openedBy_escapedAllBy (hquote : quote.isQuote = true) (text : Text) :
    openedBy false quote (escapedAllBy printable quote text ++ [quote]) =
      (plainQuoting quote, escapedAllBy printable quote text ++ [quote]) := by
  have hone : dropStart? [quote, quote] (escapedAllBy printable quote text ++ [quote]) = none := by
    cases text with
    | nil =>
      have hnil : escapedAllBy printable quote [] ++ [quote] = [quote] := rfl
      rw [hnil, dropStart?, if_pos rfl, dropStart?]
    | cons c text =>
      rw [escapedAllBy, List.flatMap_cons]
      obtain ⟨letter, more, hwritten, -⟩ | ⟨hself, hne, -⟩ := @escapedBy_cases printable quote hquote c
      · rw [hwritten]
        exact if_neg (Ne.symm (backslash_ne_quote hquote))
      · rw [hself]
        exact if_neg (Ne.symm hne)
  rw [openedBy, hone]
  rfl

/-- **A quoted text is read back**, whatever the table. -/
theorem literalAt?_quotedBy (text : Text) : literalAt? (text.quotedBy printable) = some (text, []) := by
  have hquote := isQuote_quoteFor text
  have hopening : openingAt? (text.quotedBy printable) = some (plainQuoting (quoteFor text),
      escapedAllBy printable (quoteFor text) text ++ [quoteFor text]) := by
    simp only [quotedBy, openingAt?, if_pos hquote, openedBy_escapedAllBy hquote]
  rw [literalAt?, hopening]
  exact bodyFrom?_escapedAllBy hquote text []

theorem literalAt?_quoted (text : Text) : literalAt? text.quoted = some (text, []) :=
  literalAt?_quotedBy text

end Text

end LineaLang
