import LineaLang.Token.Scan
import LineaLang.Proofs.Text.Numeral

/-!
# `LineaLang.Proofs.Parsing.Terminal` — what a lexeme of each kind looks like

The terminals of the language as sets of texts, stated without the scanner: a number is digits with a
fraction or without, a string is what stands between two equal quotes on one line, a word starts with a
letter or an underscore, and every other kind has one spelling. `TokenKind.Matches` collects them; a token
is `Token.WellSpelled` if its lexeme is in the set of its kind. What a scan may take at one place is an
`IsLexeme`, which tells keywords from other words and includes the blanks and comments that no token is made of. The
`Token.word` is what of a token does not depend on where it stands.
-/

namespace LineaLang

/-! ## The terminals -/

/-- **A number**: digits of any script, and perhaps a point and more digits. -/
inductive NumberLexeme : Text → Prop where
  | whole {digits : Text} (h : digits.IsRun CodePoint.isDigit) : NumberLexeme digits
  | fraction {whole fraction : Text} (hw : whole.IsRun CodePoint.isDigit)
      (hf : fraction.IsRun CodePoint.isDigit) :
      NumberLexeme (whole ++ CodePoint.ofChar '.' :: fraction)

/-- What may stand between two quotes: no quote and no line feed, and a backslash only with the code point
    that it escapes. -/
inductive StringBody (quote : CodePoint) : Text → Prop where
  | nil : StringBody quote []
  | plain {c : CodePoint} {rest : Text} (hq : c ≠ quote) (hb : c ≠ CodePoint.ofChar '\\')
      (hn : c ≠ Text.newline) (h : StringBody quote rest) : StringBody quote (c :: rest)
  | escape {c : CodePoint} {rest : Text} (hn : c ≠ Text.newline) (h : StringBody quote rest) :
      StringBody quote (CodePoint.ofChar '\\' :: c :: rest)

/-- **A string**: a body between two equal quotes. -/
inductive StringLexeme : Text → Prop where
  | quoted {quote : CodePoint} {body : Text} (hq : quote.isQuote = true) (h : StringBody quote body) :
      StringLexeme (quote :: (body ++ [quote]))

theorem eq_of_isQuote {c : CodePoint} (h : c.isQuote = true) :
    c = CodePoint.ofChar '"' ∨ c = CodePoint.ofChar '\'' := by
  simp only [CodePoint.isQuote, Bool.or_eq_true, decide_eq_true_eq] at h
  exact h.imp CodePoint.ext_val CodePoint.ext_val

/-- **A word**, keywords included. -/
inductive WordLexeme : Text → Prop where
  | word {c : CodePoint} {rest : Text} (hc : c.isWordStart = true)
      (hr : ∀ d ∈ rest, d.isWordPart = true) : WordLexeme (c :: rest)

theorem WordLexeme.isWordPart {word : Text} (h : WordLexeme word) : ∀ c ∈ word, c.isWordPart = true := by
  cases h with
  | word hc hr => exact List.forall_mem_cons.mpr ⟨(Bool.or_eq_true _ _).mpr (.inl hc), hr⟩

theorem WordLexeme.notMem {word : Text} (h : WordLexeme word) {mark : CodePoint} (hmark : mark.isWordPart = false) :
    mark ∉ word := by
  intro hmem
  rw [h.isWordPart mark hmem] at hmark
  cases hmark

/-- **The lexemes of a kind.** -/
def TokenKind.Matches : TokenKind → Text → Prop
  | .number, text => NumberLexeme text
  | .string, text => StringLexeme text
  | .ident, text => WordLexeme text
  | kind, text => (text, kind) ∈ symbols ++ keywords

/-- **What is passed over**: a run of blanks, or two slashes with anything after them on the same line. -/
inductive SkippedLexeme : Text → Prop where
  | blanks {run : Text} (h : run.IsRun CodePoint.isBlank) : SkippedLexeme run
  | comment {body : Text} (h : Text.newline ∉ body) : SkippedLexeme (Text.ofString "//" ++ body)

/-- **A lexeme and the kind of its token**; what is passed over has none. A word that as a whole is a keyword has
    the kind of the keyword. -/
inductive IsLexeme : Option TokenKind → Text → Prop where
  | skipped {text : Text} (h : SkippedLexeme text) : IsLexeme none text
  | number {text : Text} (h : NumberLexeme text) : IsLexeme (some .number) text
  | string {text : Text} (h : StringLexeme text) : IsLexeme (some .string) text
  | keyword {text : Text} {kind : TokenKind} (h : (text, kind) ∈ keywords) : IsLexeme (some kind) text
  | name {text : Text} (hword : WordLexeme text) (hkeyword : ∀ kind, (text, kind) ∉ keywords) :
      IsLexeme (some .ident) text
  | symbol {text : Text} {kind : TokenKind} (h : (text, kind) ∈ symbols) : IsLexeme (some kind) text

/-- **A token whose lexeme is one of its kind**, as those of a scanned source are. -/
def Token.WellSpelled (t : Token) : Prop := t.kind.Matches t.lexeme

/-- **A token without its place**: its kind and its lexeme. -/
def Token.word (t : Token) : TokenKind × Text := (t.kind, t.lexeme)

end LineaLang
