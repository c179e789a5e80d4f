import LineaLang.Tree.Cursor
import LineaLang.Proofs.Parsing.Statement

/-!
# `LineaLang.Proofs.Parsing.Program` — the trees of programs

What a whole reading of a program gives, in terms of the grammar alone. The literals are the last thing to be
taken apart: of the tokens that are spelled as their kinds are, only a string with a broken escape and an
integer that is too long cannot be read.

## Contents

* `numberValue_iff`, `read?_of_stringLexeme` — which lexemes have a value.
* `ofTokens_eq_ok_iff` — the tree of a program is that of the derivation that fits.
* `ofTokens_eq_ok_iff_derivation` — the same with the conditions on the derivation spelled out.
-/

namespace LineaLang

open Grammar

/-! ## Literals -/

/-- **An integer has a value if it is short enough**, and a number with a point always. -/
theorem numberValue_iff {lexeme : Text} (h : NumberLexeme lexeme) :
    (∃ v, numberValue lexeme = .ok v) ↔
      (CodePoint.ofChar '.' ∉ lexeme → lexeme.length ≤ Numeral.limit) := by
  cases h with
  | whole h =>
    have hpoint := h.not_mem '.' (by decide)
    simp only [numberValue, List.contains_eq_mem, hpoint, decide_false, Bool.false_eq_true, if_false,
      not_false_eq_true, true_implies]
    rw [← Numeral.readInteger_of_isRun h]
    cases Numeral.readInteger lexeme <;> simp [Except.map]
  | @fraction whole fraction hw hf =>
    obtain ⟨d, hd⟩ := Decimal.readGrouped?_of_isRun hw hf
    simp [numberValue, hd]

/-- **A number without a value is an integer that is too long.** -/
theorem long_of_numberValue_error {lexeme : Text} {fault : NumeralFault} (h : NumberLexeme lexeme)
    (hfault : numberValue lexeme = .error fault) :
    CodePoint.ofChar '.' ∉ lexeme ∧ Numeral.limit < lexeme.length ∧ fault = .tooLong lexeme.length := by
  cases h with
  | whole h =>
    have hpoint := h.not_mem '.' (by decide)
    simp only [numberValue, List.contains_eq_mem, hpoint, decide_false, Bool.false_eq_true, if_false] at hfault
    cases hread : Numeral.readInteger lexeme with
    | ok n =>
      rw [hread] at hfault
      cases hfault
    | error fault' =>
      rw [hread] at hfault
      cases hfault
      exact ⟨hpoint, Numeral.eq_tooLong_of_isRun h hread⟩
  | @fraction whole fraction hw hf =>
    obtain ⟨d, hd⟩ := Decimal.readGrouped?_of_isRun hw hf
    simp [numberValue, hd] at hfault

/-- A quote is where a gap ends. -/
theorem skipGaps_of_isQuote {quote : CodePoint} (hq : quote.isQuote = true) (inside : Bool) (rest : Text) :
    Literal.skipGaps inside (quote :: rest) = quote :: rest := by
  rw [Literal.skipGaps, Literal.skipGapsFrom.eq_def]
  rcases eq_of_isQuote hq with rfl | rfl <;>
    simp [Literal.isIndent, Literal.formFeed, Literal.commentMark,
      Literal.joinsLines, Text.newline, CodePoint.ofChar]

/-- A quote is where a literal begins. -/
theorem content?_of_isQuote {quote : CodePoint} (hq : quote.isQuote = true) (rest : Text) :
    Literal.content? (Text.unifyLines (quote :: rest)) = some (quote :: Text.unifyLinesAfter false rest) := by
  have hunified : Text.unifyLines (quote :: rest) = quote :: Text.unifyLinesAfter false rest := by
    rcases eq_of_isQuote hq with rfl | rfl <;> rfl
  have hindent : (quote :: Text.unifyLinesAfter false rest).dropWhile Literal.isIndent =
      quote :: Text.unifyLinesAfter false rest := by
    rcases eq_of_isQuote hq with rfl | rfl <;> rfl
  rw [hunified, Literal.content?, hindent, Literal.contentFrom?.eq_def]
  rcases eq_of_isQuote hq with rfl | rfl <;>
    simp [Literal.isIndent, Literal.formFeed, Literal.commentMark, Literal.joinsLines, Text.newline,
      CodePoint.ofChar]

section

variable [CharacterNames]

/-- What begins with a quote is a text. -/
theorem valueAt?_of_isQuote {quote : CodePoint} (hq : quote.isQuote = true) {levels : Nat} {rest left : Text}
    {v : Value} (hv : Literal.valueAt? levels false (quote :: rest) = some (v, left)) :
    ∃ text, v = .str text := by
  have hopening : (Text.openingAt? (quote :: rest)).isSome := by simp [Text.openingAt?, hq]
  rw [Literal.valueAt?, skipGaps_of_isQuote hq] at hv
  simp only [hopening, if_true, Option.map_eq_some_iff, Prod.mk.injEq] at hv
  obtain ⟨⟨text, _⟩, -, rfl, -⟩ := hv
  exact ⟨text, rfl⟩

/-- **A string lexeme denotes a text**, if anything. -/
theorem read?_of_stringLexeme {lexeme : Text} (h : StringLexeme lexeme) {v : Value}
    (hv : Literal.read? lexeme = some v) : ∃ text, v = .str text := by
  cases h with
  | quoted hq _ =>
    rw [Literal.read?, content?_of_isQuote hq] at hv
    split at hv
    · cases hv
    · simp only [Option.bind_eq_bind, Option.bind_some, Option.bind_eq_some_iff] at hv
      obtain ⟨⟨w, rest⟩, hvalue, hv⟩ := hv
      split at hv
      · obtain rfl := Option.some.inj hv
        exact valueAt?_of_isQuote hq hvalue
      · cases hv

/-- **The literals that can be read**: every integer is short enough, and every string denotes a text. -/
theorem legible_iff {t : Token} (h : t.WellSpelled) :
    t.Legible ↔
      (t.kind = .number → CodePoint.ofChar '.' ∉ t.lexeme → t.lexeme.length ≤ Numeral.limit) ∧
      (t.kind = .string → ∃ text, Literal.read? t.lexeme = some (.str text)) := by
  refine and_congr (forall_congr' fun hk => ?_) (forall_congr' fun hk => ?_)
  · have hlexeme : NumberLexeme t.lexeme := by rwa [Token.WellSpelled, hk] at h
    exact numberValue_iff hlexeme
  · have hlexeme : StringLexeme t.lexeme := by rwa [Token.WellSpelled, hk] at h
    constructor
    · rintro ⟨v, hv⟩
      obtain ⟨text, rfl⟩ := read?_of_stringLexeme hlexeme hv
      exact ⟨text, hv⟩
    · rintro ⟨text, htext⟩
      exact ⟨_, htext⟩

/-! ## Programs -/

omit [CharacterNames] in
theorem read_eq_ok_iff {α : Type} {c : Cursor} {reading : Reading α} {a : α} :
    (c.read reading).1 = .ok a ↔ ∃ rest, reading c.rest = .ok a rest := by
  rw [Cursor.read]
  cases reading c.rest <;> simp

omit [CharacterNames] in
theorem read_eq_error_iff {α : Type} {c : Cursor} {reading : Reading α} {failure : ParseFailure} :
    (c.read reading).1 = .error failure ↔
      ∃ fault rest, reading c.rest = .error fault rest ∧ c.failure fault = failure := by
  rw [Cursor.read]
  cases reading c.rest <;> simp

/-- **Tokens have no tree** exactly if the reading stops. -/
theorem ofTokens_eq_error_iff {tokens : List Token} {failure : ParseFailure} :
    Node.ofTokens tokens = .error failure ↔
      ∃ fault rest, programReading (statementAt maxLevels) tokens = .error fault rest ∧
        (Cursor.start tokens).failure fault = failure :=
  read_eq_error_iff

/-- **The tree of a program** is that of the derivation that fits. -/
theorem ofTokens_eq_ok_iff {tokens : List Token} {program : Node} :
    Node.ofTokens tokens = .ok program ↔
      ∃ d : Derivation .program, d.Fits maxLevels ∧ d.tokens = tokens ∧ d.tree = program := by
  rw [Node.ofTokens, Cursor.phrase, read_eq_ok_iff]
  constructor
  · rintro ⟨rest, hok⟩
    obtain ⟨d, hd, rfl, htokens, rfl⟩ := (finds_programReading maxLevels).mp hok
    exact ⟨d, hd, by simpa [Cursor.start, Cursor.rest] using htokens.symm, rfl⟩
  · rintro ⟨d, hd, rfl, rfl⟩
    exact ⟨[], (finds_programReading maxLevels).mpr ⟨d, hd, rfl, by simp [Cursor.start, Cursor.rest], rfl⟩⟩

/-- **Reading a program is sound and complete.** The tokens have a tree exactly if they have a derivation in
    which every `else` goes with the nearest condition, a block stands apart from a condition without `then`,
    a name stands left of every `=`, and no more levels are open at once than may be; provided that every
    string denotes a text and no integer is too long. The tree is that of the derivation. -/
theorem ofTokens_eq_ok_iff_derivation {tokens : List Token} (h : ∀ t ∈ tokens, t.WellSpelled)
    {program : Node} :
    Node.ofTokens tokens = .ok program ↔
      ∃ d : Derivation .program, d.tokens = tokens ∧ d.tree = program ∧
        d.All Derivation.ElseNearest ∧ d.All Derivation.ThenApart ∧ d.All Derivation.NamedTarget ∧
        d.levels ≤ maxLevels ∧
        ∀ t ∈ tokens,
          (t.kind = .number → CodePoint.ofChar '.' ∉ t.lexeme → t.lexeme.length ≤ Numeral.limit) ∧
          (t.kind = .string → ∃ text, Literal.read? t.lexeme = some (.str text)) := by
  rw [ofTokens_eq_ok_iff]
  refine exists_congr fun d => ?_
  rw [Derivation.fits_iff]
  constructor
  · rintro ⟨⟨helse, hthen, htarget, hlevels, hlegible⟩, rfl, rfl⟩
    exact ⟨rfl, rfl, helse, hthen, htarget, hlevels, fun t ht => (legible_iff (h t ht)).mp (hlegible t ht)⟩
  · rintro ⟨rfl, rfl, helse, hthen, htarget, hlevels, hliterals⟩
    exact ⟨⟨helse, hthen, htarget, hlevels, fun t ht => (legible_iff (h t ht)).mpr (hliterals t ht)⟩, rfl, rfl⟩

end

-- No character is called by its name from here on.
attribute [local instance] CharacterNames.unnamed

/-- `if a < b if c < d x; else y;`, with all tokens at one place. -/
def nestedConditions : List Token :=
  [⟨.ifWord, "if", .start⟩, ⟨.ident, "a", .start⟩, ⟨.lt, "<", .start⟩, ⟨.ident, "b", .start⟩,
   ⟨.ifWord, "if", .start⟩, ⟨.ident, "c", .start⟩, ⟨.lt, "<", .start⟩, ⟨.ident, "d", .start⟩,
   ⟨.ident, "x", .start⟩, ⟨.semi, ";", .start⟩, ⟨.elseWord, "else", .start⟩, ⟨.ident, "y", .start⟩,
   ⟨.semi, ";", .start⟩]

/-- **An `else` after two conditions** goes with the second. -/
theorem nestedConditions_derived :
    (∀ t ∈ nestedConditions, t.WellSpelled) ∧
    ∃ d : Derivation .program, d.tokens = nestedConditions ∧
      d.tree = .program [.ifElse (.comparison .lt (.ident (.str "a")) (.ident (.str "b")))
        (.block [.ifElse (.comparison .lt (.ident (.str "c")) (.ident (.str "d")))
          (.block [.expression (.ident (.str "x"))]) (.block [.expression (.ident (.str "y"))])]) .absent] ∧
      d.All Derivation.ElseNearest := by
  have hname : ∀ c : Char, (CodePoint.ofChar c).isWordStart = true → WordLexeme [CodePoint.ofChar c] :=
    fun c hc => .word hc (List.forall_mem_nil _)
  have hspelled : ∀ t ∈ nestedConditions, t.WellSpelled := by
    simp only [nestedConditions, List.forall_mem_cons, Token.WellSpelled, TokenKind.Matches]
    exact ⟨by decide, hname 'a' (by decide), by decide, hname 'b' (by decide), by decide,
      hname 'c' (by decide), by decide, hname 'd' (by decide), hname 'x' (by decide), by decide, by decide,
      hname 'y' (by decide), by decide, List.forall_mem_nil _⟩
  obtain ⟨d, htokens, htree, helse, -⟩ := (ofTokens_eq_ok_iff_derivation hspelled).mp rfl
  exact ⟨hspelled, d, htokens, htree, helse⟩

end LineaLang
