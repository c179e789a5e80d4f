import LineaLang.Proofs.Number.Operand
import LineaLang.Proofs.Parsing.Trees
import LineaLang.Proofs.Scanning.Spacing
import LineaLang.Proofs.Text.Requoted
import LineaLang.Proofs.Text.Utf8
import LineaLang.Tree.Outline

/-!
# `LineaLang.Proofs.Parsing.Printed` — literals as they are shown

The texts and the numbers of a program are shown in its outline and its listing, and what is shown is a literal of
the language again. With a semicolon behind it, it is a source: its tokens are the literal, perhaps under a minus,
and the semicolon, and its tree is the statement made of the literal alone.

Three writings of a text have to agree for that: the escapes and the quote that are chosen to show it, the string as
a scan finds it, and the escapes that a literal is read by. For the scan what is shown must be a string whose first
quote is closed by its last, for the reading it must hold neither a line end nor what no literal may hold.

## Contents

* `Literal.read?_quotedBy` — the value of a text that is shown.
* `Grammar.numberValue_ofNat` — the value of a number that is shown.
* `Node.ofTokens_operand` — the tree of a statement that is one operand.
* `literals_read_back` — what is shown of literals is read as the literals.
-/

namespace LineaLang

/-! ## Values -/

namespace Literal

variable [CharacterNames]

/-- A literal that is all there is makes a text alone. -/
theorem textsAt?_of_literalAt? {text meaning : Text} (h : text.literalAt? = some (meaning, [])) :
    textsAt? false text = some (meaning, []) := by
  cases text with
  | nil => cases h
  | cons c rest =>
    have hend : (skipGaps false []).openingAt? = none := rfl
    simp only [textsAt?, textsFrom?, h, Option.bind_eq_bind, Option.bind_some, hend]
    rfl

/-- What begins with a quote is the literal that stands there, if nothing on it is a line end or forbidden. -/
theorem read?_of_literalAt? {quote : CodePoint} (hquote : quote.isQuote = true) {rest meaning : Text}
    (hreturn : CodePoint.ofChar '\r' ∉ quote :: rest) (hallowed : ∀ c ∈ quote :: rest, isForbidden c = false)
    (hliteral : Text.literalAt? (quote :: rest) = some (meaning, [])) :
    read? (quote :: rest) = some (.str meaning) := by
  have hunified : Text.unifyLinesAfter false rest = rest :=
    Text.unifyLines_eq_self (List.not_mem_of_not_mem_cons hreturn)
  have hcontent : content? (Text.unifyLines (quote :: rest)) = some (quote :: rest) := by
    rw [content?_of_isQuote hquote, hunified]
  have hopening : (Text.openingAt? (quote :: rest)).isSome := by simp [Text.openingAt?, hquote]
  have hvalue : valueAt? maxLevels false (quote :: rest) = some (.str meaning, []) := by
    rw [valueAt?, skipGaps_of_isQuote hquote]
    simp only [hopening, if_true, textsAt?_of_literalAt? hliteral, Option.map_some]
  have hany : (quote :: rest).any isForbidden = false := List.any_eq_false.mpr fun c hc => by simp [hallowed c hc]
  have hend : isEnd [] = true := rfl
  rw [read?, hany]
  simp only [Bool.false_eq_true, if_false, hcontent, hvalue, Option.bind_eq_bind, Option.bind_some, hend, if_true]
  rfl

/-- **A text that is shown is read as the text**, whatever table says which code points show themselves, so long as
    controls and surrogates do not. -/
theorem read?_quotedBy {printable : CodePoint → Bool} (htable : CodePoint.IsTable printable) (text : Text) :
    read? (text.quotedBy printable) = some (.str text) := by
  refine read?_of_literalAt? (Text.isQuote_quoteFor text) ?_ ?_ (Text.literalAt?_quotedBy text)
  · intro hmem
    exact absurd (Text.clean_of_mem_quotedBy htable hmem).1 (by decide)
  · intro c hc
    obtain ⟨hcontrol, hsurrogate⟩ := Text.clean_of_mem_quotedBy htable hc
    have hzero : c.val ≠ 0 := by
      intro hzero
      simp [CodePoint.isControl, hzero] at hcontrol
    simp [isForbidden, hsurrogate, hzero]

end Literal

namespace Grammar

/-- **A numeral is read as its number**, if it is not too long. -/
theorem numberValue_ofNat (n : Nat) :
    numberValue (Numeral.ofNat n) =
      if (Numeral.ofNat n).length > Numeral.limit then .error (.tooLong (Numeral.ofNat n).length)
      else .ok (.int n) := by
  have hrun := (Numeral.isRun_ofNat n).isDigit
  have hpoint := hrun.not_mem '.' (by decide)
  rw [numberValue, if_neg (by simp [hpoint]), Numeral.readInteger_of_value? hrun (Numeral.value?_ofNat n)]
  split <;> rfl

end Grammar

/-! ## Tokens -/

namespace Token

variable {kind : TokenKind} {lexeme : Text}

/-- The token of a semicolon. -/
def semicolon (p : Position) : Token := ⟨.semi, ";", p⟩

/-- A lexeme with a semicolon behind it is two tokens. -/
theorem scanFrom_before_semicolon (p : Position) (h : LongestLexeme (some kind) lexeme (lexeme ++ Text.ofString ";")) :
    scanFrom p 0 (lexeme ++ Text.ofString ";") = .ok [⟨kind, lexeme, p⟩, semicolon (p.after lexeme)] := by
  have hsemicolon : scanFrom (p.after lexeme) 0 (Text.ofString ";") = .ok [semicolon (p.after lexeme)] := rfl
  rw [scanFrom_lexeme p h, List.drop_left, hsemicolon]
  rfl

/-- **A string with a semicolon behind it** is two tokens. -/
theorem scan_string (h : StringLexeme lexeme) :
    scan (lexeme ++ Text.ofString ";") =
      .ok [⟨.string, lexeme, .start⟩, semicolon ⟨1, 1 + lexeme.length, lexeme.length⟩] := by
  have hline : Text.newline ∉ lexeme := (IsLexeme.string h).newline_not_mem
  rw [scan, scanFrom_before_semicolon .start (.string h _), Position.after_of_not_mem .start hline]
  simp [Position.start]

/-- A minus is taken alone. -/
theorem scanFrom_minus (p : Position) (rest : Text) :
    scanFrom p 0 (CodePoint.ofChar '-' :: rest) =
      (scanFrom (p.after "-") 0 rest).map (⟨.minus, "-", p⟩ :: ·) := by
  have hminus : LongestLexeme (some .minus) "-" (Text.ofString "-" ++ rest) :=
    longestLexeme_iff.mpr ⟨List.prefix_append _ _, rfl⟩
  exact scanFrom_lexeme p hminus

/-- **A numeral with a semicolon behind it** is two tokens. -/
theorem scanFrom_numeral (p : Position) (n : Nat) :
    scanFrom p 0 (Numeral.ofNat n ++ Text.ofString ";") =
      .ok [⟨.number, Numeral.ofNat n, p⟩, semicolon (p.after (Numeral.ofNat n))] :=
  scanFrom_before_semicolon p (.digits (Numeral.isRun_ofNat n).isDigit (by decide) (by decide) [])

end Token

/-! ## Trees -/

section

variable [CharacterNames]

open Grammar in
/-- Tokens that have a tree are legible. -/
theorem Token.legible_of_ofTokens {tokens : List Token} {program : Node} (h : Node.ofTokens tokens = .ok program) :
    ∀ t ∈ tokens, t.Legible := by
  obtain ⟨d, hfits, rfl, -⟩ := ofTokens_eq_ok_iff.mp h
  exact (Derivation.fits_iff.mp hfits).2.2.2.2

/-- The program of one statement, which is one operand. -/
def Derivation.ofOperand (operand : Derivation .unary) (semi : Terminal [.semi]) : Derivation .program :=
  .program (.statements (.ofExpression (.expressionStatement
    (.expression (.sum (.additive (.multiplicative operand .noFactors) .noAddends))) semi)) .noStatements)

/-- **A statement that is one operand has the tree of the operand**, if its literals can be read. -/
theorem Node.ofTokens_operand (operand : Derivation .unary) (semi : Terminal [.semi])
    (h : (∀ t ∈ operand.tokens, t.Legible) → operand.Fits (Grammar.maxLevels - 2)) :
    Node.ofTokens (operand.tokens ++ [semi.1]) = .ok (.program [.expression operand.tree]) ↔
      ∀ t ∈ operand.tokens, t.Legible := by
  refine ⟨fun htree t ht => Token.legible_of_ofTokens htree t (List.mem_append_left _ ht), fun hlegible => ?_⟩
  refine ofTokens_eq_ok_iff.mpr ⟨.ofOperand operand semi, ?_, ?_, rfl⟩
  · have hoperand := h hlegible
    simpa [Derivation.ofOperand, Derivation.Fits, Grammar.maxLevels] using hoperand
  · simp [Derivation.ofOperand, Derivation.tokens]

namespace Node

/-- **The source that shows a text** has the tree of the text. -/
theorem ofSource_quotedBy {printable : CodePoint → Bool} (htable : CodePoint.IsTable printable) (text : Text) :
    ofSource (text.quotedBy printable ++ Text.ofString ";") = .ok (.program [.expression (.string (.str text))]) := by
  have hread := Literal.read?_quotedBy htable text
  have htree := ofTokens_operand
    (.plain (.string ⟨⟨.string, text.quotedBy printable, .start⟩, List.mem_singleton_self _⟩))
    ⟨Token.semicolon ⟨1, 1 + (text.quotedBy printable).length, (text.quotedBy printable).length⟩,
      List.mem_singleton_self _⟩
    fun hlegible => hlegible _ (List.mem_singleton_self _)
  have htokens := htree.mpr (List.forall_mem_singleton.mpr ⟨nofun, fun _ => ⟨_, hread⟩⟩)
  simp only [Derivation.tree, hread, Option.getD_some] at htokens
  exact (ofSource_eq_ok_iff (Token.scan_string (Text.stringLexeme_quotedBy text))).mpr htokens

variable {n : Nat} {p q : Position}

/-- The token of a numeral. -/
def numeralToken (n : Nat) (p : Position) : Terminal [.number] :=
  ⟨⟨.number, Numeral.ofNat n, p⟩, List.mem_singleton_self _⟩

theorem legible_numeralToken : (numeralToken n p).1.Legible ↔ (Numeral.ofNat n).length ≤ Numeral.limit := by
  rw [numeralToken, Token.Legible, Grammar.numberValue_ofNat, ← Nat.not_lt]
  by_cases hlong : (Numeral.ofNat n).length > Numeral.limit
  · simp [hlong]
  · simp [hlong]

theorem tree_number_numeralToken (h : (Numeral.ofNat n).length ≤ Numeral.limit) :
    (Derivation.number (numeralToken n p)).tree = .number (.int n) := by
  simp [Derivation.tree, numeralToken, Grammar.numberValue_ofNat, Nat.not_lt.mpr h, Except.toOption]

/-- The tokens of a numeral with a semicolon behind it have the tree of the number, if it is not too long. -/
theorem ofTokens_numeral :
    Node.ofTokens [(numeralToken n p).1, Token.semicolon q] = .ok (.program [.expression (.number (.int n))]) ↔
      (Numeral.ofNat n).length ≤ Numeral.limit := by
  have htree := ofTokens_operand (.plain (.number (numeralToken n p)))
    ⟨Token.semicolon q, List.mem_singleton_self _⟩ fun hlegible => hlegible _ (List.mem_singleton_self _)
  constructor
  · intro h
    exact legible_numeralToken.mp (Token.legible_of_ofTokens h _ List.mem_cons_self)
  · intro h
    rw [← tree_number_numeralToken h]
    exact htree.mpr (List.forall_mem_singleton.mpr (legible_numeralToken.mpr h))

/-- The same under a minus. -/
theorem ofTokens_minus_numeral {r : Position} :
    Node.ofTokens [⟨.minus, "-", r⟩, (numeralToken n p).1, Token.semicolon q] =
        .ok (.program [.expression (.number (.int (-n)))]) ↔
      (Numeral.ofNat n).length ≤ Numeral.limit := by
  have htree := ofTokens_operand
    (.negative ⟨⟨.minus, "-", r⟩, List.mem_singleton_self _⟩ (.number (numeralToken n p)))
    ⟨Token.semicolon q, List.mem_singleton_self _⟩ fun hlegible => hlegible _ (List.mem_of_getLast? rfl)
  constructor
  · intro h
    exact legible_numeralToken.mp (Token.legible_of_ofTokens h _ (List.mem_cons_of_mem _ List.mem_cons_self))
  · intro h
    have hminus : Token.Legible ⟨.minus, "-", r⟩ := ⟨nofun, nofun⟩
    have hnegated : Grammar.negation (.number (.int n)) = .number (.int (-n)) := rfl
    rw [← hnegated, ← tree_number_numeralToken h]
    exact htree.mpr (by simpa [Derivation.tokens, hminus] using legible_numeralToken.mpr h)

/-- **The source that shows an integer** has the tree of the integer, if it has no more digits than are read. -/
theorem ofSource_formatNumber (n : Int) :
    ofSource ((Value.int n).formatNumber ++ Text.ofString ";") = .ok (.program [.expression (.number (.int n))]) ↔
      (Numeral.ofNat n.natAbs).length ≤ Numeral.limit := by
  cases n with
  | ofNat n =>
    have hscan : Token.scan (Numeral.ofNat n ++ Text.ofString ";") =
        .ok [(numeralToken n .start).1, Token.semicolon (Position.start.after (Numeral.ofNat n))] :=
      Token.scanFrom_numeral .start n
    exact (ofSource_eq_ok_iff hscan).trans ofTokens_numeral
  | negSucc n =>
    -- No numeral is below zero, so what is read is a number under a minus, which makes one literal of the two.
    have hscan : Token.scan (CodePoint.ofChar '-' :: Numeral.ofNat (n + 1) ++ Text.ofString ";") =
        .ok [⟨.minus, "-", .start⟩, (numeralToken (n + 1) (Position.start.after "-")).1,
          Token.semicolon ((Position.start.after "-").after (Numeral.ofNat (n + 1)))] := by
      rw [Token.scan, List.cons_append, Token.scanFrom_minus, Token.scanFrom_numeral]
      rfl
    exact (ofSource_eq_ok_iff hscan).trans ofTokens_minus_numeral

end Node

/-- **What is shown of literals is read as the literals.** In an outline a text is shown by its literal under the
    table of printable code points. Under any such table the literal of any text, with a semicolon behind it, is one
    string and the semicolon to a scan, and is read as the statement made of the text. An integer that is shown is
    read as the statement made of the integer, below zero as well, exactly if it has no more digits than are read. -/
theorem literals_read_back :
    (∀ text : Text, (Node.string (.str text)).label =
      .ok (Text.ofString "StringLiteral " ++ text.quotedBy CodePoint.isPrintable)) ∧
    CodePoint.IsTable CodePoint.isPrintable ∧
    (∀ printable : CodePoint → Bool, CodePoint.IsTable printable → ∀ text : Text,
      Token.scan (text.quotedBy printable ++ Text.ofString ";") =
          .ok [⟨.string, text.quotedBy printable, ⟨1, 1, 0⟩⟩,
            ⟨.semi, ";", ⟨1, 1 + (text.quotedBy printable).length, (text.quotedBy printable).length⟩⟩] ∧
        Node.ofSource (text.quotedBy printable ++ Text.ofString ";") =
          .ok (.program [.expression (.string (.str text))])) ∧
    ∀ n : Int, Node.ofSource ((Value.int n).formatNumber ++ Text.ofString ";") =
        .ok (.program [.expression (.number (.int n))]) ↔
      (Numeral.ofNat n.natAbs).length ≤ Numeral.limit := by
  refine ⟨fun _ => rfl, CodePoint.isTable_isPrintable, fun printable htable text => ⟨?_, ?_⟩,
    Node.ofSource_formatNumber⟩
  · exact Token.scan_string (Text.stringLexeme_quotedBy text)
  · exact Node.ofSource_quotedBy htable text

end

-- No character is called by its name from here on.
attribute [local instance] CharacterNames.unnamed

/-- A table that only has the letters. -/
theorem isTable_isLetter : CodePoint.IsTable CodePoint.isLetter where
  control c h := by
    simp only [CodePoint.isControl, CodePoint.isLetter, CodePoint.within, Bool.or_eq_true, Bool.and_eq_true,
      decide_eq_true_eq, Bool.or_eq_false_iff, Bool.and_eq_false_iff, decide_eq_false_iff_not] at h ⊢
    omega
  surrogate c h := by
    simp only [CodePoint.isSurrogate, CodePoint.isLetter, CodePoint.within, Bool.and_eq_true, decide_eq_true_eq,
      Bool.or_eq_false_iff, Bool.and_eq_false_iff, decide_eq_false_iff_not] at h ⊢
    omega

/-- A surrogate, a digit after it, a line feed, both quotes, and a backslash before a digit. -/
def awkwardText : Text := [⟨0xD800, by decide⟩] ++ Text.ofString "0\n'\"\\0a"

/-- **Awkward code points are read back** under a table that only has the letters, and so is a number below
    zero. -/
theorem awkwardLiterals_read_back :
    CodePoint.IsTable CodePoint.isLetter ∧
    Node.ofSource (Text.ofString "'\\ud800\\x30\\n\\'\\x22\\\\\\x30a';") =
      .ok (.program [.expression (.string (.str awkwardText))]) ∧
    Node.ofSource (Text.ofString "-12;") = .ok (.program [.expression (.number (.int (-12)))]) := by
  obtain ⟨-, -, htexts, hnumbers⟩ := literals_read_back
  have htwelve : Numeral.ofNat 12 = Text.ofString "12" := by
    rw [Numeral.ofNat_of_le (by decide), Numeral.ofNat_of_lt (by decide)]
    rfl
  have hnegative : (Value.int (-12)).formatNumber = Text.ofString "-12" := congrArg (CodePoint.ofChar '-' :: ·) htwelve
  have hshort : (Numeral.ofNat (-12 : Int).natAbs).length ≤ Numeral.limit := by
    rw [show (-12 : Int).natAbs = 12 from rfl, htwelve]
    decide
  have hnumber := (hnumbers (-12)).mpr hshort
  rw [hnegative] at hnumber
  refine ⟨isTable_isLetter, ?_, hnumber⟩
  have hshown : awkwardText.quotedBy CodePoint.isLetter ++ Text.ofString ";" =
      Text.ofString "'\\ud800\\x30\\n\\'\\x22\\\\\\x30a';" := by decide
  rw [← hshown]
  exact (htexts CodePoint.isLetter isTable_isLetter awkwardText).2

end LineaLang
