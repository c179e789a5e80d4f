import LineaLang.Token.Basic

/-!
# `LineaLang.Token.Scan` — a source as tokens

A source is cut into lexemes from left to right, each the longest that some terminal allows at its place:
blanks and comments, which are skipped, numbers, words, strings and symbols. A word that is a keyword as a
whole has the keyword's kind. The first code point at which no terminal starts ends the scan with an error,
and then there are no tokens.

## Contents

* `Lexeme` — a length and the kind of token, or none for what is skipped.
* `blankLength`, `commentLength`, `numberLength`, `wordLength`, `stringLength?` — the terminals.
* `lexemeAt?` — the lexeme at the head of a text.
* `Token.scan` — all tokens of a source, or the first position that fits no terminal.
-/

namespace LineaLang

/-! ## Terminals -/

/-- A lexeme at the head of a text: how many code points it takes, and the kind of its token. Blanks and
    comments have none. -/
structure Lexeme where
  length : Nat
  kind? : Option TokenKind
deriving DecidableEq

namespace CodePoint

/-- The blanks between tokens: space, tab, form feed, carriage return and line feed. -/
def isBlank (c : CodePoint) : Bool :=
  c.val = 0x20 || c.val = 0x09 || c.val = 0x0C || c.val = 0x0D || c.val = 0x0A

/-- A word starts with a letter or an underscore. -/
def isWordStart (c : CodePoint) : Bool := c.isLetter || c.val = 0x5F

/-- A word goes on with letters, underscores and the ten Latin digits. -/
def isWordPart (c : CodePoint) : Bool := c.isWordStart || c.isAsciiDigit

end CodePoint

/-- How many code points at the head of a text satisfy `p`. -/
def runLength (p : CodePoint → Bool) (text : Text) : Nat := (text.takeWhile p).length

/-- A run of blanks. -/
def blankLength (text : Text) : Nat := runLength CodePoint.isBlank text

/-- A comment runs from two slashes to the end of the line, which is not part of it. -/
def commentLength (text : Text) : Nat :=
  if Text.ofString "//" <+: text then runLength (· ≠ Text.newline) text else 0

/-- **A number**: digits of any script, and a fraction if digits follow the point. -/
def numberLength (text : Text) : Nat :=
  let whole := runLength CodePoint.isDigit text
  if whole = 0 then 0
  else
    match text.drop whole with
    | [] => whole
    | point :: rest =>
      let fraction := runLength CodePoint.isDigit rest
      if point = CodePoint.ofChar '.' ∧ fraction ≠ 0 then whole + 1 + fraction else whole

/-- **A word**: a letter or an underscore, then letters, underscores and digits. -/
def wordLength : Text → Nat
  | [] => 0
  | c :: rest => if c.isWordStart then runLength CodePoint.isWordPart rest + 1 else 0

/-- The rest of a string after its opening quote, the closing quote included. A backslash takes the next
    code point with it; neither may be a line feed, and the string must be closed. -/
def stringRestLength? (quote : CodePoint) : Text → Option Nat
  | [] => none
  | [c] => if c = quote then some 1 else none
  | c :: d :: rest =>
    if c = quote then some 1
    else if c = Text.newline then none
    else if c = CodePoint.ofChar '\\' then
      if d = Text.newline then none else (stringRestLength? quote rest).map (· + 2)
    else (stringRestLength? quote (d :: rest)).map (· + 1)

/-- **A string**: what stands between two equal quotes on one line. -/
def stringLength? : Text → Option Nat
  | [] => none
  | quote :: rest => if quote.isQuote then (stringRestLength? quote rest).map (· + 1) else none

/-- **The symbols**, those of two code points before their own heads. -/
def symbols : List (Text × TokenKind) :=
  [("==", .eq), ("!=", .neq), ("<=", .le), (">=", .ge),
   ("+", .plus), ("-", .minus), ("*", .times), ("/", .div), ("(", .lparen), (")", .rparen),
   ("\x7b", .lbrace), ("\x7d", .rbrace), (";", .semi), (",", .comma), ("<", .lt), (">", .gt), ("=", .assign)]

/-- The words with a kind of their own. -/
def keywords : List (Text × TokenKind) :=
  [("if", .ifWord), ("then", .thenWord), ("else", .elseWord), ("let", .letWord), ("func", .funcWord),
   ("return", .returnWord), ("while", .whileWord), ("do", .doWord), ("print", .printWord)]

/-- The kind of a word: a keyword's own, or an identifier. -/
def wordKind (word : Text) : TokenKind :=
  match keywords.find? fun entry => entry.1 = word with
  | some (_, kind) => kind
  | none => .ident

/-- The symbol at the head of a text. -/
def symbolAt? (text : Text) : Option Lexeme :=
  (symbols.find? fun entry => entry.1.isPrefixOf text).map fun (symbol, kind) =>
    ⟨symbol.length, some kind⟩

/-! ## Scanning -/

/-- **The lexeme at the head of a text.** The first code point decides which terminals are possible; a
    comment is tried before the slash that starts it. -/
def lexemeAt? (text : Text) : Option Lexeme :=
  if blankLength text ≠ 0 then some ⟨blankLength text, none⟩
  else if commentLength text ≠ 0 then some ⟨commentLength text, none⟩
  else if numberLength text ≠ 0 then some ⟨numberLength text, some .number⟩
  else if wordLength text ≠ 0 then
    some ⟨wordLength text, some (wordKind (text.take (wordLength text)))⟩
  else
    match stringLength? text with
    | some length => some ⟨length, some .string⟩
    | none => symbolAt? text

/-- A code point at which no terminal starts. -/
structure LexError where
  char : CodePoint
  position : Position
deriving DecidableEq

/-- The report on an unrecognized code point. -/
def LexError.message (e : LexError) : Text :=
  "unrecognized character " ++ Text.quoted [e.char] ++ " at "
    ++ Position.describe e.position.line e.position.column

namespace Token

/-- Scans a text that begins at position `p`, after passing over the `skip` code points that the lexeme
    found last still covers. -/
def scanFrom (p : Position) : (skip : Nat) → Text → Except LexError (List Token)
  | _, [] => .ok []
  | skip + 1, c :: rest => scanFrom (p.advance c) skip rest
  | 0, c :: rest =>
    match lexemeAt? (c :: rest) with
    | none => .error ⟨c, p⟩
    | some ⟨length, none⟩ => scanFrom (p.advance c) (length - 1) rest
    | some ⟨length, some kind⟩ => do
      let more ← scanFrom (p.advance c) (length - 1) rest
      return ⟨kind, (c :: rest).take length, p⟩ :: more

/-- **The tokens of a source.** -/
def scan (source : Text) : Except LexError (List Token) := scanFrom .start 0 source

end Token

end LineaLang
