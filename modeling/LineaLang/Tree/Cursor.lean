import LineaLang.Tree.Grammar

/-!
# `LineaLang.Tree.Cursor` — a place among tokens, and reading from it

A cursor holds a list of tokens, how many have been taken, and how many levels of nesting are open. Phrases
of the grammar are read from where it stands; after a refusal it stands in front of the token that did not
fit, with the levels that were open before, and can be used again.

## Contents

* `ParseError` — a refusal with its place, and the report on it.
* `Cursor` — with `peek?`, `lookingAt`, `expect`, `opened` and `read`.
* `Phrase`, `Phrase.reading` — the phrases that can be asked for.
* `Node.ofTokens` — the tree of a whole program.
-/

namespace LineaLang

/-! ## Reports -/

/-- **A refusal and its place**: that of the token, or the end of the tokens. -/
structure ParseError where
  refusal : Refusal
  line : Nat
  column : Nat
deriving DecidableEq

namespace ParseError

/-- The kinds of token that were wanted. -/
def expected (e : ParseError) : List TokenKind :=
  match e.refusal with
  | .unexpected kinds _ => kinds
  | .tooNested _ => []

/-- The token that did not fit, unless there was none left. -/
def found? (e : ParseError) : Option Token :=
  match e.refusal with
  | .unexpected _ found => found
  | .tooNested found => found

/-- What was wanted, in words. -/
def wanted (e : ParseError) : Text :=
  match e.refusal with
  | .unexpected [kind] _ => "expected " ++ kind.name
  | .unexpected kinds _ => "expected one of (" ++ Text.join ", " (kinds.map TokenKind.name) ++ ")"
  | .tooNested _ => "nesting deeper than " ++ Numeral.ofNat Grammar.maxLevels ++ " levels"

/-- **The report on a refusal**: what was wanted, where, and what stood there. -/
def message (e : ParseError) : Text :=
  match e.found? with
  | none => e.wanted ++ " at end of input"
  | some token =>
    e.wanted ++ " at " ++ Position.describe e.line e.column ++ ", got " ++ token.describe

end ParseError

/-- Why tokens gave no tree. -/
inductive ParseFailure where
  | refused (e : ParseError)
  | numeral (fault : NumeralFault)
deriving DecidableEq

/-! ## Cursors -/

/-- **A place among tokens.** -/
structure Cursor where
  tokens : List Token
  /-- How many tokens have been taken. -/
  position : Nat
  /-- How many levels of nesting are open. -/
  depth : Nat
deriving DecidableEq

namespace Cursor

/-- In front of the first token, with no level open. -/
def start (tokens : List Token) : Cursor := ⟨tokens, 0, 0⟩

/-- The tokens that have not been taken. -/
def rest (c : Cursor) : List Token := c.tokens.drop c.position

/-- The levels that may still be opened. -/
def levels (c : Cursor) : Nat := Grammar.maxLevels - c.depth

/-- **The end of the tokens**: the line of the last one, and the column after it. -/
def finish (c : Cursor) : Nat × Nat :=
  match c.tokens.getLast? with
  | none => (1, 1)
  | some last => (last.position.line, last.position.column + last.lexeme.length)

/-- A refusal with its place. -/
def locate (c : Cursor) (refusal : Refusal) : ParseError :=
  let found := match refusal with
    | .unexpected _ found => found
    | .tooNested found => found
  match found with
  | some token => ⟨refusal, token.position.line, token.position.column⟩
  | none => ⟨refusal, c.finish.1, c.finish.2⟩

/-- The failure that a fault of a reading is. -/
def failure (c : Cursor) : ReadingFault → ParseFailure
  | .refused refusal => .refused (c.locate refusal)
  | .numeral fault => .numeral fault

/-- **Reads from where the cursor stands**, and moves it over the tokens that were taken, also when the
    reading stops. -/
def read {α : Type} (c : Cursor) (reading : Reading α) : Except ParseFailure α × Cursor :=
  match reading c.rest with
  | .ok a rest => (.ok a, { c with position := c.tokens.length - rest.length })
  | .error fault rest =>
    (.error (c.failure fault), { c with position := c.tokens.length - rest.length })

/-- The token `ahead` places after the next one. A negative place counts from the end of the tokens. -/
def peek? (c : Cursor) (ahead : Int) : Option Token :=
  let index := (c.position : Int) + ahead
  if index < 0 then
    if index + c.tokens.length < 0 then none else c.tokens[(index + c.tokens.length).toNat]?
  else c.tokens[index.toNat]?

/-- Is the next token of one of these kinds? -/
def lookingAt (c : Cursor) (kinds : List TokenKind) : Bool :=
  match c.rest with
  | [] => false
  | token :: _ => token.kind ∈ kinds

/-- The cursor with one more level open, if one is left. -/
def opened (c : Cursor) : Except ParseFailure Cursor :=
  if c.depth < Grammar.maxLevels then .ok { c with depth := c.depth + 1 }
  else .error (.refused (c.locate (.tooNested c.rest.head?)))

/-- The cursor with one level closed. -/
def closed (c : Cursor) : Cursor := { c with depth := c.depth - 1 }

end Cursor

/-! ## Phrases -/

/-- The phrases of the grammar. -/
inductive Phrase where
  | program | statement | block
  | ifStatement | whileStatement | functionDeclaration | returnStatement | variableDeclaration
  | printStatement
  | comparison | expression | assignment | additive | multiplicative | unary | primary
  /-- A name and the arguments after it. -/
  | call
deriving DecidableEq

variable [CharacterNames]

open Grammar in
/-- The reading of a phrase, when `levels` more may be opened. -/
def Phrase.reading (levels : Nat) : Phrase → Reading Node
  | .program => programReading (statementAt levels)
  | .statement => statementAt levels
  | .block => Grammar.block (statementAt levels)
  | .ifStatement => Grammar.ifStatement (statementAt levels) (expressionAt levels)
  | .whileStatement => Grammar.whileStatement (statementAt levels) (expressionAt levels)
  | .functionDeclaration => Grammar.functionDeclaration (statementAt levels)
  | .returnStatement => Grammar.returnStatement (expressionAt levels)
  | .variableDeclaration => Grammar.variableDeclaration (expressionAt levels)
  | .printStatement => Grammar.printStatement (expressionAt levels)
  | .comparison => Grammar.comparison (expressionAt levels)
  | .expression => expressionAt levels
  | .assignment => Grammar.assignment (expressionAt levels)
  | .additive => Grammar.additive (expressionAt levels)
  | .multiplicative => Grammar.multiplicative (expressionAt levels)
  | .unary => Grammar.unary (expressionAt levels)
  | .primary => Grammar.primary (expressionAt levels)
  | .call => do
    let name ← expect [.ident]
    callOf (expressionAt levels) name.lexeme

/-- Reads a phrase from where the cursor stands. -/
def Cursor.phrase (c : Cursor) (phrase : Phrase) : Except ParseFailure Node × Cursor :=
  c.read (phrase.reading c.levels)

/-- **The tree of a program**, read from all its tokens. -/
def Node.ofTokens (tokens : List Token) : Except ParseFailure Node :=
  ((Cursor.start tokens).phrase .program).1

end LineaLang
