import LineaLang.Tree.Cursor

/-!
# `LineaLang.Proofs.Parsing.Stepwise` — reading by moving a cursor

A cursor is moved in one go by the reading of a phrase: where it stands afterwards is told from what is left, and the
levels that were open are open again. Here the same phrases are read by moving the cursor step by step. A token is taken
by putting the cursor behind it. A level is opened before a statement or an expression is read and closed when it has
been read, however that ends. A loop goes on until its end is seen. Nothing keeps such a reading from going wrong, from
leaving a level open or from never coming to an end; that it does not is a theorem and not a matter of its definition.

Since every function has to end, loops and calls are cut short after some number of rounds, which is an outcome of its
own. Every place where the cursor comes by is kept.

## Contents

* `Trail` — a cursor on its way, with the places where it has been.
* `Stepwise` — a reading step by step, with `expect`, `nested` and `repeatUntil`.
* `Stepwise.primary` … `Stepwise.expressionWithin` — expressions, from the tightest to the loosest.
* `Stepwise.ifStatement` … `Stepwise.statementWithin` — statements.
* `Cursor.Request` — what can be read from a cursor, in one go and step by step.
-/

namespace LineaLang

/-- **A cursor on its way.** -/
structure Trail where
  /-- Where the cursor stands. -/
  cursor : Cursor
  /-- The places where it has come by, the latest first. -/
  passed : List Cursor

/-- The trail goes on to another place. -/
def Trail.moved (t : Trail) (c : Cursor) : Trail := ⟨c, c :: t.passed⟩

/-- Why a reading step by step ended without a result. -/
inductive Halt where
  | failed (failure : ParseFailure)
  /-- It was cut short before it came to its end. -/
  | cutShort

/-- **A reading step by step** moves a cursor. -/
abbrev Stepwise (α : Type) := EStateM Halt Trail α

namespace Stepwise

open Grammar (primaryStart numberValue negation arithOf comparisonKinds compareOf)

/-! ## Steps -/

/-- The next token. -/
def next? : Stepwise (Option Token) := fun t => .ok (t.cursor.peek? 0) t

/-- Is the next token of one of these kinds? -/
def lookingAt (kinds : List TokenKind) : Stepwise Bool := fun t => .ok (t.cursor.lookingAt kinds) t

/-- Have all tokens been taken? -/
def atEnd : Stepwise Bool := do return (← next?).isNone

/-- Puts the cursor behind the next token. -/
def advance : Stepwise Unit := fun t => .ok () (t.moved { t.cursor with position := t.cursor.position + 1 })

/-- Stops with a fault. -/
def fail {α : Type} (fault : ReadingFault) : Stepwise α := fun t => .error (.failed (t.cursor.failure fault)) t

/-- Stops at the next token. -/
def refuse {α : Type} (kinds : List TokenKind) : Stepwise α := do
  fail (.refused (.unexpected kinds (← next?)))

/-- **Takes a token of one of these kinds**, or stops in front of the next one. -/
def expect (kinds : List TokenKind) : Stepwise Token := do
  match ← next? with
  | none => refuse kinds
  | some token =>
    if token.kind ∈ kinds then
      advance
      return token
    else refuse kinds

/-- **Reads with one more level open**, which is closed however the reading ends. -/
def nested {α : Type} (body : Stepwise α) : Stepwise α := fun t =>
  match t.cursor.opened with
  | .error failure => .error (.failed failure) t
  | .ok inner =>
    match body (t.moved inner) with
    | .ok a t' => .ok a (t'.moved t'.cursor.closed)
    | .error halt t' => .error halt (t'.moved t'.cursor.closed)

/-- **Repeats `item` until `done`**, or until so many rounds have been begun. -/
def repeatUntil {α : Type} (done : Stepwise Bool) (item : Stepwise α) : (rounds : Nat) → Stepwise (List α)
  | 0 => throw .cutShort
  | rounds + 1 => do
    if ← done then return []
    else
      let first ← item
      let more ← repeatUntil done item rounds
      return first :: more

section Phrases

variable (rounds : Nat) (stmt expr : Stepwise Node)

/-- Repeats `item` while the next token is of one of these kinds. -/
def repeatWhile {α : Type} (kinds : List TokenKind) (item : Stepwise α) : Stepwise (List α) :=
  repeatUntil (do return !(← lookingAt kinds)) item rounds

/-- Items with commas between them, up to a closing parenthesis; perhaps none. -/
def commaList {α : Type} (item : Stepwise α) : Stepwise (List α) := do
  if ← lookingAt [.rparen] then return []
  else
    let first ← item
    let more ← repeatWhile rounds [.comma] do
      let _ ← expect [.comma]
      item
    return first :: more

/-! ## Expressions -/

/-- The arguments of a call, in parentheses. -/
def callOf (name : Text) : Stepwise Node := do
  let _ ← expect [.lparen]
  let args ← commaList rounds expr
  let _ ← expect [.rparen]
  return .call (.str name) args

variable [CharacterNames]

/-- A primary expression. -/
def primary : Stepwise Node := do
  let token ← expect primaryStart
  match token.kind with
  | .number =>
    match numberValue token.lexeme with
    | .ok value => return .number value
    | .error fault => fail (.numeral fault)
  | .string =>
    match Literal.read? token.lexeme with
    | some value => return .string value
    | none => fail (.refused (.unexpected [.string] (some token)))
  | .ident =>
    if ← lookingAt [.lparen] then callOf rounds expr token.lexeme
    else return .ident (.str token.lexeme)
  | _ => do
    let inner ← expr
    let _ ← expect [.rparen]
    return inner

/-- A primary expression under an optional minus. -/
def unary : Stepwise Node := do
  if ← lookingAt [.minus] then
    let _ ← expect [.minus]
    let operand ← primary rounds expr
    return negation operand
  else primary rounds expr

/-- Operands joined by operators of some kinds. -/
def chain (kinds : List TokenKind) (operand : Stepwise Node) : Stepwise Node := do
  let first ← operand
  let more ← repeatWhile rounds kinds do
    let token ← expect kinds
    let right ← operand
    return (arithOf token.kind, right)
  return more.foldl (fun left (op, right) => .arith op left right) first

/-- Products and quotients. -/
def multiplicative : Stepwise Node := chain rounds [.times, .div] (unary rounds expr)

/-- Sums and differences. -/
def additive : Stepwise Node := chain rounds [.plus, .minus] (multiplicative rounds expr)

/-- A condition. -/
def comparison : Stepwise Node := do
  let left ← additive rounds expr
  let token ← expect comparisonKinds
  let right ← additive rounds expr
  return .comparison (compareOf token.kind) left right

/-- A sum, or an assignment. -/
def assignment : Stepwise Node := do
  let left ← additive rounds expr
  if ← lookingAt [.assign] then
    let token ← expect [.assign]
    match left with
    | .ident name => do
      let value ← expr
      return .assign name value
    | _ => fail (.refused (.unexpected [.ident] (some token)))
  else return left

/-! ## Statements -/

/-- Is the closing brace next? There must be one. -/
def blockClosed : Stepwise Bool := do
  if ← lookingAt [.rbrace] then return true
  else if ← atEnd then refuse [.rbrace]
  else return false

/-- A block, with braces or without. -/
def block : Stepwise Node := do
  if ← lookingAt [.lbrace] then
    let _ ← expect [.lbrace]
    let statements ← repeatUntil blockClosed stmt rounds
    let _ ← expect [.rbrace]
    return .block statements
  else
    let only ← stmt
    return .block [only]

/-- A conditional. -/
def ifStatement : Stepwise Node := do
  let _ ← expect [.ifWord]
  let condition ← comparison rounds expr
  if ← lookingAt [.thenWord] then
    let _ ← expect [.thenWord]
  let thenBlock ← block rounds stmt
  if ← lookingAt [.elseWord] then
    let _ ← expect [.elseWord]
    let elseBlock ← block rounds stmt
    return .ifElse condition thenBlock elseBlock
  else return .ifElse condition thenBlock .absent

/-- A loop. -/
def whileStatement : Stepwise Node := do
  let _ ← expect [.whileWord]
  let condition ← comparison rounds expr
  let _ ← expect [.doWord]
  let body ← block rounds stmt
  return .whileLoop condition body

/-- The name that an identifier token spells. -/
def identifier : Stepwise Value := do
  let token ← expect [.ident]
  return .str token.lexeme

/-- A function declaration. -/
def functionDeclaration : Stepwise Node := do
  let _ ← expect [.funcWord]
  let name ← identifier
  let _ ← expect [.lparen]
  let params ← commaList rounds identifier
  let _ ← expect [.rparen]
  let body ← block rounds stmt
  return .function name params body

/-- A return statement. -/
def returnStatement : Stepwise Node := do
  let _ ← expect [.returnWord]
  let value ← expr
  let _ ← expect [.semi]
  return .ret value

/-- A variable declaration. -/
def variableDeclaration : Stepwise Node := do
  let _ ← expect [.letWord]
  let name ← identifier
  let _ ← expect [.assign]
  let init ← expr
  let _ ← expect [.semi]
  return .declare name init

/-- A print statement. -/
def printStatement : Stepwise Node := do
  let _ ← expect [.printWord]
  let _ ← expect [.lparen]
  let value ← expr
  let _ ← expect [.rparen]
  let _ ← expect [.semi]
  return .print value

/-- An expression as a statement. -/
def expressionStatement : Stepwise Node := do
  let value ← expr
  let _ ← expect [.semi]
  return .expression value

/-- A statement: its first token tells which. -/
def statement : Stepwise Node := do
  if ← lookingAt [.ifWord] then ifStatement rounds stmt expr
  else if ← lookingAt [.whileWord] then whileStatement rounds stmt expr
  else if ← lookingAt [.funcWord] then functionDeclaration rounds stmt
  else if ← lookingAt [.returnWord] then returnStatement expr
  else if ← lookingAt [.letWord] then variableDeclaration expr
  else if ← lookingAt [.printWord] then printStatement expr
  else expressionStatement expr

/-- A program: statements up to the end. -/
def program : Stepwise Node := do
  let statements ← repeatUntil atEnd stmt rounds
  return .program statements

end Phrases

variable [CharacterNames]

/-- **An expression**, cut short where more than so many are inside each other. -/
def expressionWithin (rounds : Nat) : (calls : Nat) → Stepwise Node
  | 0 => throw .cutShort
  | calls + 1 => nested (assignment rounds (expressionWithin rounds calls))

/-- **A statement**, cut short where more than so many are inside each other. -/
def statementWithin (rounds : Nat) : (calls : Nat) → Stepwise Node
  | 0 => throw .cutShort
  | calls + 1 => nested (statement rounds (statementWithin rounds calls) (expressionWithin rounds calls))

/-- **A phrase step by step**, where loops and phrases inside each other are cut short at `bound`. -/
def ofPhrase (bound : Nat) : Phrase → Stepwise Node
  | .program => program bound (statementWithin bound bound)
  | .statement => statementWithin bound bound
  | .block => block bound (statementWithin bound bound)
  | .ifStatement => ifStatement bound (statementWithin bound bound) (expressionWithin bound bound)
  | .whileStatement => whileStatement bound (statementWithin bound bound) (expressionWithin bound bound)
  | .functionDeclaration => functionDeclaration bound (statementWithin bound bound)
  | .returnStatement => returnStatement (expressionWithin bound bound)
  | .variableDeclaration => variableDeclaration (expressionWithin bound bound)
  | .printStatement => printStatement (expressionWithin bound bound)
  | .comparison => comparison bound (expressionWithin bound bound)
  | .expression => expressionWithin bound bound
  | .assignment => assignment bound (expressionWithin bound bound)
  | .additive => additive bound (expressionWithin bound bound)
  | .multiplicative => multiplicative bound (expressionWithin bound bound)
  | .unary => unary bound (expressionWithin bound bound)
  | .primary => primary bound (expressionWithin bound bound)
  | .call => do
    let name ← expect [.ident]
    callOf bound (expressionWithin bound bound) name.lexeme

end Stepwise

/-! ## Requests -/

/-- **What can be asked of a cursor**: a phrase, or the arguments behind a name that has been taken already. -/
inductive Cursor.Request where
  | phrase (wanted : Phrase)
  | arguments (name : Text)

namespace Cursor.Request

variable [CharacterNames]

/-- What is read in one go, when `levels` more may be opened. -/
def reading (levels : Nat) : Request → Reading Node
  | .phrase wanted => wanted.reading levels
  | .arguments name => Grammar.callOf (Grammar.expressionAt levels) name

/-- The same step by step, cut short at `bound`. -/
def steps (bound : Nat) : Request → Stepwise Node
  | .phrase wanted => .ofPhrase bound wanted
  | .arguments name => .callOf bound (.expressionWithin bound bound) name

end Cursor.Request

namespace Cursor

variable [CharacterNames]

/-- What a cursor gives on a request, and where it stands then. -/
def answer (c : Cursor) (request : Request) : Except ParseFailure Node × Cursor := c.read (request.reading c.levels)

/-- **The cursor after some requests**, however they ended. -/
def afterAll (c : Cursor) (requests : List Request) : Cursor :=
  requests.foldl (fun c request => (c.answer request).2) c

end Cursor

end LineaLang
