import LineaLang.Tree.Basic
import LineaLang.Token.Basic
import LineaLang.Value.Literal

/-!
# `LineaLang.Tree.Grammar` — reading trees from tokens

The grammar, read from left to right with one token of lookahead. A `Reading` takes tokens from the front of
what remains and stops at the first that does not fit; how far it came is known in both cases.

Two kinds of phrase may contain themselves: statements, and expressions in parentheses, in arguments and to
the right of `=`. Each such phrase opens a level, and only `maxLevels` may be open at once. `statementAt` and
`expressionAt` therefore recurse on the levels that are left, and every other phrase is a plain function of
the readings for the statements and expressions inside it.

## Contents

* `Refusal`, `ReadingFault` — why reading stopped.
* `Reading`, `lookingAt`, `expect`, `repeatUntil` — the steps of a reading.
* `primary` … `expressionAt` — expressions, from the tightest to the loosest.
* `ifStatement` … `statementAt`, `programReading` — statements and programs.
-/

namespace LineaLang

/-- Why a token does not fit. -/
inductive Refusal where
  /-- Another kind of token was wanted; `found` is none at the end of the tokens. -/
  | unexpected (expected : List TokenKind) (found : Option Token)
  /-- One more level would be too many. -/
  | tooNested (found : Option Token)
deriving DecidableEq

/-- Why a reading stopped. -/
inductive ReadingFault where
  | refused (refusal : Refusal)
  /-- A numeral that is not read. -/
  | numeral (fault : NumeralFault)
deriving DecidableEq

/-- **A reading** takes tokens from the front of those that remain. What remains is known also where it
    stops. -/
abbrev Reading (α : Type) := EStateM ReadingFault (List Token) α

namespace Grammar

variable [CharacterNames]

/-! ## Steps -/

/-- Is the next token of one of these kinds? -/
def lookingAt (kinds : List TokenKind) : Reading Bool := fun rest =>
  match rest with
  | [] => .ok false rest
  | token :: _ => .ok (decide (token.kind ∈ kinds)) rest

/-- Have all tokens been taken? -/
def atEnd : Reading Bool := fun rest => .ok rest.isEmpty rest

/-- Stops at the next token. -/
def refuse {α : Type} (kinds : List TokenKind) : Reading α := fun rest =>
  .error (.refused (.unexpected kinds rest.head?)) rest

/-- **Takes a token of one of these kinds**, or stops in front of the next one. -/
def expect (kinds : List TokenKind) : Reading Token := fun rest =>
  match rest with
  | [] => .error (.refused (.unexpected kinds none)) rest
  | token :: more =>
    if token.kind ∈ kinds then .ok token more
    else .error (.refused (.unexpected kinds (some token))) rest

/-- Stops because no level is left. -/
def refuseLevel {α : Type} : Reading α := fun rest => .error (.refused (.tooNested rest.head?)) rest

/-- Stops with a fault of its own. -/
def fail {α : Type} (fault : ReadingFault) : Reading α := fun rest => .error fault rest

/-- Repeats `item` until `done`, at most once for each of some tokens. Of those that remain every item takes
    one, so behind the last nothing is left and only `done` is asked. -/
def repeatAlong {α : Type} (done : Reading Bool) (item : Reading α) : List Token → Reading (List α)
  | [] => do
    let _ ← done
    return []
  | _ :: bound => do
    if ← done then return []
    else
      let first ← item
      let more ← repeatAlong done item bound
      return first :: more

/-- **Repeats `item` until `done`.** -/
def repeatUntil {α : Type} (done : Reading Bool) (item : Reading α) : Reading (List α) := fun rest =>
  repeatAlong done item rest rest

/-- Repeats `item` while the next token is of one of these kinds. -/
def repeatWhile {α : Type} (kinds : List TokenKind) (item : Reading α) : Reading (List α) :=
  repeatUntil (do return !(← lookingAt kinds)) item

/-- Items with commas between them, up to a closing parenthesis; perhaps none. -/
def commaList {α : Type} (item : Reading α) : Reading (List α) := do
  if ← lookingAt [.rparen] then return []
  else
    let first ← item
    let more ← repeatWhile [.comma] do
      let _ ← expect [.comma]
      item
    return first :: more

/-! ## Expressions -/

/-- The kinds of token that start a primary expression. -/
def primaryStart : List TokenKind := [.number, .string, .ident, .lparen]

/-- **The value of a number token**: a double if its lexeme has a point, else an integer. -/
def numberValue (lexeme : Text) : Except NumeralFault Value :=
  if lexeme.contains (CodePoint.ofChar '.') then
    match Decimal.readGrouped? lexeme with
    | some (negative, d) => .ok (.float (d.toBinary64 negative))
    | none => .error (.malformed true lexeme)
  else (Numeral.readInteger lexeme).map fun n => .int n

/-- The arguments of a call, in parentheses. -/
def callOf (expr : Reading Node) (name : Text) : Reading Node := do
  let _ ← expect [.lparen]
  let args ← commaList expr
  let _ ← expect [.rparen]
  return .call (.str name) args

/-- **A primary expression**: a literal, a name, a call, or an expression in parentheses. A string token
    that is no literal is refused as a string. -/
def primary (expr : Reading Node) : Reading Node := do
  let token ← expect primaryStart
  match token.kind with
  | .number =>
    match numberValue token.lexeme with
    | .ok value => return .number value
    | .error fault => fail (.numeral fault)
  | .string =>
    match Literal.read? token.lexeme with
    | some value => return .string value
    | none => fail (.refused (.unexpected [.string] (some token)))
  | .ident =>
    if ← lookingAt [.lparen] then callOf expr token.lexeme
    else return .ident (.str token.lexeme)
  | _ => do
    let inner ← expr
    let _ ← expect [.rparen]
    return inner

/-- The negation of a primary expression: a number literal changes its sign, anything else is subtracted
    from zero. -/
def negation : Node → Node
  | .number value => .number value.negated
  | operand => .arith .sub (.number (.int 0)) operand

/-- **A primary expression under an optional minus.** -/
def unary (expr : Reading Node) : Reading Node := do
  if ← lookingAt [.minus] then
    let _ ← expect [.minus]
    let operand ← primary expr
    return negation operand
  else primary expr

/-- The arithmetic operator of a token kind. -/
def arithOf : TokenKind → ArithOp
  | .minus => .sub
  | .times => .mul
  | .div => .div
  | _ => .add

/-- **Operands joined by operators of some kinds, grouped from the left.** -/
def chain (kinds : List TokenKind) (operand : Reading Node) : Reading Node := do
  let first ← operand
  let more ← repeatWhile kinds do
    let token ← expect kinds
    let right ← operand
    return (arithOf token.kind, right)
  return more.foldl (fun left (op, right) => .arith op left right) first

/-- Products and quotients. -/
def multiplicative (expr : Reading Node) : Reading Node := chain [.times, .div] (unary expr)

/-- Sums and differences. -/
def additive (expr : Reading Node) : Reading Node := chain [.plus, .minus] (multiplicative expr)

/-- The kinds of token that compare. -/
def comparisonKinds : List TokenKind := [.eq, .neq, .lt, .le, .gt, .ge]

/-- The comparison of a token kind. -/
def compareOf : TokenKind → CompareOp
  | .neq => .neq
  | .lt => .lt
  | .le => .le
  | .gt => .gt
  | .ge => .ge
  | _ => .eq

/-- **A condition** compares two sums, once. -/
def comparison (expr : Reading Node) : Reading Node := do
  let left ← additive expr
  let token ← expect comparisonKinds
  let right ← additive expr
  return .comparison (compareOf token.kind) left right

/-- **A sum, or an assignment to the name that stands left of `=`.** -/
def assignment (expr : Reading Node) : Reading Node := do
  let left ← additive expr
  if ← lookingAt [.assign] then
    let token ← expect [.assign]
    match left with
    | .ident name => do
      let value ← expr
      return .assign name value
    | _ => fail (.refused (.unexpected [.ident] (some token)))
  else return left

/-- **An expression**, when `levels` more may be opened. -/
def expressionAt : (levels : Nat) → Reading Node
  | 0 => refuseLevel
  | levels + 1 => assignment (expressionAt levels)

/-! ## Statements -/

/-- **A block**: statements in braces, or one statement without. -/
def block (stmt : Reading Node) : Reading Node := do
  if ← lookingAt [.lbrace] then
    let _ ← expect [.lbrace]
    let statements ← repeatUntil closed stmt
    let _ ← expect [.rbrace]
    return .block statements
  else
    let only ← stmt
    return .block [only]
where
  /-- Is the closing brace next? There must be one. -/
  closed : Reading Bool := do
    if ← lookingAt [.rbrace] then return true
    else if ← atEnd then refuse [.rbrace]
    else return false

/-- A conditional. The word `then` may be left out, and `else` belongs to the nearest condition. -/
def ifStatement (stmt expr : Reading Node) : Reading Node := do
  let _ ← expect [.ifWord]
  let condition ← comparison expr
  if ← lookingAt [.thenWord] then
    let _ ← expect [.thenWord]
  let thenBlock ← block stmt
  if ← lookingAt [.elseWord] then
    let _ ← expect [.elseWord]
    let elseBlock ← block stmt
    return .ifElse condition thenBlock elseBlock
  else return .ifElse condition thenBlock .absent

/-- A loop. -/
def whileStatement (stmt expr : Reading Node) : Reading Node := do
  let _ ← expect [.whileWord]
  let condition ← comparison expr
  let _ ← expect [.doWord]
  let body ← block stmt
  return .whileLoop condition body

/-- The name that an identifier token spells. -/
def identifier : Reading Value := do
  let token ← expect [.ident]
  return .str token.lexeme

/-- A function declaration. -/
def functionDeclaration (stmt : Reading Node) : Reading Node := do
  let _ ← expect [.funcWord]
  let name ← identifier
  let _ ← expect [.lparen]
  let params ← commaList identifier
  let _ ← expect [.rparen]
  let body ← block stmt
  return .function name params body

/-- A return statement; its expression cannot be left out. -/
def returnStatement (expr : Reading Node) : Reading Node := do
  let _ ← expect [.returnWord]
  let value ← expr
  let _ ← expect [.semi]
  return .ret value

/-- A variable declaration. -/
def variableDeclaration (expr : Reading Node) : Reading Node := do
  let _ ← expect [.letWord]
  let name ← identifier
  let _ ← expect [.assign]
  let init ← expr
  let _ ← expect [.semi]
  return .declare name init

/-- A print statement. -/
def printStatement (expr : Reading Node) : Reading Node := do
  let _ ← expect [.printWord]
  let _ ← expect [.lparen]
  let value ← expr
  let _ ← expect [.rparen]
  let _ ← expect [.semi]
  return .print value

/-- An expression as a statement. -/
def expressionStatement (expr : Reading Node) : Reading Node := do
  let value ← expr
  let _ ← expect [.semi]
  return .expression value

/-- **A statement**: its first token tells which. -/
def statement (stmt expr : Reading Node) : Reading Node := fun rest =>
  match rest.head?.map Token.kind with
  | some .ifWord => ifStatement stmt expr rest
  | some .whileWord => whileStatement stmt expr rest
  | some .funcWord => functionDeclaration stmt rest
  | some .returnWord => returnStatement expr rest
  | some .letWord => variableDeclaration expr rest
  | some .printWord => printStatement expr rest
  | _ => expressionStatement expr rest

/-- **A statement**, when `levels` more may be opened. -/
def statementAt : (levels : Nat) → Reading Node
  | 0 => refuseLevel
  | levels + 1 => statement (statementAt levels) (expressionAt levels)

/-- The most statements and expressions that may be open at once. -/
def maxLevels : Nat := 100

/-- **A program**: statements up to the end. -/
def programReading (stmt : Reading Node) : Reading Node := do
  let statements ← repeatUntil atEnd stmt
  return .program statements

end Grammar

end LineaLang
