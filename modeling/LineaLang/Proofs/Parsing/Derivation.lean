import LineaLang.Tree.Cursor
import LineaLang.Proofs.Parsing.Terminal

/-!
# `LineaLang.Proofs.Parsing.Derivation` — the grammar, as a type of derivations

The grammar of the language without any thought of reading: a `Derivation` of a symbol is built by one
production, from tokens and derivations of the symbols on its right side. It has the tokens that it derives
(`tokens`) and the tree that it stands for (`tree`). Some token lists have several derivations: an `else` may
go with more than one condition, and where `then` is left out the condition may end in more than one place.

## Contents

* `Symbol`, `Derivation` — the nonterminals with the repetitions between them, and the productions.
* `Derivation.tokens`, `Derivation.tree` — what is derived, and its tree.
* `Derivation.levels` — how many statements and expressions are open at once.
* `Derivation.endsOpen` — could an `else` still be added at the end?
* `Derivation.All` — a property of a derivation and of all derivations within.
* `Derivation.ElseNearest`, `ThenApart`, `NamedTarget` — the choices that single a derivation out.
* `Derivation.starts_or_nil` — the kinds of token that a phrase may start with.
-/

namespace LineaLang

/-! ## Token lists -/

namespace Grammar

/-- Do some tokens start with one of these kinds? -/
def Starts (kinds : List TokenKind) : List Token → Prop
  | [] => False
  | token :: _ => token.kind ∈ kinds

/-- Do some tokens end in a name? -/
def EndsInName (tokens : List Token) : Prop := ∃ token ∈ tokens.getLast?, token.kind = .ident

instance (kinds : List TokenKind) : (tokens : List Token) → Decidable (Starts kinds tokens)
  | [] => inferInstanceAs (Decidable False)
  | token :: _ => inferInstanceAs (Decidable (token.kind ∈ kinds))

variable {kinds more : List TokenKind} {token : Token} {a b : List Token}

@[simp] theorem starts_nil : ¬ Starts kinds [] := id

@[simp] theorem starts_cons : Starts kinds (token :: a) ↔ token.kind ∈ kinds := Iff.rfl

@[simp] theorem not_starts_of_nil : ¬ Starts [] a := by cases a <;> simp

@[simp] theorem starts_append : Starts kinds (a ++ b) ↔ Starts kinds a ∨ a = [] ∧ Starts kinds b := by
  cases a <;> simp

theorem Starts.ne_nil (h : Starts kinds a) : a ≠ [] := by
  rintro rfl
  exact h

theorem Starts.mono (h : Starts kinds a) (hk : kinds ⊆ more) : Starts more a := by
  cases a with
  | nil => exact h
  | cons token rest => exact hk h

/-- Tokens that start with some kinds do not start with others. -/
theorem Starts.not_of_disjoint (h : Starts kinds a) (hk : ∀ kind ∈ kinds, kind ∉ more) :
    ¬ Starts more a := by
  cases a with
  | nil => exact id
  | cons token rest => exact hk token.kind h

theorem Starts.congr {others : List TokenKind} (h : Starts kinds a)
    (hk : ∀ kind ∈ kinds, kind ∈ more ↔ kind ∈ others) : Starts more a ↔ Starts others a := by
  cases a with
  | nil => exact Iff.rfl
  | cons token rest => exact hk token.kind h

@[simp] theorem endsInName_nil : ¬ EndsInName [] := by simp [EndsInName]

@[simp] theorem endsInName_singleton : EndsInName [token] ↔ token.kind = .ident := by simp [EndsInName]

theorem endsInName_append (h : b ≠ []) : EndsInName (a ++ b) ↔ EndsInName b := by
  simp [EndsInName, h]

end Grammar

/-! ## Symbols -/

/-- **The symbols that are derived**: the nonterminals of the grammar, the repetitions, and the optional
    `else` part. -/
inductive Symbol where
  | program | statements | statement | block
  | ifStatement | elsePart | whileStatement | functionDeclaration | returnStatement | variableDeclaration
  | printStatement | expressionStatement
  | parameters | moreParameters
  | comparison | expression | assignment | additive | addends | multiplicative | factors | unary | primary
  | call | arguments | moreArguments
deriving DecidableEq

/-- What a derivation of a symbol stands for. -/
abbrev Symbol.Tree : Symbol → Type
  | .statements => List Node
  | .arguments => List Node
  | .moreArguments => List Node
  | .parameters => List Value
  | .moreParameters => List Value
  | .addends => List (ArithOp × Node)
  | .factors => List (ArithOp × Node)
  | _ => Node

/-- A token of one of some kinds. -/
abbrev Terminal (kinds : List TokenKind) := { token : Token // token.kind ∈ kinds }

/-! ## Productions -/

open Grammar in
/-- **The grammar**: one constructor for each production. -/
inductive Derivation : Symbol → Type where
  /- Program := Statement* -/
  | program (body : Derivation .statements) : Derivation .program
  | noStatements : Derivation .statements
  | statements (first : Derivation .statement) (more : Derivation .statements) : Derivation .statements
  /- Statement := IfStmt | WhileStmt | FuncDecl | ReturnStmt | VarDecl | PrintStmt | ExprStmt -/
  | ofIf (s : Derivation .ifStatement) : Derivation .statement
  | ofWhile (s : Derivation .whileStatement) : Derivation .statement
  | ofFunction (s : Derivation .functionDeclaration) : Derivation .statement
  | ofReturn (s : Derivation .returnStatement) : Derivation .statement
  | ofVariable (s : Derivation .variableDeclaration) : Derivation .statement
  | ofPrint (s : Derivation .printStatement) : Derivation .statement
  | ofExpression (s : Derivation .expressionStatement) : Derivation .statement
  /- Block := '{' Statement* '}' | Statement -/
  | braced (opening : Terminal [.lbrace]) (body : Derivation .statements)
      (closing : Terminal [.rbrace]) : Derivation .block
  | bare (only : Derivation .statement) : Derivation .block
  /- IfStmt := IF Comparison [THEN] Block [ELSE Block] -/
  | ifStatement (word : Terminal [.ifWord]) (condition : Derivation .comparison)
      (thenWord : Option (Terminal [.thenWord])) (thenBlock : Derivation .block)
      (elsePart : Derivation .elsePart) : Derivation .ifStatement
  | noElse : Derivation .elsePart
  | elseBlock (word : Terminal [.elseWord]) (block : Derivation .block) : Derivation .elsePart
  /- WhileStmt := WHILE Comparison DO Block -/
  | whileStatement (word : Terminal [.whileWord]) (condition : Derivation .comparison)
      (doWord : Terminal [.doWord]) (body : Derivation .block) : Derivation .whileStatement
  /- FuncDecl := FUNC ident '(' [ident (',' ident)*] ')' Block -/
  | functionDeclaration (word : Terminal [.funcWord]) (name : Terminal [.ident])
      (opening : Terminal [.lparen]) (names : Derivation .parameters) (closing : Terminal [.rparen])
      (body : Derivation .block) : Derivation .functionDeclaration
  | noParameters : Derivation .parameters
  | parameters (first : Terminal [.ident]) (more : Derivation .moreParameters) : Derivation .parameters
  | noMoreParameters : Derivation .moreParameters
  | moreParameters (comma : Terminal [.comma]) (next : Terminal [.ident])
      (more : Derivation .moreParameters) : Derivation .moreParameters
  /- ReturnStmt := RETURN Expr ';' -/
  | returnStatement (word : Terminal [.returnWord]) (value : Derivation .expression)
      (semi : Terminal [.semi]) : Derivation .returnStatement
  /- VarDecl := LET ident '=' Expr ';' -/
  | variableDeclaration (word : Terminal [.letWord]) (name : Terminal [.ident])
      (sign : Terminal [.assign]) (init : Derivation .expression) (semi : Terminal [.semi]) :
      Derivation .variableDeclaration
  /- PrintStmt := PRINT '(' Expr ')' ';' -/
  | printStatement (word : Terminal [.printWord]) (opening : Terminal [.lparen])
      (value : Derivation .expression) (closing : Terminal [.rparen]) (semi : Terminal [.semi]) :
      Derivation .printStatement
  /- ExprStmt := Expr ';' -/
  | expressionStatement (value : Derivation .expression) (semi : Terminal [.semi]) :
      Derivation .expressionStatement
  /- Comparison := Additive (EQ | NEQ | LE | GE | LT | GT) Additive -/
  | comparison (left : Derivation .additive) (sign : Terminal comparisonKinds)
      (right : Derivation .additive) : Derivation .comparison
  /- Expr := Assignment -/
  | expression (value : Derivation .assignment) : Derivation .expression
  /- Assignment := Additive ['=' Assignment] -/
  | sum (value : Derivation .additive) : Derivation .assignment
  | assign (target : Derivation .additive) (sign : Terminal [.assign]) (value : Derivation .assignment) :
      Derivation .assignment
  /- Additive := Multiplicative (('+' | '-') Multiplicative)* -/
  | additive (first : Derivation .multiplicative) (more : Derivation .addends) : Derivation .additive
  | noAddends : Derivation .addends
  | addends (sign : Terminal [.plus, .minus]) (next : Derivation .multiplicative)
      (more : Derivation .addends) : Derivation .addends
  /- Multiplicative := Unary (('*' | '/') Unary)* -/
  | multiplicative (first : Derivation .unary) (more : Derivation .factors) : Derivation .multiplicative
  | noFactors : Derivation .factors
  | factors (sign : Terminal [.times, .div]) (next : Derivation .unary) (more : Derivation .factors) :
      Derivation .factors
  /- Unary := ['-'] Primary -/
  | plain (operand : Derivation .primary) : Derivation .unary
  | negative (sign : Terminal [.minus]) (operand : Derivation .primary) : Derivation .unary
  /- Primary := NUMBER | STRING | ident | Call | '(' Expr ')' -/
  | number (token : Terminal [.number]) : Derivation .primary
  | string (token : Terminal [.string]) : Derivation .primary
  | ident (token : Terminal [.ident]) : Derivation .primary
  | ofCall (c : Derivation .call) : Derivation .primary
  | parenthesised (opening : Terminal [.lparen]) (inner : Derivation .expression)
      (closing : Terminal [.rparen]) : Derivation .primary
  /- Call := ident '(' [Expr (',' Expr)*] ')' -/
  | call (name : Terminal [.ident]) (opening : Terminal [.lparen]) (args : Derivation .arguments)
      (closing : Terminal [.rparen]) : Derivation .call
  | noArguments : Derivation .arguments
  | arguments (first : Derivation .expression) (more : Derivation .moreArguments) : Derivation .arguments
  | noMoreArguments : Derivation .moreArguments
  | moreArguments (comma : Terminal [.comma]) (next : Derivation .expression)
      (more : Derivation .moreArguments) : Derivation .moreArguments

namespace Derivation

/-- **The tokens that are derived**, in order. -/
def tokens : {s : Symbol} → Derivation s → List Token
  | _, .program body => body.tokens
  | _, .noStatements => []
  | _, .statements first more => first.tokens ++ more.tokens
  | _, .ofIf s => s.tokens
  | _, .ofWhile s => s.tokens
  | _, .ofFunction s => s.tokens
  | _, .ofReturn s => s.tokens
  | _, .ofVariable s => s.tokens
  | _, .ofPrint s => s.tokens
  | _, .ofExpression s => s.tokens
  | _, .braced opening body closing => opening.1 :: (body.tokens ++ [closing.1])
  | _, .bare only => only.tokens
  | _, .ifStatement word condition thenWord thenBlock elsePart =>
    word.1 :: (condition.tokens
      ++ ((thenWord.map Subtype.val).toList ++ (thenBlock.tokens ++ elsePart.tokens)))
  | _, .noElse => []
  | _, .elseBlock word block => word.1 :: block.tokens
  | _, .whileStatement word condition doWord body =>
    word.1 :: (condition.tokens ++ doWord.1 :: body.tokens)
  | _, .functionDeclaration word name opening names closing body =>
    word.1 :: name.1 :: opening.1 :: (names.tokens ++ closing.1 :: body.tokens)
  | _, .noParameters => []
  | _, .parameters first more => first.1 :: more.tokens
  | _, .noMoreParameters => []
  | _, .moreParameters comma next more => comma.1 :: next.1 :: more.tokens
  | _, .returnStatement word value semi => word.1 :: (value.tokens ++ [semi.1])
  | _, .variableDeclaration word name sign init semi =>
    word.1 :: name.1 :: sign.1 :: (init.tokens ++ [semi.1])
  | _, .printStatement word opening value closing semi =>
    word.1 :: opening.1 :: (value.tokens ++ [closing.1, semi.1])
  | _, .expressionStatement value semi => value.tokens ++ [semi.1]
  | _, .comparison left sign right => left.tokens ++ sign.1 :: right.tokens
  | _, .expression value => value.tokens
  | _, .sum value => value.tokens
  | _, .assign target sign value => target.tokens ++ sign.1 :: value.tokens
  | _, .additive first more => first.tokens ++ more.tokens
  | _, .noAddends => []
  | _, .addends sign next more => sign.1 :: (next.tokens ++ more.tokens)
  | _, .multiplicative first more => first.tokens ++ more.tokens
  | _, .noFactors => []
  | _, .factors sign next more => sign.1 :: (next.tokens ++ more.tokens)
  | _, .plain operand => operand.tokens
  | _, .negative sign operand => sign.1 :: operand.tokens
  | _, .number token => [token.1]
  | _, .string token => [token.1]
  | _, .ident token => [token.1]
  | _, .ofCall c => c.tokens
  | _, .parenthesised opening inner closing => opening.1 :: (inner.tokens ++ [closing.1])
  | _, .call name opening args closing =>
    name.1 :: opening.1 :: (args.tokens ++ [closing.1])
  | _, .noArguments => []
  | _, .arguments first more => first.tokens ++ more.tokens
  | _, .noMoreArguments => []
  | _, .moreArguments comma next more => comma.1 :: (next.tokens ++ more.tokens)

/-! ## The tree -/

variable [CharacterNames]

/-- The name on the left of `=`, where a name stands there. -/
def targetName : Node → Value
  | .ident name => name
  | _ => .none

/-- **The tree of a derivation.** Operators of one strength group from the left and `=` from the right, a
    minus folds into a number and subtracts anything else from zero, and a block is the same with braces
    and without. -/
def tree : {s : Symbol} → Derivation s → s.Tree
  | _, .program body => Node.program body.tree
  | _, .noStatements => []
  | _, .statements first more => first.tree :: more.tree
  | _, .ofIf s => s.tree
  | _, .ofWhile s => s.tree
  | _, .ofFunction s => s.tree
  | _, .ofReturn s => s.tree
  | _, .ofVariable s => s.tree
  | _, .ofPrint s => s.tree
  | _, .ofExpression s => s.tree
  | _, .braced _ body _ => Node.block body.tree
  | _, .bare only => Node.block [only.tree]
  | _, .ifStatement _ condition _ thenBlock elsePart =>
    Node.ifElse condition.tree thenBlock.tree elsePart.tree
  | _, .noElse => Node.absent
  | _, .elseBlock _ block => block.tree
  | _, .whileStatement _ condition _ body => Node.whileLoop condition.tree body.tree
  | _, .functionDeclaration _ name _ names _ body =>
    Node.function (.str name.1.lexeme) names.tree body.tree
  | _, .noParameters => []
  | _, .parameters first more => Value.str first.1.lexeme :: more.tree
  | _, .noMoreParameters => []
  | _, .moreParameters _ next more => Value.str next.1.lexeme :: more.tree
  | _, .returnStatement _ value _ => Node.ret value.tree
  | _, .variableDeclaration _ name _ init _ => Node.declare (.str name.1.lexeme) init.tree
  | _, .printStatement _ _ value _ _ => Node.print value.tree
  | _, .expressionStatement value _ => Node.expression value.tree
  | _, .comparison left sign right => Node.comparison (Grammar.compareOf sign.1.kind) left.tree right.tree
  | _, .expression value => value.tree
  | _, .sum value => value.tree
  | _, .assign target _ value => Node.assign (targetName target.tree) value.tree
  | _, .additive first more => more.tree.foldl (fun left (op, right) => Node.arith op left right) first.tree
  | _, .noAddends => []
  | _, .addends sign next more => (Grammar.arithOf sign.1.kind, next.tree) :: more.tree
  | _, .multiplicative first more =>
    more.tree.foldl (fun left (op, right) => Node.arith op left right) first.tree
  | _, .noFactors => []
  | _, .factors sign next more => (Grammar.arithOf sign.1.kind, next.tree) :: more.tree
  | _, .plain operand => operand.tree
  | _, .negative _ operand => Grammar.negation operand.tree
  | _, .number token => Node.number ((Grammar.numberValue token.1.lexeme).toOption.getD .none)
  | _, .string token => Node.string ((Literal.read? token.1.lexeme).getD .none)
  | _, .ident token => Node.ident (.str token.1.lexeme)
  | _, .ofCall c => c.tree
  | _, .parenthesised _ inner _ => inner.tree
  | _, .call name _ args _ => Node.call (.str name.1.lexeme) args.tree
  | _, .noArguments => []
  | _, .arguments first more => first.tree :: more.tree
  | _, .noMoreArguments => []
  | _, .moreArguments _ next more => next.tree :: more.tree

/-! ## Levels -/

/-- **How many statements and expressions are open at once**, at most. The right side of `=` is one of them,
    the two sides of a comparison are none. -/
def levels : {s : Symbol} → Derivation s → Nat
  | _, .program body => body.levels
  | _, .noStatements => 0
  | _, .statements first more => max first.levels more.levels
  | _, .ofIf s => s.levels + 1
  | _, .ofWhile s => s.levels + 1
  | _, .ofFunction s => s.levels + 1
  | _, .ofReturn s => s.levels + 1
  | _, .ofVariable s => s.levels + 1
  | _, .ofPrint s => s.levels + 1
  | _, .ofExpression s => s.levels + 1
  | _, .braced _ body _ => body.levels
  | _, .bare only => only.levels
  | _, .ifStatement _ condition _ thenBlock elsePart =>
    max condition.levels (max thenBlock.levels elsePart.levels)
  | _, .noElse => 0
  | _, .elseBlock _ block => block.levels
  | _, .whileStatement _ condition _ body => max condition.levels body.levels
  | _, .functionDeclaration _ _ _ names _ body => max names.levels body.levels
  | _, .noParameters => 0
  | _, .parameters _ more => more.levels
  | _, .noMoreParameters => 0
  | _, .moreParameters _ _ more => more.levels
  | _, .returnStatement _ value _ => value.levels
  | _, .variableDeclaration _ _ _ init _ => init.levels
  | _, .printStatement _ _ value _ _ => value.levels
  | _, .expressionStatement value _ => value.levels
  | _, .comparison left _ right => max left.levels right.levels
  | _, .expression value => value.levels + 1
  | _, .sum value => value.levels
  | _, .assign target _ value => max target.levels (value.levels + 1)
  | _, .additive first more => max first.levels more.levels
  | _, .noAddends => 0
  | _, .addends _ next more => max next.levels more.levels
  | _, .multiplicative first more => max first.levels more.levels
  | _, .noFactors => 0
  | _, .factors _ next more => max next.levels more.levels
  | _, .plain operand => operand.levels
  | _, .negative _ operand => operand.levels
  | _, .number _ => 0
  | _, .string _ => 0
  | _, .ident _ => 0
  | _, .ofCall c => c.levels
  | _, .parenthesised _ inner _ => inner.levels
  | _, .call _ _ args _ => args.levels
  | _, .noArguments => 0
  | _, .arguments first more => max first.levels more.levels
  | _, .noMoreArguments => 0
  | _, .moreArguments _ next more => max next.levels more.levels

/-! ## Choices

Where a token list has several derivations, the three properties below say which one is meant. Each looks at
one production; `All` carries it to all productions within. -/

/-- **Could an `else` still be added at the end?** A conditional without `else` is open, and so is what ends
    in an open statement without a brace after it. -/
def endsOpen : {s : Symbol} → Derivation s → Bool
  | _, .ofIf s => s.endsOpen
  | _, .ofWhile s => s.endsOpen
  | _, .ofFunction s => s.endsOpen
  | _, .bare only => only.endsOpen
  | _, .ifStatement _ _ _ _ elsePart => elsePart.endsOpen
  | _, .noElse => true
  | _, .elseBlock _ block => block.endsOpen
  | _, .whileStatement _ _ _ body => body.endsOpen
  | _, .functionDeclaration _ _ _ _ _ body => body.endsOpen
  | _, _ => false

/-- **A property of a derivation and of every derivation within.** -/
def All (p : {s : Symbol} → Derivation s → Prop) {s : Symbol} (d : Derivation s) : Prop :=
  p d ∧ match s, d with
  | _, .program body => body.All p
  | _, .statements first more => first.All p ∧ more.All p
  | _, .ofIf s => s.All p
  | _, .ofWhile s => s.All p
  | _, .ofFunction s => s.All p
  | _, .ofReturn s => s.All p
  | _, .ofVariable s => s.All p
  | _, .ofPrint s => s.All p
  | _, .ofExpression s => s.All p
  | _, .braced _ body _ => body.All p
  | _, .bare only => only.All p
  | _, .ifStatement _ condition _ thenBlock elsePart =>
    condition.All p ∧ thenBlock.All p ∧ elsePart.All p
  | _, .elseBlock _ block => block.All p
  | _, .whileStatement _ condition _ body => condition.All p ∧ body.All p
  | _, .functionDeclaration _ _ _ names _ body => names.All p ∧ body.All p
  | _, .parameters _ more => more.All p
  | _, .moreParameters _ _ more => more.All p
  | _, .returnStatement _ value _ => value.All p
  | _, .variableDeclaration _ _ _ init _ => init.All p
  | _, .printStatement _ _ value _ _ => value.All p
  | _, .expressionStatement value _ => value.All p
  | _, .comparison left _ right => left.All p ∧ right.All p
  | _, .expression value => value.All p
  | _, .sum value => value.All p
  | _, .assign target _ value => target.All p ∧ value.All p
  | _, .additive first more => first.All p ∧ more.All p
  | _, .addends _ next more => next.All p ∧ more.All p
  | _, .multiplicative first more => first.All p ∧ more.All p
  | _, .factors _ next more => next.All p ∧ more.All p
  | _, .plain operand => operand.All p
  | _, .negative _ operand => operand.All p
  | _, .ofCall c => c.All p
  | _, .parenthesised _ inner _ => inner.All p
  | _, .call _ _ args _ => args.All p
  | _, .arguments first more => first.All p ∧ more.All p
  | _, .moreArguments _ next more => next.All p ∧ more.All p
  | _, .noStatements | _, .noElse | _, .noParameters | _, .noMoreParameters | _, .noAddends
  | _, .noFactors | _, .number _ | _, .string _ | _, .ident _ | _, .noArguments
  | _, .noMoreArguments => True

/-- **An `else` goes with the nearest condition**: it does not follow a block at whose end there is an open
    conditional. -/
def ElseNearest : {s : Symbol} → Derivation s → Prop
  | _, .ifStatement _ _ _ thenBlock (.elseBlock _ _) => thenBlock.endsOpen = false
  | _, _ => True

open Grammar in
/-- **Where `then` is left out, the block does not look like more of the condition**: it does not start with
    a minus, nor with a parenthesis directly after a name. -/
def ThenApart : {s : Symbol} → Derivation s → Prop
  | _, .ifStatement _ condition none thenBlock _ =>
    ¬ Starts [.minus] thenBlock.tokens ∧ ¬ (EndsInName condition.tokens ∧ Starts [.lparen] thenBlock.tokens)
  | _, _ => True

/-- **A name stands left of `=`**, perhaps in parentheses. -/
def NamedTarget : {s : Symbol} → Derivation s → Prop
  | _, .assign target _ _ => ∃ name, target.tree = .ident name
  | _, _ => True

end Derivation

/-! ## First tokens -/

namespace Symbol

open Grammar

/-- The kinds of token that an operand may start with. -/
def operandStart : List TokenKind := .minus :: primaryStart

/-- The kinds of token that a statement may start with. -/
def statementStart : List TokenKind :=
  [.ifWord, .whileWord, .funcWord, .returnWord, .letWord, .printWord] ++ operandStart

/-- **The kinds of token that the tokens of a symbol may start with.** -/
def start : Symbol → List TokenKind
  | .program => statementStart
  | .statements => statementStart
  | .statement => statementStart
  | .block => .lbrace :: statementStart
  | .ifStatement => [.ifWord]
  | .elsePart => [.elseWord]
  | .whileStatement => [.whileWord]
  | .functionDeclaration => [.funcWord]
  | .returnStatement => [.returnWord]
  | .variableDeclaration => [.letWord]
  | .printStatement => [.printWord]
  | .parameters => [.ident]
  | .moreParameters => [.comma]
  | .addends => [.plus, .minus]
  | .factors => [.times, .div]
  | .primary => primaryStart
  | .call => [.ident]
  | .moreArguments => [.comma]
  | _ => operandStart

/-- Can a symbol derive no tokens at all? -/
def isNullable : Symbol → Bool
  | .program | .statements | .elsePart | .parameters | .moreParameters | .addends | .factors
  | .arguments | .moreArguments => true
  | _ => false

end Symbol

namespace Derivation

open Grammar

/-- **A phrase starts with one of the tokens for its symbol**, unless it is empty. -/
theorem starts_or_nil {s : Symbol} (d : Derivation s) :
    Starts s.start d.tokens ∨ s.isNullable = true ∧ d.tokens = [] := by
  induction d with
  | noStatements | noElse | noParameters | noMoreParameters | noAddends | noFactors | noArguments
  | noMoreArguments => exact .inr ⟨rfl, rfl⟩
  | program _ ih => exact ih
  -- The first symbol on the right side is never empty here, and starts with no more than the left side.
  | ofIf _ ih | ofWhile _ ih | ofFunction _ ih | ofReturn _ ih | ofVariable _ ih | ofPrint _ ih
  | ofExpression _ ih | bare _ ih | expression _ ih | sum _ ih | plain _ ih | ofCall _ ih =>
    exact .inl ((ih.resolve_right (by simp [Symbol.isNullable])).mono (by decide))
  | statements _ _ ih | expressionStatement _ _ ih | comparison _ _ _ ih | assign _ _ _ ih
  | additive _ _ ih | multiplicative _ _ ih | arguments _ _ ih =>
    exact .inl (starts_append.mpr (.inl (ih.resolve_right (by simp [Symbol.isNullable]))))
  | braced t | ifStatement t | elseBlock t | whileStatement t | functionDeclaration t | parameters t
  | moreParameters t | returnStatement t | variableDeclaration t | printStatement t | addends t | factors t
  | negative t | number t | string t | ident t | parenthesised t | call t | moreArguments t =>
    exact .inl (Starts.mono (a := t.1 :: _) t.2 (by decide))

theorem starts {s : Symbol} (h : s.isNullable = false) (d : Derivation s) : Starts s.start d.tokens := by
  rcases d.starts_or_nil with hs | ⟨hn, _⟩
  · exact hs
  · rw [h] at hn
    exact absurd hn Bool.false_ne_true

theorem tokens_ne_nil {s : Symbol} (h : s.isNullable = false) (d : Derivation s) : d.tokens ≠ [] :=
  (d.starts h).ne_nil

end Derivation

end LineaLang
