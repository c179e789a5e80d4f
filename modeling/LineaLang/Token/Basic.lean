import LineaLang.Position
import LineaLang.Text.Quoted

/-!
# `LineaLang.Token.Basic` — tokens

A token is a lexeme of the source with its kind and the position of its first code point.

## Contents

* `TokenKind`, `TokenKind.name` — the kinds of token.
* `Token`, `Token.describe` — tokens, and how a message shows one.
-/

namespace LineaLang

/-- The kinds of token. -/
inductive TokenKind where
  | number | string | ident
  | plus | minus | times | div
  | lparen | rparen
  | ifWord | thenWord | elseWord | letWord | funcWord | returnWord | whileWord | doWord | printWord
  | eq | neq | le | ge | lt | gt | assign
  | lbrace | rbrace | semi | comma
deriving DecidableEq

namespace TokenKind

/-- The name of a kind in messages and listings. -/
def name : TokenKind → Text
  | .number => "NUMBER"
  | .string => "STRING"
  | .ident => "IDENT"
  | .plus => "PLUS"
  | .minus => "MINUS"
  | .times => "TIMES"
  | .div => "DIV"
  | .lparen => "LPAREN"
  | .rparen => "RPAREN"
  | .ifWord => "IF"
  | .thenWord => "THEN"
  | .elseWord => "ELSE"
  | .letWord => "LET"
  | .funcWord => "FUNC"
  | .returnWord => "RETURN"
  | .whileWord => "WHILE"
  | .doWord => "DO"
  | .printWord => "PRINT"
  | .eq => "EQ"
  | .neq => "NEQ"
  | .le => "LE"
  | .ge => "GE"
  | .lt => "LT"
  | .gt => "GT"
  | .assign => "ASSIGN"
  | .lbrace => "LBRACE"
  | .rbrace => "RBRACE"
  | .semi => "SEMI"
  | .comma => "COMMA"

/-- Every kind of token. -/
def all : List TokenKind :=
  [.number, .string, .ident, .plus, .minus, .times, .div, .lparen, .rparen, .ifWord, .thenWord,
   .elseWord, .letWord, .funcWord, .returnWord, .whileWord, .doWord, .printWord, .eq, .neq, .le, .ge,
   .lt, .gt, .assign, .lbrace, .rbrace, .semi, .comma]

/-- The kind with a given name. -/
def ofName? (text : Text) : Option TokenKind := all.find? fun kind => kind.name = text

end TokenKind

/-- **A token**: its kind, the exact text it was read from, and where that text begins. -/
structure Token where
  kind : TokenKind
  lexeme : Text
  position : Position
deriving DecidableEq

/-- A token as a message shows it. -/
def Token.describe (t : Token) : Text := t.kind.name ++ " " ++ t.lexeme.quoted

end LineaLang
