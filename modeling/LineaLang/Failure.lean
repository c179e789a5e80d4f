import LineaLang.Token.Scan
import LineaLang.Tree.Cursor
import LineaLang.RuntimeError
import LineaLang.Text.Utf8

/-!
# `LineaLang.Failure` — what can go wrong with a program

Three things are wrong with a program as the language sees it: a code point that starts no token, a token
that does not fit the grammar, and a rule broken while the program runs. These are diagnostics, and a
program's author can mend them. Apart from them, a numeral may be too long to be read, a tree too deep, or
not of a shape that the grammar yields, to be walked, and a note or a printed value may hold a surrogate,
which no file takes.

## Contents

* `Diagnostic` — the errors of the language, with `Diagnostic.message` and `Diagnostic.report`.
* `RunFailure` — why a run stopped.
* `Failure` — anything that stops a program on its way from source to result.
-/

namespace LineaLang

/-- **An error of the language.** -/
inductive Diagnostic where
  | lex (e : LexError)
  | parse (e : ParseError)
  | runtime (e : RuntimeError)

namespace Diagnostic

/-- What happened, and where. -/
def message : Diagnostic → Text
  | .lex e => e.message
  | .parse e => e.message
  | .runtime e => e.message

/-- The stage at which it happened. -/
def stage : Diagnostic → Text
  | .lex _ => "Lex error"
  | .parse _ => "Parse error"
  | .runtime _ => "Runtime error"

/-- The line shown to the author of a program. -/
def report (d : Diagnostic) : Text := d.stage ++ ": " ++ d.message

end Diagnostic

/-- **Why a run stopped**: a rule of the language was broken, the tree was not one that can be run, or a
    line could not be written to the log or to the console. -/
inductive RunFailure where
  | error (e : RuntimeError)
  | fault (fault : TreeFault)
  | unwritable (cause : Utf8.Unencodable)

/-- Why there is no result. -/
inductive Failure where
  | diagnostic (d : Diagnostic)
  | numeral (fault : NumeralFault)
  | tree (fault : TreeFault)
  | unwritable (cause : Utf8.Unencodable)

namespace Failure

/-- The failure of reading tokens. -/
def ofParse : ParseFailure → Failure
  | .refused e => .diagnostic (.parse e)
  | .numeral fault => .numeral fault

/-- The failure of a run. -/
def ofRun : RunFailure → Failure
  | .error e => .diagnostic (.runtime e)
  | .fault fault => .tree fault
  | .unwritable cause => .unwritable cause

end Failure

/-- **The tree of a source.** -/
def Node.ofSource [CharacterNames] (source : Text) : Except Failure Node := do
  let tokens ← (Token.scan source).mapError fun e => .diagnostic (.lex e)
  (Node.ofTokens tokens).mapError .ofParse

end LineaLang
