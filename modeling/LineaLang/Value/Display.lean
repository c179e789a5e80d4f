import LineaLang.Value.Basic
import LineaLang.Number.Shortest
import LineaLang.Text.Quoted

/-!
# `LineaLang.Value.Display` — values as text

Three spellings of a value. A program prints with `display`. A view of a tree shows a literal with `repr`,
from which it could be read again. A message or a view shows a name with `plain`, which differs from `repr`
only in leaving texts unquoted.

## Contents

* `Value.repr` — as a literal.
* `Value.plain` — as it stands in running text.
* `Value.display` — as `print` shows it.
* `Value.formatNumber` — a literal's number in listings and views.
-/

namespace LineaLang.Value

/-- The literal of a truth value. -/
def boolLiteral (b : Bool) : Text := if b then "True" else "False"

mutual

/-- **A value as a literal.** -/
def repr : Value → Text
  | .none => "None"
  | .bool b => boolLiteral b
  | .int n => Numeral.ofInt n
  | .float x => x.repr
  | .str text => text.quoted
  | .list items => "[" ++ Text.join ", " (itemReprs items) ++ "]"
  | .dict entries => "\x7b" ++ Text.join ", " (entryReprs entries) ++ "\x7d"

/-- The members of a list as literals. -/
def itemReprs : List Value → List Text
  | [] => []
  | v :: rest => v.repr :: itemReprs rest

/-- The entries of a dictionary as literals. -/
def entryReprs : List (Text × Value) → List Text
  | [] => []
  | (key, v) :: rest => (key.quoted ++ ": " ++ v.repr) :: entryReprs rest

end

/-- A value in running text: a text is itself, anything else its literal. -/
def plain : Value → Text
  | .str text => text
  | v => v.repr

/-- **A number in a listing**: a double without a fraction shows as an integer. What is no double shows as
    in running text. -/
def formatNumber : Value → Text
  | .float x => x.display
  | v => v.plain

/-- **A value as a program prints it.** -/
def display : Value → Text
  | .bool b => if b then "true" else "false"
  | .float x => x.display
  | v => v.plain

/-- The texts among `values`, counted from `index`; anything else is refused. -/
def textsFrom (index : Nat) : List Value → Except ValueFault (List Text)
  | [] => .ok []
  | .str text :: rest => (textsFrom (index + 1) rest).map (text :: ·)
  | v :: _ => .error (.notText index v.dataKind)

/-- Joins values that must all be texts. -/
def joinTexts (separator : Text) (values : List Value) : Except ValueFault Text :=
  (textsFrom 0 values).map (Text.join separator)

end LineaLang.Value
