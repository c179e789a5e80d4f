import LineaLang.Value.Display

/-!
# `LineaLang.Json.Writer` — values as JSON text

A value is written over several lines: each item and each member on a line of its own, indented by two
spaces for each array or object around it. Text stands as it is; only the quotation mark, the backslash and
the controls below the space are escaped. Doubles are written as literals, and those that JSON cannot write
as words.

The text is made in pieces, in the order in which a file receives them. Each string is a piece of its own, so
one that cannot be encoded is known by its place in its own piece.

## Contents

* `Json.writeString` — a string.
* `Json.writeDouble` — a double.
* `Json.pieces`, `Json.write` — a value, in pieces and as a whole.
-/

namespace LineaLang.Json

/-! ## Strings and numbers -/

/-- The escape of one code point, or the code point itself. -/
def escaped (c : CodePoint) : Text :=
  if c = CodePoint.ofChar '"' ∨ c = CodePoint.ofChar '\\' then [CodePoint.ofChar '\\', c]
  else if c = CodePoint.ofChar '\n' then "\\n"
  else if c = CodePoint.ofChar '\r' then "\\r"
  else if c = CodePoint.ofChar '\t' then "\\t"
  else if c = CodePoint.ofChar '\x0c' then "\\f"
  else if c = CodePoint.ofChar '\x08' then "\\b"
  else if c.val < 0x20 then "\\u" ++ Text.hexDigits 4 c.val
  else [c]

/-- **A string in quotation marks.** -/
def writeString (text : Text) : Text :=
  CodePoint.ofChar '"' :: (text.flatMap escaped ++ [CodePoint.ofChar '"'])

/-- **A double**; not-a-number and the infinities are words. -/
def writeDouble : Binary64 → Text
  | .nan => "NaN"
  | .infinite negative => if negative then "-Infinity" else "Infinity"
  | x => x.repr

/-! ## Values -/

/-- A line break and the indentation of the line after it. -/
def lineBreak (level : Nat) : Text := Text.newline :: Text.repeated level "  "

/-- Parts between brackets, each on a line of its own. -/
def enclose (opening closing : Text) (level : Nat) (parts : List (List Text)) : List Text :=
  if parts.isEmpty then [opening ++ closing]
  else
    (opening ++ lineBreak (level + 1)) ::
      (List.intercalate ["," ++ lineBreak (level + 1)] parts ++ [lineBreak level ++ closing])

mutual

/-- The pieces of a value that stands inside `level` arrays and objects. -/
def piecesAt (level : Nat) : Value → List Text
  | .none => ["null"]
  | .bool b => [if b then "true" else "false"]
  | .int n => [Numeral.ofInt n]
  | .float x => [writeDouble x]
  | .str text => [writeString text]
  | .list items => enclose "[" "]" level (itemPieces (level + 1) items)
  | .dict entries => enclose "\x7b" "\x7d" level (memberPieces (level + 1) entries)

/-- The items of an array. -/
def itemPieces (level : Nat) : List Value → List (List Text)
  | [] => []
  | v :: rest => piecesAt level v :: itemPieces level rest

/-- The members of an object. -/
def memberPieces (level : Nat) : List (Text × Value) → List (List Text)
  | [] => []
  | (name, v) :: rest => (writeString name :: ": " :: piecesAt level v) :: memberPieces level rest

end

/-- **The pieces of a value.** -/
def pieces (v : Value) : List Text := piecesAt 0 v

/-- **A value as JSON text.** -/
def write (v : Value) : Text := (pieces v).flatten

end LineaLang.Json
