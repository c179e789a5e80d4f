import LineaLang.Number.Decimal
import LineaLang.Text.Unquoted
import LineaLang.Value.Basic

/-!
# `LineaLang.Value.Literal` — values as they are written

A literal is what the shown form of a value can be read from: text in quotes, a number, one of three words,
or a list or a dictionary of these. Texts side by side are one text, a number may stand under one sign, and
any literal may stand in parentheses. Inside brackets lines do not count; outside, the literal stands on one
line, with nothing but comments and empty lines around it.

The lexeme of a string token is such a literal: in a source it is a single text in quotes, and tokens from
elsewhere may hold any other.

## Contents

* `Literal.skipGaps`, `Literal.content?`, `Literal.isEnd` — what may stand between and around the parts.
* `Literal.textsAt?`, `Literal.numberAt?`, `Literal.wordAt?` — texts, numbers and words.
* `Literal.valueAt?` — values, by the brackets that may still be opened.
* `Literal.read?` — the value of a literal.
-/

namespace LineaLang

namespace Literal

variable [CharacterNames]

/-- Reads something at the head of a text, and gives what follows it. -/
abbrev Reader (α : Type) := Text → Option (α × Text)

/-! ## Gaps -/

/-- The form feed. -/
def formFeed : CodePoint := '\x0c'

/-- The mark of a comment, which ends with its line. -/
def commentMark : CodePoint := '#'

/-- A space or a tab. -/
def isIndent (c : CodePoint) : Bool := c = CodePoint.ofChar ' ' || c = CodePoint.ofChar '\t'

/-- Do a backslash and what follows it join two lines? There must be something in the second. -/
def joinsLines (backslash : CodePoint) (rest : Text) : Bool :=
  backslash = CodePoint.ofChar '\\' && rest.head? = some Text.newline && 1 < rest.length

/-- Skips a gap, of which a comment may have begun. A line break after a backslash is part of every gap, any
    other line break and comments only inside brackets. -/
def skipGapsFrom (inside : Bool) : (inComment : Bool) → Text → Text
  | _, [] => []
  | true, c :: rest => skipGapsFrom inside (c ≠ Text.newline) rest
  | false, c :: rest =>
    if isIndent c || c = formFeed then skipGapsFrom inside false rest
    else if inside && c = Text.newline then skipGapsFrom inside false rest
    else if inside && c = commentMark then skipGapsFrom inside true rest
    else if joinsLines c rest then
      match rest with
      | [] => []
      | _ :: more => skipGapsFrom inside false more
    else c :: rest

/-- **The text after a gap.** -/
def skipGaps (inside : Bool) (text : Text) : Text := skipGapsFrom inside false text

/-- The first line that is neither empty nor a comment; it must not be indented. -/
def contentFrom? : (indented inComment : Bool) → Text → Option Text
  | _, _, [] => none
  | indented, inComment, c :: rest =>
    if c = Text.newline then contentFrom? false false rest
    else if inComment || c = commentMark then contentFrom? indented true rest
    else if isIndent c then contentFrom? true false rest
    else if c = formFeed then contentFrom? false false rest
    else if joinsLines c rest then
      match rest with
      | [] => none
      | _ :: more => contentFrom? indented false more
    else if indented then none
    else some (c :: rest)

/-- **The text from where a literal begins**, after blanks and lines without content. -/
def content? (text : Text) : Option Text := contentFrom? false false (text.dropWhile isIndent)

/-- Are there only comments and empty lines? The last line must not be an indentation. -/
def isEmptyFrom : (indented inComment : Bool) → Text → Bool
  | indented, inComment, [] => inComment || !indented
  | indented, inComment, c :: rest =>
    if c = Text.newline then isEmptyFrom false false rest
    else if inComment || c = commentMark then isEmptyFrom indented true rest
    else if isIndent c then isEmptyFrom true false rest
    else if c = formFeed then isEmptyFrom false false rest
    else if joinsLines c rest then
      match rest with
      | [] => true
      | _ :: more => isEmptyFrom indented false more
    else false

/-- **Does nothing follow but the end of the line**, comments and empty lines? -/
def isEnd (text : Text) : Bool :=
  match skipGaps false text with
  | [] => true
  | c :: rest => (c = Text.newline || c = commentMark) && isEmptyFrom false false (c :: rest)

/-! ## Texts -/

/-- Literals in quotes side by side, at most one for each code point of `bound`. -/
def textsFrom? (inside : Bool) : (bound : Text) → Reader Text
  | [], _ => none
  | _ :: bound, text => do
    let (first, rest) ← text.literalAt?
    match (skipGaps inside rest).openingAt? with
    | none => return (first, rest)
    | some _ => do
      let (more, left) ← textsFrom? inside bound (skipGaps inside rest)
      return (first ++ more, left)

/-- **A text**: one or more literals in quotes. -/
def textsAt? (inside : Bool) : Reader Text := fun text => textsFrom? inside text text

/-! ## Numbers -/

/-- The digits of a radix, by the letter that stands for it. -/
def radixOf? (letter : CodePoint) : Option (Nat × (CodePoint → Option Nat)) :=
  if letter.toLower = CodePoint.ofChar 'x' then some (16, CodePoint.hexDigit?)
  else if letter.toLower = CodePoint.ofChar 'o' then some (8, CodePoint.octalDigit?)
  else if letter.toLower = CodePoint.ofChar 'b' then
    some (2, fun c => c.octalDigit?.filter (· < 2))
  else none

/-- A number in a radix of its own, after its first zero. -/
def radixNumberAt? : Reader Value
  | [] => none
  | letter :: rest => do
    let (radix, digit?) ← radixOf? letter
    let grouped := rest.takeWhile fun c => (digit? c).isSome || c = Text.groupMark
    let opened := if grouped.head? = some Text.groupMark then grouped.drop 1 else grouped
    let digits ← Text.ungrouped? (fun c => (digit? c).isSome) opened
    if digits.isEmpty then none
    else
      let n := digits.foldl (fun acc c => radix * acc + (digit? c).getD 0) 0
      return (.int n, rest.drop grouped.length)

/-- The length of an exponent: its mark, perhaps a sign, and digits. -/
def exponentLength : Text → Nat
  | [] => 0
  | c :: rest =>
    let unsigned : Text := (Text.splitSign rest).2
    let digits := unsigned.takeWhile fun c => c.isAsciiDigit || c = Text.groupMark
    if c.toLower = CodePoint.ofChar 'e' ∧ unsigned.head?.any CodePoint.isAsciiDigit then
      1 + (rest.length - unsigned.length) + digits.length
    else 0

/-- A decimal number without an exponent or a point. It does not begin with a zero, unless all its digits
    are zeros. -/
def integerOf? (grouped : Text) : Option Value := do
  let digits ← Text.ungrouped? CodePoint.isDigit grouped
  let n ← (Numeral.read digits).toOption
  if digits.head? = some (CodePoint.ofChar '0') ∧ n ≠ 0 then none else return .int n

/-- A decimal number. -/
def decimalAt? : Reader Value := fun text =>
  let mantissa := text.takeWhile fun c =>
    c.isAsciiDigit || c = Text.groupMark || c = CodePoint.ofChar '.'
  let exponent := exponentLength (text.drop mantissa.length)
  let total := mantissa.length + exponent
  if exponent = 0 ∧ !mantissa.contains (CodePoint.ofChar '.') then
    (integerOf? mantissa).map (·, text.drop total)
  else do
    let plain ← Text.ungrouped? CodePoint.isDigit (text.take total)
    let d ← Decimal.readUnsigned? plain
    return (.float (d.toBinary64 false), text.drop total)

/-- **A number** without a sign. -/
def numberAt? : Reader Value
  | [] => none
  | c :: rest =>
    if c = CodePoint.ofChar '0' ∧ (rest.head?.bind radixOf?).isSome then radixNumberAt? rest
    else if c.isAsciiDigit || c = CodePoint.ofChar '.' then decimalAt? (c :: rest)
    else none

/-! ## Words -/

/-- The words for values. -/
def words : List (Text × Value) :=
  [("None", .none), ("True", .bool true), ("False", .bool false)]

/-- **A word** for a value. -/
def wordAt? : Reader Value := fun text =>
  let word := text.takeWhile fun c => c.isLetter || c.isAsciiDigit || c = Text.groupMark
  (words.find? fun entry => entry.1 = word).map fun entry => (entry.2, text.drop word.length)

/-! ## Brackets -/

/-- Reads one code point after a gap. -/
def markAt? (inside : Bool) (mark : CodePoint) : Reader Unit := fun text =>
  match skipGaps inside text with
  | [] => none
  | c :: rest => if c = mark then some ((), rest) else none

/-- **Items with commas after them**, up to a closing bracket; the last comma may be left out. There is at
    most one for each code point of `bound`, the text that is left when they begin; every item takes one. -/
def itemsFrom? {α : Type} (item : Reader α) (closing : CodePoint) : (bound : Text) → Reader (List α)
  | [], _ => none
  | _ :: bound, text =>
    match markAt? true closing text with
    | some (_, left) => some ([], left)
    | none => do
      let (first, rest) ← item text
      match markAt? true ',' rest with
      | some (_, rest) => do
        let (more, left) ← itemsFrom? item closing bound rest
        return (first :: more, left)
      | none => do
        let (_, left) ← markAt? true closing rest
        return ([first], left)

/-- An entry of a dictionary: a text, a colon and a value. -/
def entryAt? (value : Reader Value) : Reader (Text × Value) := fun text => do
  let (name, rest) ← value text
  match name with
  | .str name => do
    let (_, rest) ← markAt? true ':' rest
    let (v, left) ← value rest
    return ((name, v), left)
  | _ => none

/-- **A number after a sign**, perhaps in parentheses, when `levels` more of them may be opened. -/
def operandAt? (inside : Bool) : (levels : Nat) → Reader Value
  | 0, text => numberAt? (skipGaps inside text)
  | levels + 1, text =>
    match markAt? inside '(' text with
    | none => numberAt? (skipGaps inside text)
    | some (_, rest) => do
      let (v, rest) ← operandAt? true levels rest
      let (_, left) ← markAt? true ')' rest
      return (v, left)

/-- A value in brackets, after the opening one. -/
def bracketedAt? (value : Reader Value) (opening : CodePoint) : Reader Value := fun text =>
  if opening = CodePoint.ofChar '(' then do
    let (v, rest) ← value text
    let (_, left) ← markAt? true ')' rest
    return (v, left)
  else if opening = CodePoint.ofChar '[' then
    (itemsFrom? value ']' text text).map fun (items, left) => (.list items, left)
  else if opening = CodePoint.ofChar '\x7b' then
    (itemsFrom? (entryAt? value) '\x7d' text text).map fun (entries, left) =>
      (.ofEntries entries, left)
  else none

/-- **A value**, when `levels` more brackets may be opened. -/
def valueAt? : (levels : Nat) → (inside : Bool) → Reader Value
  | levels, inside, text =>
    match skipGaps inside text with
    | [] => none
    | c :: rest =>
      if (Text.openingAt? (c :: rest)).isSome then
        (textsAt? inside (c :: rest)).map fun (t, left) => (.str t, left)
      else if c = CodePoint.ofChar '-' then
        (operandAt? inside levels rest).map fun (v, left) => (v.negated, left)
      else if c = CodePoint.ofChar '+' then operandAt? inside levels rest
      else
        match levels with
        | 0 => (numberAt? (c :: rest)).orElse fun _ => wordAt? (c :: rest)
        | levels + 1 =>
          (bracketedAt? (valueAt? levels true) c rest).orElse fun _ =>
            (numberAt? (c :: rest)).orElse fun _ => wordAt? (c :: rest)

/-- How many brackets may be open at once. -/
def maxLevels : Nat := 200

/-- Code points that no literal may hold, whether escaped or not. -/
def isForbidden (c : CodePoint) : Bool := c.isSurrogate || c.val = 0

/-- **The value of a literal**, if the text is one. -/
def read? (text : Text) : Option Value :=
  if text.any isForbidden then none
  else do
    let content ← content? text.unifyLines
    let (v, rest) ← valueAt? maxLevels false content
    if isEnd rest then return v else none

end Literal

end LineaLang
