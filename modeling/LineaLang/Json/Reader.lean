import LineaLang.Number.Decimal
import LineaLang.Position
import LineaLang.Value.Basic

/-!
# `LineaLang.Json.Reader` — values from JSON text

The reader accepts JSON, and the three words `NaN`, `Infinity` and `-Infinity` for the doubles that JSON
cannot write. A number without fraction and exponent is an integer, any other a double. A string may escape
a surrogate alone; the escapes of a surrogate pair denote one code point. Of members with equal names the
last counts, at the place of the first.

Arrays and objects recurse on the room that is left for nesting, and repeat their members at most as often
as there are code points left.

## Contents

* `Json.Flaw`, `Json.Fault` — why a text is refused, and at which place.
* `Json.stringFrom`, `Json.scalar`, `Json.valueAt` — the readers of the parts.
* `JsonError`, `Json.read` — the reader of a whole text, and the report on a refusal.
-/

namespace LineaLang

namespace Json

/-! ## Refusals -/

/-- **What is wrong with a text.** -/
inductive Flaw where
  | noValue
  | noPropertyName
  | noColon
  | noComma
  | moreData
  | openString
  | controlCharacter
  | badEscape
  | badCodePoint
  | byteOrderMark
deriving DecidableEq

/-- The wording of a flaw. -/
def Flaw.message : Flaw → Text
  | .noValue => "Expecting value"
  | .noPropertyName => "Expecting property name enclosed in double quotes"
  | .noColon => "Expecting ':' delimiter"
  | .noComma => "Expecting ',' delimiter"
  | .moreData => "Extra data"
  | .openString => "Unterminated string starting at"
  | .controlCharacter => "Invalid control character at"
  | .badEscape => "Invalid \\escape"
  | .badCodePoint => "Invalid \\uXXXX escape"
  | .byteOrderMark => "Unexpected UTF-8 BOM (decode using utf-8-sig)"

/-- Why reading stopped. The place of a flaw is given by what is left of the text from there on. -/
inductive Fault where
  | flaw (flaw : Flaw) (left : Text)
  | numeral (fault : NumeralFault)
  | tooDeep

/-- **A reader** takes something off the front of a text and gives what is left. -/
abbrev Reader (α : Type) := Text → Except Fault (α × Text)

/-! ## Blanks and words -/

/-- The blanks between parts: space, tab, line feed and carriage return. -/
def isBlank (c : CodePoint) : Bool := c.val = 0x20 || c.val = 0x09 || c.val = 0x0A || c.val = 0x0D

/-- The text from its first part on. -/
def skipBlanks (text : Text) : Text := text.dropWhile isBlank

/-- The words and what they stand for. -/
def words : List (Text × Value) :=
  [("null", .none), ("true", .bool true), ("false", .bool false), ("NaN", .float .nan),
   ("Infinity", .float (.infinite false)), ("-Infinity", .float (.infinite true))]

/-- The word at the head of a text. -/
def wordAt? (text : Text) : Option (Value × Text) :=
  words.findSome? fun (word, value) => (Text.dropStart? word text).map (value, ·)

/-! ## Numbers -/

/-- The leading digits of a text. -/
def digitsAt (text : Text) : Text := text.takeWhile CodePoint.isAsciiDigit

/-- The length of a whole number: a zero, or digits that do not start with one. -/
def wholeLength : Text → Nat
  | [] => 0
  | c :: rest =>
    if c = CodePoint.ofChar '0' then 1
    else if c.isAsciiDigit then (digitsAt rest).length + 1
    else 0

/-- The length of a fraction: a point and digits. -/
def fractionLength : Text → Nat
  | [] => 0
  | c :: rest =>
    if c = CodePoint.ofChar '.' ∧ digitsAt rest ≠ [] then (digitsAt rest).length + 1 else 0

/-- The length of a sign. -/
def signLength : Text → Nat
  | [] => 0
  | c :: _ => if c = CodePoint.ofChar '+' ∨ c = CodePoint.ofChar '-' then 1 else 0

/-- The length of an exponent: its mark, perhaps a sign, and digits. -/
def exponentLength : Text → Nat
  | [] => 0
  | c :: rest =>
    let sign := signLength rest
    let digits := (digitsAt (rest.drop sign)).length
    if (c = CodePoint.ofChar 'e' ∨ c = CodePoint.ofChar 'E') ∧ digits ≠ 0 then sign + digits + 1 else 0

/-- The magnitude of a number, under a sign that has been read. -/
def magnitude (negative : Bool) (text : Text) : Except Fault (Option (Value × Text)) :=
  let whole := wholeLength text
  let fraction := fractionLength (text.drop whole)
  let exponent := exponentLength (text.drop (whole + fraction))
  let total := whole + fraction + exponent
  if whole = 0 then .ok none
  else if fraction + exponent = 0 then
    match Numeral.read (text.take whole) with
    | .ok n => .ok (some (.int (Binary64.signed negative n), text.drop whole))
    | .error fault => .error (.numeral fault)
  else
    match Decimal.readUnsigned? (text.take total) with
    | some d => .ok (some (.float (d.toBinary64 negative), text.drop total))
    | none => .ok none

/-- The number at the head of a text. -/
def numberAt? (text : Text) : Except Fault (Option (Value × Text)) :=
  match text with
  | [] => .ok none
  | c :: rest => if c = CodePoint.ofChar '-' then magnitude true rest else magnitude false (c :: rest)

/-- **A word or a number.** -/
def scalar : Reader Value := fun text =>
  match wordAt? text with
  | some result => .ok result
  | none =>
    match numberAt? text with
    | .ok (some result) => .ok result
    | .ok none => .error (.flaw .noValue text)
    | .error fault => .error fault

/-! ## Strings -/

/-- The number that the four hexadecimal digits at the head of a text denote. Something must follow them. -/
def fourDigits? (text : Text) : Option Nat :=
  if (text.drop 4).isEmpty then none
  else
    (text.take 4).foldl
      (fun acc c => do return 16 * (← acc) + (← c.hexDigit?)) (some 0)

/-- The code point that a surrogate pair denotes. -/
def joinSurrogates (high low : Nat) : Nat := 0x10000 + (high - 0xD800) * 0x400 + (low - 0xDC00)

/-- The second half of a surrogate pair, escaped at the head of a text. -/
def lowHalf (text : Text) : Except Fault (Option Nat) :=
  match text with
  | backslash :: u :: rest =>
    if backslash = CodePoint.ofChar '\\' ∧ u = CodePoint.ofChar 'u' then
      match fourDigits? rest with
      | some low => .ok (if 0xDC00 ≤ low ∧ low ≤ 0xDFFF then some low else none)
      | none => .error (.flaw .badCodePoint (u :: rest))
    else .ok none
  | _ => .ok none

/-- What an escape by number denotes, given what follows its `u`, and how many code points it takes
    from there on. -/
def numericEscape (rest : Text) : Except Fault (Option (CodePoint × Nat)) :=
  match fourDigits? rest with
  | none => .ok none
  | some n =>
    if 0xD800 ≤ n ∧ n ≤ 0xDBFF then
      match lowHalf (rest.drop 4) with
      | .ok (some low) => .ok (some (CodePoint.ofNat (joinSurrogates n low), 10))
      | .ok none => .ok (some (CodePoint.ofNat n, 4))
      | .error fault => .error fault
    else .ok (some (CodePoint.ofNat n, 4))

/-- The escapes of one letter and the code points that they denote. -/
def letterEscapes : List (Char × Char) :=
  [('"', '"'), ('\\', '\\'), ('/', '/'), ('b', '\x08'), ('f', '\x0c'), ('n', '\n'), ('r', '\r'), ('t', '\t')]

/-- **An escape**, given the string from its backslash on: what it denotes, and how many code points it
    takes after the backslash. `opening` is the string from its quote on. -/
def escapeAt (opening text : Text) : Except Fault (CodePoint × Nat) :=
  match text.drop 1 with
  | [] => .error (.flaw .openString opening)
  | c :: rest =>
    if c = CodePoint.ofChar 'u' then
      match numericEscape rest with
      | .ok (some (meaning, used)) => .ok (meaning, used + 1)
      | .ok none => .error (.flaw .badCodePoint (c :: rest))
      | .error fault => .error fault
    else
      match letterEscapes.find? fun entry => CodePoint.ofChar entry.1 = c with
      | some (_, meaning) => .ok (meaning, 1)
      | none => .error (.flaw .badEscape text)

/-- **The rest of a string**, its closing quote included, after skipping the `skip` code points that an
    escape has used. -/
def stringFrom (opening : Text) : (skip : Nat) → Reader Text
  | _, [] => .error (.flaw .openString opening)
  | skip + 1, _ :: rest => stringFrom opening skip rest
  | 0, c :: rest =>
    if c = CodePoint.ofChar '"' then .ok ([], rest)
    else if c = CodePoint.ofChar '\\' then
      match escapeAt opening (c :: rest) with
      | .ok (meaning, used) =>
        (stringFrom opening used rest).map fun (text, left) => (meaning :: text, left)
      | .error fault => .error fault
    else if c.val < 0x20 then .error (.flaw .controlCharacter (c :: rest))
    else (stringFrom opening 0 rest).map fun (text, left) => (c :: text, left)

/-! ## Arrays and objects -/

/-- **Items up to the closing bracket**, at least one and at most one for each code point of `bound`, the text
    that is left when they begin; every item takes one. -/
def itemsFrom (value : Reader Value) : (bound : Text) → Reader (List Value)
  | [], text => .error (.flaw .noValue text)
  | _ :: bound, text => do
    let (v, rest) ← value text
    match skipBlanks rest with
    | [] => throw (.flaw .noComma [])
    | c :: more =>
      if c = CodePoint.ofChar ']' then return ([v], more)
      else if c = CodePoint.ofChar ',' then do
        let (vs, left) ← itemsFrom value bound (skipBlanks more)
        return (v :: vs, left)
      else throw (.flaw .noComma (c :: more))

/-- A member: its name, a colon and its value. -/
def memberAt (value : Reader Value) : Reader (Text × Value) := fun text =>
  match text with
  | [] => .error (.flaw .noPropertyName text)
  | quote :: rest =>
    if quote = CodePoint.ofChar '"' then do
      let (name, left) ← stringFrom text 0 rest
      match skipBlanks left with
      | [] => throw (.flaw .noColon [])
      | c :: more =>
        if c = CodePoint.ofChar ':' then do
          let (v, left) ← value (skipBlanks more)
          return ((name, v), left)
        else throw (.flaw .noColon (c :: more))
    else .error (.flaw .noPropertyName text)

/-- **Members up to the closing brace**, at least one. The bound is as for items. -/
def membersFrom (value : Reader Value) : (bound : Text) → Reader (List (Text × Value))
  | [], text => .error (.flaw .noPropertyName text)
  | _ :: bound, text => do
    let (member, rest) ← memberAt value text
    match skipBlanks rest with
    | [] => throw (.flaw .noComma [])
    | c :: more =>
      if c = CodePoint.ofChar '\x7d' then return ([member], more)
      else if c = CodePoint.ofChar ',' then do
        let (members, left) ← membersFrom value bound (skipBlanks more)
        return (member :: members, left)
      else throw (.flaw .noComma (c :: more))

/-- What follows an opening bracket. -/
def listBody (value : Reader Value) : Reader Value := fun text =>
  match skipBlanks text with
  | [] => .error (.flaw .noValue [])
  | c :: more =>
    if c = CodePoint.ofChar ']' then .ok (.list [], more)
    else (itemsFrom value (c :: more) (c :: more)).map fun (items, left) => (.list items, left)

/-- What follows an opening brace. -/
def objectBody (value : Reader Value) : Reader Value := fun text =>
  match skipBlanks text with
  | [] => .error (.flaw .noPropertyName [])
  | c :: more =>
    if c = CodePoint.ofChar '\x7d' then .ok (.dict [], more)
    else
      (membersFrom value (c :: more) (c :: more)).map fun (members, left) =>
        (.ofEntries members, left)

/-- A value whose parts are read by `inner`, unless no room is left for parts. -/
def valueWith (inner : Option (Reader Value)) : Reader Value := fun text =>
  match text with
  | [] => .error (.flaw .noValue text)
  | c :: rest =>
    if c = CodePoint.ofChar '"' then
      (stringFrom text 0 rest).map fun (content, left) => (.str content, left)
    else if c = CodePoint.ofChar '\x7b' ∨ c = CodePoint.ofChar '[' then
      match inner with
      | none => .error .tooDeep
      | some value => if c = CodePoint.ofChar '[' then listBody value rest else objectBody value rest
    else scalar text

/-- **A value**, when `room` more arrays and objects may be opened. -/
def valueAt : (room : Nat) → Reader Value
  | 0 => valueWith none
  | room + 1 => valueWith (some (valueAt room))

/-- How many arrays and objects may be open at once. -/
def maxNesting : Nat := 990

end Json

/-! ## Whole texts -/

/-- **Why a text is no JSON value.** -/
inductive JsonError where
  | flaw (flaw : Json.Flaw) (position : Position)
  | numeral (fault : NumeralFault)
  | tooDeep

/-- The report on a text that is no JSON value; excessive nesting has no wording. -/
def JsonError.message? : JsonError → Option Text
  | .flaw what p =>
    some (what.message ++ ": line " ++ Numeral.ofNat p.line ++ " column " ++ Numeral.ofNat p.column
      ++ " (char " ++ Numeral.ofNat p.offset ++ ")")
  | .numeral fault => some fault.message
  | .tooDeep => none

namespace Json

/-- The position in `text` from which on `left` is left. -/
def positionOf (text left : Text) : Position :=
  Position.start.after (text.take (text.length - left.length))

/-- A fault with its position. -/
def locate (text : Text) : Fault → JsonError
  | .flaw what left => .flaw what (positionOf text left)
  | .numeral fault => .numeral fault
  | .tooDeep => .tooDeep

/-- A value with blanks around it, and nothing else. -/
def readWhole (text : Text) : Except Fault Value :=
  if text.head?.any (·.val = 0xFEFF) then .error (.flaw .byteOrderMark text)
  else
    match valueAt maxNesting (skipBlanks text) with
    | .error fault => .error fault
    | .ok (v, rest) =>
      let left := skipBlanks rest
      if left.isEmpty then .ok v else .error (.flaw .moreData left)

/-- **The value that a JSON text denotes.** -/
def read (text : Text) : Except JsonError Value := (readWhole text).mapError (locate text)

end Json

end LineaLang
