/-!
# `LineaLang.Text.Basic` — text as a sequence of code points

A Linea string may hold any code point, the surrogates `U+D800 … U+DFFF` included: the escape
`"\ud800"` denotes one. Text is therefore a list of code points and not a `String`, whose characters
exclude the surrogates. Everything the language reads or writes is a `Text`: sources, lexemes, names,
string values and messages.

## Contents

* `CodePoint` — a number below `0x110000`, with `CodePoint.ofChar` for the characters of a literal.
* `Text` — a list of code points; a string literal coerces to one.
* `Text.join`, `Text.ofLines` — pieces with a separator between them, and lines with a break after each.
* `Text.unifyLines` — line ends as line feeds.
* `CodePoint.isControl`, `CodePoint.isSurrogate` — the two ranges that the text formats single out.
-/

namespace LineaLang

/-! ## Code points -/

/-- A code point of Unicode: any number below `0x110000`, surrogates included. -/
structure CodePoint where
  val : Nat
  isLt : val < 0x110000
deriving DecidableEq

namespace CodePoint

/-- The code point of a character. -/
def ofChar (c : Char) : CodePoint where
  val := c.val.toNat
  isLt := by
    rcases c.valid with h | h
    · exact Nat.lt_trans h (by decide)
    · exact h.2

instance : Coe Char CodePoint := ⟨ofChar⟩

instance : Inhabited CodePoint := ⟨ofChar '?'⟩

/-- **Code points are ordered by number.** -/
instance : LT CodePoint := ⟨fun a b => a.val < b.val⟩

instance : DecidableLT CodePoint := fun a b => inferInstanceAs (Decidable (a.val < b.val))

theorem ext_val {a b : CodePoint} (h : a.val = b.val) : a = b := by
  cases a; cases b; cases h; rfl

/-- A number as a code point; out of range it is the replacement character. -/
def ofNat (n : Nat) : CodePoint :=
  if h : n < 0x110000 then ⟨n, h⟩ else ⟨0xFFFD, by decide⟩

theorem val_ofNat {n : Nat} (h : n < 0x110000) : (ofNat n).val = n := by
  simp [ofNat, h]

/-- `c` lies in the closed range `lo … hi`. -/
def within (c : CodePoint) (lo hi : Nat) : Bool := lo ≤ c.val && c.val ≤ hi

/-- The controls: below the space, and the range `U+007F … U+009F`. -/
def isControl (c : CodePoint) : Bool := c.val < 0x20 || c.within 0x7F 0x9F

/-- The surrogates, code points that are no characters. -/
def isSurrogate (c : CodePoint) : Bool := c.within 0xD800 0xDFFF

/-- A letter of the Latin alphabet without diacritics. -/
def isLetter (c : CodePoint) : Bool := c.within 0x41 0x5A || c.within 0x61 0x7A

/-- The two quotes that may enclose a string. -/
def isQuote (c : CodePoint) : Bool := c.val = 0x22 || c.val = 0x27

/-- One of the ten digits `0 … 9`. -/
def isAsciiDigit (c : CodePoint) : Bool := c.within 0x30 0x39

/-- The lower-case form of a Latin letter without diacritics; any other code point is kept. -/
def toLower (c : CodePoint) : CodePoint :=
  if c.within 0x41 0x5A then ofNat (c.val + 0x20) else c

end CodePoint

/-! ## Text -/

/-- **Text is a list of code points.** Its length, its slices and its order count code points. -/
abbrev Text := List CodePoint

namespace Text

/-- The code points of a string literal. -/
def ofString (s : String) : Text := s.toList.map CodePoint.ofChar

instance : Coe String Text := ⟨ofString⟩

/-- The pieces one after the other, with `separator` between neighbours. -/
def join (separator : Text) : List Text → Text
  | [] => []
  | [piece] => piece
  | piece :: next :: rest => piece ++ separator ++ join separator (next :: rest)

/-- `n` copies of one piece. -/
def repeated (n : Nat) (piece : Text) : Text := (List.replicate n piece).flatten

/-- The text in two parts at its first `mark`, which belongs to neither. -/
def splitAt? (mark : CodePoint) : Text → Option (Text × Text)
  | [] => none
  | c :: rest =>
    if c = mark then some ([], rest)
    else (splitAt? mark rest).map fun (before, after) => (c :: before, after)

/-- `text` without the leading `start`, if it begins with it. -/
def dropStart? : (start text : Text) → Option Text
  | [], text => some text
  | _ :: _, [] => none
  | a :: start, b :: text => if a = b then dropStart? start text else none

/-- A line break at `U+000A`, the only one that ends a line of a Linea source. -/
def newline : CodePoint := '\n'

/-- Lines as text, each ended by a line break. -/
def ofLines (lines : List Text) : Text := lines.flatMap (· ++ [newline])

/-- Line ends as line feeds, when the code point before was a carriage return or was not. -/
def unifyLinesAfter : (afterReturn : Bool) → Text → Text
  | _, [] => []
  | afterReturn, c :: rest =>
    if c = CodePoint.ofChar '\r' then newline :: unifyLinesAfter true rest
    else if c = newline ∧ afterReturn then unifyLinesAfter false rest
    else c :: unifyLinesAfter false rest

/-- **The text with every line end as a line feed**: a carriage return, alone or before a line feed, is
    one. -/
def unifyLines (text : Text) : Text := unifyLinesAfter false text

end Text

end LineaLang
