import LineaLang.Text.Digit
import LineaLang.Text.Printable

/-!
# `LineaLang.Text.Quoted` — text shown as a literal

A text inside a message or a tree view is shown in quotes, with escapes for the code points that would not
show themselves, so the shown form is one line of printable code points.

## Contents

* `Text.hexDigits` — a number in a fixed count of hexadecimal digits.
* `Text.quoteFor` — the quote: the apostrophe, unless only the quotation mark avoids an escape.
* `Text.escaped` — one code point between quotes.
* `Text.quoted` — the whole literal.
-/

namespace LineaLang.Text

/-- The last `width` hexadecimal digits of `n`, most significant first. -/
def hexDigits : (width n : Nat) → Text
  | 0, _ => []
  | width + 1, n => hexDigits width (n / 16) ++ [CodePoint.ofHexDigit n]

theorem length_hexDigits (width n : Nat) : (hexDigits width n).length = width := by
  induction width generalizing n with
  | zero => rfl
  | succ width ih => simp [hexDigits, ih]

/-- **The quote of a literal** is the apostrophe; a text with apostrophes and no quotation mark is put
    between quotation marks. -/
def quoteFor (text : Text) : CodePoint :=
  if text.contains (CodePoint.ofChar '\'') && !text.contains (CodePoint.ofChar '"') then '"' else '\''

/-- **One code point of a literal.** The quote and the backslash are escaped, line feed, carriage return
    and tab have short escapes, and whatever else does not print is written by number in two, four or
    eight hexadecimal digits. -/
def escaped (quote c : CodePoint) : Text :=
  if c = quote ∨ c = CodePoint.ofChar '\\' then [CodePoint.ofChar '\\', c]
  else if c = CodePoint.ofChar '\n' then "\\n"
  else if c = CodePoint.ofChar '\r' then "\\r"
  else if c = CodePoint.ofChar '\t' then "\\t"
  else if c.isPrintable then [c]
  else if c.val < 0x100 then "\\x" ++ hexDigits 2 c.val
  else if c.val < 0x10000 then "\\u" ++ hexDigits 4 c.val
  else "\\U" ++ hexDigits 8 c.val

/-- The code points of a literal, between the quotes. -/
def escapedAll (quote : CodePoint) (text : Text) : Text := text.flatMap (escaped quote)

/-- **The text as a literal.** -/
def quoted (text : Text) : Text :=
  quoteFor text :: (escapedAll (quoteFor text) text ++ [quoteFor text])

end LineaLang.Text
