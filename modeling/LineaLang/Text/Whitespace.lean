import LineaLang.Text.Basic

/-!
# `LineaLang.Text.Whitespace` — whitespace around a text

Whitespace is the space, the tab, the four controls that end a line or a page, and the separators of Unicode.
The four information separators of ASCII are none.

## Contents

* `CodePoint.isWhitespace` — the code points that are whitespace.
* `Text.trim` — a text without the whitespace at both ends.
-/

namespace LineaLang

/-- Whitespace: a control from tab to carriage return, the next-line control, or a space of some width or
    kind. -/
def CodePoint.isWhitespace (c : CodePoint) : Bool :=
  c.within 0x09 0x0D || c.within 0x20 0x20 || c.within 0x85 0x85 || c.within 0xA0 0xA0
    || c.within 0x1680 0x1680 || c.within 0x2000 0x200A || c.within 0x2028 0x2029
    || c.within 0x202F 0x202F || c.within 0x205F 0x205F || c.within 0x3000 0x3000

namespace Text

/-- **A text without the whitespace at both ends.** -/
def trim (text : Text) : Text :=
  ((text.dropWhile CodePoint.isWhitespace).reverse.dropWhile CodePoint.isWhitespace).reverse

/-- A text that neither begins nor ends with whitespace is kept as it is. -/
theorem trim_eq_self {text : Text} (first : text.head?.all (!·.isWhitespace))
    (last : text.getLast?.all (!·.isWhitespace)) : text.trim = text := by
  have keep : ∀ t : Text, t.head?.all (!·.isWhitespace) = true →
      t.dropWhile CodePoint.isWhitespace = t := by
    intro t h
    cases t with
    | nil => rfl
    | cons c rest => simp_all [List.dropWhile]
  unfold trim
  rw [keep text first, keep text.reverse (by simpa [List.head?_reverse] using last), List.reverse_reverse]

end Text

end LineaLang
