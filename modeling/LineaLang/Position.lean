import LineaLang.Text.Numeral

/-!
# `LineaLang.Position` — places in a text

Lines and columns are counted from one, offsets from zero, and all three count code points.

## Contents

* `Position`, `Position.advance` — a place in a text, and the place after one more code point.
* `Position.after` — the place after a whole text.
-/

namespace LineaLang

/-- A place in a text. -/
structure Position where
  line : Nat
  column : Nat
  offset : Nat
deriving DecidableEq

namespace Position

/-- Where a text begins. -/
def start : Position := ⟨1, 1, 0⟩

/-- **The position after one more code point.** Only a line feed starts a new line. -/
def advance (p : Position) (c : CodePoint) : Position :=
  if c = Text.newline then ⟨p.line + 1, 1, p.offset + 1⟩
  else ⟨p.line, p.column + 1, p.offset + 1⟩

/-- A line and a column as a message shows them. -/
def describe (line column : Nat) : Text := Numeral.ofNat line ++ ":" ++ Numeral.ofNat column

/-- **The position after a text** that begins at `p`. -/
def after (p : Position) (text : Text) : Position := text.foldl advance p

@[simp] theorem after_nil (p : Position) : p.after [] = p := rfl

@[simp] theorem after_cons (p : Position) (c : CodePoint) (text : Text) :
    p.after (c :: text) = (p.advance c).after text := rfl

theorem after_append (p : Position) (a b : Text) : p.after (a ++ b) = (p.after a).after b :=
  List.foldl_append

end Position

end LineaLang
