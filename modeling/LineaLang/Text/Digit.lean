import LineaLang.Text.Basic

/-!
# `LineaLang.Text.Digit` — decimal digits of all scripts

A number may be written with the decimal digits of any script: Unicode gives the digits of a script as a
run of ten consecutive code points, zero first. The table lists the zeros.

## Contents

* `Digit.zeros` — the code points with decimal value zero, in increasing order.
* `CodePoint.digit?` — the value of a decimal digit, below ten.
* `CodePoint.hexDigit?`, `CodePoint.octalDigit?` — the digits of the escapes, which are Latin only.
-/

namespace LineaLang

/-- **The zeros of Unicode's decimal digits** (general category `Nd`), each the first of a run of ten. -/
def Digit.zeros : List Nat :=
  [0x0030, 0x0660, 0x06F0, 0x07C0, 0x0966, 0x09E6, 0x0A66, 0x0AE6, 0x0B66, 0x0BE6,
   0x0C66, 0x0CE6, 0x0D66, 0x0DE6, 0x0E50, 0x0ED0, 0x0F20, 0x1040, 0x1090, 0x17E0,
   0x1810, 0x1946, 0x19D0, 0x1A80, 0x1A90, 0x1B50, 0x1BB0, 0x1C40, 0x1C50, 0xA620,
   0xA8D0, 0xA900, 0xA9D0, 0xA9F0, 0xAA50, 0xABF0, 0xFF10, 0x104A0, 0x10D30, 0x11066,
   0x110F0, 0x11136, 0x111D0, 0x112F0, 0x11450, 0x114D0, 0x11650, 0x116C0, 0x11730, 0x118E0,
   0x11950, 0x11C50, 0x11D50, 0x11DA0, 0x16A60, 0x16AC0, 0x16B50, 0x1D7CE, 0x1D7D8, 0x1D7E2,
   0x1D7EC, 0x1D7F6, 0x1E140, 0x1E2F0, 0x1E950, 0x1FBF0]

namespace CodePoint

/-- The value of a decimal digit of any script. -/
def digit? (c : CodePoint) : Option Nat :=
  (Digit.zeros.find? fun first => c.within first (first + 9)).map (c.val - ·)

/-- A decimal digit of any script. -/
def isDigit (c : CodePoint) : Bool := c.digit?.isSome

/-- The digit `n % 10` as it is written. -/
def ofDigit (n : Nat) : CodePoint :=
  ⟨0x30 + n % 10, Nat.lt_trans (Nat.add_lt_add_left (Nat.mod_lt n (by decide)) 0x30) (by decide)⟩

/-- The value of an octal digit `0 … 7`. -/
def octalDigit? (c : CodePoint) : Option Nat :=
  if c.within 0x30 0x37 then some (c.val - 0x30) else none

/-- The value of a hexadecimal digit, of either case. -/
def hexDigit? (c : CodePoint) : Option Nat :=
  if c.within 0x30 0x39 then some (c.val - 0x30)
  else if c.within 0x61 0x66 then some (c.val - 0x57)
  else if c.within 0x41 0x46 then some (c.val - 0x37)
  else none

/-- The hexadecimal digit of value `n % 16`, in lower case. -/
def ofHexDigit (n : Nat) : CodePoint :=
  let d := n % 16
  have hd : d < 16 := Nat.mod_lt n (by decide)
  if d < 10 then ⟨0x30 + d, by omega⟩ else ⟨0x57 + d, by omega⟩

theorem hexDigit?_ofHexDigit (n : Nat) : (ofHexDigit n).hexDigit? = some (n % 16) := by
  unfold ofHexDigit hexDigit? within
  have hd : n % 16 < 16 := Nat.mod_lt n (by decide)
  by_cases h : n % 16 < 10
  · simp only [h, ↓reduceIte]
    simp; omega
  · simp only [h, ↓reduceIte]
    have h1 : ¬ (0x57 + n % 16 ≤ 0x39) := by omega
    have h2 : 0x61 ≤ 0x57 + n % 16 := by omega
    have h3 : 0x57 + n % 16 ≤ 0x66 := by omega
    simp [h2, h3, h1]

end CodePoint

end LineaLang
