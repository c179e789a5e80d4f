import LineaLang.Number.Binary64
import LineaLang.Text.Numeral

/-!
# `LineaLang.Number.Decimal` — decimal fractions and the doubles nearest to them

A decimal fraction is a whole number of digits times a power of ten. It denotes the double nearest to its
exact value, so reading rounds once, however many digits there are.

## Contents

* `Decimal` — `digits * 10 ^ exponent`.
* `Decimal.toBinary64` — the nearest double.
* `Decimal.read?` — the decimal that a text such as `12.50` or `-3e+07` denotes, and `Decimal.readGrouped?`
  for one such as `1_000.5`.
-/

namespace LineaLang

attribute [local instance (2000)] instPowNat

/-- The decimal fraction `digits * 10 ^ exponent`. -/
structure Decimal where
  digits : Nat
  exponent : Int
deriving DecidableEq

namespace Decimal

/-- How many places the first digit stands before the decimal point: the value is below `10 ^ place` and,
    unless it is zero, at least `10 ^ (place - 1)`. -/
def place (d : Decimal) : Int := d.exponent + (Numeral.ofNat d.digits).length

/-- No double lies at or above `10 ^ 309`, so with a larger place the value is beyond the range. -/
def maxPlace : Int := 310

/-- Half the least positive double is above `10 ^ -324`, so with a smaller place the value rounds to
    zero. -/
def minPlace : Int := -330

/-- **The double nearest to a decimal fraction**, with the given sign. The power of ten is formed only
    where the result is neither zero nor infinite for its size alone. -/
def toBinary64 (negative : Bool) (d : Decimal) : Binary64 :=
  if d.digits = 0 ∨ d.place < minPlace then .zero negative
  else if maxPlace < d.place then .infinite negative
  else
    match d.exponent with
    | .ofNat e => .ofRatio negative (d.digits * 10 ^ e) 1
    | .negSucc e => .ofRatio negative d.digits (10 ^ (e + 1))

/-! ## Reading -/

/-- The exponent part after its mark: digits under an optional sign. -/
def readExponent? (text : Text) : Option Int :=
  let (negative, digits) := text.splitSign
  (Numeral.value? digits).map (Binary64.signed negative)

/-- The digits of a mantissa, with or without a decimal point. There must be digits on one side of it. -/
def readMantissa? (text : Text) : Option Decimal :=
  match Text.splitAt? '.' text with
  | none => (Numeral.value? text).map (⟨·, 0⟩)
  | some (whole, fraction) =>
    (Numeral.value? (whole ++ fraction)).map (⟨·, -(fraction.length : Int)⟩)

/-- **Reads an unsigned decimal**: digits, a fraction after a point, an exponent after `e` or `E`. -/
def readUnsigned? (text : Text) : Option Decimal :=
  match (Text.splitAt? 'e' text).orElse fun _ => Text.splitAt? 'E' text with
  | none => readMantissa? text
  | some (mantissa, power) => do
    let d ← readMantissa? mantissa
    let e ← readExponent? power
    return ⟨d.digits, d.exponent + e⟩

/-- Reads a decimal under an optional sign, to the sign and the magnitude. -/
def read? (text : Text) : Option (Bool × Decimal) :=
  let (negative, magnitude) := text.splitSign
  (readUnsigned? magnitude).map (negative, ·)

/-- Reads a decimal that may stand between whitespace and have its digits in groups. -/
def readGrouped? (text : Text) : Option (Bool × Decimal) :=
  (text.trim.ungrouped? CodePoint.isDigit).bind read?

end Decimal

end LineaLang
