import LineaLang.Text.Whitespace
import LineaLang.Text.Quoted

/-!
# `LineaLang.Text.Numeral` — decimal numerals

Integers as text and back. Writing is total. Reading accepts the decimal digits of any script and refuses
a numeral of more than `Numeral.limit` digits, leading zeros counted: the work of reading one grows with
the square of its length. Digits may be grouped by underscores, and a numeral may stand between whitespace and
under a sign.

## Contents

* `Numeral.ofNat`, `Numeral.ofInt` — the numeral of a number, without leading zeros.
* `Numeral.value?` — the number that a run of digits denotes.
* `Numeral.read` — the same under the limit, with the cause of a refusal.
* `Text.splitSign`, `Text.ungrouped?` — the sign in front of a text, and a text without the underscores
  between its digits.
* `Numeral.readInteger` — the integer of a numeral with a sign, whitespace and underscores.
-/

namespace LineaLang

/-- Why a numeral was not read. -/
inductive NumeralFault where
  /-- More digits than `Numeral.limit`. -/
  | tooLong (digits : Nat)
  /-- A text that is no numeral; `fractional` tells which kind of number was wanted. -/
  | malformed (fractional : Bool) (text : Text)
deriving DecidableEq

namespace Numeral

/-! ## Writing -/

/-- The digits of `n`, most significant first, in front of `tail`. -/
def natOnto (n : Nat) (tail : Text) : Text :=
  if n < 10 then CodePoint.ofDigit n :: tail
  else natOnto (n / 10) (CodePoint.ofDigit n :: tail)
termination_by n
decreasing_by omega

/-- The numeral of a natural number. -/
def ofNat (n : Nat) : Text := natOnto n []

/-- The numeral of an integer, with a leading `-` below zero. -/
def ofInt : Int → Text
  | .ofNat n => ofNat n
  | .negSucc n => CodePoint.ofChar '-' :: ofNat (n + 1)

/-! ## Reading -/

/-- The most digits an integer numeral may have. -/
def limit : Nat := 4300

/-- Continues the number `acc` with further digits. -/
def valueFrom (acc : Nat) : Text → Option Nat
  | [] => some acc
  | c :: rest =>
    match c.digit? with
    | some d => valueFrom (10 * acc + d) rest
    | none => none

/-- **The number that a run of digits denotes**; none if the run is empty or holds anything else. -/
def value? (digits : Text) : Option Nat :=
  if digits.isEmpty then none else valueFrom 0 digits

/-- The number that an integer numeral denotes. Its length is examined before its value. -/
def read (digits : Text) : Except NumeralFault Nat :=
  match value? digits with
  | none => .error (.malformed false digits)
  | some n => if digits.length > limit then .error (.tooLong digits.length) else .ok n

end Numeral

/-! ## Signs and groups -/

namespace Text

/-- The sign in front of a text, if any, and what follows it. -/
def splitSign (text : Text) : Bool × Text :=
  match text with
  | [] => (false, [])
  | c :: rest =>
    if c = CodePoint.ofChar '-' then (true, rest)
    else if c = CodePoint.ofChar '+' then (false, rest)
    else (false, c :: rest)

/-- The mark between groups of digits. -/
def groupMark : CodePoint := '_'

/-- Removes underscores from what follows a digit, or something else. -/
def ungroupedFrom? (isDigit : CodePoint → Bool) : (afterDigit : Bool) → Text → Option Text
  | _, [] => some []
  | afterDigit, c :: rest =>
    if c = groupMark then
      if afterDigit ∧ rest.head?.any isDigit then ungroupedFrom? isDigit false rest else none
    else (ungroupedFrom? isDigit (isDigit c) rest).map (c :: ·)

/-- **The text without its underscores**, if each of them stands between two digits. -/
def ungrouped? (isDigit : CodePoint → Bool) (text : Text) : Option Text := ungroupedFrom? isDigit false text

end Text

/-- **The integer that a numeral denotes**: digits in groups, under an optional sign, between whitespace. The
    length of the digits is examined before what follows them. -/
def Numeral.readInteger (text : Text) : Except NumeralFault Int :=
  let (negative, magnitude) := text.trim.splitSign
  let grouped : Text := magnitude.takeWhile fun c => c.isDigit || c = Text.groupMark
  match Text.ungrouped? CodePoint.isDigit grouped with
  | none => .error (.malformed false text)
  | some digits =>
    if digits.length > limit then .error (.tooLong digits.length)
    else if grouped.length < magnitude.length then .error (.malformed false text)
    else
      match value? digits with
      | none => .error (.malformed false text)
      | some n => .ok (if negative then -(n : Int) else n)

/-! ## Reports -/

/-- How much of a text is shown where an integer was wanted. -/
def Numeral.shownLength : Nat := 200

/-- The report on a numeral that was not read. -/
def NumeralFault.message : NumeralFault → Text
  | .tooLong digits =>
    "Exceeds the limit (" ++ Numeral.ofNat Numeral.limit
      ++ " digits) for integer string conversion: value has " ++ Numeral.ofNat digits
      ++ " digits; use sys.set_int_max_str_digits() to increase the limit"
  | .malformed false text =>
    "invalid literal for int() with base 10: " ++ text.quoted.take Numeral.shownLength
  | .malformed true text => "could not convert string to float: " ++ text.quoted

end LineaLang
