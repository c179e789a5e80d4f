import LineaLang.Number.Decimal

/-!
# `LineaLang.Number.Shortest` — the shortest decimal that reads back

A double is written with the fewest significant digits that denote it again. On the grid of decimals with
`n` significant digits only the two neighbours of the value can be nearest to it, so both are tried, the
nearer first and of two equally near ones the even; the first grid with a hit wins. Seventeen digits always
suffice; the definition does not rest on that and ends with the exact expansion.

## Contents

* `Binary64.shortest` — the digits of a magnitude.
* `Binary64.Layout`, `Binary64.Layout.write` — where the point and the exponent go.
* `Binary64.repr` — a double as its literal: shortest digits, a point or an exponent always shown.
* `Binary64.display` — a double as a program prints it: without a fraction if it has none.
-/

namespace LineaLang.Binary64

attribute [local instance (2000)] instPowNat

/-! ## The digits -/

/-- The value of `units` units as a decimal with all its digits. -/
def exactDecimal (units : Nat) : Decimal := ⟨units * 5 ^ (1074 : Nat), -1074⟩

/-- The value of `units` units over `10 ^ exponent`, as a quotient. -/
def scaled (units : Nat) : Int → Nat × Nat
  | .ofNat e => (units, unitsPerOne * 10 ^ e)
  | .negSucc e => (units * 10 ^ (e + 1), unitsPerOne)

/-- The place of the first digit: the value is at least `10 ^ (place - 1)` and below `10 ^ place`. Scaling
    by `10 ^ 400` makes every positive double exceed one. -/
def leadingPlace (units : Nat) : Int :=
  ((Numeral.ofNat (units * 10 ^ (400 : Nat) / unitsPerOne)).length : Int) - 400

/-- The whole numbers around a quotient, the nearer first; of two equally near ones the even. -/
def neighbours (num den : Nat) : List Nat :=
  let below := num / den
  if roundHalfEven num den = below then [below, below + 1] else [below + 1, below]

/-- Does a decimal denote the double with `units` units? -/
def readsBack (units : Nat) (d : Decimal) : Bool :=
  match d.toBinary64 false with
  | .finite false u _ => u = units
  | _ => false

/-- A decimal with `count` significant digits that denotes the double, if there is one. -/
def withDigits? (units : Nat) (place : Int) (count : Nat) : Option Decimal :=
  let exponent := place - count
  let (num, den) := scaled units exponent
  ((neighbours num den).map (⟨·, exponent⟩)).find? (readsBack units)

/-- **The shortest decimal that denotes the double with `units` units.** -/
def shortest (units : Nat) : Decimal :=
  let place := leadingPlace units
  ((List.range 17).findSome? fun n => withDigits? units place (n + 1)).getD (exactDecimal units)

theorem withDigits?_readsBack {units : Nat} {place : Int} {count : Nat} {d : Decimal}
    (h : withDigits? units place count = some d) : readsBack units d = true := by
  unfold withDigits? at h
  exact List.find?_some h

/-! ## The layout -/

/-- How the digits of a number are laid out: with a plain point while the place of the first digit is in
    the range `leastPlace … greatestPlace`, else in scientific form with `mark` and at least
    `exponentWidth` digits of exponent. -/
structure Layout where
  leastPlace : Int
  greatestPlace : Int
  mark : CodePoint
  exponentWidth : Nat

/-- Zeros that make a numeral `width` digits long. -/
def padding (width : Nat) (numeral : Text) : Text :=
  List.replicate (width - numeral.length) (CodePoint.ofDigit 0)

/-- The exponent of the scientific form, always with its sign. -/
def Layout.writeExponent (l : Layout) (exponent : Int) : Text :=
  let numeral := Numeral.ofNat exponent.natAbs
  let sign : CodePoint := if exponent < 0 then '-' else '+'
  l.mark :: sign :: (padding l.exponentWidth numeral ++ numeral)

/-- The digits with the point `place` digits from their start. A point is always written, and a digit on
    either side of it. -/
def Layout.writePoint (digits : Text) : Int → Text
  | .negSucc n => "0." ++ List.replicate (n + 1) (CodePoint.ofDigit 0) ++ digits
  | .ofNat 0 => "0." ++ digits
  | .ofNat (n + 1) =>
    let whole := digits.take (n + 1)
    let fraction := digits.drop (n + 1)
    let filled := whole ++ List.replicate (n + 1 - whole.length) (CodePoint.ofDigit 0)
    filled ++ "." ++ (if fraction.isEmpty then [CodePoint.ofDigit 0] else fraction)

/-- **Writes digits without trailing zeros**, whose first stands `place` places before the point. -/
def Layout.write (l : Layout) (digits : Text) (place : Int) : Text :=
  if l.leastPlace ≤ place ∧ place ≤ l.greatestPlace then Layout.writePoint digits place
  else
    match digits with
    | [] => []
    | first :: rest =>
      (if rest.isEmpty then [first] else first :: CodePoint.ofChar '.' :: rest)
        ++ l.writeExponent (place - 1)

/-- **Numbers from `0.0001` to below `10 ^ 16` are written with a point**, others with an exponent of at
    least two digits. -/
def literalLayout : Layout where
  leastPlace := -3
  greatestPlace := 16
  mark := 'e'
  exponentWidth := 2

/-- The digits without the zeros at their end. -/
def stripZeros (digits : Text) : Text :=
  (digits.reverse.dropWhile (· = CodePoint.ofDigit 0)).reverse

/-- A positive magnitude in the literal layout. -/
def writeMagnitude (units : Nat) : Text :=
  let d := shortest units
  literalLayout.write (stripZeros (Numeral.ofNat d.digits)) d.place

/-- The sign in front of a magnitude. -/
def signText (negative : Bool) : Text := if negative then "-" else ""

/-- **A double as its literal**: the shortest digits that read back, with a point or an exponent. -/
def repr : Binary64 → Text
  | .nan => "nan"
  | .infinite s => signText s ++ "inf"
  | .finite s units _ => signText s ++ (if units = 0 then ("0.0" : Text) else writeMagnitude units)

/-- **A double as a program prints it**: a double without a fraction is printed as the integer that it is,
    with all digits and no sign at zero. -/
def display (x : Binary64) : Text :=
  match x.toInt? with
  | some n => Numeral.ofInt n
  | none => x.repr

/-- Reads what `repr` writes, and any other decimal literal under an optional sign. -/
def read? (text : Text) : Option Binary64 :=
  let (negative, magnitude) := text.splitSign
  if magnitude = Text.ofString "inf" then some (.infinite negative)
  else if text = Text.ofString "nan" then some .nan
  else (Decimal.readUnsigned? magnitude).map (·.toBinary64 negative)

end LineaLang.Binary64
