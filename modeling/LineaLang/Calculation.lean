import LineaLang.RuntimeError
import LineaLang.Value.Equality

/-!
# `LineaLang.Calculation` — operators applied to values

The meaning of the operators. Integers are exact and doubles are rounded once; where the two kinds meet,
arithmetic rounds the integer to a double and comparison does not. Every numeric result lies in the range
of the finite doubles, or the calculation is an overflow.

## Contents

* `Calculation.arith` — arithmetic, and `+` as concatenation where an operand is a string.
* `Calculation.compare` — equality of any two values, order of two numbers or two strings.
* `Calculation.arithWith`, `Calculation.compareWith` — the same where an operator may be missing.
-/

namespace LineaLang.Calculation

/-! ## Numbers -/

/-- The two kinds of number. -/
inductive Number where
  | int (n : Int)
  | float (x : Binary64)
deriving DecidableEq

namespace Number

/-- A value as a number. -/
def ofValue? : Value → Option Number
  | .int n => some (.int n)
  | .float x => some (.float x)
  | _ => none

/-- A number as a value. -/
def toValue : Number → Value
  | .int n => .int n
  | .float x => .float x

/-- Zero of either kind and sign. -/
def isZero : Number → Bool
  | .int n => n = 0
  | .float x => x.isZero

/-- The double nearest to a number, unless an integer is beyond the doubles. -/
def toBinary64? : Number → Option Binary64
  | .float x => some x
  | .int n => if (Binary64.ofInt n).isInfinite then none else some (Binary64.ofInt n)

/-- **Is a number kept?** Integers are bounded by the greatest double, and doubles must not be infinite. -/
def inRange : Number → Bool
  | .int n => Value.intInRange n
  | .float x => !x.isInfinite

end Number

/-- The operation of an operator on doubles. -/
def onDoubles : ArithOp → Binary64 → Binary64 → Binary64
  | .add => Binary64.add
  | .sub => Binary64.sub
  | .mul => Binary64.mul
  | .div => Binary64.div

/-- The result of an operator on integers: exact, but a quotient is the nearest double. -/
def onInts : ArithOp → Int → Int → Number
  | .add, a, b => .int (a + b)
  | .sub, a, b => .int (a - b)
  | .mul, a, b => .int (a * b)
  | .div, a, b => .float (Binary64.ofQuotient a b)

/-- The result of an operator on numbers; none if an integer operand has no double although it meets one. -/
def onNumbers? (op : ArithOp) : Number → Number → Option Number
  | .int a, .int b => some (onInts op a b)
  | a, b => do
    let x ← a.toBinary64?
    let y ← b.toBinary64?
    return .float (onDoubles op x y)

/-! ## Arithmetic -/

/-- **Applies an arithmetic operator.** In this order: `+` concatenates if an operand is a string; other
    operands must be numbers; division by any zero is an error; a result out of range is an error. -/
def arith (op : ArithOp) (a b : Value) : Except RuntimeError Value :=
  if op = .add ∧ (a.isText ∨ b.isText) then .ok (.str (a.display ++ b.display))
  else
    match Number.ofValue? a, Number.ofValue? b with
    | some x, some y =>
      if op = .div ∧ y.isZero then .error .divisionByZero
      else
        match onNumbers? op x y with
        | some r => if r.inRange then .ok r.toValue else .error (.numericOverflow op)
        | none => .error (.numericOverflow op)
    | _, _ => .error (.operandKinds op a.kind b.kind)

/-! ## Comparison -/

/-- How two comparable values stand to each other. Not-a-number stands in no order to anything. -/
def isLess? : Value → Value → Option Bool
  | .str s, .str t => some (s < t)
  | a, b =>
    if a.isNumber ∧ b.isNumber then
      match a.rank?, b.rank? with
      | some x, some y => some (x < y)
      | _, _ => some false
    else none

/-- **Applies a comparison.** Any two values are equal or not. Order needs two numbers or two strings, and
    "at most" is "less or equal". -/
def compare (op : CompareOp) (a b : Value) : Except RuntimeError Bool :=
  match op with
  | .eq => .ok (a.equal b)
  | .neq => .ok !(a.equal b)
  | .lt => order (isLess? a b)
  | .le => order ((isLess? a b).map (· || a.equal b))
  | .gt => order (isLess? b a)
  | .ge => order ((isLess? b a).map (· || a.equal b))
where
  order : Option Bool → Except RuntimeError Bool
    | some answer => .ok answer
    | none => .error (.unorderedKinds op a.kind b.kind)

/-! ## Missing operators -/

/-- Why a calculation gave no value. -/
inductive Fault where
  | runtime (e : RuntimeError)
  /-- No operator was given. -/
  | noOperator (family : OperatorFamily)
  /-- No operator was given to name in the report on the operands. -/
  | unnamedOperator

/-- The report on a missing operator. -/
def missingOperatorMessage : OperatorFamily → Text
  | .arithmetic => "unknown arithmetic operator None"
  | .comparison => "unknown comparison operator None"

/-- Applies an arithmetic operator if there is one. Without one the operands are still examined first. -/
def arithWith : Option ArithOp → Value → Value → Except Fault Value
  | some op, a, b => (arith op a b).mapError .runtime
  | none, a, b =>
    if a.isNumber ∧ b.isNumber then .error (.noOperator .arithmetic) else .error .unnamedOperator

/-- Applies a comparison if there is one. Without one the operands are still examined first. -/
def compareWith : Option CompareOp → Value → Value → Except Fault Bool
  | some op, a, b => (compare op a b).mapError .runtime
  | none, a, b =>
    if (isLess? a b).isSome then .error (.noOperator .comparison) else .error .unnamedOperator

end LineaLang.Calculation
