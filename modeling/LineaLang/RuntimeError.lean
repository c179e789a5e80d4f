import LineaLang.Operator

/-!
# `LineaLang.RuntimeError` — the errors of a running program

Each error is the rule that was broken, with the facts that name it. The category, the wording and the
three optional facts of a report are read off the cause.

## Contents

* `RuntimeError` — the causes.
* `RuntimeError.category`, `RuntimeError.detail`, `RuntimeError.message` — the wording.
* `RuntimeError.name?`, `RuntimeError.expected?`, `RuntimeError.actual?` — the facts, where a cause has them.
-/

namespace LineaLang

/-- **Why a program stopped.** A name is a value, since a tree from a file may use any value as a name. -/
inductive RuntimeError where
  | divisionByZero
  | undefinedVariable (name : Value)
  | undefinedFunction (name : Value)
  | arityMismatch (name : Value) (expected actual : Nat)
  | iterationLimit (limit : Nat)
  | callDepth (name : Value) (limit : Nat)
  | nestingLimit
  | numericOverflow (op : ArithOp)
  /-- Operands of kinds that an arithmetic operator does not take. -/
  | operandKinds (op : ArithOp) (left right : Text)
  /-- Operands of kinds that a comparison does not order. -/
  | unorderedKinds (op : CompareOp) (left right : Text)

namespace RuntimeError

/-- The category of an error. -/
def category : RuntimeError → Text
  | .divisionByZero => "DivisionByZero"
  | .undefinedVariable _ => "UndefinedVariable"
  | .undefinedFunction _ => "UndefinedFunction"
  | .arityMismatch .. => "ArityMismatch"
  | .iterationLimit _ => "IterationLimitExceeded"
  | .callDepth .. => "RecursionLimitExceeded"
  | .nestingLimit => "RecursionLimitExceeded"
  | .numericOverflow _ => "NumericOverflow"
  | .operandKinds .. => "TypeMismatch"
  | .unorderedKinds .. => "TypeMismatch"

/-- What happened, in words. -/
def detail : RuntimeError → Text
  | .divisionByZero => "division by zero"
  | .undefinedVariable name => "undefined variable '" ++ name.plain ++ "'"
  | .undefinedFunction name => "undefined function '" ++ name.plain ++ "'"
  | .arityMismatch name expected actual =>
    "function '" ++ name.plain ++ "' expects " ++ Numeral.ofNat expected ++ " arguments, got "
      ++ Numeral.ofNat actual
  | .iterationLimit limit => "while loop exceeded " ++ Numeral.ofNat limit ++ " iterations"
  | .callDepth name limit =>
    "call depth exceeded " ++ Numeral.ofNat limit ++ " in function '" ++ name.plain ++ "'"
  | .nestingLimit => "program is nested too deeply to evaluate"
  | .numericOverflow op => "result of " ++ op.code ++ " is too large"
  | .operandKinds op left right =>
    "unsupported operand types for " ++ op.code ++ ": " ++ left ++ " and " ++ right
  | .unorderedKinds op left right =>
    "cannot compare " ++ left ++ " and " ++ right ++ " with " ++ op.code

/-- **The report on an error**: its category and what happened. -/
def message (e : RuntimeError) : Text := e.category ++ ": " ++ e.detail

/-- The name that an error is about. -/
def name? : RuntimeError → Option Value
  | .undefinedVariable name => some name
  | .undefinedFunction name => some name
  | .arityMismatch name _ _ => some name
  | .callDepth name _ => some name
  | _ => none

/-- The number that an error says was wanted or allowed. -/
def expected? : RuntimeError → Option Nat
  | .arityMismatch _ expected _ => some expected
  | .iterationLimit limit => some limit
  | .callDepth _ limit => some limit
  | _ => none

/-- The number that an error says was found. -/
def actual? : RuntimeError → Option Nat
  | .arityMismatch _ _ actual => some actual
  | _ => none

end RuntimeError

end LineaLang
