import LineaLang.Value.Display

/-!
# `LineaLang.Operator` — the operators of the language

Four arithmetic operators and six comparisons. Each has a code, by which a tree refers to it in views,
listings and files.

## Contents

* `ArithOp`, `CompareOp` — the operators.
* `ArithOp.code`, `CompareOp.code` — their codes, and `ofValue` to find an operator by its code.
-/

namespace LineaLang

/-- The arithmetic operators. -/
inductive ArithOp where
  | add
  | sub
  | mul
  | div
deriving DecidableEq

/-- The comparisons. -/
inductive CompareOp where
  | eq
  | neq
  | lt
  | le
  | gt
  | ge
deriving DecidableEq

/-- The two families of operators. -/
inductive OperatorFamily where
  | arithmetic
  | comparison
deriving DecidableEq

/-- A code that no operator of a family has. -/
structure UnknownOperator where
  family : OperatorFamily
  code : Value

/-- The report on an unknown code. -/
def UnknownOperator.message (fault : UnknownOperator) : Text :=
  let family : Text := match fault.family with
    | .arithmetic => "ArithOp"
    | .comparison => "CompareOp"
  fault.code.repr ++ " is not a valid " ++ family

/-- The entry of a table of codes whose code is the text `v`. -/
def findCode? {α : Type} (code : α → Text) (all : List α) (v : Value) : Option α :=
  match v with
  | .str text => all.find? fun op => code op = text
  | _ => none

namespace ArithOp

/-- The code of an arithmetic operator is its name. -/
def code : ArithOp → Text
  | .add => "Add"
  | .sub => "Sub"
  | .mul => "Mul"
  | .div => "Div"

def all : List ArithOp := [.add, .sub, .mul, .div]

/-- **The arithmetic operator with a given code.** -/
def ofValue (v : Value) : Except UnknownOperator ArithOp :=
  match findCode? code all v with
  | some op => .ok op
  | none => .error ⟨.arithmetic, v⟩

end ArithOp

namespace CompareOp

/-- The code of a comparison is its symbol. -/
def code : CompareOp → Text
  | .eq => "=="
  | .neq => "!="
  | .lt => "<"
  | .le => "<="
  | .gt => ">"
  | .ge => ">="

def all : List CompareOp := [.eq, .neq, .lt, .le, .gt, .ge]

/-- **The comparison with a given code.** -/
def ofValue (v : Value) : Except UnknownOperator CompareOp :=
  match findCode? code all v with
  | some op => .ok op
  | none => .error ⟨.comparison, v⟩

end CompareOp

end LineaLang
