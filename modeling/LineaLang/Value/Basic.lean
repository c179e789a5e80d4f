import LineaLang.Number.Binary64
import LineaLang.Text.Numeral

/-!
# `LineaLang.Value.Basic` — the values of the language

A program computes with numbers, strings, truth values and the absent value that a call without `return`
gives. Trees read from a file may put lists and dictionaries in the place of literals and names; they are
values too, although no operator accepts them. So one type serves running programs and the structured data
of files.

## Contents

* `Value` — the values.
* `Value.kind` — the name of a value's kind as the language reports it, and `Value.dataKind` as a report on
  structured data names it.
* `Value.isTruthy` — which values a condition takes for true.
* `Value.isNumber`, `Value.inRange?` — numbers and the range they are kept in.
* `Value.negated`, `Value.ofEntries` — a number with its sign changed, a dictionary without repeated names.
-/

namespace LineaLang

attribute [local instance (2000)] instPowNat

/-- **A value.** Numbers are integers of any size or doubles; a dictionary keeps its entries in order. -/
inductive Value where
  | none
  | bool (b : Bool)
  | int (n : Int)
  | float (x : Binary64)
  | str (text : Text)
  | list (items : List Value)
  | dict (entries : List (Text × Value))
deriving Inhabited

/-- Why a value could not be used in a place that wants a value of some kind. -/
inductive ValueFault where
  /-- The magnitude of something that is no number. -/
  | noMagnitude (dataKind : Text)
  /-- A list or a dictionary as a name. -/
  | notAName (dataKind : Text)
  /-- Members of something that has none. -/
  | noMembers (dataKind : Text)
  /-- A part of a joined text that is no text. -/
  | notText (index : Nat) (dataKind : Text)
deriving DecidableEq

namespace ValueFault

/-- The report on a misplaced value. -/
def message : ValueFault → Text
  | .noMagnitude kind => "bad operand type for abs(): '" ++ kind ++ "'"
  | .notAName kind => "unhashable type: '" ++ kind ++ "'"
  | .noMembers kind => "'" ++ kind ++ "' object is not iterable"
  | .notText index kind =>
    "sequence item " ++ Numeral.ofNat index ++ ": expected str instance, " ++ kind ++ " found"

end ValueFault

namespace Value

/-- The kind of a value as reports on structured data name it. -/
def dataKind : Value → Text
  | .none => "NoneType"
  | .bool _ => "bool"
  | .int _ => "int"
  | .float _ => "float"
  | .str _ => "str"
  | .list _ => "list"
  | .dict _ => "dict"

/-- **The kind of a value as the language names it**; both kinds of number are one. -/
def kind : Value → Text
  | .none => "None"
  | .bool _ => "Bool"
  | .int _ => "Number"
  | .float _ => "Number"
  | .str _ => "Str"
  | .list _ => "list"
  | .dict _ => "dict"

/-- A number is an integer or a double; a truth value is none. -/
def isNumber : Value → Bool
  | .int _ => true
  | .float _ => true
  | _ => false

def isText : Value → Bool
  | .str _ => true
  | _ => false

/-- **What a condition takes for true**: everything but the absent value, false, the zeros and what is
    empty. -/
def isTruthy : Value → Bool
  | .none => false
  | .bool b => b
  | .int n => n ≠ 0
  | .float x => !x.isZero
  | .str text => !text.isEmpty
  | .list items => !items.isEmpty
  | .dict entries => !entries.isEmpty

/-- The greatest finite double, `2 ^ 1024 - 2 ^ 971`, which bounds integers too. -/
def maxNumber : Nat := (2 ^ (53 : Nat) - 1) * 2 ^ (971 : Nat)

/-- Does an integer lie in the range of the finite doubles? -/
def intInRange (n : Int) : Bool := n.natAbs ≤ maxNumber

/-- **Is a number in range?** Integers are bounded by the greatest double; of the doubles the infinities
    are out of range and not-a-number is let through. A truth value counts as zero or one. -/
def inRange? : Value → Except ValueFault Bool
  | .float x => .ok !x.isInfinite
  | .int n => .ok (intInRange n)
  | .bool _ => .ok true
  | v => .error (.noMagnitude v.dataKind)

/-- The value with its sign changed, where it is a number. -/
def negated : Value → Value
  | .int n => .int (-n)
  | .float x => .float x.neg
  | v => v

/-- The entries with one more, in the place of an entry of the same name. -/
def putEntry (name : Text) (value : Value) : List (Text × Value) → List (Text × Value)
  | [] => [(name, value)]
  | (name', value') :: rest =>
    if name' = name then (name, value) :: rest else (name', value') :: putEntry name value rest

/-- **The dictionary of some entries**, of which the last with a name counts, in the place of the first. -/
def ofEntries (entries : List (Text × Value)) : Value :=
  .dict (entries.foldl (fun acc entry => putEntry entry.1 entry.2 acc) [])

end Value

end LineaLang
