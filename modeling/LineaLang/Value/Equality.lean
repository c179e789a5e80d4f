import LineaLang.Value.Basic

/-!
# `LineaLang.Value.Equality` — when two values are equal, and which number is less

Numbers are compared by value and never by rounding one to the kind of the other: every integer and every
double but not-a-number has a `Rank`, its exact position on the extended number line counted in units of
`2 ^ -1074`. A truth value has the rank of zero or one. Equality of other values is equality of their
`Shape`, which forgets the kind of a number and the order of a dictionary.

## Contents

* `Rank` — a position on the number line with both infinities, and its order.
* `Value.rank?`, `Value.key?`, `Value.shape` — what equality sees of a number, a name, and any value.
* `Value.equal` — equality of the language: that of shapes, save that not-a-number differs from itself.
-/

namespace LineaLang

/-! ## The number line -/

/-- **A position on the extended number line**, in units of `2 ^ -1074`. -/
inductive Rank where
  | below
  | at (units : Int)
  | above
deriving DecidableEq

namespace Rank

/-- The order of the line. -/
def less : Rank → Rank → Bool
  | .below, .below => false
  | .below, _ => true
  | .at a, .at b => a < b
  | .at _, .above => true
  | _, _ => false

instance : LT Rank := ⟨fun a b => a.less b = true⟩

instance : DecidableLT Rank := fun a b => inferInstanceAs (Decidable (a.less b = true))

end Rank

/-- The position of a double; not-a-number has none. -/
def Binary64.rank? : Binary64 → Option Rank
  | .nan => none
  | .infinite negative => some (if negative then .below else .above)
  | .finite negative units _ => some (.at (signed negative units))

/-- The position of an integer. -/
def Rank.ofInt (n : Int) : Rank := .at (n * Binary64.unitsPerOne)

/-! ## Names and shapes -/

/-- **What a table of names sees of a name.** Names are texts in every parsed program; a tree from a file
    may use a number, found again by any number of equal value. -/
inductive Key where
  | none
  | number (rank : Option Rank)
  | str (text : Text)
deriving DecidableEq

/-- What equality sees of a value. Lists and dictionaries are chains of cells. -/
inductive Shape where
  | atom (key : Key)
  | emptyList
  | item (head tail : Shape)
  | emptyDict
  | entry (key : Text) (value rest : Shape)
deriving DecidableEq

namespace Shape

/-- Puts an entry at its place in a chain ordered by key. -/
def insertEntry (key : Text) (value : Shape) : Shape → Shape
  | .entry key' value' rest =>
    if key < key' then .entry key value (.entry key' value' rest)
    else .entry key' value' (insertEntry key value rest)
  | other => .entry key value other

end Shape

namespace Value

/-- The position of a number or a truth value; not-a-number has none. -/
def rank? : Value → Option Rank
  | .bool b => some (Rank.ofInt (if b then 1 else 0))
  | .int n => some (Rank.ofInt n)
  | .float x => x.rank?
  | _ => Option.none

/-- The key of a value as a name. Lists and dictionaries cannot be names. -/
def key? : Value → Except ValueFault Key
  | .none => .ok .none
  | .bool b => .ok (.number (Value.bool b).rank?)
  | .int n => .ok (.number (Value.int n).rank?)
  | .float x => .ok (.number x.rank?)
  | .str text => .ok (.str text)
  | .list items => .error (.notAName (Value.list items).dataKind)
  | .dict entries => .error (.notAName (Value.dict entries).dataKind)

mutual

/-- The shape of a value. -/
def shape : Value → Shape
  | .none => .atom .none
  | .bool b => .atom (.number (Value.bool b).rank?)
  | .int n => .atom (.number (Value.int n).rank?)
  | .float x => .atom (.number x.rank?)
  | .str text => .atom (.str text)
  | .list items => itemShapes items
  | .dict entries => entryShapes entries

/-- The cells of a list. -/
def itemShapes : List Value → Shape
  | [] => .emptyList
  | v :: rest => .item v.shape (itemShapes rest)

/-- The cells of a dictionary, ordered by key. -/
def entryShapes : List (Text × Value) → Shape
  | [] => .emptyDict
  | (key, v) :: rest => (entryShapes rest).insertEntry key v.shape

end

/-- Not-a-number as a value of its own; inside a list or a dictionary it equals itself. -/
def isNan : Value → Bool
  | .float .nan => true
  | _ => false

/-- **Equality of values**: that of their shapes, but not-a-number differs from everything. -/
def equal (a b : Value) : Bool := a.shape = b.shape && !a.isNan

end Value

end LineaLang
