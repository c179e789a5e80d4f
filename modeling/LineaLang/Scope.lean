import LineaLang.Failure
import LineaLang.Value.Equality

/-!
# `LineaLang.Scope` — the names that a program can see

There is one table of globals, one table of functions, and a stack of frames, one for each call that is
open. Of the frames only the innermost is visible: a function sees its own parameters and the globals, and
never the locals of its caller. Assignment changes a local that exists and a global otherwise; declaration
makes a local inside a call and a global outside.

## Contents

* `Table` — a finite map from keys, with `find?` and `insert`.
* `Scope` — with `local?`, `lookup?`, `assign`, `declare`, `define`, `enter` and `leave`.
* `Scope.get`, `Scope.set`, `Scope.callee` — the same for names, which may be refused.

The lemmas on `Table` state what an insertion does to each look-up.
-/

namespace LineaLang

/-! ## Tables -/

/-- **A finite map from keys**, in the order of first insertion. -/
structure Table (α : Type) where
  entries : List (Key × α)

namespace Table

variable {α : Type}

/-- The table without entries. -/
def empty : Table α := ⟨[]⟩

/-- The value at a key in some entries. -/
def findIn (key : Key) : List (Key × α) → Option α
  | [] => none
  | (key', a) :: rest => if key' = key then some a else findIn key rest

/-- Puts a value at a key into some entries: in the place of the value that was there, or at the end. -/
def insertIn (key : Key) (a : α) : List (Key × α) → List (Key × α)
  | [] => [(key, a)]
  | (key', a') :: rest =>
    if key' = key then (key', a) :: rest else (key', a') :: insertIn key a rest

/-- **The value at a key.** -/
def find? (t : Table α) (key : Key) : Option α := findIn key t.entries

/-- Is there a value at a key? -/
def contains (t : Table α) (key : Key) : Bool := (t.find? key).isSome

/-- **The table with a value at a key.** -/
def insert (t : Table α) (key : Key) (a : α) : Table α := ⟨insertIn key a t.entries⟩

/-- The table of some pairs, of which the last wins. -/
def ofPairs (pairs : List (Key × α)) : Table α :=
  pairs.foldl (fun t entry => t.insert entry.1 entry.2) empty

theorem findIn_insertIn_self (key : Key) (a : α) (entries : List (Key × α)) :
    findIn key (insertIn key a entries) = some a := by
  induction entries with
  | nil => simp [insertIn, findIn]
  | cons entry rest ih =>
    by_cases h : entry.1 = key
    · simp [insertIn, findIn, h]
    · simp [insertIn, findIn, h, ih]

theorem findIn_insertIn_of_ne {key other : Key} (h : other ≠ key) (a : α) (entries : List (Key × α)) :
    findIn other (insertIn key a entries) = findIn other entries := by
  induction entries with
  | nil => simp [insertIn, findIn, Ne.symm h]
  | cons entry rest ih =>
    by_cases hk : entry.1 = key
    · simp [insertIn, findIn, hk, Ne.symm h]
    · simp [insertIn, findIn, hk, ih]

@[simp] theorem find?_insert_self (t : Table α) (key : Key) (a : α) :
    (t.insert key a).find? key = some a := findIn_insertIn_self key a t.entries

@[simp] theorem find?_insert_of_ne {key other : Key} (h : other ≠ key) (t : Table α) (a : α) :
    (t.insert key a).find? other = t.find? other := findIn_insertIn_of_ne h a t.entries

@[simp] theorem find?_empty (key : Key) : (empty : Table α).find? key = none := rfl

/-- The entries whose key is a text. -/
def texts (t : Table α) : List (Text × α) :=
  t.entries.filterMap fun entry =>
    match entry.1 with
    | .str text => some (text, entry.2)
    | _ => none

/-- The entries whose key is a text, in the order of the texts. -/
def sorted (t : Table α) : List (Text × α) :=
  t.texts.mergeSort fun a b => !(b.1 < a.1)

end Table

/-! ## Scopes -/

/-- **The names that a program can see.** The innermost frame comes first. -/
structure Scope where
  globals : Table Value
  functions : Table Node
  frames : List (Table Value)

/-- No frame is open. -/
inductive ScopeFault where
  | noFrame
deriving DecidableEq

/-- The report on a frame that cannot be closed. -/
def ScopeFault.message : ScopeFault → Text
  | .noFrame => "pop from empty list"

namespace Scope

/-- Nothing is known, and no call is open. -/
def empty : Scope := ⟨.empty, .empty, []⟩

/-- How many calls are open. -/
def depth (s : Scope) : Nat := s.frames.length

/-- The frame of the innermost call. -/
def local? (s : Scope) : Option (Table Value) := s.frames.head?

/-- Is a key bound in the innermost frame? -/
def isLocal (s : Scope) (key : Key) : Bool :=
  match s.frames with
  | [] => false
  | frame :: _ => frame.contains key

/-- Binds a key in the innermost frame. -/
def setLocal (s : Scope) (key : Key) (v : Value) : Scope :=
  match s.frames with
  | [] => s
  | frame :: outer => { s with frames := frame.insert key v :: outer }

/-- Binds a key in the globals. -/
def setGlobal (s : Scope) (key : Key) (v : Value) : Scope :=
  { s with globals := s.globals.insert key v }

/-- **The value of a variable**: that of the innermost frame, or else the global one. -/
def lookup? (s : Scope) (key : Key) : Option Value :=
  match s.local?.bind (·.find? key) with
  | some v => some v
  | none => s.globals.find? key

/-- **Assignment**: a local that exists is changed, otherwise a global is. -/
def assign (s : Scope) (key : Key) (v : Value) : Scope :=
  if s.isLocal key then s.setLocal key v else s.setGlobal key v

/-- **Declaration**: inside a call it makes a local, outside a global. -/
def declare (s : Scope) (key : Key) (v : Value) : Scope :=
  if s.frames.isEmpty then s.setGlobal key v else s.setLocal key v

/-- Declares a function, in the place of an earlier one of that name. -/
def define (s : Scope) (key : Key) (function : Node) : Scope :=
  { s with functions := s.functions.insert key function }

/-- Opens a frame. -/
def enter (s : Scope) (frame : Table Value) : Scope := { s with frames := frame :: s.frames }

/-- Closes the innermost frame, if there is one. -/
def leave (s : Scope) : Scope := { s with frames := s.frames.tail }

/-- Closes the innermost frame. -/
def leave? (s : Scope) : Except ScopeFault Scope :=
  if s.frames.isEmpty then .error .noFrame else .ok s.leave

@[simp] theorem leave_enter (s : Scope) (frame : Table Value) : (s.enter frame).leave = s := rfl

/-! ## Names

A name is a value, and some values cannot be names. -/

/-- The key of a name. -/
def key (name : Value) : Except RunFailure Key := name.key?.mapError fun fault => .fault (.value fault)

/-- **The value of the variable with a name.** -/
def get (s : Scope) (name : Value) : Except RunFailure Value := do
  match s.lookup? (← key name) with
  | some v => return v
  | none => throw (.error (.undefinedVariable name))

/-- The scope after an assignment to a name. -/
def set (s : Scope) (name v : Value) : Except RunFailure Scope := do
  return s.assign (← key name) v

/-- The scope after the declaration of a variable. -/
def declareName (s : Scope) (name v : Value) : Except RunFailure Scope := do
  return s.declare (← key name) v

/-- The scope after the declaration of a function. -/
def defineName (s : Scope) (name : Value) (function : Node) : Except RunFailure Scope := do
  return s.define (← key name) function

/-- **The function with a name.** -/
def callee (s : Scope) (name : Value) : Except RunFailure Node := do
  match s.functions.find? (← key name) with
  | some function => return function
  | none => throw (.error (.undefinedFunction name))

end Scope

end LineaLang
