import LineaLang.Scope
import LineaLang.Value.Display

/-!
# `LineaLang.Machine.Basic` — the state of a running program

A machine holds the scope, what has been printed, and a log of what it did. Notes go to the log while it is
open; after that they go to the console, between the printed values. The log is a file, so a note with a
surrogate does not go there and ends the run. So does a line that the console does not take, whether it
shows a printed value or a note; what was written before it stays. How much is noted depends on the
verbosity: at level one the course of a run, at level two declarations and calls, at level three branches
and iterations.

## Contents

* `Note`, `Note.level`, `Note.line` — the notes.
* `Console` — what takes lines, and which it takes.
* `Emission` — what reaches the console.
* `Machine` — the state, with `Machine.start`, `output`, `consoleLines` and `logLines` to look at it, and
  `noted` and `unwritable?` for taking a note.
* `Run` — a computation on a machine, with `note`, `print` and the steps on the scope.
* `Run.inFrame` — a computation inside a frame of its own.
-/

namespace LineaLang

/-! ## Notes -/

/-- **What a machine notes about its work.** -/
inductive Note where
  | started (statements : Nat)
  | finished
  | stopped (e : RuntimeError)
  | stoppedTooDeep
  | declared (name v : Value)
  | defined (name : Value) (params : Text)
  | called (name : Value) (args : List Value)
  | branched (condition : Value)
  | iterated (count : Nat)

namespace Note

/-- The verbosity from which on a note is taken. -/
def level : Note → Nat
  | .started _ => 1
  | .finished => 1
  | .stopped _ => 1
  | .stoppedTooDeep => 1
  | .declared .. => 2
  | .defined .. => 2
  | .called .. => 2
  | .branched _ => 3
  | .iterated _ => 3

/-- **The line of a note.** -/
def line : Note → Text
  | .started statements => "run: " ++ Numeral.ofNat statements ++ " statements"
  | .finished => "run: finished"
  | .stopped e => "runtime error: " ++ e.message
  | .stoppedTooDeep => "runtime error: nesting too deep"
  | .declared name v => "declare " ++ name.plain ++ ": " ++ v.kind ++ " = " ++ v.display
  | .defined name params => "define function " ++ name.plain ++ "(" ++ params ++ ")"
  | .called name args =>
    "call " ++ name.plain ++ "(" ++ Text.join ", " (args.map Value.display) ++ ")"
  | .branched condition => "if condition -> " ++ condition.display
  | .iterated count => "while iteration " ++ Numeral.ofNat count

end Note

/-! ## Machines -/

/-- **What stands behind the console.** Where lines are kept as they are any line is taken; a stream of octets takes no
    surrogates. -/
inductive Console where
  | anyText
  | octets
deriving DecidableEq

/-- What keeps a line from being written to the console. -/
def Console.unwritable? : Console → (line : Text) → Option Utf8.Unencodable
  | .anyText, _ => none
  | .octets, line => Utf8.unencodable? line

/-- What reaches the console: a printed value, or a note taken when no log is open. -/
inductive Emission where
  | value (v : Value)
  | note (n : Note)

namespace Emission

/-- The line on the console. -/
def line : Emission → Text
  | .value v => v.display
  | .note n => n.line

/-- The value, if it was printed. -/
def value? : Emission → Option Value
  | .value v => some v
  | .note _ => none

end Emission

/-- **The state of a running program.** The newest emissions and notes come first. -/
structure Machine where
  scope : Scope
  console : Console
  verbosity : Nat
  logOpen : Bool
  emissions : List Emission
  notes : List Note

namespace Machine

/-- A machine that has done nothing. Its log is open unless nothing is to be noted. -/
def start (verbosity : Nat) (console : Console := .anyText) : Machine where
  scope := .empty
  console := console
  verbosity := verbosity
  logOpen := decide (0 < verbosity)
  emissions := []
  notes := []

/-- **The printed values**, in order. -/
def output (m : Machine) : List Value := m.emissions.reverse.filterMap Emission.value?

/-- The lines on the console, in order. -/
def consoleLines (m : Machine) : List Text := m.emissions.reverse.map Emission.line

/-- The lines of the log, in order. -/
def logLines (m : Machine) : List Text := m.notes.reverse.map Note.line

/-- The machine after a note: in the log if that is open, else on the console. -/
def noted (m : Machine) (n : Note) : Machine :=
  if m.logOpen then { m with notes := n :: m.notes }
  else { m with emissions := .note n :: m.emissions }

/-- What keeps a note from being written where the machine's notes go. -/
def unwritable? (m : Machine) (n : Note) : Option Utf8.Unencodable :=
  if m.logOpen then Utf8.unencodable? n.line else m.console.unwritable? n.line

/-- The machine after printing a value. -/
def printed (m : Machine) (v : Value) : Machine := { m with emissions := .value v :: m.emissions }

/-- The machine with its log closed. -/
def withLogClosed (m : Machine) : Machine := { m with logOpen := false }

end Machine

/-! ## Computations -/

/-- **A computation on a machine.** It changes the machine also when it fails. -/
abbrev Run (α : Type) := EStateM RunFailure Machine α

/-- The signal of a statement: go on, or return from the function. -/
inductive Signal where
  | normal
  | returned (v : Value)

namespace Signal

/-- The value that a call gives after a signal of its body. -/
def value : Signal → Value
  | .normal => .none
  | .returned v => v

/-- A signal as text. -/
def repr : Signal → Text
  | .normal => "NORMAL"
  | .returned v => "ReturnSignal(" ++ v.repr ++ ")"

end Signal

namespace Run

/-- Stops with an error of the language. -/
def stop {α : Type} (e : RuntimeError) : Run α := throw (.error e)

/-- Stops because the tree cannot be run. -/
def misfit {α : Type} (fault : TreeFault) : Run α := throw (.fault fault)

/-- **Takes a note**, if the verbosity asks for it. -/
def note (n : Note) : Run Unit := fun m =>
  if n.level ≤ m.verbosity then
    match m.unwritable? n with
    | none => .ok () (m.noted n)
    | some cause => .error (.unwritable cause) m
  else .ok () m

/-- **Prints a value**, if the console takes its line. -/
def print (v : Value) : Run Unit := fun m =>
  match m.console.unwritable? v.display with
  | none => .ok () (m.printed v)
  | some cause => .error (.unwritable cause) m

/-- Reads something off the scope. -/
def query {α : Type} (read : Scope → Except RunFailure α) : Run α := fun m =>
  match read m.scope with
  | .ok a => .ok a m
  | .error e => .error e m

/-- Changes the scope. -/
def update (change : Scope → Except RunFailure Scope) : Run Unit := fun m =>
  match change m.scope with
  | .ok s => .ok () { m with scope := s }
  | .error e => .error e m

/-- **Runs `body` inside a frame of its own**, which is closed however `body` ends. -/
def inFrame {α : Type} (frame : Table Value) (body : Run α) : Run α := fun m =>
  match body { m with scope := m.scope.enter frame } with
  | .ok a m' => .ok a { m' with scope := m'.scope.leave }
  | .error e m' => .error e { m' with scope := m'.scope.leave }

end Run

end LineaLang
