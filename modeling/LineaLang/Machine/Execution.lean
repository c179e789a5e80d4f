import LineaLang.Machine.Meaning

/-!
# `LineaLang.Machine.Execution` — running trees

The steps of a machine: evaluating an expression, executing statements and calling a function, each with all
levels of nesting at hand, and running a whole program, which notes its start and its end and closes the log.

## Contents

* `Machine.evaluate`, `Machine.executeAll`, `Machine.call`, `Machine.run` — the steps of a machine.
* `Sink` — what takes printed values.
* `Machine.runSource` — a source run on a machine of its own.
* `Machine.runInto`, `Machine.runSourceInto` — runs whose printed values go to a sink.
-/

namespace LineaLang

/-! ## Sinks -/

/-- **What takes printed values**: a state, and what becomes of it with one more value. It takes every value and has no
    other way to act on a run. -/
structure Sink (σ : Type) where
  state : σ
  take : σ → Value → σ

namespace Sink

variable {σ : Type}

/-- The sink after one more value. -/
def given (sink : Sink σ) (v : Value) : Sink σ := { sink with state := sink.take sink.state v }

/-- **The sink after some values**, in order. -/
def after (sink : Sink σ) (values : List Value) : Sink σ := values.foldl given sink

end Sink

/-! ## Steps -/

namespace Machine

open Run

/-- The value of an expression. -/
def evaluate (expr : Node) : Run Value := Meaning.full.evaluate expr

/-- Executes statements. -/
def executeAll (statements : List Node) : Run Signal := Meaning.full.executeAll statements

/-- Calls a function. -/
def call (name : Value) (args : List Value) : Run Value := Meaning.full.call name args

/-- Executes statements as a whole program, and notes how it ends. Nesting that is too deep is an error of
    the language here. -/
def runAll (statements : List Node) : Run Value := fun m =>
  match executeAll statements m with
  | .ok signal m' => (do note .finished; return signal.value) m'
  | .error (.error e) m' => (do note (.stopped e); stop e) m'
  | .error (.fault .tooDeep) m' => (do note .stoppedTooDeep; stop .nestingLimit) m'
  | .error failure m' => .error failure m'

/-- Closes the log after `body`, however it ends. -/
def closingLog {α : Type} (body : Run α) : Run α := fun m =>
  match body m with
  | .ok a m' => .ok a m'.withLogClosed
  | .error e m' => .error e m'.withLogClosed

/-- **Runs a program** and gives the value that it returns. Whatever else has statements runs like one. -/
def run (program : Node) : Run Value := do
  match program.statements? with
  | none => misfit .missingPart
  | some statements => do
    note (.started statements.length)
    closingLog (runAll statements)

/-- **Runs a source on a new machine**: the value that it returns or why there is none, and the machine as
    it is left. -/
def runSource [CharacterNames] (verbosity : Nat) (source : Text) (console : Console := .anyText) :
    Except Failure Value × Machine :=
  match Node.ofSource source with
  | .error failure => (.error failure, .start verbosity console)
  | .ok program =>
    match run program (.start verbosity console) with
    | .ok v m => (.ok v, m)
    | .error failure m => (.error (.ofRun failure), m)

/-- **Runs a program on a new machine** whose printed values go to a sink. -/
def runInto {σ : Type} (sink : Sink σ) (verbosity : Nat) (program : Node) : Except RunFailure Value × Sink σ :=
  match run program (.start verbosity) with
  | .ok v m => (.ok v, sink.after m.output)
  | .error failure m => (.error failure, sink.after m.output)

/-- **Runs a source on a new machine** whose printed values go to a sink. -/
def runSourceInto [CharacterNames] {σ : Type} (sink : Sink σ) (verbosity : Nat) (source : Text) :
    Except Failure Value × Sink σ :=
  match Node.ofSource source with
  | .error failure => (.error failure, sink)
  | .ok program =>
    let (result, left) := runInto sink verbosity program
    (result.mapError .ofRun, left)

end Machine

end LineaLang
