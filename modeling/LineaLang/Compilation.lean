import LineaLang.Machine.Execution
import LineaLang.Tree.Listing

/-!
# `LineaLang.Compilation` — from source to result in one go

A compilation scans, reads, lists and runs a source, and keeps what each stage gave. A diagnostic ends it
and is part of it: what the stages before it gave, and what was printed before an error of the run, stays.
A caller may hand over a sink of its own, which is given each printed value as soon as it has been kept.

## Contents

* `Compilation` — what the stages gave.
* `Compilation.forwarding` — the sink of a compilation, with that of its caller behind it.
* `Compilation.ofSourceInto`, `Compilation.ofSource` — the compilation of a source, for a caller with a sink and
  for one without.
-/

namespace LineaLang

/-- **What the stages gave**, up to the first that failed. -/
structure Compilation where
  tokens : List Token
  program? : Option Node
  listing : List Text
  /-- The values printed by the run, in order. -/
  output : List Value
  returned : Value
  diagnostic? : Option Diagnostic

namespace Compilation

/-- A compilation that ended before its first stage. -/
def empty : Compilation := ⟨[], none, [], [], .none, none⟩

/-- Did every stage succeed? -/
def succeeded (c : Compilation) : Bool := c.diagnostic?.isNone

/-- The number of statements of the program, if there is one. -/
def statementCount? (c : Compilation) : Option Nat :=
  (c.program?.bind Node.statements?).map List.length

section

variable {σ : Type}

/-- **The sink of a compilation.** A value is added to the output, and then given to the sink of the caller, if there
    is one. -/
def forwarding (caller? : Option (Sink σ)) : Sink (List Value × Option (Sink σ)) where
  state := ([], caller?)
  take := fun (output, caller?) v => (output ++ [v], caller?.map (·.given v))

/-- The compilation after the run of its program, and the caller's sink. -/
def afterRun (c : Compilation) (caller? : Option (Sink σ)) (outcome : EStateM.Result RunFailure Machine Value) :
    Except Failure Compilation × Option (Sink σ) :=
  match outcome with
  | .ok v m =>
    let (output, left?) := ((forwarding caller?).after m.output).state
    (.ok { c with output := output, returned := v }, left?)
  | .error failure m =>
    let (output, left?) := ((forwarding caller?).after m.output).state
    match failure with
    | .error e => (.ok { c with output := output, diagnostic? := some (.runtime e) }, left?)
    | .fault fault => (.error (.tree fault), left?)
    | .unwritable cause => (.error (.unwritable cause), left?)

variable [CharacterNames]

/-- **The compilation of a source**, and the caller's sink after it. There is none only where the cause is no
    diagnostic. -/
def ofSourceInto (caller? : Option (Sink σ)) (source : Text) : Except Failure Compilation × Option (Sink σ) :=
  match Token.scan source with
  | .error e => (.ok { empty with diagnostic? := some (.lex e) }, caller?)
  | .ok tokens =>
    match Node.ofTokens tokens with
    | .error (.refused e) => (.ok { empty with tokens := tokens, diagnostic? := some (.parse e) }, caller?)
    | .error (.numeral fault) => (.error (.numeral fault), caller?)
    | .ok program =>
      match program.listingLines with
      | .error fault => (.error (.tree fault), caller?)
      | .ok listing =>
        afterRun { empty with tokens := tokens, program? := some program, listing := listing } caller?
          (Machine.run program (.start 0))

/-- The compilation of a source for a caller without a sink. -/
def ofSource (source : Text) : Except Failure Compilation := (ofSourceInto (none : Option (Sink Unit)) source).1

end

end Compilation

end LineaLang
