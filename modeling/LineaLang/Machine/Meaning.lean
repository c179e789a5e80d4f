import LineaLang.Machine.Basic
import LineaLang.Calculation

/-!
# `LineaLang.Machine.Meaning` — what trees do

Expressions have values and effects, statements have effects and a signal. A `Meaning` says what each of them
does, and what a call does. The meaning of a whole is given by that of its parts, one clause for each kind of
node: `Meaning.ofParts` is not recursive, and whatever it needs of the parts it takes from another meaning.

Three bounds keep every run finite. A loop runs its body at most `maxIterations` times, at most `maxCalls`
calls may be open at once, and the parts of a whole, like the body of a function that is called, stand one
level deeper than the whole. `Meaning.withLevels` therefore recurses on the levels that are left; where none
is, the run stops because the nesting is too deep. It stops there and not before: what stands to the left of
the part that is too deep has had its effects.

## Contents

* `Meaning`, `Meaning.exhausted` — what trees do, and what they do when no level is left.
* `Meaning.evaluateBy`, `Meaning.evaluateAllBy` — expressions, by the meaning of their parts.
* `Meaning.executeBy`, `Meaning.executeAllBy`, `Meaning.loopBy` — statements.
* `Meaning.callBy` — calls.
* `Meaning.ofParts`, `Meaning.withLevels`, `Meaning.full` — the meanings themselves.
-/

namespace LineaLang

/-- **What trees do**: the values of expressions, the signals of statements, and what calls give. -/
structure Meaning where
  evaluate : (expr : Node) → Run Value
  /-- The values of expressions side by side, in order. -/
  evaluateAll : (exprs : List Node) → Run (List Value)
  execute : (statement : Node) → Run Signal
  /-- Statements in order, up to the first that returns. -/
  executeAll : (statements : List Node) → Run Signal
  /-- A body, as long as a condition holds. -/
  loop : (condition body : Node) → Run Signal
  /-- The function with a name, applied to the values of arguments. -/
  call : (name : Value) → (args : List Value) → Run Value

namespace Meaning

open Run

/-- The most iterations of one loop. -/
def maxIterations : Nat := 1000

/-- The most calls that may be open at once. -/
def maxCalls : Nat := 64

/-- **The most levels that may be open at once.** This idealises the stack on which a run stands. Only levels count here:
    the steps within one, such as looking up a name, showing a value for a note or making an error, take no room of
    their own, and whoever starts a run leaves the same room to it. Without the idealisation a run that comes close to
    the bound may stop a little earlier, also because of its notes. -/
def maxLevels : Nat := 990

/-- No level is left: whatever the tree, its nesting is too deep. -/
def exhausted : Meaning where
  evaluate _ := misfit .tooDeep
  evaluateAll _ := misfit .tooDeep
  execute _ := misfit .tooDeep
  executeAll _ := misfit .tooDeep
  loop _ _ := misfit .tooDeep
  call _ _ := misfit .tooDeep

/-! ## Expressions -/

/-- The result of a calculation. -/
def ofCalculation {α : Type} : Except RuntimeError α → Run α
  | .ok a => return a
  | .error e => stop e

/-- **The value of an expression.** Operands and arguments are evaluated from left to right. -/
def evaluateBy (parts : Meaning) : Node → Run Value
  | .number value => return value
  | .string value => return value
  | .ident name => query (·.get name)
  | .assign target expr => do
    let v ← parts.evaluate expr
    update (·.set target v)
    return v
  | .arith op left right => do
    let a ← parts.evaluate left
    let b ← parts.evaluate right
    ofCalculation (Calculation.arith op a b)
  | .comparison op left right => do
    let a ← parts.evaluate left
    let b ← parts.evaluate right
    return .bool (← ofCalculation (Calculation.compare op a b))
  | .call callee args => do
    let values ← parts.evaluateAll args
    parts.call callee values
  | other => misfit (.unexpected .evaluation other.kind)

/-- The values of expressions, in order. -/
def evaluateAllBy (parts : Meaning) : List Node → Run (List Value)
  | [] => return []
  | expr :: rest => do
    let v ← parts.evaluate expr
    let more ← evaluateAllBy parts rest
    return v :: more

/-! ## Statements -/

/-- **Repeats a body while a condition holds**, when `remaining` more iterations are allowed. The condition
    is asked once more than the body may run. -/
def repeatWhile (condition : Run Value) (body : Run Signal) : (remaining : Nat) → Run Signal
  | 0 => do
    let v ← condition
    if v.isTruthy then stop (.iterationLimit maxIterations) else return .normal
  | remaining + 1 => do
    let v ← condition
    if v.isTruthy then
      note (.iterated (maxIterations - remaining))
      match ← body with
      | .normal => repeatWhile condition body remaining
      | .returned v => return .returned v
    else return .normal

/-- A loop. -/
def loopBy (parts : Meaning) (condition body : Node) : Run Signal :=
  repeatWhile (parts.evaluate condition) (parts.execute body) maxIterations

/-- Notes the declaration of a function. The names of its parameters are joined only if the note is
    taken. -/
def noteDefined (name : Value) (params : List Value) : Run Unit := do
  if (Note.defined name []).level ≤ (← get).verbosity then
    match Value.joinTexts ", " params with
    | .ok joined => note (.defined name joined)
    | .error fault => misfit (.value fault)

/-- **What a statement does**, and its signal. -/
def executeBy (parts : Meaning) : Node → Run Signal
  | .expression expr => do
    let _ ← parts.evaluate expr
    return .normal
  | .print expr => do
    print (← parts.evaluate expr)
    return .normal
  | .declare name init => do
    let v ← parts.evaluate init
    update (·.declareName name v)
    note (.declared name v)
    return .normal
  | .function name params body => do
    update (·.defineName name (.function name params body))
    noteDefined name params
    return .normal
  | .ret expr => do
    let v ← parts.evaluate expr
    return .returned v
  | .block statements => parts.executeAll statements
  | .ifElse condition thenBlock elseBlock => do
    let v ← parts.evaluate condition
    note (.branched v)
    if v.isTruthy then parts.execute thenBlock
    else if elseBlock.isAbsent then return .normal
    else parts.execute elseBlock
  | .whileLoop condition body => parts.loop condition body
  | other => misfit (.unexpected .execution other.kind)

/-- **Statements in order**, up to the first that returns. -/
def executeAllBy (parts : Meaning) : List Node → Run Signal
  | [] => return .normal
  | statement :: rest => do
    match ← parts.execute statement with
    | .normal => executeAllBy parts rest
    | .returned v => return .returned v

/-! ## Calls -/

/-- The parameters and the body of the function with a name, which must take `count` arguments. -/
def callee (name : Value) (count : Nat) : Run (List Value × Node) := do
  match ← query (·.callee name) with
  | .function _ params body =>
    if count = params.length then return (params, body)
    else stop (.arityMismatch name params.length count)
  | _ => misfit .missingPart

/-- Stops where one more call would be too many. -/
def checkCalls (name : Value) : Run Unit := do
  if maxCalls ≤ (← get).scope.depth then stop (.callDepth name maxCalls)

/-- The keys of parameters. -/
def parameterKeys : List Value → Except RunFailure (List Key)
  | [] => .ok []
  | name :: rest => do
    let key ← Scope.key name
    let keys ← parameterKeys rest
    return key :: keys

/-- The frame that binds parameters to arguments; of equal names the last counts. -/
def frameOf (params args : List Value) : Except RunFailure (Table Value) :=
  (parameterKeys params).map fun keys => .ofPairs (keys.zip args)

/-- **A call.** The function is looked up and its arguments are counted before the open calls are. -/
def callBy (parts : Meaning) (name : Value) (args : List Value) : Run Value := do
  let (params, body) ← callee name args.length
  checkCalls name
  note (.called name args)
  let frame ← query fun _ => frameOf params args
  let signal ← inFrame frame (parts.execute body)
  return signal.value

/-! ## Levels -/

/-- **The meaning of wholes, by the meaning of their parts.** -/
def ofParts (parts : Meaning) : Meaning where
  evaluate := evaluateBy parts
  evaluateAll := evaluateAllBy parts
  execute := executeBy parts
  executeAll := executeAllBy parts
  loop := loopBy parts
  call := callBy parts

/-- **The meaning of trees when `levels` levels may be opened.** -/
def withLevels : (levels : Nat) → Meaning
  | 0 => exhausted
  | levels + 1 => ofParts (withLevels levels)

@[simp] theorem withLevels_zero : withLevels 0 = exhausted := rfl

@[simp] theorem withLevels_succ (levels : Nat) : withLevels (levels + 1) = ofParts (withLevels levels) := rfl

/-- **The meaning of trees on a machine**, where all levels may be opened. -/
def full : Meaning := withLevels maxLevels

end Meaning

end LineaLang
