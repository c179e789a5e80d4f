import LineaLang.Proofs.Machine.Loops

/-!
# `LineaLang.Proofs.Machine.Deeds` — what a run does, in order

The meaning of a tree says how a run ends, but not what is done on the way. Here every run keeps a list of its deeds:
each expression and each statement that it comes to, the conditions, what it prints and binds, and the values that
expressions of `return` give. A call is one deed, with all that is done in it. The clauses are those of the meaning of
trees, with the deeds put in (`Tracing`); without the deeds they are that meaning again (`Tracing.plain_withLevels`).

Among the deeds of one call a return can only stand last, and the call gives its value; among the deeds of statements
it stands last exactly if they return, and with the value that they return. So nothing is done any more in a call
after an expression of `return` has its value, however deep the blocks, branches and loops are in which it stands.

## Contents

* `Deed`, `Traced`, `Tracing` — deeds, runs that keep them, and the meaning of trees with deeds.
* `Tracing.plain_withLevels` — without the deeds it is the meaning of trees.
* `Deed.Settled`, `ReturnsLast` — calls and statements where a return comes last.
* `Tracing.Settles`, `Tracing.settles_withLevels` — all runs are such.
* `runs_in_sequence` — statements in pieces, the output, and what follows a return.
-/

namespace LineaLang

open Run Meaning

/-! ## Deeds -/

/-- **What a run does**, one thing after the other. -/
inductive Deed where
  /-- It turns to an expression. -/
  | evaluates (expr : Node)
  /-- It turns to a statement. -/
  | executes (statement : Node)
  /-- A condition has a value. -/
  | asks (v : Value)
  | prints (v : Value)
  | assigns (target v : Value)
  | declares (name v : Value)
  | defines (name : Value)
  /-- The expression of a return has a value. -/
  | returns (v : Value)
  /-- A call, with what is done in it and with the value that it gives if nothing stops it. -/
  | calls (name : Value) (args : List Value) (deeds : List Deed) (result : Option Value)

/-- The value that an outcome gives, if what it gives has one. -/
def givenBy {α : Type} (value? : α → Option Value) : EStateM.Result RunFailure Machine α → Option Value
  | .ok a _ => value? a
  | .error _ _ => none

/-- **A run with its deeds**, the first of them first. -/
def Traced (α : Type) : Type := Machine → EStateM.Result RunFailure Machine α × List Deed

namespace Traced

variable {α β : Type}

instance : Monad Traced where
  pure a := fun m => (.ok a m, [])
  bind t f := fun m =>
    match t m with
    | (.ok a m', first) => ((f a m').1, first ++ (f a m').2)
    | (.error e m', first) => (.error e m', first)

/-- The run alone. -/
def plain (t : Traced α) : Run α := fun m => (t m).1

/-- The deeds alone. -/
def deeds (t : Traced α) (m : Machine) : List Deed := (t m).2

/-- A run with no deed. -/
def of (r : Run α) : Traced α := fun m => (r m, [])

/-- One deed, and nothing else. -/
def doing (d : Deed) : Traced Unit := fun m => (.ok () m, [d])

/-- **A call of a body in a frame**, as one deed. -/
def calling (name : Value) (args : List Value) (frame : Table Value) (body : Traced Signal) : Traced Value := fun m =>
  let run : Run Value := do return (← inFrame frame body.plain).value
  (run m, [.calls name args (body.deeds { m with scope := m.scope.enter frame }) (givenBy some (run m))])

end Traced

/-! ## Clauses with deeds -/

/-- **What trees do, with the deeds.** -/
structure Tracing where
  evaluate : (expr : Node) → Traced Value
  evaluateAll : (exprs : List Node) → Traced (List Value)
  execute : (statement : Node) → Traced Signal
  executeAll : (statements : List Node) → Traced Signal
  loop : (condition body : Node) → Traced Signal
  call : (name : Value) → (args : List Value) → Traced Value

namespace Tracing

open Traced

/-- The meaning that is left without the deeds. -/
def plain (T : Tracing) : Meaning where
  evaluate expr := (T.evaluate expr).plain
  evaluateAll exprs := (T.evaluateAll exprs).plain
  execute statement := (T.execute statement).plain
  executeAll statements := (T.executeAll statements).plain
  loop condition body := (T.loop condition body).plain
  call name args := (T.call name args).plain

def exhausted : Tracing where
  evaluate _ := of (misfit .tooDeep)
  evaluateAll _ := of (misfit .tooDeep)
  execute _ := of (misfit .tooDeep)
  executeAll _ := of (misfit .tooDeep)
  loop _ _ := of (misfit .tooDeep)
  call _ _ := of (misfit .tooDeep)

variable (parts : Tracing)

/-- The value of an expression, which is turned to first. -/
def evaluateBy (expr : Node) : Traced Value := do
  doing (.evaluates expr)
  match expr with
  | .number value => return value
  | .string value => return value
  | .ident name => of (query (·.get name))
  | .assign target expr => do
    let v ← parts.evaluate expr
    doing (.assigns target v)
    of (update (·.set target v))
    return v
  | .arith op left right => do
    let a ← parts.evaluate left
    let b ← parts.evaluate right
    of (ofCalculation (Calculation.arith op a b))
  | .comparison op left right => do
    let a ← parts.evaluate left
    let b ← parts.evaluate right
    return .bool (← of (ofCalculation (Calculation.compare op a b)))
  | .call callee args => do
    let values ← parts.evaluateAll args
    parts.call callee values
  | other => of (misfit (.unexpected .evaluation other.kind))

def evaluateAllBy : List Node → Traced (List Value)
  | [] => return []
  | expr :: rest => do
    let v ← parts.evaluate expr
    let more ← evaluateAllBy rest
    return v :: more

/-- A run that gives a signal, and another after it if that is normal. -/
def andThen (first second : Traced Signal) : Traced Signal := do
  match ← first with
  | .normal => second
  | .returned v => return .returned v

def repeatWhile (condition : Traced Value) (body : Traced Signal) : (remaining : Nat) → Traced Signal
  | 0 => do
    let v ← condition
    doing (.asks v)
    if v.isTruthy then of (stop (.iterationLimit maxIterations)) else return .normal
  | remaining + 1 => do
    let v ← condition
    doing (.asks v)
    if v.isTruthy then
      of (note (.iterated (maxIterations - remaining)))
      andThen body (repeatWhile condition body remaining)
    else return .normal

def loopBy (condition body : Node) : Traced Signal :=
  repeatWhile (parts.evaluate condition) (parts.execute body) maxIterations

/-- The signal of a statement, which is turned to first. -/
def executeBy (statement : Node) : Traced Signal := do
  doing (.executes statement)
  match statement with
  | .expression expr => do
    let _ ← parts.evaluate expr
    return .normal
  | .print expr => do
    let v ← parts.evaluate expr
    doing (.prints v)
    of (print v)
    return .normal
  | .declare name init => do
    let v ← parts.evaluate init
    doing (.declares name v)
    of (update (·.declareName name v))
    of (note (.declared name v))
    return .normal
  | .function name params body => do
    doing (.defines name)
    of (update (·.defineName name (.function name params body)))
    of (noteDefined name params)
    return .normal
  | .ret expr => do
    let v ← parts.evaluate expr
    doing (.returns v)
    return .returned v
  | .block statements => parts.executeAll statements
  | .ifElse condition thenBlock elseBlock => do
    let v ← parts.evaluate condition
    doing (.asks v)
    of (note (.branched v))
    if v.isTruthy then parts.execute thenBlock
    else if elseBlock.isAbsent then return .normal
    else parts.execute elseBlock
  | .whileLoop condition body => parts.loop condition body
  | other => of (misfit (.unexpected .execution other.kind))

def executeAllBy : List Node → Traced Signal
  | [] => return .normal
  | statement :: rest => andThen (parts.execute statement) (executeAllBy rest)

def callBy (name : Value) (args : List Value) : Traced Value := do
  let (params, body) ← of (callee name args.length)
  of (checkCalls name)
  of (note (.called name args))
  let frame ← of (query fun _ => frameOf params args)
  calling name args frame (parts.execute body)

/-- **The meaning of wholes with deeds, by that of their parts.** -/
def ofParts (parts : Tracing) : Tracing where
  evaluate := evaluateBy parts
  evaluateAll := evaluateAllBy parts
  execute := executeBy parts
  executeAll := executeAllBy parts
  loop := loopBy parts
  call := callBy parts

/-- **The meaning of trees with deeds**, when `levels` levels may be opened. -/
def withLevels : (levels : Nat) → Tracing
  | 0 => exhausted
  | levels + 1 => ofParts (withLevels levels)

end Tracing

/-! ## Without the deeds -/

namespace Traced

variable {α β : Type}

@[simp] theorem plain_pure (a : α) : (pure a : Traced α).plain = pure a := rfl

@[simp] theorem plain_of (r : Run α) : (of r).plain = r := rfl

@[simp] theorem plain_doing (d : Deed) : (doing d).plain = pure () := rfl

@[simp] theorem plain_bind (t : Traced α) (f : α → Traced β) :
    (t >>= f).plain = t.plain >>= fun a => (f a).plain := by
  funext m
  simp only [plain, Bind.bind, EStateM.bind]
  rcases t m with ⟨outcome, first⟩
  cases outcome <;> rfl

@[simp] theorem plain_ite {c : Prop} [Decidable c] (t u : Traced α) :
    (if c then t else u).plain = if c then t.plain else u.plain := apply_ite plain c t u

end Traced

namespace Tracing

open Traced

variable (parts : Tracing)

theorem plain_evaluateBy (expr : Node) : (evaluateBy parts expr).plain = Meaning.evaluateBy parts.plain expr := by
  cases expr <;> simp [evaluateBy, Meaning.evaluateBy, Tracing.plain]

theorem plain_evaluateAllBy (exprs : List Node) :
    (evaluateAllBy parts exprs).plain = Meaning.evaluateAllBy parts.plain exprs := by
  induction exprs with
  | nil => rfl
  | cons expr rest ih => simp [evaluateAllBy, Meaning.evaluateAllBy, ih, Tracing.plain]

theorem plain_andThen (first second : Traced Signal) :
    (andThen first second).plain = first.plain.andThen second.plain := by
  rw [andThen, plain_bind, andThen_eq_bind]
  refine congrArg (first.plain >>= ·) (funext fun signal => ?_)
  cases signal <;> rfl

theorem plain_repeatWhile (condition : Traced Value) (body : Traced Signal) (remaining : Nat) :
    (repeatWhile condition body remaining).plain = Meaning.repeatWhile condition.plain body.plain remaining := by
  induction remaining with
  | zero => simp [repeatWhile, Meaning.repeatWhile]
  | succ remaining ih =>
    simp only [repeatWhile, Meaning.repeatWhile, plain_bind, plain_doing, plain_ite, plain_pure, plain_of, pure_bind,
      plain_andThen, ih]
    rewrite [andThen_eq_bind]
    rfl

theorem plain_executeBy (statement : Node) :
    (executeBy parts statement).plain = Meaning.executeBy parts.plain statement := by
  cases statement <;> simp [executeBy, Meaning.executeBy, Tracing.plain]

theorem plain_executeAllBy (statements : List Node) :
    (executeAllBy parts statements).plain = Meaning.executeAllBy parts.plain statements := by
  induction statements with
  | nil => rfl
  | cons statement rest ih =>
    rw [executeAllBy, plain_andThen, ih, Meaning.executeAllBy_cons]
    rfl

theorem plain_callBy (name : Value) (args : List Value) :
    (callBy parts name args).plain = Meaning.callBy parts.plain name args := by
  simp only [callBy, Meaning.callBy, plain_bind, plain_of]
  rfl

theorem plain_ofParts : (ofParts parts).plain = Meaning.ofParts parts.plain := by
  unfold ofParts Meaning.ofParts
  simp only [Tracing.plain, Meaning.mk.injEq]
  exact ⟨funext (plain_evaluateBy parts), funext (plain_evaluateAllBy parts), funext (plain_executeBy parts),
    funext (plain_executeAllBy parts), funext fun condition => funext fun body => plain_repeatWhile _ _ _,
    funext fun name => funext (plain_callBy parts name)⟩

/-- **Without its deeds a run is the run.** -/
theorem plain_withLevels (levels : Nat) : (withLevels levels).plain = Meaning.withLevels levels := by
  induction levels with
  | zero => rfl
  | succ levels ih => rw [withLevels, plain_ofParts, ih, Meaning.withLevels_succ]

end Tracing

/-! ## Returns -/

/-- **A return comes last** among deeds, with the value that is returned. Where none is returned there is no return. -/
def ReturnsLast (deeds : List Deed) : (returned : Option Value) → Prop
  | none => ∀ v, .returns v ∉ deeds
  | some v => ∃ before, deeds = before ++ [.returns v] ∧ ∀ v', .returns v' ∉ before

/-- Deeds without a return before others. -/
theorem ReturnsLast.append {first second : List Deed} {returned : Option Value} (h : ∀ v, .returns v ∉ first)
    (hsecond : ReturnsLast second returned) : ReturnsLast (first ++ second) returned := by
  cases returned with
  | none => exact fun v hv => (List.mem_append.mp hv).elim (h v) (hsecond v)
  | some v =>
    obtain ⟨before, rfl, hbefore⟩ := hsecond
    refine ⟨first ++ before, (List.append_assoc _ _ _).symm, fun v' hv => ?_⟩
    exact (List.mem_append.mp hv).elim (h v') (hbefore v')

/-- **Where a return comes up, its value is returned**, and it comes last. -/
theorem ReturnsLast.eq_of_mem {deeds : List Deed} {returned : Option Value} {v : Value}
    (h : ReturnsLast deeds returned) (hv : .returns v ∈ deeds) :
    returned = some v ∧ ∃ before, deeds = before ++ [.returns v] := by
  cases returned with
  | none => exact absurd hv (h v)
  | some w =>
    obtain ⟨before, rfl, hbefore⟩ := h
    obtain hv | hv := List.mem_append.mp hv
    · exact absurd hv (hbefore v)
    · cases List.mem_singleton.mp hv
      exact ⟨rfl, before, rfl⟩

/-- **In a call a return comes last, and the call gives its value**; and so in all calls within it. -/
inductive Deed.Settled : Deed → Prop where
  | evaluates (expr : Node) : Settled (.evaluates expr)
  | executes (statement : Node) : Settled (.executes statement)
  | asks (v : Value) : Settled (.asks v)
  | prints (v : Value) : Settled (.prints v)
  | assigns (target v : Value) : Settled (.assigns target v)
  | declares (name v : Value) : Settled (.declares name v)
  | defines (name : Value) : Settled (.defines name)
  | returns (v : Value) : Settled (.returns v)
  | calls {name args deeds returned result} (within : ∀ d ∈ deeds, Settled d) (last : ReturnsLast deeds returned)
      (gives : ∀ v, returned = some v → result = some v) : Settled (.calls name args deeds result)

/-- The value that a signal returns. -/
def Signal.returned? : Signal → Option Value
  | .normal => none
  | .returned v => some v

namespace Traced

variable {α β : Type} {returned? : α → Option Value} {returned?' : β → Option Value}

/-- **A run settles**: among its deeds a return comes last, and so in all its calls. -/
def Settles (returned? : α → Option Value) (t : Traced α) : Prop :=
  ∀ m, (∀ d ∈ t.deeds m, d.Settled) ∧ ReturnsLast (t.deeds m) (givenBy returned? (t.plain m))

/-- What an expression gives is returned by nothing. -/
def nothing {α : Type} : α → Option Value := fun _ => none

theorem givenBy_nothing (outcome : EStateM.Result RunFailure Machine α) : givenBy nothing outcome = none := by
  cases outcome <;> rfl

/-- A run without deeds settles, if it returns nothing. -/
theorem Settles.of {r : Run α} (h : ∀ m, givenBy returned? (r m) = none) : Settles returned? (Traced.of r) := by
  intro m
  refine ⟨List.forall_mem_nil _, ?_⟩
  show ReturnsLast [] (givenBy returned? (r m))
  rw [h m]
  exact fun v => List.not_mem_nil

theorem Settles.pure {a : α} (h : returned? a = none) : Settles returned? (Pure.pure a) :=
  Settles.of (r := Pure.pure a) fun _ => h

theorem Settles.plainly (r : Run α) : Settles nothing (Traced.of r) :=
  .of fun m => givenBy_nothing (r m)

theorem Settles.throw (e : RunFailure) : Settles returned? (Traced.of (MonadExcept.throw e)) := .of fun _ => rfl

theorem Settles.doing {d : Deed} (h : d.Settled) (hreturns : ∀ v, d ≠ .returns v) :
    Settles nothing (Traced.doing d) := by
  refine fun m => ⟨List.forall_mem_singleton.mpr h, fun v hv => ?_⟩
  exact hreturns v (List.mem_singleton.mp hv).symm

theorem deeds_bind (t : Traced α) (f : α → Traced β) (m : Machine) :
    (t >>= f).deeds m =
      match t.plain m with
      | .ok a m' => t.deeds m ++ (f a).deeds m'
      | .error _ _ => t.deeds m := by
  simp only [plain, deeds, Bind.bind]
  rcases t m with ⟨outcome, first⟩
  cases outcome <;> rfl

theorem deeds_andThen (first second : Traced Signal) (m : Machine) :
    (Tracing.andThen first second).deeds m =
      match first.plain m with
      | .ok .normal m' => first.deeds m ++ second.deeds m'
      | _ => first.deeds m := by
  unfold Tracing.andThen
  rw [deeds_bind]
  cases first.plain m with
  | error e m' => rfl
  | ok signal m' =>
    cases signal with
    | normal => rfl
    | returned v => exact List.append_nil _

/-- **One after the other**, where the first run returns nothing. -/
theorem Settles.bind {t : Traced α} {f : α → Traced β} (ht : Settles nothing t) (hf : ∀ a, Settles returned?' (f a)) :
    Settles returned?' (t >>= f) := by
  intro m
  obtain ⟨hsettled, hlast⟩ := ht m
  rw [deeds_bind, plain_bind]
  simp only [Bind.bind, EStateM.bind]
  cases h : t.plain m with
  | error e m' =>
    rw [h] at hlast
    exact ⟨hsettled, hlast⟩
  | ok a m' =>
    rw [h] at hlast
    obtain ⟨hsettled', hlast'⟩ := hf a m'
    exact ⟨List.forall_mem_append.mpr ⟨hsettled, hsettled'⟩, ReturnsLast.append hlast hlast'⟩

/-- A run that gives a signal, and another after it: what the first returns is returned. -/
theorem Settles.andThen {first second : Traced Signal} (hfirst : Settles Signal.returned? first)
    (hsecond : Settles Signal.returned? second) : Settles Signal.returned? (Tracing.andThen first second) := by
  intro m
  obtain ⟨hsettled, hlast⟩ := hfirst m
  rw [deeds_andThen, Tracing.plain_andThen, Run.andThen]
  cases h : first.plain m with
  | error e m' =>
    rw [h] at hlast
    exact ⟨hsettled, hlast⟩
  | ok signal m' =>
    rw [h] at hlast
    cases signal with
    | normal =>
      obtain ⟨hsettled', hlast'⟩ := hsecond m'
      exact ⟨List.forall_mem_append.mpr ⟨hsettled, hsettled'⟩, ReturnsLast.append hlast hlast'⟩
    | returned v => exact ⟨hsettled, hlast⟩

theorem Settles.plain_of_returns {t : Traced Signal} (h : Settles Signal.returned? t) {m : Machine} {v : Value}
    (hv : .returns v ∈ t.deeds m) :
    ∃ m', t.plain m = .ok (.returned v) m' := by
  obtain ⟨-, hlast⟩ := h m
  obtain ⟨hgiven, -⟩ := ReturnsLast.eq_of_mem hlast hv
  cases hm : t.plain m with
  | error e m' =>
    rw [hm] at hgiven
    cases hgiven
  | ok signal m' =>
    rw [hm] at hgiven
    cases signal with
    | normal => cases hgiven
    | returned w =>
      cases hgiven
      exact ⟨m', rfl⟩

/-- The expression of a return has its value, and with it the run ends. -/
theorem Settles.returning (v : Value) :
    Settles Signal.returned? (do Traced.doing (.returns v); return Signal.returned v) :=
  fun _ => ⟨List.forall_mem_singleton.mpr (.returns v), [], rfl, fun _ => List.not_mem_nil⟩

/-- **A call gives the value that its body returns.** -/
theorem Settles.calling {body : Traced Signal} (hbody : Settles Signal.returned? body) (name : Value)
    (args : List Value) (frame : Table Value) : Settles nothing (Traced.calling name args frame body) := by
  intro m
  obtain ⟨hsettled, hlast⟩ := hbody { m with scope := m.scope.enter frame }
  have hgiven : ∀ v, givenBy Signal.returned? (body.plain { m with scope := m.scope.enter frame }) = some v →
      givenBy some ((do return (← inFrame frame body.plain).value : Run Value) m) = some v := by
    intro v hv
    simp only [Bind.bind, EStateM.bind, inFrame]
    generalize body.plain { m with scope := m.scope.enter frame } = outcome at hv ⊢
    cases outcome with
    | error e m' => cases hv
    | ok signal m' =>
      cases signal with
      | normal => cases hv
      | returned v' => exact hv
  refine ⟨List.forall_mem_singleton.mpr (.calls hsettled hlast hgiven), ?_⟩
  have hnothing : givenBy nothing ((Traced.calling name args frame body).plain m) = none := givenBy_nothing _
  rw [hnothing]
  exact fun v hv => nomatch List.mem_singleton.mp hv

end Traced

namespace Tracing

open Traced

/-! ## All runs -/

/-- **All trees settle**: expressions and calls return nothing, statements what their signals say. -/
structure Settles (T : Tracing) : Prop where
  evaluate : ∀ expr, Traced.Settles nothing (T.evaluate expr)
  evaluateAll : ∀ exprs, Traced.Settles nothing (T.evaluateAll exprs)
  execute : ∀ statement, Traced.Settles Signal.returned? (T.execute statement)
  executeAll : ∀ statements, Traced.Settles Signal.returned? (T.executeAll statements)
  loop : ∀ condition body, Traced.Settles Signal.returned? (T.loop condition body)
  call : ∀ name args, Traced.Settles nothing (T.call name args)

variable {parts : Tracing}

theorem settles_evaluateBy (h : parts.Settles) (expr : Node) : Traced.Settles nothing (evaluateBy parts expr) := by
  refine (Traced.Settles.doing (.evaluates expr) nofun).bind fun _ => ?_
  cases expr with
  | number value | string value => exact .pure rfl
  | ident name => exact .plainly _
  | assign target expr =>
    refine (h.evaluate expr).bind fun v => (Traced.Settles.doing (.assigns target v) nofun).bind fun _ => ?_
    exact (Traced.Settles.plainly _).bind fun _ => .pure rfl
  | arith op left right => exact (h.evaluate left).bind fun a => (h.evaluate right).bind fun b => .plainly _
  | comparison op left right =>
    refine (h.evaluate left).bind fun a => (h.evaluate right).bind fun b => ?_
    exact (Traced.Settles.plainly _).bind fun answer => .pure rfl
  | call callee args => exact (h.evaluateAll args).bind fun values => h.call callee values
  | _ => exact .throw _

theorem settles_evaluateAllBy (h : parts.Settles) (exprs : List Node) :
    Traced.Settles nothing (evaluateAllBy parts exprs) := by
  induction exprs with
  | nil => exact .pure rfl
  | cons expr rest ih => exact (h.evaluate expr).bind fun v => ih.bind fun more => .pure rfl

theorem settles_repeatWhile {condition : Traced Value} {body : Traced Signal}
    (hcondition : Traced.Settles nothing condition) (hbody : Traced.Settles Signal.returned? body) (remaining : Nat) :
    Traced.Settles Signal.returned? (repeatWhile condition body remaining) := by
  induction remaining with
  | zero =>
    refine hcondition.bind fun v => (Traced.Settles.doing (.asks v) nofun).bind fun _ => ?_
    split
    · exact .throw _
    · exact .pure rfl
  | succ remaining ih =>
    refine hcondition.bind fun v => (Traced.Settles.doing (.asks v) nofun).bind fun _ => ?_
    split
    · exact (Traced.Settles.plainly _).bind fun _ => hbody.andThen ih
    · exact .pure rfl

theorem settles_executeBy (h : parts.Settles) (statement : Node) :
    Traced.Settles Signal.returned? (executeBy parts statement) := by
  refine (Traced.Settles.doing (.executes statement) nofun).bind fun _ => ?_
  cases statement with
  | expression expr => exact (h.evaluate expr).bind fun _ => .pure rfl
  | print expr =>
    refine (h.evaluate expr).bind fun v => (Traced.Settles.doing (.prints v) nofun).bind fun _ => ?_
    exact (Traced.Settles.plainly _).bind fun _ => .pure rfl
  | declare name init =>
    refine (h.evaluate init).bind fun v => (Traced.Settles.doing (.declares name v) nofun).bind fun _ => ?_
    exact (Traced.Settles.plainly _).bind fun _ => (Traced.Settles.plainly _).bind fun _ => .pure rfl
  | function name params body =>
    refine (Traced.Settles.doing (.defines name) nofun).bind fun _ => ?_
    exact (Traced.Settles.plainly _).bind fun _ => (Traced.Settles.plainly _).bind fun _ => .pure rfl
  | ret expr => exact (h.evaluate expr).bind .returning
  | block statements => exact h.executeAll statements
  | ifElse condition thenBlock elseBlock =>
    refine (h.evaluate condition).bind fun v => (Traced.Settles.doing (.asks v) nofun).bind fun _ => ?_
    refine (Traced.Settles.plainly _).bind fun _ => ?_
    split
    · exact h.execute thenBlock
    · split
      · exact .pure rfl
      · exact h.execute elseBlock
  | whileLoop condition body => exact h.loop condition body
  | _ => exact .throw _

theorem settles_executeAllBy (h : parts.Settles) (statements : List Node) :
    Traced.Settles Signal.returned? (executeAllBy parts statements) := by
  induction statements with
  | nil => exact .pure rfl
  | cons statement rest ih => exact (h.execute statement).andThen ih

theorem settles_callBy (h : parts.Settles) (name : Value) (args : List Value) :
    Traced.Settles nothing (callBy parts name args) := by
  refine (Traced.Settles.plainly _).bind fun found => (Traced.Settles.plainly _).bind fun _ => ?_
  refine (Traced.Settles.plainly _).bind fun _ => (Traced.Settles.plainly _).bind fun frame => ?_
  exact (h.execute found.2).calling name args frame

/-- **All runs settle**, on any number of levels. -/
theorem settles_withLevels (levels : Nat) : (withLevels levels).Settles := by
  induction levels with
  | zero =>
    exact ⟨fun _ => .throw _, fun _ => .throw _, fun _ => .throw _, fun _ => .throw _, fun _ _ => .throw _,
      fun _ _ => .throw _⟩
  | succ levels ih =>
    exact {
      evaluate := settles_evaluateBy ih
      evaluateAll := settles_evaluateAllBy ih
      execute := settles_executeBy ih
      executeAll := settles_executeAllBy ih
      loop := fun condition body => settles_repeatWhile (ih.evaluate condition) (ih.execute body) _
      call := settles_callBy ih }

/-! ## Calls and programs -/

/-- A run without deeds before another that ends well. -/
theorem deeds_of_bind {α β : Type} {r : Run α} {f : α → Traced β} {b : β} {m m' : Machine}
    (h : (Traced.of r >>= f).plain m = .ok b m') :
    ∃ a m₁, (f a).plain m₁ = .ok b m' ∧ (Traced.of r >>= f).deeds m = (f a).deeds m₁ := by
  rw [plain_bind, plain_of] at h
  simp only [Bind.bind, EStateM.bind] at h
  cases hr : r m with
  | error e m₁ =>
    rw [hr] at h
    cases h
  | ok a m₁ =>
    rw [hr] at h
    refine ⟨a, m₁, h, ?_⟩
    rw [deeds_bind, plain_of, hr]
    rfl

/-- **A call that ends well is one deed**, with the value that it gives. -/
theorem deeds_callBy {name v : Value} {args : List Value} {m m' : Machine}
    (h : (callBy parts name args).plain m = .ok v m') :
    ∃ deeds, (callBy parts name args).deeds m = [.calls name args deeds (some v)] := by
  obtain ⟨found, m₁, h₁, hdeeds₁⟩ := deeds_of_bind h
  obtain ⟨-, m₂, h₂, hdeeds₂⟩ := deeds_of_bind h₁
  obtain ⟨-, m₃, h₃, hdeeds₃⟩ := deeds_of_bind h₂
  obtain ⟨frame, m₄, h₄, hdeeds₄⟩ := deeds_of_bind h₃
  refine ⟨(parts.execute found.2).deeds { m₄ with scope := m₄.scope.enter frame }, ?_⟩
  rw [callBy, hdeeds₁, hdeeds₂, hdeeds₃, hdeeds₄]
  show [Deed.calls name args _ (givenBy some ((Traced.calling name args frame (parts.execute found.2)).plain m₄))] = _
  rw [h₄]
  rfl

end Tracing

/-- **A program in which a return comes up gives its value.** -/
theorem Machine.run_of_returns {statements : List Node} {v : Value} {m : Machine}
    (h : .returns v ∈ ((Tracing.withLevels maxLevels).executeAll statements).deeds
      ((note (.started statements.length)).left m)) :
    ∃ m', Machine.run (.program statements) m = .ok v m' := by
  have hline : (Note.started statements.length).line.SurrogateFree :=
    .append (.append .ofString (Numeral.surrogateFree_ofNat _)) .ofString
  obtain ⟨m₀, hstarted⟩ : ∃ m₀, note (.started statements.length) m = .ok () m₀ := ⟨_, note_eq_ok hline m⟩
  have hleft : (note (.started statements.length)).left m = m₀ := by
    unfold left
    rw [hstarted]
  rw [hleft] at h
  obtain ⟨m₁, hbody⟩ := ((Tracing.settles_withLevels maxLevels).executeAll statements).plain_of_returns h
  have hbody : Machine.executeAll statements m₀ = .ok (.returned v) m₁ := by
    rw [← hbody]
    exact congrArg (fun M : Meaning => M.executeAll statements m₀) (Tracing.plain_withLevels maxLevels).symm
  have hfinished : Note.finished.line.SurrogateFree := .ofString
  obtain ⟨m₂, hrun⟩ : ∃ m₂, Machine.runAll statements m₀ = .ok v m₂ := by
    unfold runAll
    rw [hbody]
    simp only [Bind.bind, EStateM.bind, note_eq_ok hfinished]
    exact ⟨_, rfl⟩
  refine ⟨m₂.withLogClosed, ?_⟩
  simp only [Machine.run, Node.statements?, Bind.bind, EStateM.bind, hstarted, Machine.closingLog, hrun]

/-- **Statements in sequence.** From any machine and on any number of levels:
    a list of statements in two pieces does what the first piece does, and if that ends normally then what the second
    does, with the outputs one after the other; and the same holds of any number of pieces. No run reads what has been
    emitted, so the output after it is the output before it and a list that does not depend on that, also on an error.
    Among the deeds of statements a return comes last, and its value is what they return; so it is in every call that
    is made, and the call gives the value. A program in which a return comes up gives its value too. -/
theorem runs_in_sequence (levels : Nat) (m : Machine) :
    let M := withLevels (levels + 1)
    let T := Tracing.withLevels (levels + 1)
    (∀ first second,
      M.executeAll (first ++ second) m =
        (match M.executeAll first m with
          | .ok .normal m' => M.executeAll second m'
          | outcome => outcome) ∧
      ∀ m', M.executeAll first m = .ok .normal m' →
        ((M.executeAll (first ++ second)).left m).output =
          m.output ++ ((M.executeAll first).left m.silent).output ++
            ((M.executeAll second).left m'.silent).output) ∧
    (∀ pieces, M.executePieces pieces m = M.executeAll pieces.flatten m) ∧
    (M.OnlyAppends ∧
      ∀ statements, ((M.executeAll statements).left m).output =
        m.output ++ ((M.executeAll statements).left m.silent).output) ∧
    (∀ program, (Machine.run program).OnlyAppends ∧
      ((Machine.run program).left m).output = m.output ++ ((Machine.run program).left m.silent).output) ∧
    (T.plain = M ∧ T.Settles) ∧
    (∀ statements v, .returns v ∈ (T.executeAll statements).deeds m →
      ∃ before m', (T.executeAll statements).deeds m = before ++ [.returns v] ∧
        M.executeAll statements m = .ok (.returned v) m') ∧
    (∀ name args v m', M.call name args m = .ok v m' →
      ∃ deeds, (T.call name args).deeds m = [.calls name args deeds (some v)]) ∧
    (∀ statements v, .returns v ∈ ((Tracing.withLevels maxLevels).executeAll statements).deeds
        ((note (.started statements.length)).left m) →
      ∃ m', Machine.run (.program statements) m = .ok v m') := by
  intro M T
  have honly : M.OnlyAppends := onlyAppends_withLevels _
  have hplain : T.plain = M := Tracing.plain_withLevels _
  have hsettles : T.Settles := Tracing.settles_withLevels _
  have happend : ∀ first second, M.executeAll (first ++ second) = (M.executeAll first).andThen (M.executeAll second) :=
    executeAllBy_append _
  refine ⟨fun first second => ⟨?_, ?_⟩, fun pieces => ?_, ⟨honly, fun statements => ?_⟩, fun program => ?_,
    ⟨hplain, hsettles⟩, fun statements v hv => ?_, fun name args v m' h => ?_,
    fun statements v => Machine.run_of_returns⟩
  · rw [happend]
    rfl
  · intro m' h
    rw [happend]
    exact (honly.executeAll first).output_andThen (honly.executeAll second) h
  · exact congrFun (executeAllBy_flatten _ pieces).symm m
  · exact (honly.executeAll statements).output_left m
  · exact ⟨Machine.onlyAppends_run program, (Machine.onlyAppends_run program).output_left m⟩
  · obtain ⟨m', hm'⟩ := (hsettles.executeAll statements).plain_of_returns hv
    obtain ⟨-, hlast⟩ := hsettles.executeAll statements m
    obtain ⟨-, before, hbefore⟩ := ReturnsLast.eq_of_mem hlast hv
    refine ⟨before, m', hbefore, ?_⟩
    rw [← hplain]
    exact hm'
  · rw [← hplain] at h
    exact Tracing.deeds_callBy h

end LineaLang
