import LineaLang.Proofs.Ensures
import LineaLang.Proofs.Machine.Ending

/-!
# `LineaLang.Proofs.Machine.Regime` — what holds all along a run

Many facts about runs have one shape: an invariant of the machine holds from step to step, certain values come out, and
a run stops for certain reasons only. A `Regime` states such a fact. It says what is kept, of which trees, and what is
known of the values; all of it may depend on the place in the run, as inside a call other things hold than outside.

What has to be shown for a regime concerns single steps only. For each kind of node the clause of its meaning leaves
obligations on the steps in it (`Regime.Evaluates`, `Regime.Executes`, `Regime.Calls`), and a regime whose trees meet
them is `Lawful`. The meaning of wholes then keeps to the regime if that of their parts does, and levels are opened one
by one.

## Contents

* `Ensures.inFrame` — a computation inside a frame.
* `Regime`, `Regime.Keeps` — what is kept, and runs that keep it.
* `Regime.Evaluates`, `Regime.Executes`, `Regime.Calls`, `Regime.Lawful` — what has to be shown.
* `Regime.Governs`, `Regime.Lawful.governs_withLevels` — the meaning of trees.
* `Regime.Lawful.runAll` — the statements of a program, with the note at their end.
-/

namespace LineaLang

open Run Meaning

/-! ## Frames -/

/-- **Inside a frame**, which is closed in the end. Other things may hold while it is open. -/
theorem Ensures.inFrame {α : Type} {I inner : Machine → Prop} {allowed : RunFailure → Prop} {r : Run α}
    {post : α → Prop} {frame : Table Value} (h : Ensures inner r post allowed)
    (henter : ∀ m, I m → inner { m with scope := m.scope.enter frame })
    (hleave : ∀ m, inner m → I { m with scope := m.scope.leave }) : Ensures I (Run.inFrame frame r) post allowed := by
  intro m hm
  have hbody := h _ (henter m hm)
  unfold Run.inFrame
  generalize r _ = outcome at hbody ⊢
  cases hbody with
  | ok hm' ha => exact .ok (hleave _ hm') ha
  | error hm' he => exact .error (hleave _ hm') he

/-! ## Regimes -/

/-- **What holds all along a run**, where `C` are the places in it. -/
structure Regime (C : Type) where
  /-- The invariant. -/
  inv : C → Machine → Prop
  /-- The reasons to stop. -/
  allowed : RunFailure → Prop
  /-- The values that are bound, given and printed. -/
  value : Value → Prop
  /-- The values of conditions. -/
  answer : Value → Prop
  /-- The names of functions that are called. -/
  name : Value → Prop
  expression : C → Node → Prop
  condition : C → Node → Prop
  statement : C → Node → Prop
  /-- The place inside a call that is made at a place. -/
  inside : C → C

namespace Regime

variable {C : Type}

section

variable (R : Regime C) (c : C)

/-- **A run that keeps to a regime** at a place, and gives something with a property. -/
abbrev Keeps {α : Type} (r : Run α) (post : α → Prop) : Prop := Ensures (R.inv c) r post R.allowed

/-- A run that gives nothing in particular. -/
abbrev Passes {α : Type} (r : Run α) : Prop := R.Keeps c r fun _ => True

/-- **What the evaluation of a node comes down to**, if its value has a property. -/
def Evaluates (post : Value → Prop) : Node → Prop
  | .number v => post v
  | .string v => post v
  | .ident name => R.Keeps c (query (·.get name)) post
  | .assign target expr =>
    R.expression c expr ∧ ∀ v, R.value v → post v ∧ R.Passes c (update (·.set target v))
  | .arith op left right =>
    R.expression c left ∧ R.expression c right ∧
      ∀ a b, R.value a → R.value b → R.Keeps c (ofCalculation (Calculation.arith op a b)) post
  | .comparison op left right =>
    R.expression c left ∧ R.expression c right ∧
      ∀ a b, R.value a → R.value b → R.Keeps c (ofCalculation (Calculation.compare op a b)) fun b => post (.bool b)
  | .call callee args => R.name callee ∧ (∀ arg ∈ args, R.expression c arg) ∧ ∀ v, R.value v → post v
  | other => R.allowed (.fault (.unexpected .evaluation other.kind))

/-- **What the execution of a node comes down to.** -/
def Executes : Node → Prop
  | .expression expr => R.expression c expr
  | .print expr => R.expression c expr ∧ ∀ v, R.value v → R.Passes c (Run.print v)
  | .ret expr => R.expression c expr
  | .declare name init =>
    R.expression c init ∧
      ∀ v, R.value v → R.Passes c (update (·.declareName name v)) ∧ R.Passes c (note (.declared name v))
  | .function name params body =>
    R.Passes c (update (·.defineName name (.function name params body))) ∧ R.Passes c (noteDefined name params)
  | .block statements => ∀ statement ∈ statements, R.statement c statement
  | .ifElse condition thenBlock elseBlock =>
    R.condition c condition ∧ (∀ v, R.answer v → R.Passes c (note (.branched v))) ∧
      R.statement c thenBlock ∧ (elseBlock.isAbsent = true ∨ R.statement c elseBlock)
  | .whileLoop condition body => R.condition c condition ∧ R.statement c body
  | other => R.allowed (.fault (.unexpected .execution other.kind))

/-- **What a call comes down to**: the body that is found is kept to the regime inside the call, and the frame leads
    there. -/
structure Calls (name : Value) (args : List Value) : Prop where
  callee : R.Keeps c (callee name args.length) fun found =>
    R.statement (R.inside c) found.2 ∧ R.Keeps c (query fun _ => frameOf found.1 args) fun frame =>
      ∀ m, R.inv c m → R.inv (R.inside c) { m with scope := m.scope.enter frame }
  checkCalls : R.Passes c (checkCalls name)
  note : R.Passes c (note (.called name args))

/-- **A lawful regime**: its trees come down to steps that keep to it. -/
structure Lawful : Prop where
  none : R.value .none
  tooDeep : R.allowed (.fault .tooDeep)
  iterationLimit : R.allowed (.error (.iterationLimit maxIterations))
  iterated : ∀ c count, R.Passes c (note (.iterated count))
  expression : ∀ {c node}, R.expression c node → R.Evaluates c R.value node
  condition : ∀ {c node}, R.condition c node → R.Evaluates c R.answer node
  statement : ∀ {c node}, R.statement c node → R.Executes c node
  calls : ∀ {c name args}, R.name name → (∀ v ∈ args, R.value v) → R.Calls c name args
  leave : ∀ {c m}, R.inv (R.inside c) m → R.inv c { m with scope := m.scope.leave }

/-- **A meaning under a regime**: what it says of the trees of the regime keeps to it. -/
structure Governs (M : Meaning) : Prop where
  evaluate : ∀ {c expr}, R.expression c expr → R.Keeps c (M.evaluate expr) R.value
  condition : ∀ {c condition}, R.condition c condition → R.Keeps c (M.evaluate condition) R.answer
  evaluateAll : ∀ {c exprs}, (∀ expr ∈ exprs, R.expression c expr) →
    R.Keeps c (M.evaluateAll exprs) fun values => ∀ v ∈ values, R.value v
  execute : ∀ {c statement}, R.statement c statement →
    R.Keeps c (M.execute statement) fun signal => R.value signal.value
  executeAll : ∀ {c statements}, (∀ statement ∈ statements, R.statement c statement) →
    R.Keeps c (M.executeAll statements) fun signal => R.value signal.value
  loop : ∀ {c condition body}, R.condition c condition → R.statement c body →
    R.Keeps c (M.loop condition body) fun signal => R.value signal.value
  call : ∀ {c name args}, R.name name → (∀ v ∈ args, R.value v) → R.Keeps c (M.call name args) R.value

end

variable {R : Regime C} {c : C}

/-- A value with a property has a weaker one. -/
theorem Evaluates.imp {post post' : Value → Prop} {node : Node} (h : R.Evaluates c post node)
    (himp : ∀ v, post v → post' v) : R.Evaluates c post' node := by
  cases node with
  | number v | string v => exact himp v h
  | ident name => exact Ensures.imp h himp
  | assign target expr => exact ⟨h.1, fun v hv => ⟨himp v (h.2 v hv).1, (h.2 v hv).2⟩⟩
  | arith op left right => exact ⟨h.1, h.2.1, fun a b ha hb => (h.2.2 a b ha hb).imp himp⟩
  | comparison op left right => exact ⟨h.1, h.2.1, fun a b ha hb => (h.2.2 a b ha hb).imp fun b => himp (.bool b)⟩
  | call callee args => exact ⟨h.1, h.2.1, fun v hv => himp v (h.2.2 v hv)⟩
  | _ => exact h

namespace Lawful

variable {P : Meaning} (h : R.Lawful) (hP : R.Governs P)

include hP

/-! ## Expressions -/

theorem keeps_evaluateBy {post : Value → Prop} {expr : Node} (hexpr : R.Evaluates c post expr) :
    R.Keeps c (evaluateBy P expr) post := by
  cases expr with
  | number v | string v => exact .pure hexpr
  | ident name => exact hexpr
  | assign target value =>
    exact (hP.evaluate hexpr.1).bind fun v hv => (hexpr.2 v hv).2.bind fun _ _ => .pure (hexpr.2 v hv).1
  | arith op left right =>
    exact (hP.evaluate hexpr.1).bind fun a ha => (hP.evaluate hexpr.2.1).bind fun b hb => hexpr.2.2 a b ha hb
  | comparison op left right =>
    refine (hP.evaluate hexpr.1).bind fun a ha => (hP.evaluate hexpr.2.1).bind fun b hb => ?_
    exact (hexpr.2.2 a b ha hb).bind fun answer hanswer => .pure hanswer
  | call callee args =>
    exact (hP.evaluateAll hexpr.2.1).bind fun values hvalues => (hP.call hexpr.1 hvalues).imp hexpr.2.2
  | _ => exact .throw hexpr

theorem keeps_evaluateAllBy {exprs : List Node} (hexprs : ∀ expr ∈ exprs, R.expression c expr) :
    R.Keeps c (evaluateAllBy P exprs) fun values => ∀ v ∈ values, R.value v := by
  induction exprs with
  | nil => exact .pure (List.forall_mem_nil _)
  | cons expr rest ih =>
    rw [List.forall_mem_cons] at hexprs
    refine (hP.evaluate hexprs.1).bind fun v hv => (ih hexprs.2).bind fun more hmore => ?_
    exact .pure (List.forall_mem_cons.mpr ⟨hv, hmore⟩)

/-! ## Statements -/

include h

theorem keeps_loopBy {condition body : Node} (hcondition : R.condition c condition) (hbody : R.statement c body) :
    R.Keeps c (loopBy P condition body) fun signal => R.value signal.value := by
  unfold loopBy
  induction maxIterations with
  | zero =>
    refine (hP.condition hcondition).bind fun v _ => ?_
    split
    · exact .throw h.iterationLimit
    · exact .pure h.none
  | succ remaining ih =>
    refine (hP.condition hcondition).bind fun v _ => ?_
    split
    · refine (h.iterated c _).bind fun _ _ => (hP.execute hbody).bind fun signal hsignal => ?_
      cases signal with
      | normal => exact ih
      | returned v => exact .pure hsignal
    · exact .pure h.none

theorem keeps_executeBy {statement : Node} (hstatement : R.Executes c statement) :
    R.Keeps c (executeBy P statement) fun signal => R.value signal.value := by
  cases statement with
  | expression expr => exact (hP.evaluate hstatement).bind fun _ _ => .pure h.none
  | print expr =>
    exact (hP.evaluate hstatement.1).bind fun v hv => (hstatement.2 v hv).bind fun _ _ => .pure h.none
  | ret expr => exact (hP.evaluate hstatement).bind fun v hv => .pure hv
  | declare name init =>
    refine (hP.evaluate hstatement.1).bind fun v hv => (hstatement.2 v hv).1.bind fun _ _ => ?_
    exact (hstatement.2 v hv).2.bind fun _ _ => .pure h.none
  | function name params body =>
    exact hstatement.1.bind fun _ _ => hstatement.2.bind fun _ _ => .pure h.none
  | block statements => exact hP.executeAll hstatement
  | ifElse condition thenBlock elseBlock =>
    obtain ⟨hcondition, hnote, hthen, helse⟩ := hstatement
    refine (hP.condition hcondition).bind fun v hv => (hnote v hv).bind fun _ _ => ?_
    split
    · exact hP.execute hthen
    · split
      · exact .pure h.none
      · exact hP.execute (helse.resolve_left ‹_›)
  | whileLoop condition body => exact hP.loop hstatement.1 hstatement.2
  | _ => exact .throw hstatement

theorem keeps_executeAllBy {statements : List Node} (hstatements : ∀ statement ∈ statements, R.statement c statement) :
    R.Keeps c (executeAllBy P statements) fun signal => R.value signal.value := by
  induction statements with
  | nil => exact .pure h.none
  | cons statement rest ih =>
    rw [List.forall_mem_cons] at hstatements
    refine (hP.execute hstatements.1).bind fun signal hsignal => ?_
    cases signal with
    | normal => exact ih hstatements.2
    | returned v => exact .pure hsignal

/-! ## Calls -/

/-- **A call**: its body is executed at the place inside it. -/
theorem keeps_callBy {name : Value} {args : List Value} (hname : R.name name) (hargs : ∀ v ∈ args, R.value v) :
    R.Keeps c (callBy P name args) R.value := by
  have hcall : R.Calls c name args := h.calls hname hargs
  refine hcall.callee.bind fun found hfound => hcall.checkCalls.bind fun _ _ => hcall.note.bind fun _ _ => ?_
  refine hfound.2.bind fun frame henter => ?_
  have hbody : R.Keeps c (inFrame frame (P.execute found.2)) fun signal => R.value signal.value :=
    (hP.execute hfound.1).inFrame henter fun _ => h.leave
  exact hbody.bind fun signal hsignal => .pure hsignal

/-! ## All trees -/

/-- **The meaning of wholes keeps to a regime if that of their parts does.** -/
theorem governs_ofParts : R.Governs (ofParts P) where
  evaluate hexpr := keeps_evaluateBy hP (h.expression hexpr)
  condition hcondition := keeps_evaluateBy hP (h.condition hcondition)
  evaluateAll := keeps_evaluateAllBy hP
  execute hstatement := keeps_executeBy h hP (h.statement hstatement)
  executeAll := keeps_executeAllBy h hP
  loop := keeps_loopBy h hP
  call := keeps_callBy h hP

omit hP

theorem governs_exhausted : R.Governs exhausted :=
  ⟨fun _ => .throw h.tooDeep, fun _ => .throw h.tooDeep, fun _ => .throw h.tooDeep, fun _ => .throw h.tooDeep,
    fun _ => .throw h.tooDeep, fun _ _ => .throw h.tooDeep, fun _ _ => .throw h.tooDeep⟩

/-- **The meaning of trees keeps to a regime**, however many levels may be opened. -/
theorem governs_withLevels (levels : Nat) : R.Governs (withLevels levels) := by
  induction levels with
  | zero => exact h.governs_exhausted
  | succ levels ih => exact h.governs_ofParts ih

/-! ## Programs -/

/-- **The statements of a program.** Each way to end is noted, and want of levels becomes an error of the language;
    so the reasons to stop may be others here. -/
theorem runAll {allowed : RunFailure → Prop} {statements : List Node}
    (hstatements : ∀ statement ∈ statements, R.statement c statement)
    (hfinished : Ensures (R.inv c) (note .finished) (fun _ => True) allowed)
    (hstopped : ∀ e, R.allowed (.error e) →
      Ensures (R.inv c) (note (.stopped e)) (fun _ => True) allowed ∧ allowed (.error e))
    (hdeep : Ensures (R.inv c) (note .stoppedTooDeep) (fun _ => True) allowed ∧ allowed (.error .nestingLimit))
    (hother : ∀ failure, R.allowed failure → (∀ e, failure ≠ .error e) → failure ≠ .fault .tooDeep → allowed failure) :
    Ensures (R.inv c) (Machine.runAll statements) R.value allowed := by
  intro m hm
  have hbody := (h.governs_withLevels maxLevels).executeAll hstatements m hm
  change Expected _ _ _ (Machine.executeAll statements m) at hbody
  rw [Machine.runAll_eq]
  unfold Run.thenBy
  generalize Machine.executeAll statements m = outcome at hbody ⊢
  cases hbody with
  | ok hm' hv => exact hfinished.bind (fun _ _ => .pure hv) _ hm'
  | @error failure m' hm' he =>
    rcases Machine.endedBy_failure failure with ⟨e, rfl⟩ | rfl | ⟨herror, hnotDeep, hpassed⟩
    · exact (hstopped e he).1.bind (fun _ _ => .throw (hstopped e he).2) _ hm'
    · exact hdeep.1.bind (fun _ _ => .throw hdeep.2) _ hm'
    · simp only [hpassed]
      exact .error hm' (hother _ he herror hnotDeep)

end Lawful

end Regime

/-- **Closing the log** in the end does not matter to an invariant that does not look at it. -/
theorem Ensures.closingLog {α : Type} {I : Machine → Prop} {allowed : RunFailure → Prop} {r : Run α}
    {post : α → Prop} (h : Ensures I r post allowed) (hclose : ∀ m, I m → I m.withLogClosed) :
    Ensures I (Machine.closingLog r) post allowed := by
  intro m hm
  have hend := h m hm
  unfold Machine.closingLog
  generalize r m = outcome at hend ⊢
  cases hend with
  | ok hm' ha => exact .ok (hclose _ hm') ha
  | error hm' he => exact .error (hclose _ hm') he

end LineaLang
