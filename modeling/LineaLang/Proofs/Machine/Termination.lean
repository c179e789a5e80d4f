import LineaLang.Proofs.Machine.Frames

/-!
# `LineaLang.Proofs.Machine.Termination` — every run ends

The meaning of trees is given by levels, and a run that has too few of them stops because of that. For a run that
goes on for ever no number of levels would do. There is none: for every tree and every machine some number of
levels is enough, and more make no difference (`Run.Settles`).

The body of a function that is called is no part of the call, so no induction on trees can go through calls. What
shrinks from a call to the body is the number of calls that may still be opened, as frames that are closed again
do not count. So the induction is on that number first; within it calls settle whatever the function is, and an
induction on trees is enough for all else. A loop settles since the iterations that it may still make shrink.

## Contents

* `Run.Finished`, `Run.Settles` — the end of a run, and runs that come to it if there are enough levels.
* `Run.SettlesWithin` — the same on all machines where only so many calls may still be opened; a composition of
  such runs is one.
* `Meaning.SettlesWithin` — the same for all trees.
* `agree_more_levels` — more levels change the outcome only where there were too few.
* `every_run_settles` — every run ends.
-/

namespace LineaLang

open Meaning

namespace Run

variable {α β : Type}

/-! ## Ends of runs -/

/-- **A run has come to its end**: it gives something, with as many calls open as when it began, or it stops, and
    not for want of levels. -/
inductive Finished (m : Machine) : EStateM.Result RunFailure Machine α → Prop where
  | ok {a : α} {m' : Machine} (h : m'.scope.depth = m.scope.depth) : Finished m (.ok a m')
  | error {e : RunFailure} {m' : Machine} (h : e ≠ .fault .tooDeep) : Finished m (.error e m')

/-- **A run settles on a machine**: with enough levels it comes to its end, and always to the same one; with fewer
    it does so too or stops for want of levels. -/
def Settles (run : (levels : Nat) → Run α) (m : Machine) : Prop :=
  ∃ enough outcome, Finished m outcome ∧ (∀ levels, enough ≤ levels → run levels m = outcome) ∧
    ∀ levels, run levels m = outcome ∨ ∃ m', run levels m = .error (.fault .tooDeep) m'

/-- **A run comes to its end on every machine** where at most `calls` more calls may be opened, if there are enough
    levels. -/
def SettlesWithin (calls : Nat) (run : (levels : Nat) → Run α) : Prop :=
  ∀ m : Machine, maxCalls ≤ m.scope.depth + calls →
    ∃ enough outcome, Finished m outcome ∧ ∀ levels, enough ≤ levels → run levels m = outcome

namespace SettlesWithin

variable {calls : Nat}

/-- A run that does not depend on levels settles, if it finishes. -/
theorem const {r : Run α} (h : ∀ m, Finished m (r m)) : SettlesWithin calls fun _ => r :=
  fun m _ => ⟨0, r m, h m, fun _ _ => rfl⟩

theorem pure (a : α) : SettlesWithin calls fun _ => (Pure.pure a : Run α) :=
  const fun _ => .ok rfl

theorem throw {e : RunFailure} (h : e ≠ .fault .tooDeep) :
    SettlesWithin calls fun _ => (MonadExcept.throw e : Run α) :=
  const fun _ => .error h

/-- **One after the other.** The second run begins with as many calls open as the first. -/
theorem bind {r : Nat → Run α} {f : Nat → α → Run β} (hr : SettlesWithin calls r)
    (hf : ∀ a, SettlesWithin calls fun levels => f levels a) :
    SettlesWithin calls fun levels => r levels >>= f levels := by
  intro m hm
  obtain ⟨first, outcome, hfinished, hfirst⟩ := hr m hm
  cases hfinished with
  | @error e m' he =>
    refine ⟨first, .error e m', .error he, ?_⟩
    intro levels hlevels
    simp only [Bind.bind, EStateM.bind, hfirst levels hlevels]
  | @ok a m' hdepth =>
    have hm' : maxCalls ≤ m'.scope.depth + calls := by
      rw [hdepth]
      exact hm
    obtain ⟨second, outcome, hfinished, hsecond⟩ := hf a m' hm'
    refine ⟨max first second, outcome, ?_, ?_⟩
    · cases hfinished with
      | ok hdepth' => exact .ok (hdepth'.trans hdepth)
      | error he => exact .error he
    · intro levels hlevels
      simp only [Bind.bind, EStateM.bind, hfirst levels (Nat.le_trans (Nat.le_max_left _ _) hlevels)]
      exact hsecond levels (Nat.le_trans (Nat.le_max_right _ _) hlevels)

/-- What settles one level further down settles. -/
theorem ofParts {run : Nat → Run α} (h : SettlesWithin calls fun levels => run (levels + 1)) :
    SettlesWithin calls run := by
  intro m hm
  obtain ⟨enough, outcome, hfinished, henough⟩ := h m hm
  refine ⟨enough + 1, outcome, hfinished, ?_⟩
  intro levels hlevels
  cases levels with
  | zero => exact absurd hlevels (Nat.not_succ_le_zero _)
  | succ levels => exact henough levels (Nat.le_of_succ_le_succ hlevels)

/-- **Inside a frame** one call fewer may be opened. -/
theorem inFrame {body : Nat → Run α} (h : SettlesWithin calls body) (frame : Table Value) :
    SettlesWithin (calls + 1) fun levels => Run.inFrame frame (body levels) := by
  intro m hm
  have hinside : maxCalls ≤ ({ m with scope := m.scope.enter frame } : Machine).scope.depth + calls := by
    rw [Nat.add_comm calls 1, ← Nat.add_assoc] at hm
    exact hm
  obtain ⟨enough, outcome, hfinished, henough⟩ := h _ hinside
  cases hfinished with
  | @ok a m' hdepth =>
    refine ⟨enough, .ok a { m' with scope := m'.scope.leave }, .ok ?_, ?_⟩
    · have htail : m'.scope.leave.depth = m'.scope.depth - 1 := List.length_tail
      rw [htail, hdepth]
      rfl
    · intro levels hlevels
      simp only [Run.inFrame, henough levels hlevels]
  | @error e m' he =>
    refine ⟨enough, .error e { m' with scope := m'.scope.leave }, .error he, ?_⟩
    intro levels hlevels
    simp only [Run.inFrame, henough levels hlevels]

end SettlesWithin

/-! ## Steps that need no levels -/

theorem finished_query {read : Scope → Except RunFailure α} {m : Machine}
    (h : ∀ e, read m.scope = .error e → e ≠ .fault .tooDeep) : Finished m (query read m) := by
  unfold query
  cases hread : read m.scope with
  | ok a => exact .ok rfl
  | error e => exact .error (h e hread)

theorem finished_print (v : Value) (m : Machine) : Finished m (print v m) := by
  unfold print
  split
  · exact .ok rfl
  · exact .error nofun

theorem finished_note (n : Note) (m : Machine) : Finished m (note n m) := by
  unfold note
  split
  · split
    · refine .ok (congrArg Scope.depth ?_)
      unfold Machine.noted
      split <;> rfl
    · exact .error nofun
  · exact .ok rfl

end Run

/-- A value that is no name is no want of levels. -/
theorem Scope.key_error {name : Value} {e : RunFailure} (h : Scope.key name = .error e) : e ≠ .fault .tooDeep := by
  unfold Scope.key at h
  cases hkey : name.key? with
  | ok key =>
    rw [hkey] at h
    cases h
  | error fault =>
    rw [hkey] at h
    cases h
    exact nofun

open Run

/-- A change of the scope at the key of a name finishes, if it opens or closes no frame. -/
theorem finished_update {name : Value} {change : Scope → Key → Scope}
    (h : ∀ s key, (change s key).depth = s.depth) (m : Machine) :
    Finished m (update (fun s => do return change s (← Scope.key name)) m) := by
  unfold update
  cases hkey : Scope.key name with
  | ok key => exact .ok (h m.scope key)
  | error e => exact .error (Scope.key_error hkey)

theorem finished_get (name : Value) (m : Machine) : Finished m (query (·.get name) m) := by
  refine finished_query fun e he => ?_
  unfold Scope.get at he
  cases hkey : Scope.key name with
  | error fault =>
    rw [hkey] at he
    cases he
    exact Scope.key_error hkey
  | ok key =>
    rw [hkey] at he
    simp only [Bind.bind, Except.bind] at he
    split at he
    · cases he
    · cases he
      exact nofun

theorem finished_ofCalculation {α : Type} (calculated : Except RuntimeError α) (m : Machine) :
    Finished m (ofCalculation calculated m) := by
  cases calculated with
  | ok a => exact .ok rfl
  | error e => exact .error nofun

theorem finished_noteDefined (name : Value) (params : List Value) (m : Machine) :
    Finished m (noteDefined name params m) := by
  rw [noteDefined_eq]
  split
  · split
    · exact finished_note _ m
    · exact .error nofun
  · exact .ok rfl

theorem finished_frameOf (params args : List Value) (m : Machine) :
    Finished m (query (fun _ => frameOf params args) m) := by
  refine finished_query fun e he => ?_
  have hkeys : ∀ {params : List Value} {e}, parameterKeys params = .error e → e ≠ .fault .tooDeep := by
    intro params
    induction params with
    | nil => exact nofun
    | cons name rest ih =>
      intro e he
      rw [parameterKeys] at he
      cases hkey : Scope.key name with
      | error fault =>
        rw [hkey] at he
        cases he
        exact Scope.key_error hkey
      | ok key =>
        rw [hkey] at he
        cases hrest : parameterKeys rest with
        | error fault =>
          rw [hrest] at he
          cases he
          exact ih hrest
        | ok keys =>
          rw [hrest] at he
          cases he
  unfold frameOf at he
  cases hparams : parameterKeys params with
  | error fault =>
    rw [hparams] at he
    cases he
    exact hkeys hparams
  | ok keys =>
    rw [hparams] at he
    cases he

/-! ## Trees -/

namespace Meaning

/-- **All trees settle** on machines where at most `calls` more calls may be opened. -/
structure SettlesWithin (calls : Nat) : Prop where
  evaluate : ∀ expr, Run.SettlesWithin calls fun levels => (withLevels levels).evaluate expr
  evaluateAll : ∀ exprs, Run.SettlesWithin calls fun levels => (withLevels levels).evaluateAll exprs
  execute : ∀ statement, Run.SettlesWithin calls fun levels => (withLevels levels).execute statement
  executeAll : ∀ statements, Run.SettlesWithin calls fun levels => (withLevels levels).executeAll statements
  loop : ∀ condition body, Run.SettlesWithin calls fun levels => (withLevels levels).loop condition body
  call : ∀ name args, Run.SettlesWithin calls fun levels => (withLevels levels).call name args

variable {calls : Nat}

/-! ### Calls -/

theorem settles_callee (name : Value) (count : Nat) : Run.SettlesWithin calls fun _ => callee name count := by
  unfold callee
  refine Run.SettlesWithin.bind (.const fun m => finished_query fun e he => ?_) fun function => ?_
  · unfold Scope.callee at he
    cases hkey : Scope.key name with
    | error fault =>
      rw [hkey] at he
      cases he
      exact Scope.key_error hkey
    | ok key =>
      rw [hkey] at he
      simp only [Bind.bind, Except.bind] at he
      split at he
      · cases he
      · cases he
        exact nofun
  · cases function with
    | function _ params body =>
      show Run.SettlesWithin calls fun _ => if count = params.length then _ else _
      split
      · exact .pure _
      · exact .throw nofun
    | _ => exact .throw nofun

/-- **A call settles if the bodies of functions do** where one call fewer may be opened. If none may be opened, it
    does not come to a body. -/
theorem settles_call
    (h : ∀ fewer, calls = fewer + 1 → ∀ body,
      Run.SettlesWithin fewer fun levels => (withLevels levels).execute body) (name : Value) (args : List Value) :
    Run.SettlesWithin calls fun levels => (withLevels levels).call name args := by
  apply Run.SettlesWithin.ofParts
  show Run.SettlesWithin calls fun levels => callBy (withLevels levels) name args
  refine (settles_callee name args.length).bind fun found => ?_
  cases calls with
  | zero =>
    intro m hm
    have hfull : maxCalls ≤ m.scope.depth := hm
    refine ⟨0, .error (.error (.callDepth name maxCalls)) m, .error nofun, ?_⟩
    intro levels _
    simp only [Bind.bind, EStateM.bind, checkCalls_eq, if_pos hfull]
  | succ fewer =>
    have hcheck : Run.SettlesWithin (fewer + 1) fun _ => checkCalls name := by
      refine .const fun m => ?_
      rw [checkCalls_eq]
      split
      · exact .error nofun
      · exact .ok rfl
    refine hcheck.bind fun _ => (Run.SettlesWithin.const (finished_note _)).bind fun _ => ?_
    refine (Run.SettlesWithin.const (finished_frameOf found.1 args)).bind fun frame => ?_
    exact ((h fewer rfl found.2).inFrame frame).bind fun signal => .pure _

/-! ### Loops -/

/-- **A loop settles if its condition and its body do**, as the iterations that are left shrink. -/
theorem settles_loop {condition body : Node}
    (hcondition : Run.SettlesWithin calls fun levels => (withLevels levels).evaluate condition)
    (hbody : Run.SettlesWithin calls fun levels => (withLevels levels).execute body) :
    Run.SettlesWithin calls fun levels => (withLevels levels).loop condition body := by
  apply Run.SettlesWithin.ofParts
  show Run.SettlesWithin calls fun levels =>
    repeatWhile ((withLevels levels).evaluate condition) ((withLevels levels).execute body) maxIterations
  induction maxIterations with
  | zero =>
    refine hcondition.bind fun v => ?_
    by_cases hv : v.isTruthy = true
    · simp only [if_pos hv]
      exact .throw nofun
    · simp only [if_neg hv]
      exact .pure _
  | succ remaining ih =>
    refine hcondition.bind fun v => ?_
    by_cases hv : v.isTruthy = true
    · simp only [if_pos hv]
      refine (Run.SettlesWithin.const (finished_note _)).bind fun _ => hbody.bind fun signal => ?_
      cases signal with
      | normal => exact ih
      | returned v => exact .pure _
    · simp only [if_neg hv]
      exact .pure _

/-! ### Expressions -/

/-- All calls settle. -/
def CallsSettleWithin (calls : Nat) : Prop :=
  ∀ name args, Run.SettlesWithin calls fun levels => (withLevels levels).call name args

mutual

/-- **An expression settles** if calls do: its operands and arguments are trees below it. -/
theorem settles_evaluate (hcall : CallsSettleWithin calls) (expr : Node) :
    Run.SettlesWithin calls fun levels => (withLevels levels).evaluate expr := by
  apply Run.SettlesWithin.ofParts
  show Run.SettlesWithin calls fun levels => evaluateBy (withLevels levels) expr
  cases expr with
  | number value | string value => exact .pure _
  | ident name => exact .const (finished_get name)
  | assign target expr =>
    refine (settles_evaluate hcall expr).bind fun v => ?_
    refine Run.SettlesWithin.bind (.const (finished_update fun s key => ?_)) fun _ => .pure _
    exact (s.keeps_below_assign 0 key v).depth
  | arith op left right =>
    refine (settles_evaluate hcall left).bind fun a => (settles_evaluate hcall right).bind fun b => ?_
    exact .const (finished_ofCalculation _)
  | comparison op left right =>
    refine (settles_evaluate hcall left).bind fun a => (settles_evaluate hcall right).bind fun b => ?_
    exact (Run.SettlesWithin.const (finished_ofCalculation _)).bind fun _ => .pure _
  | call callee args =>
    have hargs : Run.SettlesWithin calls fun levels => (withLevels levels).evaluateAll args :=
      .ofParts (settles_evaluateAllBy hcall args)
    exact hargs.bind fun values => hcall callee values
  | _ => exact .throw nofun

theorem settles_evaluateAllBy (hcall : CallsSettleWithin calls) (exprs : List Node) :
    Run.SettlesWithin calls fun levels => evaluateAllBy (withLevels levels) exprs := by
  cases exprs with
  | nil => exact .pure _
  | cons expr rest =>
    refine (settles_evaluate hcall expr).bind fun v => ?_
    exact (settles_evaluateAllBy hcall rest).bind fun more => .pure _

end

/-! ### Statements -/

mutual

/-- **A statement settles** if calls do: what it executes itself is below it. -/
theorem settles_execute (hcall : CallsSettleWithin calls) (statement : Node) :
    Run.SettlesWithin calls fun levels => (withLevels levels).execute statement := by
  apply Run.SettlesWithin.ofParts
  show Run.SettlesWithin calls fun levels => executeBy (withLevels levels) statement
  cases statement with
  | expression expr => exact (settles_evaluate hcall expr).bind fun _ => .pure _
  | print expr =>
    refine (settles_evaluate hcall expr).bind fun v => ?_
    exact (Run.SettlesWithin.const (finished_print v)).bind fun _ => .pure _
  | declare name init =>
    refine (settles_evaluate hcall init).bind fun v => ?_
    refine Run.SettlesWithin.bind (.const (finished_update fun s key => ?_)) fun _ => ?_
    · exact (s.keeps_below_declare 0 key v).depth
    · exact (Run.SettlesWithin.const (finished_note _)).bind fun _ => .pure _
  | function name params body =>
    refine Run.SettlesWithin.bind (.const (finished_update fun s key => rfl)) fun _ => ?_
    exact (Run.SettlesWithin.const (finished_noteDefined name params)).bind fun _ => .pure _
  | ret expr => exact (settles_evaluate hcall expr).bind fun v => .pure _
  | block statements => exact .ofParts (settles_executeAllBy hcall statements)
  | ifElse condition thenBlock elseBlock =>
    refine (settles_evaluate hcall condition).bind fun v => ?_
    refine (Run.SettlesWithin.const (finished_note _)).bind fun _ => ?_
    by_cases hv : v.isTruthy = true
    · simp only [if_pos hv]
      exact settles_execute hcall thenBlock
    · simp only [if_neg hv]
      by_cases helse : elseBlock.isAbsent = true
      · simp only [if_pos helse]
        exact .pure _
      · simp only [if_neg helse]
        exact settles_execute hcall elseBlock
  | whileLoop condition body => exact settles_loop (settles_evaluate hcall condition) (settles_execute hcall body)
  | _ => exact .throw nofun

theorem settles_executeAllBy (hcall : CallsSettleWithin calls) (statements : List Node) :
    Run.SettlesWithin calls fun levels => executeAllBy (withLevels levels) statements := by
  cases statements with
  | nil => exact .pure _
  | cons statement rest =>
    refine (settles_execute hcall statement).bind fun signal => ?_
    cases signal with
    | normal => exact settles_executeAllBy hcall rest
    | returned v => exact .pure _

end

/-! ### All trees -/

/-- **All trees settle**, by induction on the calls that may still be opened. -/
theorem settlesWithin (calls : Nat) : SettlesWithin calls := by
  have hcalls : CallsSettleWithin calls := by
    induction calls with
    | zero => exact settles_call nofun
    | succ fewer ih =>
      refine settles_call fun fewer' heq body => ?_
      obtain rfl := Nat.succ.inj heq
      exact settles_execute ih body
  exact {
    evaluate := settles_evaluate hcalls
    evaluateAll := fun exprs => .ofParts (settles_evaluateAllBy hcalls exprs)
    execute := settles_execute hcalls
    executeAll := fun statements => .ofParts (settles_executeAllBy hcalls statements)
    loop := fun condition body => settles_loop (settles_evaluate hcalls condition) (settles_execute hcalls body)
    call := hcalls }

end Meaning

/-! ## More levels -/

/-- A run agrees with itself on one machine. -/
theorem Run.Agree.refl {α : Type} {excused : RunFailure → Prop} (r : Run α) : Run.Agree Eq Eq Eq excused r r := by
  rintro m _ rfl
  cases r m with
  | ok a m' => exact .ok rfl
  | error e m' => exact .error rfl

/-- Two runs that begin on one machine stay on one machine. -/
theorem coupling_same (excused : RunFailure → Prop) : Coupling (fun _ => Eq) (fun _ => True) excused where
  inside_succ _ := trivial
  lookup _ h _ := congrArg (fun m : Machine => m.scope.lookup? _) h
  function h _ := congrArg (fun m : Machine => m.scope.functions.find? _) h
  assign _ h key v := congrArg (fun m : Machine => { m with scope := m.scope.assign key v }) h
  declare _ h key v := congrArg (fun m : Machine => { m with scope := m.scope.declare key v }) h
  define _ h key function := congrArg (fun m : Machine => { m with scope := m.scope.define key function }) h
  print _ _ := .refl _
  note _ := .refl _
  noteDefined _ _ _ := .refl _
  checkCalls _ := .refl _
  enter h _ frame := congrArg (fun m : Machine => { m with scope := m.scope.enter frame }) h
  leave h := congrArg (fun m : Machine => { m with scope := m.scope.leave }) h

/-- **More levels change the outcome only where there were too few.** -/
theorem agree_more_levels (levels more : Nat) :
    Meaning.Agree (fun _ => Eq) (fun _ => True) (· = .fault .tooDeep) (withLevels levels)
      (withLevels (levels + more)) := by
  induction levels with
  | zero =>
    have hexhausted : ∀ {α : Type} (r : Run α),
        Run.Agree Eq Eq Eq (· = .fault .tooDeep) (Run.misfit .tooDeep) r := fun _ _ _ _ => .excused rfl
    exact ⟨fun _ _ => hexhausted _, fun _ _ => hexhausted _, fun _ _ => hexhausted _, fun _ _ => hexhausted _,
      fun _ _ _ => hexhausted _, fun _ _ => hexhausted _⟩
  | succ levels ih =>
    rw [Nat.succ_add]
    exact (coupling_same _).agree_ofParts ih

namespace Run

variable {α : Type} {run : Nat → Run α}

/-- **A run settles** if it comes to its end wherever only so many calls may be opened, and more levels change its
    outcome only where there were too few. -/
theorem SettlesWithin.settles (h : SettlesWithin maxCalls run)
    (hmore : ∀ levels more, Agree Eq Eq Eq (· = .fault .tooDeep) (run levels) (run (levels + more))) (m : Machine) :
    Settles run m := by
  obtain ⟨enough, outcome, hfinished, henough⟩ := h m (Nat.le_add_left _ _)
  refine ⟨enough, outcome, hfinished, henough, ?_⟩
  intro levels
  have hagree := @hmore levels enough m m rfl
  rw [henough _ (Nat.le_add_left _ _)] at hagree
  generalize run levels m = fewer at hagree ⊢
  cases hagree with
  | ok heq => exact .inl (congrArg _ heq)
  | error heq => exact .inl (congrArg _ heq)
  | excused he =>
    subst he
    exact .inr ⟨_, rfl⟩

end Run

/-- **Every run ends.** Whatever the tree, and whatever a machine knows, has bound and has open: some number of
    levels is enough for the run to come to its end, more levels do not change how it ends, and with fewer it
    ends in the same way or stops for want of levels. -/
theorem every_run_settles (m : Machine) :
    (∀ expr, Run.Settles (fun levels => (withLevels levels).evaluate expr) m) ∧
    (∀ exprs, Run.Settles (fun levels => (withLevels levels).evaluateAll exprs) m) ∧
    (∀ statement, Run.Settles (fun levels => (withLevels levels).execute statement) m) ∧
    (∀ statements, Run.Settles (fun levels => (withLevels levels).executeAll statements) m) ∧
    (∀ condition body, Run.Settles (fun levels => (withLevels levels).loop condition body) m) ∧
    (∀ name args, Run.Settles (fun levels => (withLevels levels).call name args) m) := by
  have h := settlesWithin maxCalls
  refine ⟨fun expr => ?_, fun exprs => ?_, fun statement => ?_, fun statements => ?_, fun condition body => ?_,
    fun name args => ?_⟩
  · exact (h.evaluate expr).settles (fun _ _ => (agree_more_levels _ _).evaluate (k := 0) trivial expr) m
  · exact (h.evaluateAll exprs).settles (fun _ _ => (agree_more_levels _ _).evaluateAll (k := 0) trivial exprs) m
  · exact (h.execute statement).settles (fun _ _ => (agree_more_levels _ _).execute (k := 0) trivial statement) m
  · exact (h.executeAll statements).settles
      (fun _ _ => (agree_more_levels _ _).executeAll (k := 0) trivial statements) m
  · exact (h.loop condition body).settles (fun _ _ => (agree_more_levels _ _).loop (k := 0) trivial condition body) m
  · exact (h.call name args).settles (fun _ _ => (agree_more_levels _ _).call (k := 0) name args) m

end LineaLang
