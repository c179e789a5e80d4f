import LineaLang.Proofs.Machine.Output

/-!
# `LineaLang.Proofs.Machine.Consoles` — a run on a console that does not take every text

What stands behind the console is asked about each line and about nothing else. A run on a console that does not take
every text is therefore a run on one that does, up to the first line that is not taken. There it breaks off, and that
line is the next that the other run shows. So a program runs on both alike if the console takes all the lines of the
run where any text is taken.

The argument is about runs and not about trees: every step goes alike or breaks off, and what is made of such runs is
such a run. `Run.Closed` states this for any property of runs, and `Run.Closed.withLevels` carries it to the meaning of
all trees.

## Contents

* `Run.Closed`, `Run.Closed.withLevels` — properties that single steps have and that larger runs have from their parts.
* `Machine.on`, `Console.Follows` — the same machine on another console, and outcomes on two consoles.
* `Run.OnConsole`, `Run.closed_onConsole` — runs that go alike up to a line that is not taken.
* `Machine.run_follows` — programs, up to a line that is not taken.
* `Console.Takes`, `Machine.run_on_console` — programs where all lines are taken.
-/

namespace LineaLang

open Run Meaning

/-! ## Properties of all runs -/

/-- **A property of runs that all single steps have**, and larger runs if their parts do. -/
structure Run.Closed (P : ⦃α : Type⦄ → Run α → Prop) : Prop where
  pure : ∀ {α : Type} (a : α), P (pure a : Run α)
  throw : ∀ {α : Type} (e : RunFailure), P (throw e : Run α)
  bind : ∀ {α β : Type} {r : Run α} {f : α → Run β}, P r → (∀ a, P (f a)) → P (r >>= f)
  query : ∀ {α : Type} (read : Scope → Except RunFailure α), P (query read)
  update : ∀ change, P (update change)
  print : ∀ v, P (print v)
  note : ∀ n, P (note n)
  noteDefined : ∀ name params, P (noteDefined name params)
  checkCalls : ∀ name, P (checkCalls name)
  inFrame : ∀ {α : Type} (frame : Table Value) {r : Run α}, P r → P (inFrame frame r)

/-- **A meaning all of whose runs have a property.** -/
structure Meaning.Each (P : ⦃α : Type⦄ → Run α → Prop) (M : Meaning) : Prop where
  evaluate : ∀ expr, P (M.evaluate expr)
  evaluateAll : ∀ exprs, P (M.evaluateAll exprs)
  execute : ∀ statement, P (M.execute statement)
  executeAll : ∀ statements, P (M.executeAll statements)
  loop : ∀ condition body, P (M.loop condition body)
  call : ∀ name args, P (M.call name args)

namespace Run.Closed

variable {P : ⦃α : Type⦄ → Run α → Prop} {parts : Meaning}

theorem ofCalculation (h : Closed P) {α : Type} (calculated : Except RuntimeError α) :
    P (Meaning.ofCalculation calculated) := by
  cases calculated with
  | ok a => exact h.pure a
  | error e => exact h.throw _

theorem evaluateBy (h : Closed P) (hparts : parts.Each P) (expr : Node) : P (Meaning.evaluateBy parts expr) := by
  cases expr with
  | number value | string value => exact h.pure value
  | ident name => exact h.query (·.get name)
  | assign target expr =>
    exact h.bind (hparts.evaluate expr) fun v => h.bind (h.update _) fun _ => h.pure v
  | arith op left right =>
    refine h.bind (hparts.evaluate left) fun a => h.bind (hparts.evaluate right) fun b => ?_
    exact h.ofCalculation _
  | comparison op left right =>
    refine h.bind (hparts.evaluate left) fun a => h.bind (hparts.evaluate right) fun b => ?_
    exact h.bind (h.ofCalculation _) fun _ => h.pure _
  | call callee args => exact h.bind (hparts.evaluateAll args) fun values => hparts.call callee values
  | _ => exact h.throw _

theorem evaluateAllBy (h : Closed P) (hparts : parts.Each P) (exprs : List Node) :
    P (Meaning.evaluateAllBy parts exprs) := by
  induction exprs with
  | nil => exact h.pure _
  | cons expr rest ih => exact h.bind (hparts.evaluate expr) fun v => h.bind ih fun more => h.pure _

theorem loopBy (h : Closed P) (hparts : parts.Each P) (condition body : Node) :
    P (Meaning.loopBy parts condition body) := by
  unfold Meaning.loopBy
  induction maxIterations with
  | zero =>
    refine h.bind (hparts.evaluate condition) fun v => ?_
    split
    · exact h.throw _
    · exact h.pure _
  | succ remaining ih =>
    refine h.bind (hparts.evaluate condition) fun v => ?_
    split
    · refine h.bind (h.note _) fun _ => h.bind (hparts.execute body) fun signal => ?_
      cases signal with
      | normal => exact ih
      | returned v => exact h.pure _
    · exact h.pure _

theorem executeBy (h : Closed P) (hparts : parts.Each P) (statement : Node) :
    P (Meaning.executeBy parts statement) := by
  cases statement with
  | expression expr => exact h.bind (hparts.evaluate expr) fun _ => h.pure _
  | print expr => exact h.bind (hparts.evaluate expr) fun v => h.bind (h.print v) fun _ => h.pure _
  | declare name init =>
    refine h.bind (hparts.evaluate init) fun v => h.bind (h.update _) fun _ => ?_
    exact h.bind (h.note _) fun _ => h.pure _
  | function name params body =>
    exact h.bind (h.update _) fun _ => h.bind (h.noteDefined name params) fun _ => h.pure _
  | ret expr => exact h.bind (hparts.evaluate expr) fun v => h.pure _
  | block statements => exact hparts.executeAll statements
  | ifElse condition thenBlock elseBlock =>
    refine h.bind (hparts.evaluate condition) fun v => h.bind (h.note _) fun _ => ?_
    split
    · exact hparts.execute thenBlock
    · split
      · exact h.pure _
      · exact hparts.execute elseBlock
  | whileLoop condition body => exact hparts.loop condition body
  | _ => exact h.throw _

theorem executeAllBy (h : Closed P) (hparts : parts.Each P) (statements : List Node) :
    P (Meaning.executeAllBy parts statements) := by
  induction statements with
  | nil => exact h.pure _
  | cons statement rest ih =>
    refine h.bind (hparts.execute statement) fun signal => ?_
    cases signal with
    | normal => exact ih
    | returned v => exact h.pure _

theorem callBy (h : Closed P) (hparts : parts.Each P) (name : Value) (args : List Value) :
    P (Meaning.callBy parts name args) := by
  have hcallee : P (Meaning.callee name args.length) := by
    refine h.bind (h.query _) fun function => ?_
    cases function with
    | function _ params body =>
      show P (if args.length = params.length then _ else _)
      split
      · exact h.pure _
      · exact h.throw _
    | _ => exact h.throw _
  refine h.bind hcallee fun found => h.bind (h.checkCalls name) fun _ => h.bind (h.note _) fun _ => ?_
  refine h.bind (h.query _) fun frame => ?_
  exact h.bind (h.inFrame frame (hparts.execute found.2)) fun signal => h.pure _

/-- **All runs of trees have such a property**, however many levels may be opened. -/
theorem withLevels (h : Closed P) (levels : Nat) : (Meaning.withLevels levels).Each P := by
  induction levels with
  | zero =>
    exact ⟨fun _ => h.throw _, fun _ => h.throw _, fun _ => h.throw _, fun _ => h.throw _, fun _ _ => h.throw _,
      fun _ _ => h.throw _⟩
  | succ levels ih =>
    exact ⟨h.evaluateBy ih, h.evaluateAllBy ih, h.executeBy ih, h.executeAllBy ih, h.loopBy ih, h.callBy ih⟩

end Run.Closed

/-! ## Two consoles -/

/-- **The same machine on a console.** -/
def Machine.on (m : Machine) (console : Console) : Machine := { m with console := console }

/-- **An outcome where any text is taken, and one on a console**: both are the same, or the second run has broken off at
    a line that its console does not take. Of what the first one shows, that line comes next. -/
inductive Console.Follows (console : Console) {α : Type} :
    EStateM.Result RunFailure Machine α → EStateM.Result RunFailure Machine α → Prop where
  | ok (a : α) (m : Machine) : Follows console (.ok a (m.on .anyText)) (.ok a (m.on console))
  | error (e : RunFailure) (m : Machine) : Follows console (.error e (m.on .anyText)) (.error e (m.on console))
  | refused {outcome : EStateM.Result RunFailure Machine α} {emission : Emission} {cause : Utf8.Unencodable}
      {m' : Machine} (hcause : console.unwritable? emission.line = some cause)
      (hshown : emission :: m'.emissions <:+ (leftBy outcome).emissions) :
      Follows console outcome (.error (.unwritable cause) m')

/-- **A line that is shown** where it is taken, and breaks the run off where it is not. -/
theorem Console.Follows.shown {console : Console} {r : Run Unit} {m : Machine} (emission : Emission)
    (htaken : ∀ c : Console, c.unwritable? emission.line = none →
      r (m.on c) = .ok () (Machine.on { m with emissions := emission :: m.emissions } c))
    (hrefused : ∀ (c : Console) cause, c.unwritable? emission.line = some cause →
      r (m.on c) = .error (.unwritable cause) (m.on c)) :
    console.Follows (r (m.on .anyText)) (r (m.on console)) := by
  rw [htaken .anyText rfl]
  cases hcause : console.unwritable? emission.line with
  | none =>
    rw [htaken console hcause]
    exact .ok () _
  | some cause =>
    rw [hrefused console cause hcause]
    exact .refused hcause List.suffix_rfl

/-- An outcome after a last change of the machine. -/
def Run.leaving {α : Type} (change : Machine → Machine) :
    EStateM.Result RunFailure Machine α → EStateM.Result RunFailure Machine α
  | .ok a m => .ok a (change m)
  | .error e m => .error e (change m)

section Leaving

variable {α : Type} {change : Machine → Machine}

theorem leaving_emissions {outcome : EStateM.Result RunFailure Machine α}
    (hemissions : ∀ m, (change m).emissions = m.emissions) :
    (leftBy (leaving change outcome)).emissions = (leftBy outcome).emissions := by
  cases outcome <;> exact hemissions _

theorem inFrame_eq_leaving (frame : Table Value) (r : Run α) (m : Machine) :
    inFrame frame r m = leaving (fun m' => { m' with scope := m'.scope.leave })
      (r { m with scope := m.scope.enter frame }) := by
  unfold inFrame
  cases r { m with scope := m.scope.enter frame } <;> rfl

theorem closingLog_eq_leaving (r : Run α) (m : Machine) :
    Machine.closingLog r m = leaving Machine.withLogClosed (r m) := by
  unfold Machine.closingLog
  cases r m <;> rfl

/-- **A last change that asks nothing of the console** and emits nothing. -/
theorem Console.Follows.leaving {console : Console} {first second : EStateM.Result RunFailure Machine α}
    (h : console.Follows first second) (hon : ∀ m c, change (Machine.on m c) = (change m).on c)
    (hemissions : ∀ m, (change m).emissions = m.emissions) :
    console.Follows (Run.leaving change first) (Run.leaving change second) := by
  cases h with
  | ok a m =>
    simp only [Run.leaving, hon]
    exact .ok a (change m)
  | error e m =>
    simp only [Run.leaving, hon]
    exact .error e (change m)
  | @refused _ emission cause m hcause hshown =>
    rw [← leaving_emissions hemissions, ← hemissions m] at hshown
    exact .refused hcause hshown

end Leaving

/-- **A run that goes alike on every console**, up to a line that is not taken. What has been emitted stays. -/
structure Run.OnConsole (console : Console) ⦃α : Type⦄ (r : Run α) : Prop where
  grows : ∀ m : Machine, m.emissions <:+ (leftBy (r m)).emissions
  follows : ∀ m : Machine, console.Follows (r (m.on .anyText)) (r (m.on console))

namespace Run.OnConsole

variable {console : Console} {α β : Type}

theorem pure (a : α) : (pure a : Run α).OnConsole console := ⟨fun _ => List.suffix_rfl, fun m => .ok a m⟩

theorem throw (e : RunFailure) : (throw e : Run α).OnConsole console := ⟨fun _ => List.suffix_rfl, fun m => .error e m⟩

/-- **What the end of a run asks for**, if a line that is not taken is passed on. Where the second run has broken off,
    the first one only shows more. -/
theorem thenBy {r : Run α} {next : Except RunFailure α → Run β} (hr : r.OnConsole console)
    (hnext : ∀ result, (next result).OnConsole console)
    (hpassed : ∀ cause, next (.error (.unwritable cause)) = throwThe RunFailure (.unwritable cause)) :
    (r.thenBy next).OnConsole console where
  grows m := by
    have hfirst := hr.grows m
    unfold Run.thenBy
    generalize r m = first at hfirst ⊢
    cases first with
    | ok a m' => exact hfirst.trans ((hnext (.ok a)).grows m')
    | error e m' => exact hfirst.trans ((hnext (.error e)).grows m')
  follows m := by
    have hfirst := hr.follows m
    unfold Run.thenBy
    generalize r (m.on .anyText) = first at hfirst ⊢
    generalize r (m.on console) = second at hfirst ⊢
    cases hfirst with
    | ok a m' => exact (hnext (.ok a)).follows m'
    | error e m' => exact (hnext (.error e)).follows m'
    | @refused _ _ cause m' hcause hshown =>
      simp only [hpassed]
      cases first with
      | ok a m' => exact .refused hcause (hshown.trans ((hnext (.ok a)).grows m'))
      | error e m' => exact .refused hcause (hshown.trans ((hnext (.error e)).grows m'))

/-- **One after the other.** -/
theorem bind {r : Run α} {f : α → Run β} (hr : r.OnConsole console) (hf : ∀ a, (f a).OnConsole console) :
    (r >>= f).OnConsole console := by
  rw [Run.bind_eq_thenBy]
  refine hr.thenBy (fun result => ?_) fun _ => rfl
  cases result with
  | ok a => exact hf a
  | error e => exact throw e

/-- **A step that asks nothing of the console** and emits nothing. -/
theorem of_quiet {r : Run α} (h : ∀ m : Machine,
    (∃ a s, ∀ c, r (m.on c) = .ok a { m with scope := s, console := c }) ∨
      ∃ e s, ∀ c, r (m.on c) = .error e { m with scope := s, console := c }) : r.OnConsole console where
  grows m := by
    have hself : m.on m.console = m := rfl
    rcases h m with ⟨a, s, hr⟩ | ⟨e, s, hr⟩ <;> rw [← hself, hr] <;> exact List.suffix_rfl
  follows m := by
    rcases h m with ⟨a, s, hr⟩ | ⟨e, s, hr⟩
    · rw [hr, hr]
      exact .ok a { m with scope := s }
    · rw [hr, hr]
      exact .error e { m with scope := s }

theorem query (read : Scope → Except RunFailure α) : (query read).OnConsole console := by
  refine of_quiet fun m => ?_
  unfold Run.query
  cases hread : read m.scope with
  | ok a => exact .inl ⟨a, m.scope, fun c => by simp only [Machine.on, hread]⟩
  | error e => exact .inr ⟨e, m.scope, fun c => by simp only [Machine.on, hread]⟩

theorem update (change : Scope → Except RunFailure Scope) : (update change).OnConsole console := by
  refine of_quiet fun m => ?_
  unfold Run.update
  cases hchange : change m.scope with
  | ok s => exact .inl ⟨(), s, fun c => by simp only [Machine.on, hchange]⟩
  | error e => exact .inr ⟨e, m.scope, fun c => by simp only [Machine.on, hchange]⟩

theorem checkCalls (name : Value) : (checkCalls name).OnConsole console := by
  refine of_quiet fun m => ?_
  by_cases hfull : maxCalls ≤ m.scope.depth
  · exact .inr ⟨_, m.scope, fun c => (checkCalls_eq name _).trans (if_pos hfull)⟩
  · exact .inl ⟨(), m.scope, fun c => (checkCalls_eq name _).trans (if_neg hfull)⟩

theorem print (v : Value) : (print v).OnConsole console where
  grows m := by
    unfold Run.print
    split
    · exact List.suffix_cons _ _
    · exact List.suffix_rfl
  follows m := by
    refine .shown (.value v) (fun c hcause => ?_) fun c cause hcause => ?_
    · have hwritable : (m.on c).console.unwritable? v.display = none := hcause
      rw [Run.print, hwritable]
      rfl
    · have hrefused : (m.on c).console.unwritable? v.display = some cause := hcause
      rw [Run.print, hrefused]

/-- A note that is to be taken, on any console. -/
theorem note_taken {n : Note} {m : Machine} (htaken : n.level ≤ m.verbosity) (c : Console) :
    ((m.on c).unwritable? n = none → Run.note n (m.on c) = .ok () ((m.on c).noted n)) ∧
      ∀ cause, (m.on c).unwritable? n = some cause → Run.note n (m.on c) = .error (.unwritable cause) (m.on c) := by
  refine ⟨fun hcause => ?_, fun cause hcause => ?_⟩
  · exact (if_pos htaken).trans (by rw [hcause])
  · exact (if_pos htaken).trans (by rw [hcause])

/-- **A note goes to the log**, whatever the console, or is a line like any other. -/
theorem note (n : Note) : (note n).OnConsole console where
  grows m := by
    unfold Run.note Machine.noted
    split
    · split
      · split
        · exact List.suffix_rfl
        · exact List.suffix_cons _ _
      · exact List.suffix_rfl
    · exact List.suffix_rfl
  follows m := by
    by_cases htaken : n.level ≤ m.verbosity
    · by_cases hlog : m.logOpen = true
      · have hunwritable : ∀ c, (m.on c).unwritable? n = Utf8.unencodable? n.line := fun c => if_pos hlog
        have hnoted : ∀ c, (m.on c).noted n = Machine.on { m with notes := n :: m.notes } c := fun c => if_pos hlog
        cases hcause : Utf8.unencodable? n.line with
        | none =>
          have hrun : ∀ c, Run.note n (m.on c) = .ok () (Machine.on { m with notes := n :: m.notes } c) := fun c => by
            rw [(note_taken htaken c).1 ((hunwritable c).trans hcause), hnoted]
          rw [hrun, hrun]
          exact .ok () _
        | some cause =>
          have hrun : ∀ c, Run.note n (m.on c) = .error (.unwritable cause) (m.on c) := fun c =>
            (note_taken htaken c).2 cause ((hunwritable c).trans hcause)
          rw [hrun, hrun]
          exact .error _ m
      · have hunwritable : ∀ c, (m.on c).unwritable? n = c.unwritable? n.line := fun c => if_neg hlog
        refine .shown (.note n) (fun c hcause => ?_) fun c cause hcause => ?_
        · rw [(note_taken htaken c).1 ((hunwritable c).trans hcause)]
          exact congrArg (EStateM.Result.ok ()) (if_neg hlog)
        · exact (note_taken htaken c).2 cause ((hunwritable c).trans hcause)
    · have hquiet : ∀ c, Run.note n (m.on c) = .ok () (m.on c) := fun c => if_neg htaken
      rw [hquiet, hquiet]
      exact .ok () m

theorem noteDefined (name : Value) (params : List Value) : (noteDefined name params).OnConsole console := by
  cases hjoined : Value.joinTexts ", " params with
  | ok joined =>
    have hnote : Meaning.noteDefined name params = Run.note (.defined name joined) := by
      funext m
      rw [noteDefined_eq, hjoined]
      by_cases htaken : (Note.defined name []).level ≤ m.verbosity
      · exact if_pos htaken
      · exact (if_neg htaken).trans (if_neg htaken : Run.note (.defined name joined) m = .ok () m).symm
    exact hnote ▸ note _
  | error fault =>
    refine of_quiet fun m => ?_
    by_cases htaken : (Note.defined name []).level ≤ m.verbosity
    · exact .inr ⟨.fault (.value fault), m.scope, fun c => by
        rw [noteDefined_eq, hjoined]
        exact if_pos htaken⟩
    · exact .inl ⟨(), m.scope, fun c => (noteDefined_eq name params _).trans (if_neg htaken)⟩

/-- **The frame is closed on both consoles**, also where the run breaks off. -/
theorem inFrame (frame : Table Value) {r : Run α} (hr : r.OnConsole console) :
    (inFrame frame r).OnConsole console where
  grows m := by
    have hbody := hr.grows { m with scope := m.scope.enter frame }
    rw [inFrame_eq_leaving, leaving_emissions]
    · exact hbody
    · exact fun _ => rfl
  follows m := by
    have hbody := hr.follows { m with scope := m.scope.enter frame }
    rw [inFrame_eq_leaving, inFrame_eq_leaving]
    exact hbody.leaving (fun _ _ => rfl) fun _ => rfl

/-- Closing the log emits nothing. -/
theorem closingLog {r : Run α} (hr : r.OnConsole console) : (Machine.closingLog r).OnConsole console where
  grows m := by
    rw [closingLog_eq_leaving, leaving_emissions]
    · exact hr.grows m
    · exact fun _ => rfl
  follows m := by
    rw [closingLog_eq_leaving, closingLog_eq_leaving]
    exact (hr.follows m).leaving (fun _ _ => rfl) fun _ => rfl

end Run.OnConsole

/-- **All runs go alike on every console**, up to a line that is not taken. -/
theorem Run.closed_onConsole (console : Console) : Run.Closed (Run.OnConsole console) where
  pure := OnConsole.pure
  throw := OnConsole.throw
  bind := OnConsole.bind
  query := OnConsole.query
  update := OnConsole.update
  print := OnConsole.print
  note := OnConsole.note
  noteDefined := OnConsole.noteDefined
  checkCalls := OnConsole.checkCalls
  inFrame := OnConsole.inFrame

/-! ## Programs -/

/-- **The console takes what a program shows** where any text is taken. -/
def Console.Takes (console : Console) (program : Node) (m : Machine) : Prop :=
  ∀ line ∈ (leftBy (Machine.run program (m.on .anyText))).consoleLines, console.unwritable? line = none

namespace Machine

variable {console : Console}

theorem onConsole_endedBy (result : Except RunFailure Signal) : (endedBy result).OnConsole console := by
  cases result with
  | ok signal => exact (Run.OnConsole.note .finished).bind fun _ => .pure _
  | error failure =>
    rcases endedBy_failure failure with ⟨e, rfl⟩ | rfl | ⟨-, -, hpassed⟩
    · exact (Run.OnConsole.note (.stopped e)).bind fun _ => .throw _
    · exact (Run.OnConsole.note .stoppedTooDeep).bind fun _ => .throw _
    · exact hpassed ▸ .throw failure

theorem onConsole_run (program : Node) : (run program).OnConsole console := by
  unfold run
  cases program.statements? with
  | none => exact .throw _
  | some statements =>
    refine (Run.OnConsole.note _).bind fun _ => Run.OnConsole.closingLog ?_
    have hstatements : (executeAll statements).OnConsole console :=
      ((Run.closed_onConsole console).withLevels maxLevels).executeAll statements
    rw [runAll_eq]
    exact hstatements.thenBy onConsole_endedBy fun _ => rfl

/-- **A program on any console** does what it does where any text is taken, up to the first line that its console does
    not take. -/
theorem run_follows (program : Node) (m : Machine) (console : Console) :
    console.Follows (run program (m.on .anyText)) (run program (m.on console)) :=
  (onConsole_run program).follows m

/-- **A program runs alike on every console** that takes what it shows. -/
theorem run_on_console {program : Node} {m : Machine} {console : Console} (h : console.Takes program m) :
    SameOutcome (fun m₁ m₂ => m₂ = m₁.on console) (fun m₁ m₂ => m₂ = m₁.on console) (fun _ => False)
      (run program (m.on .anyText)) (run program (m.on console)) := by
  have htakes : ∀ line ∈ (leftBy (run program (m.on .anyText))).consoleLines, console.unwritable? line = none := h
  have hfollows := run_follows program m console
  generalize run program (m.on .anyText) = first at hfollows htakes ⊢
  generalize run program (m.on console) = second at hfollows ⊢
  cases hfollows with
  | ok a m' => exact .ok rfl
  | error e m' => exact .error rfl
  | @refused _ emission cause m' hcause hshown =>
    have hshows : emission.line ∈ (leftBy first).consoleLines := by
      have hmem : emission ∈ (leftBy first).emissions := hshown.subset List.mem_cons_self
      exact List.mem_map_of_mem (List.mem_reverse.mpr hmem)
    exact absurd (hcause.symm.trans (htakes _ hshows)) (Option.some_ne_none cause)

end Machine

end LineaLang
