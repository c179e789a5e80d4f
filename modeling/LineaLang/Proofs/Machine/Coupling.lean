import LineaLang.Machine.Execution

/-!
# `LineaLang.Proofs.Machine.Coupling` — two runs side by side

Two runs of the same trees on machines that are related in some way go on side by side: each step gives the
same on both, and the machines stay related. What has to be shown for this is shown for single steps only (a
`Coupling`), since the meaning of a whole is one clause over the meaning of its parts (`agree_ofParts`), and
levels are opened one by one (`agree_withLevels`).

The relation may depend on how many calls have been opened since the two runs began, as what the machines have
in common may be only the frames of these calls. An error may be excused: where the first run ends in one, the
second may do anything.

## Contents

* `Run.leftBy` — the machine that an outcome comes with.
* `SameOutcome`, `Run.Agree` — two runs with the same outcome, from related machines to related machines.
* `Run.Agree.note`, `Run.Agree.noteDefined`, `Run.Agree.print` — notes and printed values on machines with the same
  verbosity and the same console.
* `Coupling` — what a relation must satisfy, step by step.
* `Meaning.Agree` — two meanings that agree on every tree.
* `Coupling.agree_ofParts`, `Coupling.agree_withLevels` — wholes agree if their parts do; all trees agree.
-/

namespace LineaLang

/-! ## Outcomes -/

/-- The machine that an outcome comes with. -/
def Run.leftBy {α : Type} : EStateM.Result RunFailure Machine α → Machine
  | .ok _ m => m
  | .error _ m => m

/-- **The same outcome**: the same value or the same error, and related machines; or an error of the first
    run that is excused. -/
inductive SameOutcome {α : Type} (ok err : Machine → Machine → Prop) (excused : RunFailure → Prop) :
    EStateM.Result RunFailure Machine α → EStateM.Result RunFailure Machine α → Prop where
  | ok {a : α} {m₁ m₂ : Machine} (h : ok m₁ m₂) : SameOutcome ok err excused (.ok a m₁) (.ok a m₂)
  | error {e : RunFailure} {m₁ m₂ : Machine} (h : err m₁ m₂) :
      SameOutcome ok err excused (.error e m₁) (.error e m₂)
  | excused {e : RunFailure} {m : Machine} {outcome : EStateM.Result RunFailure Machine α} (h : excused e) :
      SameOutcome ok err excused (.error e m) outcome

namespace Run

/-- **Two runs agree** if they have the same outcome on all machines that `pre` relates; the machines are left
    related by `ok` or by `err`, as the runs end. -/
def Agree {α : Type} (pre ok err : Machine → Machine → Prop) (excused : RunFailure → Prop)
    (r₁ r₂ : Run α) : Prop :=
  ∀ ⦃m₁ m₂⦄, pre m₁ m₂ → SameOutcome ok err excused (r₁ m₁) (r₂ m₂)

variable {α β : Type} {pre mid post err : Machine → Machine → Prop} {excused : RunFailure → Prop}

theorem Agree.pure (a : α) : Agree pre pre err excused (pure a) (pure a) := fun _ _ hm => .ok hm

theorem Agree.throw (e : RunFailure) : Agree (α := α) pre post pre excused (throw e) (throw e) :=
  fun _ _ hm => .error hm

/-- **One after the other.** -/
theorem Agree.bind {r₁ r₂ : Run α} {f₁ f₂ : α → Run β} (hr : Agree pre mid err excused r₁ r₂)
    (hf : ∀ a, Agree mid post err excused (f₁ a) (f₂ a)) :
    Agree pre post err excused (r₁ >>= f₁) (r₂ >>= f₂) := by
  intro m₁ m₂ hm
  have hfirst := hr hm
  simp only [Bind.bind, EStateM.bind]
  -- The outcomes are named, so that the relation can be taken apart without looking into the runs.
  generalize r₁ m₁ = first₁ at hfirst ⊢
  generalize r₂ m₂ = first₂ at hfirst ⊢
  cases hfirst with
  | ok hmid => exact hf _ hmid
  | error herr => exact .error herr
  | excused he => exact .excused he

/-- What the first run alone makes sure of may be added. -/
theorem Agree.also {r₁ r₂ : Run α} (h : Agree pre post err excused r₁ r₂) {before after : Machine → Prop}
    (hfirst : ∀ m a m', before m → r₁ m = .ok a m' → after m') :
    Agree (fun m₁ m₂ => pre m₁ m₂ ∧ before m₁) (fun m₁ m₂ => post m₁ m₂ ∧ after m₁) err excused r₁ r₂ := by
  intro m₁ m₂ ⟨hm, hbefore⟩
  have houtcome := h hm
  have hafter := fun a m' => hfirst m₁ a m' hbefore
  generalize r₁ m₁ = first at houtcome hafter ⊢
  generalize r₂ m₂ = second at houtcome ⊢
  cases houtcome with
  | ok hpost => exact .ok ⟨hpost, hafter _ _ rfl⟩
  | error herr => exact .error herr
  | excused he => exact .excused he

/-- Runs that agree may start from fewer machines. -/
theorem Agree.weaken {pre' : Machine → Machine → Prop} {r₁ r₂ : Run α} (h : Agree pre post err excused r₁ r₂)
    (hpre : ∀ m₁ m₂, pre' m₁ m₂ → pre m₁ m₂) : Agree pre' post err excused r₁ r₂ :=
  fun _ _ hm => h (hpre _ _ hm)

/-- What is read off the scope is the same if the scopes say the same. -/
theorem Agree.query {read : Scope → Except RunFailure α}
    (h : ∀ m₁ m₂, pre m₁ m₂ → read m₁.scope = read m₂.scope) :
    Agree pre pre pre excused (query read) (query read) := by
  intro m₁ m₂ hm
  simp only [Run.query, h m₁ m₂ hm]
  cases read m₂.scope with
  | ok a => exact .ok hm
  | error e => exact .error hm

/-- **Inside a frame.** Machines with the frame opened are related by another relation, up to where it is
    closed. -/
theorem Agree.inFrame {inner : Machine → Machine → Prop} {frame : Table Value} {r₁ r₂ : Run α}
    (hr : Agree inner inner inner excused r₁ r₂)
    (henter : ∀ m₁ m₂, pre m₁ m₂ → inner { m₁ with scope := m₁.scope.enter frame }
      { m₂ with scope := m₂.scope.enter frame })
    (hleave : ∀ m₁ m₂, inner m₁ m₂ → post { m₁ with scope := m₁.scope.leave }
      { m₂ with scope := m₂.scope.leave }) :
    Agree pre post post excused (inFrame frame r₁) (inFrame frame r₂) := by
  intro m₁ m₂ hm
  have hbody := hr (henter m₁ m₂ hm)
  unfold Run.inFrame
  generalize r₁ _ = body₁ at hbody ⊢
  generalize r₂ _ = body₂ at hbody ⊢
  cases hbody with
  | ok h => exact .ok (hleave _ _ h)
  | error h => exact .error (hleave _ _ h)
  | excused he => exact .excused he

/-- A change of the scope at the key of a name, which may be refused. -/
theorem Agree.update {name : Value} {change : Scope → Key → Scope}
    (h : ∀ key m₁ m₂, pre m₁ m₂ →
      pre { m₁ with scope := change m₁.scope key } { m₂ with scope := change m₂.scope key }) :
    Agree pre pre pre excused (update fun s => do return change s (← Scope.key name))
      (update fun s => do return change s (← Scope.key name)) := by
  intro m₁ m₂ hm
  unfold Run.update
  cases hkey : Scope.key name with
  | error e => exact .error hm
  | ok key => exact .ok (h key m₁ m₂ hm)

/-- A note leaves the scope alone. -/
theorem scope_of_note {n : Note} {m m' : Machine} {u : Unit} (h : note n m = .ok u m') :
    m'.scope = m.scope := by
  unfold note at h
  split at h
  · split at h
    · cases h
      unfold Machine.noted
      split <;> rfl
    · cases h
  · cases h
    rfl

end Run

/-- No note is taken at verbosity zero. -/
theorem Note.level_pos (n : Note) : 0 < n.level := by
  cases n <;> exact Nat.succ_pos _

/-! ## Steps that look at the machine -/

open Run Meaning

/-- A run that first looks at the machine goes on with what it sees. -/
theorem get_bind {α : Type} (f : Machine → Run α) (m : Machine) : (get >>= f : Run α) m = f m m := rfl

theorem checkCalls_eq (name : Value) (m : Machine) :
    checkCalls name m =
      if maxCalls ≤ m.scope.depth then .error (.error (.callDepth name maxCalls)) m else .ok () m := by
  rw [checkCalls, get_bind]
  split <;> rfl

theorem noteDefined_eq (name : Value) (params : List Value) (m : Machine) :
    noteDefined name params m =
      if (Note.defined name []).level ≤ m.verbosity then
        match Value.joinTexts ", " params with
        | .ok joined => note (.defined name joined) m
        | .error fault => .error (.fault (.value fault)) m
      else .ok () m := by
  rw [noteDefined, get_bind]
  split
  · cases Value.joinTexts ", " params <;> rfl
  · rfl

section Notes

variable {pre : Machine → Machine → Prop} {excused : RunFailure → Prop}
  (hverbosity : ∀ m₁ m₂, pre m₁ m₂ → m₁.verbosity = m₂.verbosity)
include hverbosity

/-- **A note is taken on both machines**, if they have the same verbosity and the same console, and both logs are open
    or none is. -/
theorem Run.Agree.note (hlog : ∀ m₁ m₂, pre m₁ m₂ → m₁.logOpen = m₂.logOpen)
    (hconsole : ∀ m₁ m₂, pre m₁ m₂ → m₁.console = m₂.console)
    (hnoted : ∀ n m₁ m₂, pre m₁ m₂ → n.level ≤ m₁.verbosity → pre (m₁.noted n) (m₂.noted n)) (n : Note) :
    Run.Agree pre pre pre excused (Run.note n) (Run.note n) := by
  intro m₁ m₂ h
  have hcause : m₂.unwritable? n = m₁.unwritable? n := by
    unfold Machine.unwritable?
    rw [hlog m₁ m₂ h, hconsole m₁ m₂ h]
  unfold Run.note
  rw [← hverbosity m₁ m₂ h, hcause]
  split
  · rename_i htaken
    split
    · exact .ok (hnoted n m₁ m₂ h htaken)
    · exact .error h
  · exact .ok h

/-- The note of a declaration is like any other; its names are joined on both machines or on none. -/
theorem Run.Agree.noteDefined (hnote : ∀ n, Run.Agree pre pre pre excused (Run.note n) (Run.note n)) (name : Value)
    (params : List Value) :
    Run.Agree pre pre pre excused (Meaning.noteDefined name params) (Meaning.noteDefined name params) := by
  intro m₁ m₂ h
  rw [noteDefined_eq, noteDefined_eq, hverbosity m₁ m₂ h]
  split
  · split
    · exact hnote _ h
    · exact .error h
  · exact .ok h

end Notes

/-- **A value is printed on both machines**, if they have the same console. -/
theorem Run.Agree.print {pre : Machine → Machine → Prop} {excused : RunFailure → Prop}
    (hconsole : ∀ m₁ m₂, pre m₁ m₂ → m₁.console = m₂.console) {v : Value}
    (hprinted : ∀ m₁ m₂, pre m₁ m₂ → pre (m₁.printed v) (m₂.printed v)) :
    Run.Agree pre pre pre excused (Run.print v) (Run.print v) := by
  intro m₁ m₂ h
  unfold Run.print
  rw [hconsole m₁ m₂ h]
  split
  · exact .ok (hprinted m₁ m₂ h)
  · exact .error h

/-! ## Couplings -/

/-- **What keeps two runs together**: whatever a single step reads is the same on both machines, and after the
    step they are still related. The relation `S k` is for machines on which `k` calls have been opened since
    the runs began; where `inside k` does not hold only calls are made. -/
structure Coupling (S : Nat → Machine → Machine → Prop) (inside : Nat → Prop)
    (excused : RunFailure → Prop) : Prop where
  inside_succ : ∀ k, inside (k + 1)
  lookup : ∀ {k m₁ m₂}, inside k → S k m₁ m₂ → ∀ key, m₁.scope.lookup? key = m₂.scope.lookup? key
  function : ∀ {k m₁ m₂}, S k m₁ m₂ → ∀ key, m₁.scope.functions.find? key = m₂.scope.functions.find? key
  assign : ∀ {k m₁ m₂}, inside k → S k m₁ m₂ → ∀ key v,
    S k { m₁ with scope := m₁.scope.assign key v } { m₂ with scope := m₂.scope.assign key v }
  declare : ∀ {k m₁ m₂}, inside k → S k m₁ m₂ → ∀ key v,
    S k { m₁ with scope := m₁.scope.declare key v } { m₂ with scope := m₂.scope.declare key v }
  define : ∀ {k m₁ m₂}, inside k → S k m₁ m₂ → ∀ key function,
    S k { m₁ with scope := m₁.scope.define key function } { m₂ with scope := m₂.scope.define key function }
  print : ∀ {k}, inside k → ∀ v, Agree (S k) (S k) (S k) excused (print v) (print v)
  note : ∀ {k}, ∀ n, Agree (S k) (S k) (S k) excused (note n) (note n)
  noteDefined : ∀ {k}, inside k → ∀ name params,
    Agree (S k) (S k) (S k) excused (noteDefined name params) (noteDefined name params)
  checkCalls : ∀ {k}, ∀ name, Agree (S k) (S k) (S k) excused (checkCalls name) (checkCalls name)
  enter : ∀ {k m₁ m₂}, S k m₁ m₂ → m₁.scope.depth < maxCalls → ∀ frame,
    S (k + 1) { m₁ with scope := m₁.scope.enter frame } { m₂ with scope := m₂.scope.enter frame }
  leave : ∀ {k m₁ m₂}, S (k + 1) m₁ m₂ →
    S k { m₁ with scope := m₁.scope.leave } { m₂ with scope := m₂.scope.leave }

/-- **Two meanings agree** if what they say of each tree does. -/
structure Meaning.Agree (S : Nat → Machine → Machine → Prop) (inside : Nat → Prop)
    (excused : RunFailure → Prop) (M₁ M₂ : Meaning) : Prop where
  evaluate : ∀ {k}, inside k → ∀ expr,
    Run.Agree (S k) (S k) (S k) excused (M₁.evaluate expr) (M₂.evaluate expr)
  evaluateAll : ∀ {k}, inside k → ∀ exprs,
    Run.Agree (S k) (S k) (S k) excused (M₁.evaluateAll exprs) (M₂.evaluateAll exprs)
  execute : ∀ {k}, inside k → ∀ statement,
    Run.Agree (S k) (S k) (S k) excused (M₁.execute statement) (M₂.execute statement)
  executeAll : ∀ {k}, inside k → ∀ statements,
    Run.Agree (S k) (S k) (S k) excused (M₁.executeAll statements) (M₂.executeAll statements)
  loop : ∀ {k}, inside k → ∀ condition body,
    Run.Agree (S k) (S k) (S k) excused (M₁.loop condition body) (M₂.loop condition body)
  call : ∀ {k}, ∀ name args, Run.Agree (S k) (S k) (S k) excused (M₁.call name args) (M₂.call name args)

namespace Coupling

variable {S : Nat → Machine → Machine → Prop} {inside : Nat → Prop} {excused : RunFailure → Prop} {k : Nat}
  {P₁ P₂ : Meaning}

/-! ### Expressions -/

theorem agree_get (c : Coupling S inside excused) (hk : inside k) (name : Value) :
    Run.Agree (S k) (S k) (S k) excused (query (·.get name)) (query (·.get name)) := by
  refine .query fun m₁ m₂ hm => ?_
  unfold Scope.get
  cases hkey : Scope.key name with
  | error e => rfl
  | ok key =>
    simp only [Bind.bind, Except.bind, c.lookup hk hm key]

theorem agree_ofCalculation {α : Type} (calculated : Except RuntimeError α) :
    Run.Agree (S k) (S k) (S k) excused (ofCalculation calculated) (ofCalculation calculated) := by
  cases calculated with
  | ok a => exact .pure a
  | error e => exact .throw _

theorem agree_evaluateBy (c : Coupling S inside excused) (h : Meaning.Agree S inside excused P₁ P₂)
    (hk : inside k) (expr : Node) :
    Run.Agree (S k) (S k) (S k) excused (evaluateBy P₁ expr) (evaluateBy P₂ expr) := by
  cases expr with
  | number value => exact .pure _
  | string value => exact .pure _
  | ident name => exact c.agree_get hk name
  | assign target expr =>
    refine (h.evaluate hk expr).bind fun v => ?_
    refine Run.Agree.bind (.update fun key m₁ m₂ hm => c.assign hk hm key v) fun _ => ?_
    exact .pure v
  | arith op left right =>
    refine (h.evaluate hk left).bind fun a => (h.evaluate hk right).bind fun b => ?_
    exact agree_ofCalculation _
  | comparison op left right =>
    refine (h.evaluate hk left).bind fun a => (h.evaluate hk right).bind fun b => ?_
    exact (agree_ofCalculation _).bind fun _ => .pure _
  | call callee args => exact (h.evaluateAll hk args).bind fun values => h.call callee values
  | _ => exact .throw _

theorem agree_evaluateAllBy (h : Meaning.Agree S inside excused P₁ P₂) (hk : inside k) (exprs : List Node) :
    Run.Agree (S k) (S k) (S k) excused (evaluateAllBy P₁ exprs) (evaluateAllBy P₂ exprs) := by
  induction exprs with
  | nil => exact .pure _
  | cons expr rest ih => exact (h.evaluate hk expr).bind fun v => ih.bind fun more => .pure _

/-! ### Statements -/

theorem agree_loopBy (c : Coupling S inside excused) (h : Meaning.Agree S inside excused P₁ P₂)
    (hk : inside k) (condition body : Node) :
    Run.Agree (S k) (S k) (S k) excused (loopBy P₁ condition body) (loopBy P₂ condition body) := by
  unfold loopBy
  -- A loop that runs into its bound does so on both machines at once.
  induction maxIterations with
  | zero =>
    refine (h.evaluate hk condition).bind fun v => ?_
    split
    · exact .throw _
    · exact .pure _
  | succ remaining ih =>
    refine (h.evaluate hk condition).bind fun v => ?_
    split
    · refine (c.note _).bind fun _ => (h.execute hk body).bind fun signal => ?_
      cases signal with
      | normal => exact ih
      | returned v => exact .pure _
    · exact .pure _

theorem agree_executeBy (c : Coupling S inside excused) (h : Meaning.Agree S inside excused P₁ P₂)
    (hk : inside k) (statement : Node) :
    Run.Agree (S k) (S k) (S k) excused (executeBy P₁ statement) (executeBy P₂ statement) := by
  cases statement with
  | expression expr => exact (h.evaluate hk expr).bind fun _ => .pure _
  | print expr =>
    exact (h.evaluate hk expr).bind fun v => (c.print hk v).bind fun _ => .pure _
  | declare name init =>
    refine (h.evaluate hk init).bind fun v => ?_
    refine Run.Agree.bind (.update fun key m₁ m₂ hm => c.declare hk hm key v) fun _ => ?_
    exact (c.note _).bind fun _ => .pure _
  | function name params body =>
    refine Run.Agree.bind (.update fun key m₁ m₂ hm => c.define hk hm key _) fun _ => ?_
    exact (c.noteDefined hk name params).bind fun _ => .pure _
  | ret expr => exact (h.evaluate hk expr).bind fun v => .pure _
  | block statements => exact h.executeAll hk statements
  | ifElse condition thenBlock elseBlock =>
    refine (h.evaluate hk condition).bind fun v => (c.note _).bind fun _ => ?_
    split
    · exact h.execute hk thenBlock
    · split
      · exact .pure _
      · exact h.execute hk elseBlock
  | whileLoop condition body => exact h.loop hk condition body
  | _ => exact .throw _

theorem agree_executeAllBy (h : Meaning.Agree S inside excused P₁ P₂) (hk : inside k)
    (statements : List Node) :
    Run.Agree (S k) (S k) (S k) excused (executeAllBy P₁ statements) (executeAllBy P₂ statements) := by
  induction statements with
  | nil => exact .pure _
  | cons statement rest ih =>
    refine (h.execute hk statement).bind fun signal => ?_
    cases signal with
    | normal => exact ih
    | returned v => exact .pure _

/-! ### Calls -/

theorem agree_callee (c : Coupling S inside excused) (name : Value) (count : Nat) :
    Run.Agree (S k) (S k) (S k) excused (callee name count) (callee name count) := by
  unfold callee
  refine Run.Agree.bind (.query fun m₁ m₂ hm => ?_) fun function => ?_
  · unfold Scope.callee
    cases hkey : Scope.key name with
    | error e => rfl
    | ok key =>
      simp only [Bind.bind, Except.bind, c.function hm key]
  · cases function with
    | function _ params body =>
      show Run.Agree _ _ _ _ (if count = params.length then _ else _) (if count = params.length then _ else _)
      split
      · exact .pure _
      · exact .throw _
    | _ => exact .throw _

/-- The machines are related, and the first has room for one more call. -/
def WithRoom (R : Machine → Machine → Prop) (m₁ m₂ : Machine) : Prop := R m₁ m₂ ∧ m₁.scope.depth < maxCalls

theorem agree_checkCalls (c : Coupling S inside excused) (name : Value) :
    Run.Agree (S k) (WithRoom (S k)) (S k) excused (Meaning.checkCalls name) (Meaning.checkCalls name) := by
  have hroom : ∀ m (u : Unit) m', True → Meaning.checkCalls name m = .ok u m' → m'.scope.depth < maxCalls := by
    intro m u m' _ hok
    rw [checkCalls_eq] at hok
    split at hok
    · cases hok
    · next hfull =>
      cases hok
      exact Nat.lt_of_not_le hfull
  exact ((c.checkCalls name).also hroom).weaken fun m₁ m₂ hm => ⟨hm, trivial⟩

theorem agree_note_withRoom (c : Coupling S inside excused) (n : Note) :
    Run.Agree (WithRoom (S k)) (WithRoom (S k)) (S k) excused (Run.note n) (Run.note n) := by
  refine (c.note n).also fun m u m' hroom hok => ?_
  rw [scope_of_note hok]
  exact hroom

/-- **Calls.** The body is executed with one more call opened. -/
theorem agree_callBy (c : Coupling S inside excused) (h : Meaning.Agree S inside excused P₁ P₂)
    (name : Value) (args : List Value) :
    Run.Agree (S k) (S k) (S k) excused (callBy P₁ name args) (callBy P₂ name args) := by
  refine (c.agree_callee name args.length).bind fun found => ?_
  -- The check leaves room for a frame, and what comes before the frame is opened does not use it up.
  refine (c.agree_checkCalls name).bind fun _ => (c.agree_note_withRoom _).bind fun _ => ?_
  have hframe : Run.Agree (WithRoom (S k)) (WithRoom (S k)) (S k) excused
      (query fun _ => frameOf found.1 args) (query fun _ => frameOf found.1 args) := by
    intro m₁ m₂ hm
    unfold Run.query
    cases frameOf found.1 args with
    | ok frame => exact .ok hm
    | error e => exact .error hm.1
  refine hframe.bind fun frame => ?_
  have hbody : Run.Agree (WithRoom (S k)) (S k) (S k) excused (inFrame frame (P₁.execute found.2))
      (inFrame frame (P₂.execute found.2)) :=
    .inFrame (h.execute (c.inside_succ k) found.2) (fun m₁ m₂ hm => c.enter hm.1 hm.2 frame)
      fun m₁ m₂ hm => c.leave hm
  exact hbody.bind fun signal => .pure _

/-! ### All trees -/

/-- **Wholes agree if their parts do.** -/
theorem agree_ofParts (c : Coupling S inside excused) (h : Meaning.Agree S inside excused P₁ P₂) :
    Meaning.Agree S inside excused (ofParts P₁) (ofParts P₂) where
  evaluate hk := c.agree_evaluateBy h hk
  evaluateAll hk := agree_evaluateAllBy h hk
  execute hk := c.agree_executeBy h hk
  executeAll hk := agree_executeAllBy h hk
  loop hk := c.agree_loopBy h hk
  call := c.agree_callBy h

theorem agree_exhausted : Meaning.Agree S inside excused exhausted exhausted where
  evaluate _ _ := .throw _
  evaluateAll _ _ := .throw _
  execute _ _ := .throw _
  executeAll _ _ := .throw _
  loop _ _ _ := .throw _
  call _ _ := .throw _

/-- **Two runs of the same trees go on side by side**, however many levels may be opened. -/
theorem agree_withLevels (c : Coupling S inside excused) (levels : Nat) :
    Meaning.Agree S inside excused (withLevels levels) (withLevels levels) := by
  induction levels with
  | zero => exact agree_exhausted
  | succ levels ih => exact c.agree_ofParts ih

end Coupling

end LineaLang
