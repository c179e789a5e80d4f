import LineaLang.Proofs.Machine.Coupling

/-!
# `LineaLang.Proofs.Machine.Invariant` — what every run keeps, and where a run comes by

A property of scopes that each step on the scope keeps is kept by every run, however it ends: a run goes side
by side with itself, on one machine. The property may depend on how many calls have been opened.

Of a run only its end can be seen. To speak of the machines in between, every part of a run is guarded: before
and after it the machine is examined, and an alarm stops the run if the machine is one that is not allowed.
Nothing catches an alarm. So a machine is one where the run comes by exactly if it makes a difference to forbid
it (`Machine.Reaches`). A property that is kept holds on all machines where a run comes by.

## Contents

* `Run.left`, `Run.Preserves` — the machine after a run, and what it still satisfies.
* `ScopeInvariant` — a property of scopes that the steps keep.
* `Run.guarded`, `Meaning.guardedLevels` — runs that an alarm may stop.
* `Machine.Reaches` — the machines where the execution of statements comes by.
* `ScopeInvariant.preserves`, `ScopeInvariant.of_reaches` — at the end of a run, and all along.
-/

namespace LineaLang

namespace Run

variable {α β : Type}

/-- **The machine as a run leaves it**, however the run ends. -/
def left (r : Run α) (m : Machine) : Machine :=
  match r m with
  | .ok _ m' => m'
  | .error _ m' => m'

/-- A run keeps a property of scopes, however it ends. -/
def Preserves (Q : Scope → Prop) (r : Run α) : Prop := ∀ m, Q m.scope → Q (r.left m).scope

variable {Q : Scope → Prop}

theorem Preserves.pure (a : α) : Preserves Q (pure a) := fun _ h => h

theorem Preserves.throw (e : RunFailure) : Preserves (α := α) Q (throw e) := fun _ h => h

theorem Preserves.bind {r : Run α} {f : α → Run β} (hr : Preserves Q r) (hf : ∀ a, Preserves Q (f a)) :
    Preserves Q (r >>= f) := by
  intro m hm
  have hfirst := hr m hm
  simp only [left, Bind.bind, EStateM.bind] at hfirst ⊢
  cases h : r m with
  | ok a m' =>
    rw [h] at hfirst
    exact hf a m' hfirst
  | error e m' =>
    rw [h] at hfirst
    exact hfirst

/-- A note leaves the scope alone, also where it cannot be written. -/
theorem scope_left_note (n : Note) (m : Machine) : ((note n).left m).scope = m.scope := by
  unfold left
  cases h : note n m with
  | ok u m' => exact scope_of_note h
  | error e m' =>
    unfold note at h
    split at h
    · split at h
      · cases h
      · cases h
        rfl
    · cases h

theorem Preserves.note (n : Note) : Preserves Q (note n) := by
  intro m hm
  rw [scope_left_note]
  exact hm

/-- So does a printed value, also where the console does not take it. -/
theorem scope_left_print (v : Value) (m : Machine) : ((print v).left m).scope = m.scope := by
  unfold left Run.print
  cases m.console.unwritable? v.display <;> rfl

theorem Preserves.print (v : Value) : Preserves Q (print v) := by
  intro m hm
  rw [scope_left_print]
  exact hm

/-- On one machine a run agrees with itself about what it preserves. -/
theorem Preserves.agree {r : Run α} {excused : RunFailure → Prop} (h : Preserves Q r) :
    Agree (fun m₁ m₂ => m₁ = m₂ ∧ Q m₁.scope) (fun m₁ m₂ => m₁ = m₂ ∧ Q m₁.scope)
      (fun m₁ m₂ => m₁ = m₂ ∧ Q m₁.scope) excused r r := by
  rintro m _ ⟨rfl, hm⟩
  have hleft := h m hm
  unfold left at hleft
  cases hr : r m with
  | ok a m' =>
    rw [hr] at hleft
    exact .ok ⟨rfl, hleft⟩
  | error e m' =>
    rw [hr] at hleft
    exact .error ⟨rfl, hleft⟩

/-- Two runs that agree on one machine leave it with what their relation says. -/
theorem Agree.left {R : Machine → Machine → Prop} {r : Run α} (h : Agree R R R (fun _ => False) r r)
    {m : Machine} (hm : R m m) : R (r.left m) (r.left m) := by
  have houtcome := h hm
  unfold Run.left
  generalize r m = outcome at houtcome ⊢
  cases houtcome with
  | ok h => exact h
  | error h => exact h
  | excused he => exact he.elim

end Run

/-! ## Invariants -/

open Run Meaning

/-- **A property of scopes that each step keeps**, by the number of calls that have been opened. -/
structure ScopeInvariant (Q : Nat → Scope → Prop) : Prop where
  assign : ∀ {k s}, Q k s → ∀ key v, Q k (s.assign key v)
  declare : ∀ {k s}, Q k s → ∀ key v, Q k (s.declare key v)
  define : ∀ {k s}, Q k s → ∀ key function, Q k (s.define key function)
  enter : ∀ {k s}, Q k s → s.depth < maxCalls → ∀ frame, Q (k + 1) (s.enter frame)
  leave : ∀ {k s}, Q (k + 1) s → Q k s.leave

namespace ScopeInvariant

variable {Q : Nat → Scope → Prop}

theorem preserves_noteDefined (Q : Scope → Prop) (name : Value) (params : List Value) :
    Preserves Q (noteDefined name params) := by
  refine Preserves.bind (fun m hm => hm) fun m => ?_
  split
  · split
    · exact .note _
    · exact .throw _
  · exact .pure _

theorem preserves_checkCalls (Q : Scope → Prop) (name : Value) : Preserves Q (checkCalls name) := by
  refine Preserves.bind (fun m hm => hm) fun m => ?_
  split
  · exact .throw _
  · exact .pure _

/-- **An invariant couples a run with itself.** -/
theorem coupling (h : ScopeInvariant Q) :
    Coupling (fun k m₁ m₂ => m₁ = m₂ ∧ Q k m₁.scope) (fun _ => True) (fun _ => False) where
  inside_succ _ := trivial
  lookup := by
    rintro k m _ - ⟨rfl, -⟩ key
    rfl
  function := by
    rintro k m _ ⟨rfl, -⟩ key
    rfl
  assign := by
    rintro k m _ - ⟨rfl, hm⟩ key v
    exact ⟨rfl, h.assign hm key v⟩
  declare := by
    rintro k m _ - ⟨rfl, hm⟩ key v
    exact ⟨rfl, h.declare hm key v⟩
  define := by
    rintro k m _ - ⟨rfl, hm⟩ key function
    exact ⟨rfl, h.define hm key function⟩
  print _ v := (Preserves.print v).agree
  note n := (Preserves.note n).agree
  noteDefined _ name params := (preserves_noteDefined _ name params).agree
  checkCalls name := (preserves_checkCalls _ name).agree
  enter := by
    rintro k m _ ⟨rfl, hm⟩ hroom frame
    exact ⟨rfl, h.enter hm hroom frame⟩
  leave := by
    rintro k m _ ⟨rfl, hm⟩
    exact ⟨rfl, h.leave hm⟩

/-- **What each step keeps every run keeps**, however it ends and however many levels may be opened. -/
theorem preserves (h : ScopeInvariant Q) (levels k : Nat) :
    (∀ expr, Preserves (Q k) ((withLevels levels).evaluate expr)) ∧
    (∀ exprs, Preserves (Q k) ((withLevels levels).evaluateAll exprs)) ∧
    (∀ statement, Preserves (Q k) ((withLevels levels).execute statement)) ∧
    (∀ statements, Preserves (Q k) ((withLevels levels).executeAll statements)) ∧
    (∀ condition body, Preserves (Q k) ((withLevels levels).loop condition body)) ∧
    (∀ name args, Preserves (Q k) ((withLevels levels).call name args)) := by
  have hagree := h.coupling.agree_withLevels levels
  have hpreserves : ∀ {α : Type} {r : Run α},
      Run.Agree (fun m₁ m₂ => m₁ = m₂ ∧ Q k m₁.scope) (fun m₁ m₂ => m₁ = m₂ ∧ Q k m₁.scope)
        (fun m₁ m₂ => m₁ = m₂ ∧ Q k m₁.scope) (fun _ => False) r r → Preserves (Q k) r :=
    fun hr m hm => (hr.left ⟨rfl, hm⟩).2
  exact ⟨fun expr => hpreserves (hagree.evaluate trivial expr),
    fun exprs => hpreserves (hagree.evaluateAll trivial exprs),
    fun statement => hpreserves (hagree.execute trivial statement),
    fun statements => hpreserves (hagree.executeAll trivial statements),
    fun condition body => hpreserves (hagree.loop trivial condition body),
    fun name args => hpreserves (hagree.call name args)⟩

end ScopeInvariant

/-! ## Guards -/

/-- **A run under guard**: an alarm stops it where the machine is not allowed before it or after it. -/
def Run.guarded {α : Type} (allowed : Machine → Prop) [DecidablePred allowed] (alarm : RunFailure)
    (r : Run α) : Run α := fun m =>
  if allowed m then
    match r m with
    | .ok a m' => if allowed m' then .ok a m' else .error alarm m'
    | .error e m' => if allowed m' then .error e m' else .error alarm m'
  else .error alarm m

namespace Meaning

variable (allowed : Machine → Prop) [DecidablePred allowed] (alarm : RunFailure)

/-- A meaning under guard. -/
def guarded (M : Meaning) : Meaning where
  evaluate expr := (M.evaluate expr).guarded allowed alarm
  evaluateAll exprs := (M.evaluateAll exprs).guarded allowed alarm
  execute statement := (M.execute statement).guarded allowed alarm
  executeAll statements := (M.executeAll statements).guarded allowed alarm
  loop condition body := (M.loop condition body).guarded allowed alarm
  call name args := (M.call name args).guarded allowed alarm

/-- **The meaning of trees with every part under guard**, on every level. -/
def guardedLevels : (levels : Nat) → Meaning
  | 0 => exhausted.guarded allowed alarm
  | levels + 1 => (ofParts (guardedLevels levels)).guarded allowed alarm

end Meaning

open Classical in
/-- **The execution of statements comes by a machine** if it makes a difference to stop it there, before or
    after some part of it. -/
def Machine.Reaches (statements : List Node) (m s : Machine) : Prop :=
  ∃ alarm, (Meaning.guardedLevels (· ≠ s) alarm Meaning.maxLevels).executeAll statements m ≠
    Machine.executeAll statements m

section

variable {allowed : Machine → Prop} [DecidablePred allowed] {alarm : RunFailure}

/-- Where all machines are allowed, a guard changes nothing. -/
theorem Run.Agree.guarded {α : Type} {R : Machine → Machine → Prop} {r₁ r₂ : Run α}
    (h : Run.Agree R R R (fun _ => False) r₁ r₂) (hR : ∀ m₁ m₂, R m₁ m₂ → allowed m₁) :
    Run.Agree R R R (fun _ => False) (r₁.guarded allowed alarm) r₂ := by
  intro m₁ m₂ hm
  have houtcome := h hm
  unfold Run.guarded
  rw [if_pos (hR _ _ hm)]
  generalize r₁ m₁ = first at houtcome ⊢
  generalize r₂ m₂ = second at houtcome ⊢
  cases houtcome with
  | ok h' =>
    simp only [if_pos (hR _ _ h')]
    exact .ok h'
  | error h' =>
    simp only [if_pos (hR _ _ h')]
    exact .error h'
  | excused he => exact he.elim

theorem Meaning.Agree.guarded {S : Nat → Machine → Machine → Prop} {inside : Nat → Prop} {M₁ M₂ : Meaning}
    (h : Meaning.Agree S inside (fun _ => False) M₁ M₂) (hS : ∀ k m₁ m₂, S k m₁ m₂ → allowed m₁) :
    Meaning.Agree S inside (fun _ => False) (M₁.guarded allowed alarm) M₂ where
  evaluate hk expr := (h.evaluate hk expr).guarded (hS _)
  evaluateAll hk exprs := (h.evaluateAll hk exprs).guarded (hS _)
  execute hk statement := (h.execute hk statement).guarded (hS _)
  executeAll hk statements := (h.executeAll hk statements).guarded (hS _)
  loop hk condition body := (h.loop hk condition body).guarded (hS _)
  call name args := (h.call name args).guarded (hS _)

/-- A guard that allows all machines that a coupling relates never gives alarm. -/
theorem Coupling.agree_guardedLevels {S : Nat → Machine → Machine → Prop} {inside : Nat → Prop}
    (c : Coupling S inside (fun _ => False)) (alarm : RunFailure)
    (hS : ∀ k m₁ m₂, S k m₁ m₂ → allowed m₁) (levels : Nat) :
    Meaning.Agree S inside (fun _ => False) (Meaning.guardedLevels allowed alarm levels)
      (Meaning.withLevels levels) := by
  induction levels with
  | zero => exact Coupling.agree_exhausted.guarded hS
  | succ levels ih => exact (c.agree_ofParts ih).guarded hS

end

/-- Runs that agree on one machine give the same. -/
theorem Run.Agree.eq {α : Type} {Q : Machine → Prop} {r₁ r₂ : Run α}
    (h : Run.Agree (fun m₁ m₂ => m₁ = m₂ ∧ Q m₁) (fun m₁ m₂ => m₁ = m₂ ∧ Q m₁)
      (fun m₁ m₂ => m₁ = m₂ ∧ Q m₁) (fun _ => False) r₁ r₂) {m : Machine} (hm : Q m) : r₁ m = r₂ m := by
  have houtcome := h ⟨rfl, hm⟩
  generalize r₁ m = first at houtcome ⊢
  generalize r₂ m = second at houtcome ⊢
  cases houtcome with
  | ok h' => rw [h'.1]
  | error h' => rw [h'.1]
  | excused he => exact he.elim

/-- **An invariant holds wherever a run comes by**, if it holds at the start. -/
theorem ScopeInvariant.of_reaches {Q : Nat → Scope → Prop} (h : ScopeInvariant Q) {k : Nat}
    {statements : List Node} {m s : Machine} (hm : Q k m.scope) (hs : Machine.Reaches statements m s) :
    ∃ k, Q k s.scope := by
  classical
  apply Classical.byContradiction
  intro hnever
  obtain ⟨alarm, hne⟩ := hs
  -- The invariant keeps every machine on the way away from `s`, so the guard gives no alarm.
  have hallowed : ∀ (k : Nat) (m₁ m₂ : Machine), m₁ = m₂ ∧ Q k m₁.scope → m₁ ≠ s := by
    rintro k m₁ _ ⟨-, hm₁⟩ rfl
    exact hnever ⟨k, hm₁⟩
  have hagree := h.coupling.agree_guardedLevels alarm hallowed Meaning.maxLevels
  apply hne
  show _ = (Meaning.withLevels Meaning.maxLevels).executeAll statements m
  rw [← Run.Agree.eq (hagree.executeAll (k := k) trivial statements) hm]

/-- A guard that forbids the machine before a run, or the one that the run leaves, gives alarm. -/
theorem Run.guarded_eq_error {α : Type} {r : Run α} {m s : Machine} {alarm : RunFailure}
    [DecidablePred (· ≠ s)] (h : m = s ∨ (r.guarded (· ≠ s) alarm).left m = s) :
    r.guarded (· ≠ s) alarm m = .error alarm s := by
  unfold Run.left Run.guarded at h
  unfold Run.guarded
  by_cases hm : m = s
  · simp [hm]
  · have hleft := h.resolve_left hm
    simp only [ne_eq, hm, not_false_eq_true, if_true] at hleft ⊢
    cases hr : r m with
    | ok a m' =>
      by_cases hm' : m' = s
      · simp [hm']
      · simp [hr, hm'] at hleft
    | error e m' =>
      by_cases hm' : m' = s
      · simp [hm']
      · simp [hr, hm'] at hleft

/-- **A run comes by where it starts and where it ends.** -/
theorem Machine.reaches_of_eq {statements : List Node} {m s : Machine}
    (h : m = s ∨ (Machine.executeAll statements).left m = s) : Machine.Reaches statements m s := by
  classical
  apply Classical.byContradiction
  intro hnever
  have hsame : ∀ alarm, Machine.executeAll statements m = .error alarm s := by
    intro alarm
    have heq : (Meaning.guardedLevels (· ≠ s) alarm Meaning.maxLevels).executeAll statements m =
        Machine.executeAll statements m :=
      Classical.byContradiction fun hne => hnever ⟨alarm, hne⟩
    have hleft : ((Meaning.guardedLevels (· ≠ s) alarm Meaning.maxLevels).executeAll statements).left m =
        (Machine.executeAll statements).left m := by
      unfold Run.left
      rw [heq]
    rw [← heq]
    exact Run.guarded_eq_error (h.imp_right hleft.trans)
  -- The run cannot give two alarms.
  have hcontra := (hsame (.fault .missingPart)).symm.trans (hsame (.fault .notAProgram))
  cases hcontra

end LineaLang
