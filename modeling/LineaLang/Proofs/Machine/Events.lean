import LineaLang.Proofs.Machine.Regime
import LineaLang.Proofs.Machine.Termination

/-!
# `LineaLang.Proofs.Machine.Events` — what is seen of a run

Of a run more can be seen than its end and the machines on its way: the values that it computes with and never binds,
as those of expressions, of arguments and of what statements return. All of these are events. Every part of a run is
watched, before and after it and for what it gives, and an alarm stops the run at an event that is not allowed. Nothing
catches an alarm. So a run meets an event exactly if it makes a difference to forbid it (`Machine.Meets`).

What a regime makes sure of shows in the events. Where a watch allows all that fits a lawful regime it never gives
alarm; a watch that allows still more then changes nothing either, and a run meets only events that fit.

## Contents

* `Event`, `Run.watched`, `Meaning.watchedLevels` — events, and runs under watch.
* `Machine.Meets` — the events of a run; its ends are among them (`meets_of_ok`, `meets_left`).
* `Meaning.agree_watchedLevels`, `Meaning.watchedLevels_true` — watches that allow more, and one that allows all.
* `Regime.Admits`, `Regime.Lawful.of_meets` — the events of a run under a regime.
-/

namespace LineaLang

open Run Meaning

/-! ## Events -/

/-- **What is seen of a run.** -/
inductive Event where
  /-- The machine before or after some part of the run. -/
  | reached (m : Machine)
  /-- The value of an expression or of a condition. -/
  | evaluated (expr : Node) (v : Value)
  /-- The values of the arguments of a call. -/
  | passed (args : List Value)
  /-- What a call gives. -/
  | gave (v : Value)
  /-- The signal of a statement. -/
  | signalled (signal : Signal)

section

variable {α : Type} (allowed : Event → Prop) [DecidablePred allowed] (alarm : RunFailure)

/-- An outcome under watch: an alarm takes its place if what is given is not allowed, or the machine. -/
def Event.examined (event : α → Event) : EStateM.Result RunFailure Machine α → EStateM.Result RunFailure Machine α
  | .ok a m => if allowed (event a) ∧ allowed (.reached m) then .ok a m else .error alarm m
  | .error e m => if allowed (.reached m) then .error e m else .error alarm m

/-- **A run under watch**: an alarm stops it where the machine before it or after it is not allowed, or what it
    gives. -/
def Run.watched (event : α → Event) (r : Run α) : Run α := fun m =>
  if allowed (.reached m) then Event.examined allowed alarm event (r m) else .error alarm m

namespace Meaning

/-- A meaning under watch. -/
def watched (M : Meaning) : Meaning where
  evaluate expr := (M.evaluate expr).watched allowed alarm (.evaluated expr)
  evaluateAll exprs := (M.evaluateAll exprs).watched allowed alarm .passed
  execute statement := (M.execute statement).watched allowed alarm .signalled
  executeAll statements := (M.executeAll statements).watched allowed alarm .signalled
  loop condition body := (M.loop condition body).watched allowed alarm .signalled
  call name args := (M.call name args).watched allowed alarm .gave

/-- **The meaning of trees with every part under watch**, on every level. -/
def watchedLevels : (levels : Nat) → Meaning
  | 0 => exhausted.watched allowed alarm
  | levels + 1 => (ofParts (watchedLevels levels)).watched allowed alarm

end Meaning

end

open Classical in
/-- **The execution of statements meets an event** if it makes a difference to forbid it. -/
def Machine.Meets (statements : List Node) (m : Machine) (e : Event) : Prop :=
  ∃ alarm, (watchedLevels (· ≠ e) alarm maxLevels).executeAll statements m ≠ Machine.executeAll statements m

/-! ## The ends of a run -/

section

variable {α : Type} {allowed : Event → Prop} [DecidablePred allowed] {alarm : RunFailure} {event : α → Event}
  {r : Run α} {m : Machine}

/-- What comes through a watch is allowed. -/
theorem Run.allowed_of_watched_ok {a : α} {m' : Machine} (h : r.watched allowed alarm event m = .ok a m') :
    allowed (.reached m) ∧ allowed (event a) ∧ allowed (.reached m') := by
  unfold Run.watched at h
  by_cases hm : allowed (.reached m)
  · rw [if_pos hm] at h
    cases hr : r m with
    | ok b m₁ =>
      rw [hr, Event.examined] at h
      by_cases hallowed : allowed (event b) ∧ allowed (.reached m₁)
      · rw [if_pos hallowed] at h
        cases h
        exact ⟨hm, hallowed⟩
      · rw [if_neg hallowed] at h
        cases h
    | error e m₁ =>
      rw [hr, Event.examined] at h
      split at h <;> cases h
  · rw [if_neg hm] at h
    cases h

/-- So are the machines around a failure that comes through, if it is no alarm. -/
theorem Run.allowed_of_watched_error {e : RunFailure} {m' : Machine}
    (h : r.watched allowed alarm event m = .error e m') (he : e ≠ alarm) :
    allowed (.reached m) ∧ allowed (.reached m') := by
  have halarm : ∀ {m₁ : Machine}, (.error alarm m₁ : EStateM.Result RunFailure Machine α) ≠ .error e m' := by
    intro m₁ heq
    cases heq
    exact he rfl
  unfold Run.watched at h
  by_cases hm : allowed (.reached m)
  · rw [if_pos hm] at h
    cases hr : r m with
    | ok b m₁ =>
      rw [hr, Event.examined] at h
      split at h
      · cases h
      · exact absurd h halarm
    | error e₁ m₁ =>
      rw [hr, Event.examined] at h
      by_cases hm₁ : allowed (.reached m₁)
      · rw [if_pos hm₁] at h
        cases h
        exact ⟨hm, hm₁⟩
      · rw [if_neg hm₁] at h
        exact absurd h halarm
  · rw [if_neg hm] at h
    exact absurd h halarm

end

theorem Meaning.executeAll_watchedLevels (allowed : Event → Prop) [DecidablePred allowed] (alarm : RunFailure)
    (levels : Nat) (statements : List Node) :
    ∃ r : Run Signal, (watchedLevels allowed alarm levels).executeAll statements =
      r.watched allowed alarm .signalled := by
  cases levels <;> exact ⟨_, rfl⟩

namespace Machine

variable {statements : List Node} {m m' : Machine}

open Classical in
/-- Where an event is not met, a watch that forbids it changes nothing. -/
theorem exists_watched_of_not_meets {e : Event} (hnever : ¬ Meets statements m e) (alarm : RunFailure) :
    ∃ r : Run Signal, r.watched (· ≠ e) alarm .signalled m = executeAll statements m := by
  obtain ⟨r, hr⟩ := executeAll_watchedLevels (· ≠ e) alarm maxLevels statements
  refine ⟨r, ?_⟩
  rw [← hr]
  exact Classical.byContradiction fun hne => hnever ⟨alarm, hne⟩

/-- **A run meets what it gives**, and the machines on which it starts and which it leaves. -/
theorem meets_of_ok {signal : Signal} (hend : executeAll statements m = .ok signal m') :
    Meets statements m (.reached m) ∧ Meets statements m (.signalled signal) ∧ Meets statements m (.reached m') := by
  classical
  have hallowed : ∀ {e : Event}, ¬ Meets statements m e →
      .reached m ≠ e ∧ .signalled signal ≠ e ∧ .reached m' ≠ e := by
    intro e hnever
    obtain ⟨r, hr⟩ := exists_watched_of_not_meets hnever (.fault .notAProgram)
    exact Run.allowed_of_watched_ok (hr.trans hend)
  exact ⟨Classical.byContradiction fun hnever => (hallowed hnever).1 rfl,
    Classical.byContradiction fun hnever => (hallowed hnever).2.1 rfl,
    Classical.byContradiction fun hnever => (hallowed hnever).2.2 rfl⟩

/-- **A run that fails** meets the machines on which it starts and which it leaves. -/
theorem meets_of_error {failure : RunFailure} (hend : executeAll statements m = .error failure m') :
    Meets statements m (.reached m) ∧ Meets statements m (.reached m') := by
  classical
  have hallowed : ∀ {e : Event}, ¬ Meets statements m e → .reached m ≠ e ∧ .reached m' ≠ e := by
    intro e hnever
    -- The failure is not two alarms at once.
    obtain ⟨alarm, halarm⟩ : ∃ alarm, failure ≠ alarm := by
      by_cases hfailure : failure = .fault .notAProgram
      · exact ⟨.fault .missingPart, hfailure ▸ nofun⟩
      · exact ⟨_, hfailure⟩
    obtain ⟨r, hr⟩ := exists_watched_of_not_meets hnever alarm
    exact Run.allowed_of_watched_error (hr.trans hend) halarm
  exact ⟨Classical.byContradiction fun hnever => (hallowed hnever).1 rfl,
    Classical.byContradiction fun hnever => (hallowed hnever).2 rfl⟩

/-- However a run ends, it meets the machine that it leaves. -/
theorem meets_left (statements : List Node) (m : Machine) :
    Meets statements m (.reached ((executeAll statements).left m)) := by
  unfold Run.left
  cases hend : executeAll statements m with
  | ok signal m' => exact (meets_of_ok hend).2.2
  | error failure m' => exact (meets_of_error hend).2

end Machine

/-! ## Two watches -/

section

variable {p q : Event → Prop} [DecidablePred p] [DecidablePred q] {alarm alarm' : RunFailure}

/-- **A watch that allows more** changes nothing where one that allows less gives no alarm. -/
theorem Run.Agree.watched {α : Type} {r r' : Run α} (hmore : ∀ e, p e → q e)
    (h : Run.Agree Eq Eq Eq (· = alarm) r r') (event : α → Event) :
    Run.Agree Eq Eq Eq (· = alarm) (r.watched p alarm event) (r'.watched q alarm' event) := by
  rintro m _ rfl
  have houtcome := @h m m rfl
  unfold Run.watched
  by_cases hm : p (.reached m)
  · rw [if_pos hm, if_pos (hmore _ hm)]
    generalize r m = outcome, r' m = outcome' at houtcome ⊢
    cases houtcome with
    | @ok a m' _ heq =>
      subst heq
      by_cases ha : p (event a) ∧ p (.reached m')
      · simp only [Event.examined, if_pos ha, if_pos (And.intro (hmore _ ha.1) (hmore _ ha.2))]
        exact .ok rfl
      · simp only [Event.examined, if_neg ha]
        exact .excused rfl
    | @error e m' _ heq =>
      subst heq
      by_cases hm' : p (.reached m')
      · simp only [Event.examined, if_pos hm', if_pos (hmore _ hm')]
        exact .error rfl
      · simp only [Event.examined, if_neg hm']
        exact .excused rfl
    | excused he =>
      subst he
      simp only [Event.examined, ite_self]
      exact .excused rfl
  · rw [if_neg hm]
    exact .excused rfl

namespace Meaning

theorem Agree.watched {M M' : Meaning} (hmore : ∀ e, p e → q e)
    (h : Meaning.Agree (fun _ => Eq) (fun _ => True) (· = alarm) M M') :
    Meaning.Agree (fun _ => Eq) (fun _ => True) (· = alarm) (M.watched p alarm) (M'.watched q alarm') where
  evaluate hk expr := (h.evaluate (k := 0) hk expr).watched hmore _
  evaluateAll hk exprs := (h.evaluateAll (k := 0) hk exprs).watched hmore _
  execute hk statement := (h.execute (k := 0) hk statement).watched hmore _
  executeAll hk statements := (h.executeAll (k := 0) hk statements).watched hmore _
  loop hk condition body := (h.loop (k := 0) hk condition body).watched hmore _
  call name args := (h.call (k := 0) name args).watched hmore _

theorem agree_watchedLevels (hmore : ∀ e, p e → q e) (alarm alarm' : RunFailure) (levels : Nat) :
    Meaning.Agree (fun _ => Eq) (fun _ => True) (· = alarm) (watchedLevels p alarm levels)
      (watchedLevels q alarm' levels) := by
  induction levels with
  | zero => exact Coupling.agree_exhausted.watched hmore
  | succ levels ih => exact ((coupling_same _).agree_ofParts ih).watched hmore

end Meaning

end

theorem Run.watched_true {α : Type} (alarm : RunFailure) (event : α → Event) (r : Run α) :
    r.watched (fun _ => True) alarm event = r := by
  funext m
  simp only [Run.watched, if_true]
  cases r m <;> rfl

/-- **A watch that allows all changes nothing.** -/
theorem Meaning.watchedLevels_true (alarm : RunFailure) (levels : Nat) :
    watchedLevels (fun _ => True) alarm levels = withLevels levels := by
  have hwatched : ∀ M : Meaning, M.watched (fun _ => True) alarm = M := by
    intro M
    simp only [Meaning.watched, Run.watched_true]
  induction levels with
  | zero => exact hwatched exhausted
  | succ levels ih =>
    rw [watchedLevels, hwatched, ih]
    rfl

/-! ## Regimes under watch -/

/-- **An allowed outcome comes through a watch** if the machines and what is given are allowed. -/
theorem Ensures.watched {α : Type} {I : Machine → Prop} {stops : RunFailure → Prop} {r : Run α} {post : α → Prop}
    {p : Event → Prop} [DecidablePred p] {alarm : RunFailure} {event : α → Event} (h : Ensures I r post stops)
    (hreached : ∀ m, I m → p (.reached m)) (hgiven : ∀ a, post a → p (event a)) :
    Ensures I (r.watched p alarm event) post stops := by
  intro m hm
  have hend := h m hm
  unfold Run.watched
  rw [if_pos (hreached m hm)]
  generalize r m = outcome at hend ⊢
  cases hend with
  | @ok a m' hm' ha =>
    have hallowed : p (event a) ∧ p (.reached m') := ⟨hgiven _ ha, hreached _ hm'⟩
    simp only [Event.examined, if_pos hallowed]
    exact .ok hm' ha
  | @error e m' hm' he =>
    simp only [Event.examined, if_pos (hreached _ hm')]
    exact .error hm' he

namespace Regime

variable {C : Type} {R : Regime C} {p : Event → Prop} {c : C} {m : Machine}

/-- **A watch admits a regime** if it allows all events that keep to it. -/
structure Admits (R : Regime C) (p : Event → Prop) : Prop where
  reached : ∀ {c m}, R.inv c m → p (.reached m)
  expression : ∀ {c expr v}, R.expression c expr → R.value v → p (.evaluated expr v)
  condition : ∀ {c condition v}, R.condition c condition → R.answer v → p (.evaluated condition v)
  passed : ∀ {args}, (∀ v ∈ args, R.value v) → p (.passed args)
  gave : ∀ {v}, R.value v → p (.gave v)
  signalled : ∀ {signal}, R.value signal.value → p (.signalled signal)

/-- A meaning keeps to a regime under a watch that admits it. -/
theorem Governs.watched [DecidablePred p] {M : Meaning} (h : R.Governs M) (hp : R.Admits p) (alarm : RunFailure) :
    R.Governs (M.watched p alarm) where
  evaluate hexpr := (h.evaluate hexpr).watched (fun _ => hp.reached) fun _ => hp.expression hexpr
  condition hcondition := (h.condition hcondition).watched (fun _ => hp.reached) fun _ => hp.condition hcondition
  evaluateAll hexprs := (h.evaluateAll hexprs).watched (fun _ => hp.reached) fun _ => hp.passed
  execute hstatement := (h.execute hstatement).watched (fun _ => hp.reached) fun _ => hp.signalled
  executeAll hstatements := (h.executeAll hstatements).watched (fun _ => hp.reached) fun _ => hp.signalled
  loop hcondition hbody := (h.loop hcondition hbody).watched (fun _ => hp.reached) fun _ => hp.signalled
  call hname hargs := (h.call hname hargs).watched (fun _ => hp.reached) fun _ => hp.gave

namespace Lawful

theorem governs_watchedLevels [DecidablePred p] (h : R.Lawful) (hp : R.Admits p) (alarm : RunFailure) (levels : Nat) :
    R.Governs (watchedLevels p alarm levels) := by
  induction levels with
  | zero => exact h.governs_exhausted.watched hp alarm
  | succ levels ih => exact (h.governs_ofParts ih).watched hp alarm

/-- **A run under a lawful regime meets only events that keep to it.** -/
theorem of_meets (h : R.Lawful) (hp : R.Admits p) {alarm : RunFailure} (halarm : ¬ R.allowed alarm) (hm : R.inv c m)
    {statements : List Node} (hstatements : ∀ statement ∈ statements, R.statement c statement) {e : Event}
    (he : Machine.Meets statements m e) : p e := by
  classical
  apply Classical.byContradiction
  intro hnever
  obtain ⟨alarm', hne⟩ := he
  -- The watch that allows what keeps to the regime gives no alarm.
  have hend := (h.governs_watchedLevels hp alarm maxLevels).executeAll hstatements m hm
  have hsame : ∀ {q : Event → Prop} [DecidablePred q], (∀ e, p e → q e) →
      (watchedLevels q alarm' maxLevels).executeAll statements m =
        (watchedLevels p alarm maxLevels).executeAll statements m := by
    intro q _ hmore
    have houtcome := (agree_watchedLevels hmore alarm alarm' maxLevels).executeAll (k := 0) trivial statements
      (rfl : m = m)
    generalize (watchedLevels p alarm maxLevels).executeAll statements m = first at hend houtcome ⊢
    generalize (watchedLevels q alarm' maxLevels).executeAll statements m = second at houtcome ⊢
    cases houtcome with
    | ok heq => exact congrArg _ heq.symm
    | error heq => exact congrArg _ heq.symm
    | excused heq =>
      subst heq
      cases hend with
      | error _ hallowed => exact absurd hallowed halarm
  -- Both the watch that forbids `e` and the one that allows all allow more.
  have hforbidding := hsame (q := (· ≠ e)) fun e' he' => fun heq => hnever (heq ▸ he')
  have hall := hsame (q := fun _ => True) fun _ _ => trivial
  rw [watchedLevels_true] at hall
  exact hne (hforbidding.trans hall.symm)

end Lawful

end Regime

end LineaLang
