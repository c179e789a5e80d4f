import LineaLang.Machine.Execution

/-!
# `LineaLang.Proofs.Machine.Ending` — how the run of a program ends

The statements of a program are executed, and then their end is noted and passed on. So the run of a program is one run
and what its end asks for (`Machine.runAll_eq`). Of the failures an error of the language and want of levels are noted,
and come out as errors of the language; all others are passed on as they are (`Machine.endedBy_failure`). Whatever
holds of the statements is carried to the program along these lines.

## Contents

* `Run.thenBy` — one run, and what its end asks for.
* `Machine.endedBy`, `Machine.endedBy_failure` — the end of a program.
* `Machine.runAll_eq` — the run of its statements.
-/

namespace LineaLang

open Run

/-- **One run, and what its end asks for.** -/
def Run.thenBy {α β : Type} (r : Run α) (next : Except RunFailure α → Run β) : Run β := fun m =>
  match r m with
  | .ok a m' => next (.ok a) m'
  | .error failure m' => next (.error failure) m'

/-- To go on after a value only is to pass on each failure. -/
theorem Run.bind_eq_thenBy {α β : Type} (r : Run α) (f : α → Run β) :
    r >>= f = r.thenBy fun
      | .ok a => f a
      | .error failure => throw failure := by
  funext m
  simp only [Bind.bind, EStateM.bind, Run.thenBy]
  cases r m <;> rfl

namespace Machine

/-- **What follows the statements of a program**, by what they come to. -/
def endedBy : Except RunFailure Signal → Run Value
  | .ok signal => do note .finished; return signal.value
  | .error (.error e) => do note (.stopped e); stop e
  | .error (.fault .tooDeep) => do note .stoppedTooDeep; stop .nestingLimit
  | .error failure => throw failure

/-- **A failure is noted or passed on.** -/
theorem endedBy_failure (failure : RunFailure) :
    (∃ e, failure = .error e) ∨ failure = .fault .tooDeep ∨
      (∀ e, failure ≠ .error e) ∧ failure ≠ .fault .tooDeep ∧ endedBy (.error failure) = throw failure := by
  cases failure with
  | error e => exact .inl ⟨e, rfl⟩
  | unwritable cause => exact .inr (.inr ⟨nofun, nofun, rfl⟩)
  | fault cause =>
    cases cause with
    | tooDeep => exact .inr (.inl rfl)
    | _ => exact .inr (.inr ⟨nofun, nofun, rfl⟩)

/-- **The run of a program's statements**, with the note at their end. -/
theorem runAll_eq (statements : List Node) : runAll statements = (executeAll statements).thenBy endedBy := by
  funext m
  unfold runAll Run.thenBy
  cases executeAll statements m with
  | ok signal m' => rfl
  | error failure m' =>
    cases failure with
    | fault cause => cases cause <;> rfl
    | _ => rfl

end Machine

end LineaLang
