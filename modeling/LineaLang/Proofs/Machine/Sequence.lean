import LineaLang.Proofs.Machine.Output
import LineaLang.Proofs.Machine.Invariant

/-!
# `LineaLang.Proofs.Machine.Sequence` — statements in pieces, and what they print

Statements are executed one after the other, up to the first that does not end normally. So a list of statements can be
cut anywhere: its pieces, executed one after the other up to the first that does not end normally, do what the whole
list does.

Whatever is printed is put on top of what has been printed, and is never read. A run on a machine is therefore the run
on the same machine with nothing emitted, with the emissions of the past put below its own (`Run.OnlyAppends`).

## Contents

* `Run.andThen`, `Meaning.executePieces` — one after the other, as long as all ends normally.
* `Meaning.executeAllBy_append`, `Meaning.executeAllBy_flatten` — a list in two pieces, and in any number of them.
* `Machine.silent`, `Machine.onTopOf`, `Run.OnlyAppends` — machines with nothing emitted, and with a past.
* `Meaning.onlyAppends`, `Machine.onlyAppends_run` — no run reads what has been emitted.
-/

namespace LineaLang

open Meaning

/-! ## One after the other -/

/-- **One run after another**, if the first ends normally. Otherwise the end of the first is the end of both. -/
def Run.andThen (first second : Run Signal) : Run Signal := fun m =>
  match first m with
  | .ok .normal m' => second m'
  | outcome => outcome

namespace Run

variable {first second third : Run Signal} {m m' : Machine}

theorem andThen_of_normal (h : first m = .ok .normal m') : first.andThen second m = second m' := by
  unfold andThen
  rw [h]

theorem andThen_eq_bind :
    first.andThen second = (do
      match ← first with
      | .normal => second
      | .returned v => return .returned v) := by
  funext m
  simp only [andThen, Bind.bind, EStateM.bind]
  cases first m with
  | error e m' => rfl
  | ok signal m' => cases signal <;> rfl

theorem andThen_assoc : (first.andThen second).andThen third = first.andThen (second.andThen third) := by
  funext m
  unfold andThen
  cases first m with
  | error e m' => rfl
  | ok signal m' => cases signal <;> rfl

theorem andThen_normal : first.andThen (pure .normal) = first := by
  funext m
  unfold andThen
  cases first m with
  | error e m' => rfl
  | ok signal m' => cases signal <;> rfl

/-- **A sequence ends normally** if the second run does so where the first has ended normally. -/
theorem andThen_eq_normal_iff :
    first.andThen second m = .ok .normal m' ↔ ∃ m₁, first m = .ok .normal m₁ ∧ second m₁ = .ok .normal m' := by
  unfold andThen
  cases first m with
  | error e m₁ => simp
  | ok signal m₁ => cases signal <;> simp

end Run

namespace Meaning

open Run

variable (parts : Meaning)

theorem executeAllBy_cons (statement : Node) (rest : List Node) :
    executeAllBy parts (statement :: rest) = (parts.execute statement).andThen (executeAllBy parts rest) := by
  rw [andThen_eq_bind]
  rfl

/-- **A list of statements in two pieces**, by induction on the first. -/
theorem executeAllBy_append (first second : List Node) :
    executeAllBy parts (first ++ second) = (executeAllBy parts first).andThen (executeAllBy parts second) := by
  induction first with
  | nil => rfl
  | cons statement rest ih => rw [List.cons_append, executeAllBy_cons, executeAllBy_cons, ih, andThen_assoc]

/-- **Pieces one after the other**, up to the first that does not end normally. -/
def executePieces (M : Meaning) : (pieces : List (List Node)) → Run Signal
  | [] => pure .normal
  | piece :: rest => (M.executeAll piece).andThen (executePieces M rest)

/-- **A list of statements in any number of pieces.** -/
theorem executeAllBy_flatten (pieces : List (List Node)) :
    executeAllBy parts pieces.flatten = (ofParts parts).executePieces pieces := by
  induction pieces with
  | nil => rfl
  | cons piece rest ih =>
    rw [List.flatten_cons, executeAllBy_append, ih]
    rfl

end Meaning

/-! ## What has been emitted -/

/-- **The machine with nothing emitted.** -/
def Machine.silent (m : Machine) : Machine := { m with emissions := [] }

/-- **The machine with a past below its own emissions.** -/
def Machine.onTopOf (m : Machine) (past : List Emission) : Machine := { m with emissions := m.emissions ++ past }

/-- The outputs are those of the past and then those of the machine. -/
theorem Machine.output_onTopOf (m past : Machine) :
    (m.onTopOf past.emissions).output = past.output ++ m.output := by
  unfold Machine.output Machine.onTopOf
  rw [List.reverse_append, List.filterMap_append]

theorem Resumed.eq_onTopOf {verbosity : Nat} {past : List Emission} {m₁ m₂ : Machine}
    (h : Resumed verbosity [] past m₁ m₂) : m₂ = m₁.onTopOf past := by
  obtain ⟨new, h₁, h₂, -⟩ := h.emissions
  rw [List.append_nil] at h₁
  unfold Machine.onTopOf
  rw [h₁, ← h₂, h.scope, h.verbosity₁, ← h.verbosity₂, h.console, h.logOpen, h.notes]

namespace Run

variable {α : Type} {r : Run α}

/-- **A run only appends** to what has been emitted: it does what it does with nothing emitted, with the past below
    its own emissions, however it ends. -/
def OnlyAppends (r : Run α) : Prop :=
  ∀ m : Machine, r m =
    match r m.silent with
    | .ok a m' => .ok a (m'.onTopOf m.emissions)
    | .error e m' => .error e (m'.onTopOf m.emissions)

/-- **The output after a run** is the output before it and then a list that does not depend on it. -/
theorem OnlyAppends.output_left (h : r.OnlyAppends) (m : Machine) :
    (r.left m).output = m.output ++ (r.left m.silent).output := by
  unfold left
  rw [h m]
  cases r m.silent with
  | ok a m' => exact m'.output_onTopOf m
  | error e m' => exact m'.output_onTopOf m

/-- **The outputs of two runs**, the second after a normal end of the first, stand one after the other. -/
theorem OnlyAppends.output_andThen {first second : Run Signal} {m m' : Machine} (hfirst : first.OnlyAppends)
    (hsecond : second.OnlyAppends) (h : first m = .ok .normal m') :
    ((first.andThen second).left m).output =
      m.output ++ (first.left m.silent).output ++ (second.left m'.silent).output := by
  have hleft : first.left m = m' := by
    unfold left
    rw [h]
  have hboth : (first.andThen second).left m = second.left m' := by
    unfold left
    rw [andThen_of_normal h]
  rw [hboth, hsecond.output_left m', ← hleft, hfirst.output_left m]

/-- What goes on alike after any two pasts only appends. -/
theorem OnlyAppends.of_resumed
    (h : ∀ verbosity past, Agree (Resumed verbosity [] past) (Resumed verbosity [] past) (Resumed verbosity [] past)
      (fun _ => False) r r) : r.OnlyAppends := by
  intro m
  have hstart : Resumed m.verbosity [] m.emissions m.silent m :=
    ⟨rfl, rfl, rfl, rfl, rfl, rfl, [], rfl, rfl, fun _ => List.forall_mem_nil _⟩
  have houtcome := h m.verbosity m.emissions hstart
  generalize r m = outcome at houtcome ⊢
  generalize r m.silent = outcome' at houtcome ⊢
  cases houtcome with
  | ok h => rw [h.eq_onTopOf]
  | error h => rw [h.eq_onTopOf]
  | excused he => exact he.elim

end Run

/-- **No tree reads what has been emitted**, on any number of levels. -/
structure Meaning.OnlyAppends (M : Meaning) : Prop where
  evaluate : ∀ expr, (M.evaluate expr).OnlyAppends
  evaluateAll : ∀ exprs, (M.evaluateAll exprs).OnlyAppends
  execute : ∀ statement, (M.execute statement).OnlyAppends
  executeAll : ∀ statements, (M.executeAll statements).OnlyAppends
  loop : ∀ condition body, (M.loop condition body).OnlyAppends
  call : ∀ name args, (M.call name args).OnlyAppends

theorem Meaning.onlyAppends_withLevels (levels : Nat) : (withLevels levels).OnlyAppends := by
  have h := fun verbosity past => (coupling_resumed verbosity [] past fun _ => False).agree_withLevels levels
  exact {
    evaluate := fun expr => .of_resumed fun verbosity past => (h verbosity past).evaluate (k := 0) trivial expr
    evaluateAll := fun exprs => .of_resumed fun verbosity past => (h verbosity past).evaluateAll (k := 0) trivial exprs
    execute := fun statement => .of_resumed fun verbosity past => (h verbosity past).execute (k := 0) trivial statement
    executeAll := fun statements =>
      .of_resumed fun verbosity past => (h verbosity past).executeAll (k := 0) trivial statements
    loop := fun condition body =>
      .of_resumed fun verbosity past => (h verbosity past).loop (k := 0) trivial condition body
    call := fun name args => .of_resumed fun verbosity past => (h verbosity past).call (k := 0) name args }

/-- **No program reads what has been emitted.** -/
theorem Machine.onlyAppends_run (program : Node) : (Machine.run program).OnlyAppends := by
  refine .of_resumed fun verbosity past => ?_
  have hclose : ∀ m₁ m₂, Resumed verbosity [] past m₁ m₂ →
      Resumed verbosity [] past m₁.withLogClosed m₂.withLogClosed := fun m₁ m₂ h => { h with logOpen := rfl }
  exact (coupling_resumed verbosity [] past fun _ => False).agree_run (k := 0) trivial (fun _ => False.elim) hclose
    program

end LineaLang
