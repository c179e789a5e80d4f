import LineaLang.Proofs.Machine.Discipline
import LineaLang.Proofs.Machine.Sequence

/-!
# `LineaLang.Proofs.Machine.Loops` — how often a loop runs

A loop is a sequence of rounds: the condition is asked and holds, the round gets its number, and the body runs to its
end. The rounds are put together here from what the condition and the body do, with no bound on their number and
without the loop (`Meaning.Rounds`). What a loop does is then told by where the rounds stop, and there are five ways
(`Meaning.LoopEnds`): the condition fails, the body returns, the condition holds after as many rounds as there may be,
or the condition or the body stops with an error.

The bound stands between the condition and the body. So the condition may be asked once more than the body runs, and
its effects remain also where the loop is stopped after it.

## Contents

* `Run.note_eq_ok`, `Machine.counted` — notes that never fail, and the machine after a round has got its number.
* `Meaning.Holds`, `Meaning.Fails`, `Meaning.Rounds` — one condition, and any number of rounds.
* `Meaning.LoopEnds` — the ends of a loop.
* `Meaning.loopBy_eq_iff` — a loop ends in these ways and in no other.
* `Meaning.execute_whileLoop_iff` — the same for the statement, with loops side by side and inside one another.
-/

namespace LineaLang

open Run

/-! ## Numbers of rounds -/

/-- A note without surrogates is taken, if the verbosity asks for it. -/
theorem Run.note_eq_ok {n : Note} (hline : n.line.SurrogateFree) (m : Machine) :
    note n m = .ok () (if n.level ≤ m.verbosity then m.noted n else m) := by
  unfold note
  rw [m.unwritable?_eq_none hline]
  split <;> rfl

/-- **The machine after a round has got its number.** -/
def Machine.counted (m : Machine) (number : Nat) : Machine :=
  if (Note.iterated number).level ≤ m.verbosity then m.noted (.iterated number) else m

/-- The number of a round can always be noted: it is written in digits. -/
theorem Run.note_iterated (number : Nat) (m : Machine) : note (.iterated number) m = .ok () (m.counted number) := by
  have hline : (Note.iterated number).line.SurrogateFree := .append .ofString (Numeral.surrogateFree_ofNat number)
  exact note_eq_ok hline m

namespace Meaning

/-! ## Rounds -/

/-- **The condition holds** on `m` and leaves `m'`. -/
def Holds (P : Meaning) (condition : Node) (m m' : Machine) : Prop :=
  ∃ v, P.evaluate condition m = .ok v m' ∧ v.isTruthy = true

/-- **The condition fails** on `m` and leaves `m'`. -/
def Fails (P : Meaning) (condition : Node) (m m' : Machine) : Prop :=
  ∃ v, P.evaluate condition m = .ok v m' ∧ v.isTruthy = false

/-- **So many rounds** lead from `m` to another machine: in each of them the condition holds and the body ends
    normally. -/
inductive Rounds (P : Meaning) (condition body : Node) (m : Machine) : Nat → Machine → Prop where
  | zero : Rounds P condition body m 0 m
  | succ {count m₁ m₂ m₃} (rounds : Rounds P condition body m count m₁) (holds : P.Holds condition m₁ m₂)
      (ends : P.execute body (m₂.counted (count + 1)) = .ok .normal m₃) : Rounds P condition body m (count + 1) m₃

/-- **The ends of a loop** that begins on `m`. -/
inductive LoopEnds (P : Meaning) (condition body : Node) (m : Machine) :
    EStateM.Result RunFailure Machine Signal → Prop where
  | done {count m₁ m'} (rounds : P.Rounds condition body m count m₁) (within : count ≤ maxIterations)
      (fails : P.Fails condition m₁ m') : LoopEnds P condition body m (.ok .normal m')
  | returned {count m₁ m₂ v m'} (rounds : P.Rounds condition body m count m₁) (within : count < maxIterations)
      (holds : P.Holds condition m₁ m₂) (returns : P.execute body (m₂.counted (count + 1)) = .ok (.returned v) m') :
      LoopEnds P condition body m (.ok (.returned v) m')
  | limit {m₁ m'} (rounds : P.Rounds condition body m maxIterations m₁) (holds : P.Holds condition m₁ m') :
      LoopEnds P condition body m (.error (.error (.iterationLimit maxIterations)) m')
  | conditionStops {count m₁ e m'} (rounds : P.Rounds condition body m count m₁) (within : count ≤ maxIterations)
      (stops : P.evaluate condition m₁ = .error e m') : LoopEnds P condition body m (.error e m')
  | bodyStops {count m₁ m₂ e m'} (rounds : P.Rounds condition body m count m₁) (within : count < maxIterations)
      (holds : P.Holds condition m₁ m₂) (stops : P.execute body (m₂.counted (count + 1)) = .error e m') :
      LoopEnds P condition body m (.error e m')

/-! ## One round of a loop -/

section

variable {P : Meaning} {condition body : Node} {m m' m₁ m₂ : Machine} {remaining count : Nat}

/-- The rest of a loop after as many rounds as `remaining` leaves of the bound. -/
abbrev rest (P : Meaning) (condition body : Node) (remaining : Nat) : Run Signal :=
  repeatWhile (P.evaluate condition) (P.execute body) remaining

theorem rest_of_fails (h : P.Fails condition m m') : P.rest condition body remaining m = .ok .normal m' := by
  obtain ⟨v, hv, hfalse⟩ := h
  cases remaining <;> simp [rest, repeatWhile, Bind.bind, EStateM.bind, hv, hfalse] <;> rfl

theorem rest_of_error {e : RunFailure} (h : P.evaluate condition m = .error e m') :
    P.rest condition body remaining m = .error e m' := by
  cases remaining <;> simp only [rest, repeatWhile, Bind.bind, EStateM.bind, h]

theorem rest_zero_of_holds (h : P.Holds condition m m') :
    P.rest condition body 0 m = .error (.error (.iterationLimit maxIterations)) m' := by
  obtain ⟨v, hv, htrue⟩ := h
  simp only [rest, repeatWhile, Bind.bind, EStateM.bind, hv, htrue, if_true]
  rfl

/-- **A round begins**: the loop goes on with the body. -/
theorem rest_succ_of_holds (h : P.Holds condition m m') :
    P.rest condition body (remaining + 1) m =
      (match P.execute body (m'.counted (maxIterations - remaining)) with
        | .ok .normal m'' => P.rest condition body remaining m''
        | .ok (.returned v) m'' => .ok (.returned v) m''
        | .error e m'' => .error e m'') := by
  obtain ⟨v, hv, htrue⟩ := h
  simp only [rest, repeatWhile, Bind.bind, EStateM.bind, hv, htrue, if_true, note_iterated]
  cases P.execute body (m'.counted (maxIterations - remaining)) with
  | error e m'' => rfl
  | ok signal m'' => cases signal <;> rfl

/-- A condition stops with an error, fails or holds. -/
theorem asked (P : Meaning) (condition : Node) (m : Machine) :
    (∃ e m', P.evaluate condition m = .error e m') ∨ (∃ m', P.Fails condition m m') ∨
      ∃ m', P.Holds condition m m' := by
  cases h : P.evaluate condition m with
  | error e m' => exact .inl ⟨e, m', rfl⟩
  | ok v m' =>
    cases hv : v.isTruthy with
    | false => exact .inr (.inl ⟨m', v, h, hv⟩)
    | true => exact .inr (.inr ⟨m', v, h, hv⟩)

/-! ## All rounds of a loop -/

/-- The rounds that are made and those that are left. -/
theorem exists_remaining (h : count < maxIterations) :
    ∃ remaining, maxIterations - count = remaining + 1 ∧ maxIterations - remaining = count + 1 ∧
      maxIterations - (count + 1) = remaining :=
  ⟨maxIterations - count - 1, by omega, by omega, by omega⟩

/-- **After some rounds the rest of the loop is left.** -/
theorem loopBy_of_rounds (h : P.Rounds condition body m count m') (hwithin : count ≤ maxIterations) :
    loopBy P condition body m = P.rest condition body (maxIterations - count) m' := by
  induction h with
  | zero => rfl
  | succ rounds holds ends ih =>
    obtain ⟨remaining, hleft, hnumber, hnext⟩ := exists_remaining hwithin
    rw [ih (Nat.le_of_succ_le hwithin), hleft, rest_succ_of_holds holds, hnumber, ends, hnext]

/-- After some rounds and one more condition that holds, the body decides. -/
theorem loopBy_of_holds (h : P.Rounds condition body m count m₁) (hwithin : count < maxIterations)
    (hholds : P.Holds condition m₁ m₂) :
    loopBy P condition body m =
      (match P.execute body (m₂.counted (count + 1)) with
        | .ok .normal m'' => P.rest condition body (maxIterations - (count + 1)) m''
        | .ok (.returned v) m'' => .ok (.returned v) m''
        | .error e m'' => .error e m'') := by
  obtain ⟨remaining, hleft, hnumber, hnext⟩ := exists_remaining hwithin
  rw [loopBy_of_rounds h (Nat.le_of_lt hwithin), hleft, rest_succ_of_holds hholds, hnumber, hnext]

/-- **Whatever rounds have been made, the rest of the loop ends in one of the ways**, by induction on the rounds that
    are left. -/
theorem LoopEnds.of_rest (remaining : Nat) (hremaining : remaining ≤ maxIterations) {m' : Machine}
    (h : P.Rounds condition body m (maxIterations - remaining) m') :
    LoopEnds P condition body m (P.rest condition body remaining m') := by
  have hwithin : maxIterations - remaining ≤ maxIterations := Nat.sub_le _ _
  obtain ⟨e, m'', hstops⟩ | ⟨m'', hfails⟩ | ⟨m'', hholds⟩ := asked P condition m'
  · rw [rest_of_error hstops]
    exact .conditionStops h hwithin hstops
  · rw [rest_of_fails hfails]
    exact .done h hwithin hfails
  · cases remaining with
    | zero =>
      rw [rest_zero_of_holds hholds]
      exact .limit h hholds
    | succ remaining =>
      have hwithin : maxIterations - (remaining + 1) < maxIterations := by omega
      have hnumber : maxIterations - remaining = maxIterations - (remaining + 1) + 1 := by omega
      rw [rest_succ_of_holds hholds, hnumber]
      cases hbody : P.execute body (m''.counted (maxIterations - (remaining + 1) + 1)) with
      | error e m₃ => exact .bodyStops h hwithin hholds hbody
      | ok signal m₃ =>
        cases signal with
        | returned v => exact .returned h hwithin hholds hbody
        | normal =>
          refine LoopEnds.of_rest remaining (Nat.le_of_succ_le hremaining) ?_
          rw [hnumber]
          exact .succ h hholds hbody

/-- **The ends of a loop**: it ends in one of these ways, and where one of them is open it ends in it. -/
theorem loopBy_eq_iff {outcome : EStateM.Result RunFailure Machine Signal} :
    loopBy P condition body m = outcome ↔ LoopEnds P condition body m outcome := by
  constructor
  · rintro rfl
    refine LoopEnds.of_rest maxIterations (Nat.le_refl _) ?_
    rw [Nat.sub_self]
    exact .zero
  · intro h
    cases h with
    | done rounds within fails => rw [loopBy_of_rounds rounds within, rest_of_fails fails]
    | returned rounds within holds returns => rw [loopBy_of_holds rounds within holds, returns]
    | limit rounds holds => rw [loopBy_of_rounds rounds (Nat.le_refl _), Nat.sub_self, rest_zero_of_holds holds]
    | conditionStops rounds within stops => rw [loopBy_of_rounds rounds within, rest_of_error stops]
    | bodyStops rounds within holds stops => rw [loopBy_of_holds rounds within holds, stops]

/-- **A loop ends normally** after some rounds and a condition that fails. -/
theorem loopBy_eq_normal_iff :
    loopBy P condition body m = .ok .normal m' ↔
      ∃ count ≤ maxIterations, ∃ m₁, P.Rounds condition body m count m₁ ∧ P.Fails condition m₁ m' := by
  rw [loopBy_eq_iff]
  constructor
  · intro h
    cases h with
    | done rounds within fails => exact ⟨_, within, _, rounds, fails⟩
  · rintro ⟨count, within, m₁, rounds, fails⟩
    exact .done rounds within fails

theorem loopBy_eq_returned_iff {v : Value} :
    loopBy P condition body m = .ok (.returned v) m' ↔
      ∃ count < maxIterations, ∃ m₁ m₂, P.Rounds condition body m count m₁ ∧ P.Holds condition m₁ m₂ ∧
        P.execute body (m₂.counted (count + 1)) = .ok (.returned v) m' := by
  rw [loopBy_eq_iff]
  constructor
  · intro h
    cases h with
    | returned rounds within holds returns => exact ⟨_, within, _, _, rounds, holds, returns⟩
  · rintro ⟨count, within, m₁, m₂, rounds, holds, returns⟩
    exact .returned rounds within holds returns

theorem loopBy_eq_error_iff {e : RunFailure} :
    loopBy P condition body m = .error e m' ↔
      (e = .error (.iterationLimit maxIterations) ∧
        ∃ m₁, P.Rounds condition body m maxIterations m₁ ∧ P.Holds condition m₁ m') ∨
      (∃ count ≤ maxIterations, ∃ m₁, P.Rounds condition body m count m₁ ∧ P.evaluate condition m₁ = .error e m') ∨
      ∃ count < maxIterations, ∃ m₁ m₂, P.Rounds condition body m count m₁ ∧ P.Holds condition m₁ m₂ ∧
        P.execute body (m₂.counted (count + 1)) = .error e m' := by
  rw [loopBy_eq_iff]
  constructor
  · intro h
    cases h with
    | limit rounds holds => exact .inl ⟨rfl, _, rounds, holds⟩
    | conditionStops rounds within stops => exact .inr (.inl ⟨_, within, _, rounds, stops⟩)
    | bodyStops rounds within holds stops => exact .inr (.inr ⟨_, within, _, _, rounds, holds, stops⟩)
  · rintro (⟨rfl, m₁, rounds, holds⟩ | ⟨count, within, m₁, rounds, stops⟩ |
      ⟨count, within, m₁, m₂, rounds, holds, stops⟩)
    · exact .limit rounds holds
    · exact .conditionStops rounds within stops
    · exact .bodyStops rounds within holds stops

/-- One round more: the condition holds after the others, and the body ends normally. -/
theorem rounds_succ_iff :
    P.Rounds condition body m (count + 1) m' ↔
      ∃ m₁ m₂, P.Rounds condition body m count m₁ ∧ P.Holds condition m₁ m₂ ∧
        P.execute body (m₂.counted (count + 1)) = .ok .normal m' := by
  constructor
  · intro h
    cases h with
    | succ rounds holds ends => exact ⟨_, _, rounds, holds, ends⟩
  · rintro ⟨m₁, m₂, rounds, holds, ends⟩
    exact .succ rounds holds ends

/-- **The rounds are determined** by the machine on which they begin. -/
theorem Rounds.unique (h₁ : P.Rounds condition body m count m₁) (h₂ : P.Rounds condition body m count m₂) :
    m₁ = m₂ := by
  induction h₁ generalizing m₂ with
  | zero =>
    cases h₂
    rfl
  | succ rounds holds ends ih =>
    cases h₂ with
    | succ rounds' holds' ends' =>
      obtain rfl := ih rounds'
      obtain ⟨v, hv, -⟩ := holds
      obtain ⟨v', hv', -⟩ := holds'
      rw [hv] at hv'
      cases hv'
      rw [ends] at ends'
      cases ends'
      rfl

end

/-! ## The statement -/

/-- A list of one statement ends normally if the statement does. -/
theorem executeAllBy_singleton (parts : Meaning) (statement : Node) :
    executeAllBy parts [statement] = parts.execute statement := by
  rw [executeAllBy_cons]
  exact andThen_normal

/-- Two loops side by side run one after the other. -/
theorem executeAll_loops (levels : Nat) (condition body condition' body' : Node) :
    (withLevels (levels + 3)).executeAll [.whileLoop condition body, .whileLoop condition' body'] =
      (loopBy (withLevels levels) condition body).andThen (loopBy (withLevels levels) condition' body') := by
  show executeAllBy (withLevels (levels + 2)) [_, _] = _
  rw [executeAllBy_cons, executeAllBy_singleton]
  rfl

/-- A block around a loop is the loop. -/
theorem execute_blockedLoop (levels : Nat) (condition body : Node) :
    (withLevels (levels + 4)).execute (.block [.whileLoop condition body]) =
      loopBy (withLevels levels) condition body := by
  show executeAllBy (withLevels (levels + 2)) [_] = _
  rw [executeAllBy_singleton]
  rfl

/-- **How long a loop runs.** From any machine, the rounds of a loop are determined. The loop ends normally exactly
    if the condition fails after at most a thousand rounds; it returns exactly if the body does so in one of the first
    thousand rounds; and it stops because of the bound where the condition still holds after a thousand rounds, on
    the machine that this last condition leaves. It stops otherwise only with an error of a condition or of a body,
    on the machine that this leaves. Of two loops side by side each has a thousand rounds of its own; and so has a
    loop inside another, in each round of the other and whatever its number. -/
theorem execute_whileLoop_iff (levels : Nat) (condition body : Node) (m m' : Machine) :
    let P := withLevels levels
    let loop := (withLevels (levels + 2)).execute (.whileLoop condition body)
    (∀ count m₁ m₂, P.Rounds condition body m count m₁ → P.Rounds condition body m count m₂ → m₁ = m₂) ∧
    (loop m = .ok .normal m' ↔
      ∃ count ≤ 1000, ∃ m₁, P.Rounds condition body m count m₁ ∧ P.Fails condition m₁ m') ∧
    (∀ v, loop m = .ok (.returned v) m' ↔
      ∃ count < 1000, ∃ m₁ m₂, P.Rounds condition body m count m₁ ∧ P.Holds condition m₁ m₂ ∧
        P.execute body (m₂.counted (count + 1)) = .ok (.returned v) m') ∧
    (∀ e, loop m = .error e m' ↔
      (e = .error (.iterationLimit 1000) ∧
        ∃ m₁, P.Rounds condition body m 1000 m₁ ∧ P.Holds condition m₁ m') ∨
      (∃ count ≤ 1000, ∃ m₁, P.Rounds condition body m count m₁ ∧ P.evaluate condition m₁ = .error e m') ∨
      ∃ count < 1000, ∃ m₁ m₂, P.Rounds condition body m count m₁ ∧ P.Holds condition m₁ m₂ ∧
        P.execute body (m₂.counted (count + 1)) = .error e m') ∧
    (∀ condition' body',
      (withLevels (levels + 3)).executeAll [.whileLoop condition body, .whileLoop condition' body'] m =
          .ok .normal m' ↔
        ∃ count ≤ 1000, ∃ count' ≤ 1000, ∃ m₁ m₂ m₃,
          P.Rounds condition body m count m₁ ∧ P.Fails condition m₁ m₂ ∧
          P.Rounds condition' body' m₂ count' m₃ ∧ P.Fails condition' m₃ m') ∧
    (∀ condition' number,
      (withLevels (levels + 4)).Rounds condition' (.block [.whileLoop condition body]) m (number + 1) m' ↔
        ∃ m₁ m₂ m₃, (withLevels (levels + 4)).Rounds condition' (.block [.whileLoop condition body]) m number m₁ ∧
          (withLevels (levels + 4)).Holds condition' m₁ m₂ ∧
          ∃ count ≤ 1000, P.Rounds condition body (m₂.counted (number + 1)) count m₃ ∧ P.Fails condition m₃ m') := by
  intro P loop
  refine ⟨fun count m₁ m₂ => Rounds.unique, loopBy_eq_normal_iff, fun v => loopBy_eq_returned_iff,
    fun e => loopBy_eq_error_iff, ?_, ?_⟩
  · intro condition' body'
    rw [executeAll_loops, andThen_eq_normal_iff]
    simp only [loopBy_eq_normal_iff]
    constructor
    · rintro ⟨m₂, ⟨count, within, m₁, rounds, fails⟩, count', within', m₃, rounds', fails'⟩
      exact ⟨count, within, count', within', m₁, m₂, m₃, rounds, fails, rounds', fails'⟩
    · rintro ⟨count, within, count', within', m₁, m₂, m₃, rounds, fails, rounds', fails'⟩
      exact ⟨m₂, ⟨count, within, m₁, rounds, fails⟩, count', within', m₃, rounds', fails'⟩
  · intro condition' number
    rw [rounds_succ_iff]
    simp only [execute_blockedLoop, loopBy_eq_normal_iff]
    constructor
    · rintro ⟨m₁, m₂, rounds, holds, count, within, m₃, inner⟩
      exact ⟨m₁, m₂, m₃, rounds, holds, count, within, inner⟩
    · rintro ⟨m₁, m₂, m₃, rounds, holds, count, within, inner⟩
      exact ⟨m₁, m₂, rounds, holds, count, within, m₃, inner⟩

end Meaning

end LineaLang
