import LineaLang.Proofs.Machine.Coupling
import LineaLang.Proofs.Machine.Ending

/-!
# `LineaLang.Proofs.Machine.Output` — what a run prints

Whatever takes the printed values has no say in the run: the machine never looks at its emissions. Two machines that
differ in what they have emitted so far therefore do the same from then on, and emit the same on top of it, also where
the run stops with an error. On a machine that takes no notes the emissions are the printed values and nothing else.

## Contents

* `Coupling.agree_run` — whole programs on machines that are kept together.
* `Resumed` — two machines that have emitted the same since they had two different pasts.
* `run_resumed` — a run after any past.
* `Printed`, `run_printed` — the same on a machine that takes no notes, in terms of the printed values.
* `Sink.after_printed`, `Sink.after_noted` — what a sink is given in a single step.
-/

namespace LineaLang

open Run Meaning

/-! ## Sinks -/

namespace Sink

variable {σ : Type}

@[simp] theorem after_nil (sink : Sink σ) : sink.after [] = sink := rfl

@[simp] theorem after_cons (sink : Sink σ) (v : Value) (values : List Value) :
    sink.after (v :: values) = (sink.given v).after values := rfl

theorem after_append (sink : Sink σ) (first more : List Value) :
    sink.after (first ++ more) = (sink.after first).after more := List.foldl_append

/-- **A sink is given a value as soon as that is printed.** -/
theorem after_printed (sink : Sink σ) (m : Machine) (v : Value) :
    sink.after (m.printed v).output = (sink.after m.output).given v := by
  have houtput : (m.printed v).output = m.output ++ [v] := by
    simp only [Machine.output, Machine.printed, List.reverse_cons, List.filterMap_append]
    rfl
  rw [houtput, after_append, after_cons, after_nil]

/-- A note is nothing to a sink, also where it goes to the console. -/
theorem after_noted (sink : Sink σ) (m : Machine) (n : Note) :
    sink.after (m.noted n).output = sink.after m.output := by
  unfold Machine.noted
  split
  · rfl
  · simp only [Machine.output, List.reverse_cons, List.filterMap_append]
    exact congrArg sink.after (List.append_nil _)

end Sink

/-! ## Whole programs -/

/-- What is done while the log is open goes on alike, and leaves the machines as closing the log does. -/
theorem Run.Agree.closingLog {α : Type} {pre mid post : Machine → Machine → Prop} {excused : RunFailure → Prop}
    {r : Run α} (h : Run.Agree pre mid mid excused r r)
    (hclose : ∀ m₁ m₂, mid m₁ m₂ → post m₁.withLogClosed m₂.withLogClosed) :
    Run.Agree pre post post excused (Machine.closingLog r) (Machine.closingLog r) := by
  intro m₁ m₂ hm
  have hbody := h hm
  unfold Machine.closingLog
  generalize r m₁ = outcome₁ at hbody ⊢
  generalize r m₂ = outcome₂ at hbody ⊢
  cases hbody with
  | ok h => exact .ok (hclose _ _ h)
  | error h => exact .error (hclose _ _ h)
  | excused he => exact .excused he

namespace Coupling

variable {S : Nat → Machine → Machine → Prop} {inside : Nat → Prop} {excused : RunFailure → Prop} {k : Nat}

/-- What a run of a whole program only passes on. -/
def PassedOn : RunFailure → Prop
  | .error _ => False
  | .fault cause => cause ≠ .tooDeep
  | .unwritable _ => True

theorem agree_runAll (c : Coupling S inside excused) (hk : inside k) (hexcused : ∀ e, excused e → PassedOn e)
    (statements : List Node) :
    Run.Agree (S k) (S k) (S k) excused (Machine.runAll statements) (Machine.runAll statements) := by
  intro m₁ m₂ hm
  have hbody := (c.agree_withLevels maxLevels).executeAll hk statements hm
  change SameOutcome _ _ _ (Machine.executeAll statements m₁) (Machine.executeAll statements m₂) at hbody
  rw [Machine.runAll_eq]
  unfold Run.thenBy
  generalize Machine.executeAll statements m₁ = outcome₁ at hbody ⊢
  generalize Machine.executeAll statements m₂ = outcome₂ at hbody ⊢
  cases hbody with
  | ok h => exact ((c.note .finished).bind fun _ => .pure _) h
  | @error failure _ _ h =>
    rcases Machine.endedBy_failure failure with ⟨e, rfl⟩ | rfl | ⟨-, -, hpassed⟩
    · exact ((c.note (.stopped e)).bind fun _ => .throw _) h
    · exact ((c.note .stoppedTooDeep).bind fun _ => .throw _) h
    · simp only [hpassed]
      exact .error h
  | @excused failure _ _ he =>
    rcases Machine.endedBy_failure failure with ⟨e, rfl⟩ | rfl | ⟨-, -, hpassed⟩
    · exact (hexcused _ he).elim
    · exact absurd rfl (hexcused _ he)
    · simp only [hpassed]
      exact .excused he

/-- **A program runs on both machines alike**, if closing the log keeps them together too. -/
theorem agree_run (c : Coupling S inside excused) (hk : inside k) (hexcused : ∀ e, excused e → PassedOn e)
    (hclose : ∀ m₁ m₂, S k m₁ m₂ → S k m₁.withLogClosed m₂.withLogClosed) (program : Node) :
    Run.Agree (S k) (S k) (S k) excused (Machine.run program) (Machine.run program) := by
  unfold Machine.run
  cases program.statements? with
  | none => exact .throw _
  | some statements =>
    exact (c.note _).bind fun _ => (c.agree_runAll hk hexcused statements).closingLog hclose

end Coupling

/-! ## Different pasts -/

/-- **Two machines that have done the same** since the one had emitted `past₁` and the other `past₂`. Without
    verbosity only values have been emitted since. -/
structure Resumed (verbosity : Nat) (past₁ past₂ : List Emission) (m₁ m₂ : Machine) : Prop where
  scope : m₁.scope = m₂.scope
  verbosity₁ : m₁.verbosity = verbosity
  verbosity₂ : m₂.verbosity = verbosity
  console : m₁.console = m₂.console
  logOpen : m₁.logOpen = m₂.logOpen
  notes : m₁.notes = m₂.notes
  emissions : ∃ new, m₁.emissions = new ++ past₁ ∧ m₂.emissions = new ++ past₂ ∧
    (verbosity = 0 → ∀ emission ∈ new, ∃ v, emission = .value v)

namespace Resumed

variable {verbosity : Nat} {past₁ past₂ : List Emission} {m₁ m₂ : Machine}

/-- One more emission on both. -/
theorem emitted (h : Resumed verbosity past₁ past₂ m₁ m₂) {emission : Emission}
    (hvalue : verbosity = 0 → ∃ v, emission = .value v) :
    Resumed verbosity past₁ past₂ { m₁ with emissions := emission :: m₁.emissions }
      { m₂ with emissions := emission :: m₂.emissions } := by
  obtain ⟨new, h₁, h₂, hvalues⟩ := h.emissions
  exact { h with emissions := ⟨emission :: new, congrArg (emission :: ·) h₁, congrArg (emission :: ·) h₂,
    fun hquiet => List.forall_mem_cons.mpr ⟨hvalue hquiet, hvalues hquiet⟩⟩ }

theorem withScope (h : Resumed verbosity past₁ past₂ m₁ m₂) (change : Scope → Scope) :
    Resumed verbosity past₁ past₂ { m₁ with scope := change m₁.scope } { m₂ with scope := change m₂.scope } :=
  { h with scope := congrArg change h.scope }

theorem noted (h : Resumed verbosity past₁ past₂ m₁ m₂) {n : Note} (htaken : n.level ≤ verbosity) :
    Resumed verbosity past₁ past₂ (m₁.noted n) (m₂.noted n) := by
  unfold Machine.noted
  by_cases hlog : m₂.logOpen = true
  · rw [if_pos (h.logOpen.trans hlog), if_pos hlog]
    exact { h with notes := congrArg (n :: ·) h.notes }
  · have hlog₁ : ¬ m₁.logOpen = true := h.logOpen ▸ hlog
    rw [if_neg hlog₁, if_neg hlog]
    refine h.emitted fun hquiet => ?_
    have hlevel := n.level_pos
    omega

theorem verbosity_eq (h : Resumed verbosity past₁ past₂ m₁ m₂) : m₁.verbosity = m₂.verbosity :=
  h.verbosity₁.trans h.verbosity₂.symm

theorem agree_note (excused : RunFailure → Prop) (n : Note) :
    Run.Agree (Resumed verbosity past₁ past₂) (Resumed verbosity past₁ past₂) (Resumed verbosity past₁ past₂) excused
      (note n) (note n) :=
  .note (fun _ _ h => h.verbosity_eq) (fun _ _ h => h.logOpen) (fun _ _ h => h.console)
    (fun _ _ _ h htaken => h.noted (h.verbosity₁ ▸ htaken)) n

theorem agree_checkCalls (excused : RunFailure → Prop) (name : Value) :
    Run.Agree (Resumed verbosity past₁ past₂) (Resumed verbosity past₁ past₂) (Resumed verbosity past₁ past₂) excused
      (checkCalls name) (checkCalls name) := by
  intro m₁ m₂ h
  rw [checkCalls_eq, checkCalls_eq, h.scope]
  split
  · exact .error h
  · exact .ok h

end Resumed

/-- **The past does not matter** to any step. -/
theorem coupling_resumed (verbosity : Nat) (past₁ past₂ : List Emission) (excused : RunFailure → Prop) :
    Coupling (fun _ => Resumed verbosity past₁ past₂) (fun _ => True) excused where
  inside_succ _ := trivial
  lookup _ h key := by rw [h.scope]
  function h key := by rw [h.scope]
  assign _ h key v := h.withScope (·.assign key v)
  declare _ h key v := h.withScope (·.declare key v)
  define _ h key function := h.withScope (·.define key function)
  print _ v := .print (fun _ _ h => h.console) fun _ _ h => h.emitted fun _ => ⟨v, rfl⟩
  note := Resumed.agree_note excused
  noteDefined _ := .noteDefined (fun _ _ h => h.verbosity_eq) (Resumed.agree_note excused)
  checkCalls := Resumed.agree_checkCalls excused
  enter h _ frame := h.withScope (·.enter frame)
  leave h := h.withScope Scope.leave

/-- **A run after any past**: with the same value or the same error, in the same state, and the same emissions on
    top. -/
theorem run_resumed (program : Node) (m : Machine) (past : List Emission) :
    SameOutcome (Resumed m.verbosity m.emissions past) (Resumed m.verbosity m.emissions past) (fun _ => False)
      (Machine.run program m) (Machine.run program { m with emissions := past }) := by
  have hclose : ∀ m₁ m₂, Resumed m.verbosity m.emissions past m₁ m₂ →
      Resumed m.verbosity m.emissions past m₁.withLogClosed m₂.withLogClosed := by
    intro m₁ m₂ h
    exact { h with logOpen := rfl }
  have hcoupling := coupling_resumed m.verbosity m.emissions past fun _ => False
  have hstart : Resumed m.verbosity m.emissions past m { m with emissions := past } :=
    ⟨rfl, rfl, rfl, rfl, rfl, rfl, [], rfl, rfl, fun _ => List.forall_mem_nil _⟩
  exact hcoupling.agree_run (k := 0) trivial (fun _ => False.elim) hclose program hstart

/-! ## Quiet machines -/

/-- Emissions that are values are known by the values. -/
theorem emissions_eq_of_values {new : List Emission} (h : ∀ emission ∈ new, ∃ v, emission = .value v) :
    new = (new.filterMap Emission.value?).map .value := by
  induction new with
  | nil => rfl
  | cons emission rest ih =>
    obtain ⟨⟨v, rfl⟩, hrest⟩ := List.forall_mem_cons.mp h
    exact congrArg (Emission.value v :: ·) (ih hrest)

/-- **Two machines that have printed the same values**, the one in all and the other since a past of its own. -/
def Printed (past : List Emission) (m₁ m₂ : Machine) : Prop :=
  m₁.emissions = (m₁.output.map .value).reverse ∧ m₂.emissions = (m₁.output.map .value).reverse ++ past

theorem Resumed.printed {past : List Emission} {m₁ m₂ : Machine} (h : Resumed 0 [] past m₁ m₂) :
    Printed past m₁ m₂ := by
  obtain ⟨new, h₁, h₂, hvalues⟩ := h.emissions
  rw [List.append_nil] at h₁
  have hnew : new = (m₁.output.map .value).reverse := by
    rw [Machine.output, h₁, ← List.map_reverse, ← List.filterMap_reverse, List.reverse_reverse]
    exact emissions_eq_of_values (hvalues rfl)
  exact ⟨h₁.trans hnew, by rw [h₂, hnew]⟩

/-- **A run without notes** comes to the same end after any past, and prints the same values on top of it. -/
theorem run_printed (program : Node) (past : List Emission) :
    SameOutcome (Printed past) (Printed past) (fun _ => False) (Machine.run program (.start 0))
      (Machine.run program { Machine.start 0 with emissions := past }) := by
  have houtcome := run_resumed program (.start 0) past
  generalize Machine.run program (.start 0) = outcome₁ at houtcome ⊢
  generalize Machine.run program _ = outcome₂ at houtcome ⊢
  cases houtcome with
  | ok h => exact .ok h.printed
  | error h => exact .error h.printed
  | excused he => exact he.elim

/-- The console shows the printed values. -/
theorem Printed.consoleLines_eq {past : List Emission} {m₁ m₂ : Machine} (h : Printed past m₁ m₂) :
    m₁.consoleLines = m₁.output.map Value.display := by
  rw [Machine.consoleLines, h.1, List.reverse_reverse, List.map_map]
  rfl

end LineaLang
