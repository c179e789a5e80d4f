import LineaLang.Proofs.Machine.Ending
import LineaLang.Proofs.Machine.Invariant

/-!
# `LineaLang.Proofs.Machine.Frames` — the discipline of frames

A call opens one frame and closes it again, however it ends; so at the end of any part of a run the frames are
as many as before, those below the innermost are untouched, and no name is lost anywhere. A call is refused
where `maxCalls` frames are open, so there are never more, and between the runs of programs there is none.

## Contents

* `Scope.Keeps` — what a scope keeps of an earlier one.
* `Scope.below` — a scope without the frames of the calls that were opened last.
* `scopeInvariant_keeps`, `scopeInvariant_depth` — the two invariants.
* `Machine.AfterRuns`, `Machine.Reached` — machines between runs and during runs.
* `frames_disciplined` — all of it together.
-/

namespace LineaLang

/-! ## Tables -/

namespace Table

variable {α : Type}

/-- Nothing is removed from a table by an insertion. -/
theorem contains_insert {t : Table α} {key other : Key} {a : α} (h : t.contains other = true) :
    (t.insert key a).contains other = true := by
  unfold contains at h ⊢
  by_cases hk : other = key
  · rw [hk, find?_insert_self]
    rfl
  · rw [find?_insert_of_ne hk]
    exact h

end Table

/-! ## Scopes -/

namespace Scope

/-- **What a scope keeps of an earlier one**: as many frames, those below the innermost unchanged, and every
    name that was bound. -/
structure Keeps (before after : Scope) : Prop where
  depth : after.frames.length = before.frames.length
  outer : after.frames.tail = before.frames.tail
  globals : ∀ key, before.globals.contains key = true → after.globals.contains key = true
  functions : ∀ key, before.functions.contains key = true → after.functions.contains key = true
  innermost : ∀ key, before.isLocal key = true → after.isLocal key = true

theorem Keeps.refl (s : Scope) : s.Keeps s := ⟨rfl, rfl, fun _ => id, fun _ => id, fun _ => id⟩

theorem Keeps.trans {a b c : Scope} (hab : a.Keeps b) (hbc : b.Keeps c) : a.Keeps c where
  depth := hbc.depth.trans hab.depth
  outer := hbc.outer.trans hab.outer
  globals key h := hbc.globals key (hab.globals key h)
  functions key h := hbc.functions key (hab.functions key h)
  innermost key h := hbc.innermost key (hab.innermost key h)

theorem keeps_setGlobal (s : Scope) (key : Key) (v : Value) : s.Keeps (s.setGlobal key v) :=
  { Keeps.refl s with globals := fun _ h => Table.contains_insert h }

theorem keeps_define (s : Scope) (key : Key) (function : Node) : s.Keeps (s.define key function) :=
  { Keeps.refl s with functions := fun _ h => Table.contains_insert h }

theorem keeps_setLocal (s : Scope) (key : Key) (v : Value) : s.Keeps (s.setLocal key v) := by
  obtain ⟨globals, functions, frames⟩ := s
  cases frames with
  | nil => exact .refl _
  | cons frame outer =>
    exact { Keeps.refl _ with depth := rfl, outer := rfl, innermost := fun _ h => Table.contains_insert h }

/-- **A scope without the frames of the last `k` calls.** -/
def below (s : Scope) (k : Nat) : Scope := { s with frames := s.frames.drop k }

/-- A local that belongs to a later call is out of sight. -/
theorem below_setLocal (s : Scope) (k : Nat) (key : Key) (v : Value) :
    (s.setLocal key v).below (k + 1) = s.below (k + 1) := by
  obtain ⟨globals, functions, frames⟩ := s
  cases frames <;> rfl

theorem keeps_below_setLocal (s : Scope) (k : Nat) (key : Key) (v : Value) :
    (s.below k).Keeps ((s.setLocal key v).below k) := by
  cases k with
  | zero => exact keeps_setLocal s key v
  | succ k =>
    rw [below_setLocal]
    exact .refl _

theorem keeps_below_assign (s : Scope) (k : Nat) (key : Key) (v : Value) :
    (s.below k).Keeps ((s.assign key v).below k) := by
  unfold assign
  split
  · exact s.keeps_below_setLocal k key v
  · exact (s.below k).keeps_setGlobal key v

theorem keeps_below_declare (s : Scope) (k : Nat) (key : Key) (v : Value) :
    (s.below k).Keeps ((s.declare key v).below k) := by
  unfold declare
  split
  · exact (s.below k).keeps_setGlobal key v
  · exact s.keeps_below_setLocal k key v

theorem below_leave (s : Scope) (k : Nat) : s.leave.below k = s.below (k + 1) := by
  obtain ⟨globals, functions, frames⟩ := s
  cases frames with
  | nil => cases k <;> rfl
  | cons frame outer => rfl

end Scope

/-! ## Invariants -/

open Meaning

/-- **Without the frames of the calls opened since, a scope keeps what it was.** -/
theorem scopeInvariant_keeps (start : Scope) : ScopeInvariant fun k s => start.Keeps (s.below k) where
  assign {k s} h key v := h.trans (s.keeps_below_assign k key v)
  declare {k s} h key v := h.trans (s.keeps_below_declare k key v)
  define {k s} h key function := h.trans ((s.below k).keeps_define key function)
  enter h _ frame := h
  leave {k s} h := by
    rw [Scope.below_leave]
    exact h

/-- No step but the opening of a call makes more frames, and a call is refused where there are enough. -/
theorem scopeInvariant_depth : ScopeInvariant fun _ s => s.depth ≤ maxCalls where
  assign {_ s} h key v := Nat.le_trans (Nat.le_of_eq (s.keeps_below_assign 0 key v).depth) h
  declare {_ s} h key v := Nat.le_trans (Nat.le_of_eq (s.keeps_below_declare 0 key v).depth) h
  define h key function := h
  enter _ hroom frame := Nat.succ_le_of_lt hroom
  leave {_ s} h := by
    have hle : s.leave.depth ≤ s.depth := by
      simp only [Scope.depth, Scope.leave, List.length_tail]
      exact Nat.sub_le _ _
    exact Nat.le_trans hle h

/-- **A meaning that keeps scopes**: whatever the tree and the machine, and however the run ends. -/
structure Meaning.KeepsScopes (M : Meaning) : Prop where
  evaluate : ∀ expr (m : Machine), m.scope.Keeps ((M.evaluate expr).left m).scope
  evaluateAll : ∀ exprs (m : Machine), m.scope.Keeps ((M.evaluateAll exprs).left m).scope
  execute : ∀ statement (m : Machine), m.scope.Keeps ((M.execute statement).left m).scope
  executeAll : ∀ statements (m : Machine), m.scope.Keeps ((M.executeAll statements).left m).scope
  loop : ∀ condition body (m : Machine), m.scope.Keeps ((M.loop condition body).left m).scope
  call : ∀ name args (m : Machine), m.scope.Keeps ((M.call name args).left m).scope

/-- **The discipline of frames**, on every level. -/
theorem keepsScopes_withLevels (levels : Nat) : (withLevels levels).KeepsScopes where
  evaluate expr m := ((scopeInvariant_keeps m.scope).preserves levels 0).1 expr m (.refl _)
  evaluateAll exprs m := ((scopeInvariant_keeps m.scope).preserves levels 0).2.1 exprs m (.refl _)
  execute statement m := ((scopeInvariant_keeps m.scope).preserves levels 0).2.2.1 statement m (.refl _)
  executeAll statements m := ((scopeInvariant_keeps m.scope).preserves levels 0).2.2.2.1 statements m (.refl _)
  loop condition body m := ((scopeInvariant_keeps m.scope).preserves levels 0).2.2.2.2.1 condition body m (.refl _)
  call name args m := ((scopeInvariant_keeps m.scope).preserves levels 0).2.2.2.2.2 name args m (.refl _)

/-! ## Runs of programs -/

namespace Machine

/-- **The machines between runs**: a new one, and what the runs of programs make of it one after the other,
    however they end. -/
inductive AfterRuns (verbosity : Nat) : Machine → Prop where
  | start : AfterRuns verbosity (.start verbosity)
  | next {m : Machine} (h : AfterRuns verbosity m) (program : Node) :
      AfterRuns verbosity ((Machine.run program).left m)

/-- **The machines during runs**: those where the execution of a program's statements comes by, once the
    start of the run has been noted. -/
def Reached (verbosity : Nat) (s : Machine) : Prop :=
  ∃ (m started : Machine) (program : Node) (statements : List Node),
    AfterRuns verbosity m ∧ program.statements? = some statements ∧
    Run.note (.started statements.length) m = .ok () started ∧ Reaches statements started s

theorem preserves_closingLog {α : Type} {Q : Scope → Prop} {body : Run α} (h : Run.Preserves Q body) :
    Run.Preserves Q (closingLog body) := by
  intro m hm
  have hbody := h m hm
  unfold Run.left at hbody ⊢
  unfold closingLog
  cases hr : body m with
  | ok a m' =>
    rw [hr] at hbody
    exact hbody
  | error e m' =>
    rw [hr] at hbody
    exact hbody

/-- The notes around the statements of a program change nothing. -/
theorem preserves_runAll {Q : Scope → Prop} {statements : List Node}
    (h : Run.Preserves Q (executeAll statements)) : Run.Preserves Q (runAll statements) := by
  intro m hm
  have hbody := h m hm
  rw [runAll_eq]
  unfold Run.left at hbody
  unfold Run.left Run.thenBy
  generalize executeAll statements m = outcome at hbody ⊢
  cases outcome with
  | ok signal m' => exact (Run.Preserves.note .finished).bind (fun _ => .pure signal.value) m' hbody
  | error failure m' =>
    rcases endedBy_failure failure with ⟨e, rfl⟩ | rfl | ⟨-, -, hpassed⟩
    · exact (Run.Preserves.note (.stopped e)).bind (fun _ => .throw _) m' hbody
    · exact (Run.Preserves.note .stoppedTooDeep).bind (fun _ => .throw _) m' hbody
    · simp only [hpassed]
      exact hbody

/-- The run of a program keeps the frames as any part of it does. -/
theorem preserves_run (start : Scope) (program : Node) :
    Run.Preserves (fun s => start.Keeps s) (Machine.run program) := by
  unfold Machine.run
  cases program.statements? with
  | none => exact .throw _
  | some statements =>
    refine (Run.Preserves.note _).bind fun _ => preserves_closingLog (preserves_runAll ?_)
    exact ((scopeInvariant_keeps start).preserves maxLevels 0).2.2.2.1 statements

theorem frames_of_afterRuns {verbosity : Nat} {m : Machine} (h : AfterRuns verbosity m) :
    m.scope.frames = [] := by
  induction h with
  | start => rfl
  | @next m _ program ih =>
    have hkeeps := preserves_run m.scope program m (.refl _)
    exact List.length_eq_zero_iff.mp (hkeeps.depth.trans (congrArg List.length ih))

/-- A run comes by the machine on which its statements start, and by the one that they leave. -/
theorem reached_ends {verbosity : Nat} {m started : Machine} {program : Node} {statements : List Node}
    (hm : AfterRuns verbosity m) (hprogram : program.statements? = some statements)
    (hnote : Run.note (.started statements.length) m = .ok () started) :
    Reached verbosity started ∧ Reached verbosity ((executeAll statements).left started) :=
  ⟨⟨m, started, program, statements, hm, hprogram, hnote, reaches_of_eq (.inl rfl)⟩,
    ⟨m, started, program, statements, hm, hprogram, hnote, reaches_of_eq (.inr rfl)⟩⟩

/-- **There is never a frame too many.** -/
theorem depth_of_reached {verbosity : Nat} {s : Machine} (h : Reached verbosity s) :
    s.scope.depth ≤ maxCalls := by
  obtain ⟨m, started, program, statements, hm, -, hnote, hs⟩ := h
  have hstart : started.scope.depth ≤ maxCalls := by
    rw [Run.scope_of_note hnote, Scope.depth, frames_of_afterRuns hm]
    exact Nat.zero_le _
  obtain ⟨_, hdepth⟩ := scopeInvariant_depth.of_reaches (k := 0) hstart hs
  exact hdepth

end Machine

/-- **The frame of a call is there to be closed**, however its body ends, and then the frames are those of
    before the call. -/
theorem leave?_after_body (levels : Nat) (body : Node) (frame : Table Value) (m : Machine) :
    ∃ s, (((withLevels levels).execute body).left
        { m with scope := m.scope.enter frame }).scope.leave? = .ok s ∧
      s.frames = m.scope.frames := by
  have hkeeps := (keepsScopes_withLevels levels).execute body { m with scope := m.scope.enter frame }
  refine ⟨_, if_neg fun hempty => ?_, hkeeps.outer⟩
  have hlength := hkeeps.depth
  rw [List.isEmpty_iff.mp hempty] at hlength
  exact absurd hlength (Nat.succ_ne_zero _).symm

/-- **The discipline of frames.** However any part of a run ends, its scope keeps what it was; the frame that a
    call closes is there; between the runs of programs no frame is open, and during them there are never more
    than `maxCalls`. -/
theorem frames_disciplined :
    (∀ levels, (withLevels levels).KeepsScopes) ∧
    (∀ levels body frame (m : Machine), ∃ s,
      (((withLevels levels).execute body).left
        { m with scope := m.scope.enter frame }).scope.leave? = .ok s ∧ s.frames = m.scope.frames) ∧
    (∀ verbosity m, Machine.AfterRuns verbosity m → m.scope.frames = []) ∧
    (∀ verbosity s, Machine.Reached verbosity s → s.scope.depth ≤ maxCalls) :=
  ⟨keepsScopes_withLevels, leave?_after_body, fun _ _ => Machine.frames_of_afterRuns,
    fun _ _ => Machine.depth_of_reached⟩

end LineaLang
