import LineaLang.Proofs.Machine.Coupling

/-!
# `LineaLang.Proofs.Machine.Isolation` — a call does not see its callers

Two machines with the same globals and functions may have any frames open. A call goes the same way on both:
it only works on frames that it has opened itself, and these are the same on both. The one thing that can be
seen of the other frames is how many there are, when there is no room for one more call; where fewer are open
there is room for longer.

## Contents

* `RunFailure.IsRecursionLimit` — too many calls are open.
* `Paired` — two machines that have done the same since two others.
* `coupling_paired` — the same steps on both keep them paired.
* `call_isolated` — calls on two machines that differ in their frames.
-/

namespace LineaLang

open Run Meaning

/-- **The error of a run with too many calls open.** -/
def RunFailure.IsRecursionLimit : RunFailure → Prop
  | .error e => e.category = "RecursionLimitExceeded"
  | _ => False

/-- **Two machines that have done the same** since they were `o₁` and `o₂`: they have opened the same frames, and
    `k` of them are open, they have printed and noted the same, and they know the same globals and functions. -/
structure Paired (o₁ o₂ : Machine) (k : Nat) (m₁ m₂ : Machine) : Prop where
  globals : m₁.scope.globals = m₂.scope.globals
  functions : m₁.scope.functions = m₂.scope.functions
  frames : ∃ opened, opened.length = k ∧ m₁.scope.frames = opened ++ o₁.scope.frames ∧
    m₂.scope.frames = opened ++ o₂.scope.frames
  verbosity : m₁.verbosity = m₂.verbosity
  console : m₁.console = m₂.console
  logOpen : m₁.logOpen = m₂.logOpen
  emissions : ∃ new, m₁.emissions = new ++ o₁.emissions ∧ m₂.emissions = new ++ o₂.emissions
  notes : ∃ new, m₁.notes = new ++ o₁.notes ∧ m₂.notes = new ++ o₂.notes

namespace Paired

variable {o₁ o₂ m₁ m₂ : Machine} {k : Nat}

/-- The innermost frame is the same, once one has been opened. -/
theorem frames_cons (h : Paired o₁ o₂ (k + 1) m₁ m₂) :
    ∃ frame opened, opened.length = k ∧ m₁.scope.frames = frame :: (opened ++ o₁.scope.frames) ∧
      m₂.scope.frames = frame :: (opened ++ o₂.scope.frames) := by
  obtain ⟨opened, hlength, h₁, h₂⟩ := h.frames
  cases opened with
  | nil => cases hlength
  | cons frame opened => exact ⟨frame, opened, Nat.succ.inj hlength, h₁, h₂⟩

theorem lookup (h : Paired o₁ o₂ (k + 1) m₁ m₂) (key : Key) :
    m₁.scope.lookup? key = m₂.scope.lookup? key := by
  obtain ⟨frame, opened, -, h₁, h₂⟩ := h.frames_cons
  simp only [Scope.lookup?, Scope.local?, h₁, h₂, h.globals, List.head?_cons]

theorem setLocal (h : Paired o₁ o₂ (k + 1) m₁ m₂) (key : Key) (v : Value) :
    Paired o₁ o₂ (k + 1) { m₁ with scope := m₁.scope.setLocal key v }
      { m₂ with scope := m₂.scope.setLocal key v } := by
  obtain ⟨frame, opened, hlength, h₁, h₂⟩ := h.frames_cons
  have hs₁ : m₁.scope.setLocal key v =
      { m₁.scope with frames := frame.insert key v :: (opened ++ o₁.scope.frames) } := by
    rw [Scope.setLocal, h₁]
  have hs₂ : m₂.scope.setLocal key v =
      { m₂.scope with frames := frame.insert key v :: (opened ++ o₂.scope.frames) } := by
    rw [Scope.setLocal, h₂]
  rw [hs₁, hs₂]
  exact { h with frames := ⟨frame.insert key v :: opened, by rw [List.length_cons, hlength], rfl, rfl⟩ }

theorem setGlobal (h : Paired o₁ o₂ k m₁ m₂) (key : Key) (v : Value) :
    Paired o₁ o₂ k { m₁ with scope := m₁.scope.setGlobal key v }
      { m₂ with scope := m₂.scope.setGlobal key v } :=
  { h with globals := congrArg (·.insert key v) h.globals }

theorem isLocal (h : Paired o₁ o₂ (k + 1) m₁ m₂) (key : Key) :
    m₁.scope.isLocal key = m₂.scope.isLocal key := by
  obtain ⟨frame, opened, -, h₁, h₂⟩ := h.frames_cons
  rw [Scope.isLocal, Scope.isLocal, h₁, h₂]

theorem assign (h : Paired o₁ o₂ (k + 1) m₁ m₂) (key : Key) (v : Value) :
    Paired o₁ o₂ (k + 1) { m₁ with scope := m₁.scope.assign key v }
      { m₂ with scope := m₂.scope.assign key v } := by
  unfold Scope.assign
  rw [h.isLocal key]
  split
  · exact h.setLocal key v
  · exact h.setGlobal key v

theorem declare (h : Paired o₁ o₂ (k + 1) m₁ m₂) (key : Key) (v : Value) :
    Paired o₁ o₂ (k + 1) { m₁ with scope := m₁.scope.declare key v }
      { m₂ with scope := m₂.scope.declare key v } := by
  obtain ⟨frame, opened, -, h₁, h₂⟩ := h.frames_cons
  simp only [Scope.declare, h₁, h₂, List.isEmpty_cons, Bool.false_eq_true, if_false]
  exact h.setLocal key v

theorem noted (h : Paired o₁ o₂ k m₁ m₂) (n : Note) : Paired o₁ o₂ k (m₁.noted n) (m₂.noted n) := by
  unfold Machine.noted
  by_cases hlog : m₂.logOpen = true
  · rw [if_pos (h.logOpen.trans hlog), if_pos hlog]
    obtain ⟨new, h₁, h₂⟩ := h.notes
    exact { h with notes := ⟨n :: new, congrArg (n :: ·) h₁, congrArg (n :: ·) h₂⟩ }
  · have hlog₁ : ¬ m₁.logOpen = true := h.logOpen ▸ hlog
    rw [if_neg hlog₁, if_neg hlog]
    obtain ⟨new, h₁, h₂⟩ := h.emissions
    exact { h with emissions :=
      ⟨Emission.note n :: new, congrArg (Emission.note n :: ·) h₁, congrArg (Emission.note n :: ·) h₂⟩ }

theorem printed (h : Paired o₁ o₂ k m₁ m₂) (v : Value) : Paired o₁ o₂ k (m₁.printed v) (m₂.printed v) := by
  obtain ⟨new, h₁, h₂⟩ := h.emissions
  exact { h with emissions :=
    ⟨Emission.value v :: new, congrArg (Emission.value v :: ·) h₁, congrArg (Emission.value v :: ·) h₂⟩ }

theorem enter (h : Paired o₁ o₂ k m₁ m₂) (frame : Table Value) :
    Paired o₁ o₂ (k + 1) { m₁ with scope := m₁.scope.enter frame }
      { m₂ with scope := m₂.scope.enter frame } := by
  obtain ⟨opened, hlength, h₁, h₂⟩ := h.frames
  exact { h with frames := ⟨frame :: opened, congrArg Nat.succ hlength, congrArg (frame :: ·) h₁,
    congrArg (frame :: ·) h₂⟩ }

theorem leave (h : Paired o₁ o₂ (k + 1) m₁ m₂) :
    Paired o₁ o₂ k { m₁ with scope := m₁.scope.leave } { m₂ with scope := m₂.scope.leave } := by
  obtain ⟨frame, opened, hlength, h₁, h₂⟩ := h.frames_cons
  exact { h with frames := ⟨opened, hlength, congrArg List.tail h₁, congrArg List.tail h₂⟩ }

theorem agree_note (o₁ o₂ : Machine) (k : Nat) (excused : RunFailure → Prop) (n : Note) :
    Run.Agree (Paired o₁ o₂ k) (Paired o₁ o₂ k) (Paired o₁ o₂ k) excused (note n) (note n) :=
  .note (fun _ _ h => h.verbosity) (fun _ _ h => h.logOpen) (fun _ _ h => h.console) (fun n _ _ h _ => h.noted n) n

theorem agree_noteDefined (o₁ o₂ : Machine) (k : Nat) (excused : RunFailure → Prop) (name : Value)
    (params : List Value) :
    Run.Agree (Paired o₁ o₂ k) (Paired o₁ o₂ k) (Paired o₁ o₂ k) excused (noteDefined name params)
      (noteDefined name params) :=
  .noteDefined (fun _ _ h => h.verbosity) (agree_note o₁ o₂ k excused) name params

/-- On paired machines as many frames are open as on the first ones, and `k` more. -/
theorem depth (h : Paired o₁ o₂ k m₁ m₂) :
    m₁.scope.depth = k + o₁.scope.depth ∧ m₂.scope.depth = k + o₂.scope.depth := by
  obtain ⟨opened, rfl, h₁, h₂⟩ := h.frames
  simp [Scope.depth, h₁, h₂]

end Paired

/-- **The same steps keep two machines paired**, as long as there is room for the same calls. Where more frames
    are open on the first there may be no room for a call that the second can still make; this is excused. -/
theorem coupling_paired {o₁ o₂ : Machine} (excused : RunFailure → Prop)
    (hdepth : o₂.scope.depth ≤ o₁.scope.depth)
    (hexcused : o₂.scope.depth = o₁.scope.depth ∨ ∀ e, e.IsRecursionLimit → excused e) :
    Coupling (Paired o₁ o₂) (0 < ·) excused where
  inside_succ := Nat.succ_pos
  lookup {k _ _} hk h := by
    obtain ⟨k, rfl⟩ := Nat.exists_eq_succ_of_ne_zero (Nat.pos_iff_ne_zero.mp hk)
    exact h.lookup
  function h key := by rw [h.functions]
  assign {k _ _} hk h := by
    obtain ⟨k, rfl⟩ := Nat.exists_eq_succ_of_ne_zero (Nat.pos_iff_ne_zero.mp hk)
    exact h.assign
  declare {k _ _} hk h := by
    obtain ⟨k, rfl⟩ := Nat.exists_eq_succ_of_ne_zero (Nat.pos_iff_ne_zero.mp hk)
    exact h.declare
  define _ h key function := { h with functions := congrArg (·.insert key function) h.functions }
  print _ v := .print (fun _ _ h => h.console) fun _ _ h => h.printed v
  note n := Paired.agree_note o₁ o₂ _ _ n
  noteDefined _ name params := Paired.agree_noteDefined o₁ o₂ _ _ name params
  checkCalls name := by
    intro m₁ m₂ h
    obtain ⟨h₁, h₂⟩ := h.depth
    rw [checkCalls_eq, checkCalls_eq]
    -- The first has no more room than the second, so it is full first; just that is excused.
    by_cases hfull : maxCalls ≤ m₁.scope.depth
    · rw [if_pos hfull]
      rcases hexcused with hsame | hexcused
      · rw [if_pos (by omega)]
        exact .error h
      · exact .excused (hexcused _ rfl)
    · rw [if_neg hfull, if_neg (by omega)]
      exact .ok h
  enter h _ frame := h.enter frame
  leave h := h.leave

/-- **A call does not see its callers.** On two machines with the same globals and functions, whatever frames
    are open, a call gives the same value or the same error, prints and notes the same, leaves the same globals
    and functions, and the frames as they were; unless it finds too many calls open on the first machine, where
    more are open than on the second. -/
theorem call_isolated (m₁ m₂ : Machine) (hglobals : m₁.scope.globals = m₂.scope.globals)
    (hfunctions : m₁.scope.functions = m₂.scope.functions) (hverbosity : m₁.verbosity = m₂.verbosity)
    (hconsole : m₁.console = m₂.console) (hlog : m₁.logOpen = m₂.logOpen)
    (hdepth : m₂.scope.depth ≤ m₁.scope.depth) (name : Value) (args : List Value)
    (hlimit : m₂.scope.depth = m₁.scope.depth ∨
      ∀ e m, Machine.call name args m₁ = .error e m → ¬ e.IsRecursionLimit) :
    SameOutcome (Paired m₁ m₂ 0) (Paired m₁ m₂ 0) (fun _ => False) (Machine.call name args m₁)
      (Machine.call name args m₂) := by
  have hstart : Paired m₁ m₂ 0 m₁ m₂ :=
    ⟨hglobals, hfunctions, ⟨[], rfl, rfl, rfl⟩, hverbosity, hconsole, hlog, ⟨[], rfl, rfl⟩, ⟨[], rfl, rfl⟩⟩
  -- With as many frames on both nothing is excused. Otherwise the error of the limit is, at every step, and
  -- the hypothesis says that the call as a whole does not end in it.
  rcases hlimit with hsame | hlimit
  · have hagree := (coupling_paired (fun _ => False) hdepth (.inl hsame)).agree_withLevels maxLevels
    exact hagree.call name args hstart
  · have hagree := (coupling_paired RunFailure.IsRecursionLimit hdepth (.inr fun _ => id)).agree_withLevels maxLevels
    have houtcome := hagree.call name args hstart
    change SameOutcome _ _ _ (Machine.call name args m₁) (Machine.call name args m₂) at houtcome
    generalize Machine.call name args m₁ = first at houtcome hlimit ⊢
    generalize Machine.call name args m₂ = second at houtcome ⊢
    cases houtcome with
    | ok h => exact .ok h
    | error h => exact .error h
    | excused he => exact absurd he (hlimit _ _ rfl)

/-- A machine with a global `x` and a function that returns `x`. -/
def returningGlobal (frames : List (Table Value)) : Machine :=
  { Machine.start 0 with
    scope :=
      { globals := .ofPairs [(.str "x", .int 7)]
        functions := .ofPairs [(.str "f", .function (.str "f") [] (.block [.ret (.ident (.str "x"))]))]
        frames := frames } }

/-- The same with a call open that has a local `x`. -/
def underCaller : Machine := returningGlobal [.ofPairs [(.str "x", .int 1)]]

/-- **A local of the caller does not hide a global** from the function that is called. -/
theorem call_isolated_from_local :
    Machine.call (.str "f") [] underCaller = .ok (.int 7) underCaller ∧
    SameOutcome (Paired underCaller (returningGlobal []) 0) (Paired underCaller (returningGlobal []) 0)
      (fun _ => False) (Machine.call (.str "f") [] underCaller)
      (Machine.call (.str "f") [] (returningGlobal [])) := by
  have hcall : Machine.call (.str "f") [] underCaller = .ok (.int 7) underCaller := rfl
  refine ⟨hcall, call_isolated underCaller (returningGlobal []) rfl rfl rfl rfl rfl (Nat.zero_le 1) _ _
    (.inr fun e m herror => ?_)⟩
  rw [hcall] at herror
  cases herror

end LineaLang
