import LineaLang.Proofs.Calculation.Congruence
import LineaLang.Proofs.Machine.Coupling
import LineaLang.Proofs.Tree.Rewriting

/-!
# `LineaLang.Proofs.Machine.Matching` — machines that run trees of different kinds

Two machines match if they show the same, although they run different trees. Their variables have values that are
alike, their functions have bodies of which one is rewritten from the other, and whatever they have printed or noted
reads the same.

A run simulates another if from matching machines both come to the same, on machines that match again. There is one
exception, for errors that are excused: a rewritten tree may be the deeper one and run out of levels. Then the second
run is over while the first one goes on, and what the second has shown is the beginning of what the first one shows.
Every step of a machine simulates itself, where the values that go into it are alike.

## Contents

* `Table.Matched`, `Scope.Matched`, `Machine.Matched` — tables, scopes and machines that match.
* `Machine.shown` — the texts that have been printed.
* `Matching`, `Run.Simulates` — outcomes that match, and runs whose outcomes do.
* `Run.Simulates.bind`, `Run.simulates_note` and the others — the steps of a machine.
-/

namespace LineaLang

/-! ## Tables -/

namespace Table

variable {α : Type} {R : α → α → Prop} {t t' : Table α}

/-- **Tables with the same keys** and related values at each. -/
def Matched (R : α → α → Prop) (t t' : Table α) : Prop :=
  ∀ key, Option.Rel R (t.find? key) (t'.find? key)

theorem matched_empty : Matched R (empty : Table α) empty := fun _ => .none

theorem Matched.insert (h : Matched R t t') (key : Key) {a a' : α} (ha : R a a') :
    Matched R (t.insert key a) (t'.insert key a') := by
  intro other
  by_cases heq : other = key
  · rw [heq, find?_insert_self, find?_insert_self]
    exact .some ha
  · rw [find?_insert_of_ne heq, find?_insert_of_ne heq]
    exact h other

theorem Matched.contains (h : Matched R t t') (key : Key) : t.contains key = t'.contains key := by
  have hkey := h key
  unfold Table.contains
  generalize t.find? key = found at hkey
  generalize t'.find? key = found' at hkey
  cases hkey <;> rfl

/-- Keys with values that are related. -/
theorem matched_ofPairs (keys : List Key) {values values' : List α} (h : List.Forall₂ R values values') :
    Matched R (ofPairs (keys.zip values)) (ofPairs (keys.zip values')) := by
  have hfold : ∀ {t t' : Table α}, Matched R t t' →
      Matched R ((keys.zip values).foldl (fun t entry => t.insert entry.1 entry.2) t)
        ((keys.zip values').foldl (fun t entry => t.insert entry.1 entry.2) t') := by
    induction h generalizing keys with
    | nil =>
      intro t t' ht
      rw [List.zip_nil_right]
      exact ht
    | cons hvalue _ ih =>
      intro t t' ht
      cases keys with
      | nil => exact ht
      | cons key keys => exact ih keys (ht.insert key hvalue)
  exact hfold matched_empty

end Table

/-! ## Scopes -/

/-- **A function, and the same with its body rewritten.** -/
inductive Node.FunctionRewritten (rule : Node → Node → Prop) : Node → Node → Prop where
  | function (name : Value) (params : List Value) {body body' : Node} (hbody : body.IsBlock Value.Any)
      (h : body.Rewritten rule body') :
      FunctionRewritten rule (.function name params body) (.function name params body')

section

variable {rule : Node → Node → Prop}

/-- **Scopes that match**: values alike under the same names, and functions of which one is rewritten from the other. -/
structure Scope.Matched (rule : Node → Node → Prop) (s s' : Scope) : Prop where
  globals : Table.Matched Value.Alike s.globals s'.globals
  functions : Table.Matched (Node.FunctionRewritten rule) s.functions s'.functions
  frames : List.Forall₂ (Table.Matched Value.Alike) s.frames s'.frames

namespace Scope.Matched

variable {s s' : Scope}

theorem depth (h : s.Matched rule s') : s.depth = s'.depth := h.frames.length_eq

theorem isLocal (h : s.Matched rule s') (key : Key) : s.isLocal key = s'.isLocal key := by
  have hframes := h.frames
  unfold Scope.isLocal
  generalize s.frames = frames at hframes
  generalize s'.frames = frames' at hframes
  cases hframes with
  | nil => rfl
  | cons hframe _ => exact hframe.contains key

theorem lookup? (h : s.Matched rule s') (key : Key) : Option.Rel Value.Alike (s.lookup? key) (s'.lookup? key) := by
  have hframes := h.frames
  unfold Scope.lookup? Scope.local?
  generalize s.frames = frames at hframes
  generalize s'.frames = frames' at hframes
  cases hframes with
  | nil => exact h.globals key
  | cons hframe _ =>
    have hlocal := hframe key
    simp only [List.head?_cons, Option.bind_some]
    generalize Table.find? _ key = found at hlocal
    generalize Table.find? _ key = found' at hlocal
    cases hlocal with
    | none => exact h.globals key
    | some hv => exact .some hv

theorem setGlobal (h : s.Matched rule s') (key : Key) {v v' : Value} (hv : v.Alike v') :
    (s.setGlobal key v).Matched rule (s'.setGlobal key v') :=
  { h with globals := h.globals.insert key hv }

theorem setLocal (h : s.Matched rule s') (key : Key) {v v' : Value} (hv : v.Alike v') :
    (s.setLocal key v).Matched rule (s'.setLocal key v') := by
  obtain ⟨globals, functions, frames⟩ := s
  obtain ⟨globals', functions', frames'⟩ := s'
  obtain ⟨hglobals, hfunctions, hframes⟩ := h
  cases hframes with
  | nil => exact ⟨hglobals, hfunctions, .nil⟩
  | cons hframe hrest => exact ⟨hglobals, hfunctions, .cons (hframe.insert key hv) hrest⟩

theorem assign (h : s.Matched rule s') (key : Key) {v v' : Value} (hv : v.Alike v') :
    (s.assign key v).Matched rule (s'.assign key v') := by
  unfold Scope.assign
  rw [h.isLocal key]
  split
  · exact h.setLocal key hv
  · exact h.setGlobal key hv

theorem declare (h : s.Matched rule s') (key : Key) {v v' : Value} (hv : v.Alike v') :
    (s.declare key v).Matched rule (s'.declare key v') := by
  have hempty : s.frames.isEmpty = s'.frames.isEmpty := by
    have hframes := h.frames
    generalize s.frames = frames at hframes
    generalize s'.frames = frames' at hframes
    cases hframes <;> rfl
  unfold Scope.declare
  rw [hempty]
  split
  · exact h.setGlobal key hv
  · exact h.setLocal key hv

theorem define (h : s.Matched rule s') (key : Key) {f f' : Node} (hf : f.FunctionRewritten rule f') :
    (s.define key f).Matched rule (s'.define key f') :=
  { h with functions := h.functions.insert key hf }

theorem enter (h : s.Matched rule s') {frame frame' : Table Value} (hframe : frame.Matched Value.Alike frame') :
    (s.enter frame).Matched rule (s'.enter frame') :=
  { h with frames := .cons hframe h.frames }

theorem leave (h : s.Matched rule s') : s.leave.Matched rule s'.leave := by
  obtain ⟨globals, functions, frames⟩ := s
  obtain ⟨globals', functions', frames'⟩ := s'
  obtain ⟨hglobals, hfunctions, hframes⟩ := h
  cases hframes with
  | nil => exact ⟨hglobals, hfunctions, .nil⟩
  | cons _ hrest => exact ⟨hglobals, hfunctions, hrest⟩

end Scope.Matched

/-! ## Machines -/

/-- **What a machine has shown**: the texts of the values that it has printed. -/
def Machine.shown (m : Machine) : List Text := m.output.map Value.display

theorem Machine.shown_printed (m : Machine) (v : Value) : (m.printed v).shown = m.shown ++ [v.display] := by
  simp [shown, output, printed, Emission.value?]

/-- A note is nothing that is printed. -/
theorem Machine.shown_noted (m : Machine) (n : Note) : (m.noted n).shown = m.shown := by
  unfold noted
  split
  · rfl
  · simp [shown, output, Emission.value?]

/-- What reads the same on the console: values that are alike, or notes of one wording. -/
inductive Emission.Alike : Emission → Emission → Prop where
  | value {v v' : Value} (h : v.Alike v') : Alike (.value v) (.value v')
  | note {n n' : Note} (h : n.line = n'.line) : Alike (.note n) (.note n')

/-- **Machines that match**: their scopes do, and what they have printed and noted reads the same. -/
structure Machine.Matched (rule : Node → Node → Prop) (m m' : Machine) : Prop where
  scope : m.scope.Matched rule m'.scope
  verbosity : m.verbosity = m'.verbosity
  console : m.console = m'.console
  logOpen : m.logOpen = m'.logOpen
  emissions : List.Forall₂ Emission.Alike m.emissions m'.emissions
  notes : List.Forall₂ (fun n n' : Note => n.line = n'.line) m.notes m'.notes

namespace Machine.Matched

variable {m m' : Machine}

theorem withScope (h : m.Matched rule m') {s s' : Scope} (hs : s.Matched rule s') :
    Machine.Matched rule { m with scope := s } { m' with scope := s' } := { h with scope := hs }

theorem printed (h : m.Matched rule m') {v v' : Value} (hv : v.Alike v') : (m.printed v).Matched rule (m'.printed v') :=
  { h with emissions := .cons (.value hv) h.emissions }

theorem noted (h : m.Matched rule m') {n n' : Note} (hline : n.line = n'.line) :
    (m.noted n).Matched rule (m'.noted n') := by
  unfold Machine.noted
  rw [h.logOpen]
  split
  · exact { h with logOpen := rfl, notes := .cons hline h.notes }
  · exact { h with logOpen := rfl, emissions := .cons (.note hline) h.emissions }

theorem withLogClosed (h : m.Matched rule m') : m.withLogClosed.Matched rule m'.withLogClosed :=
  { h with logOpen := rfl }

theorem start (verbosity : Nat) : (Machine.start verbosity).Matched rule (.start verbosity) where
  scope := ⟨Table.matched_empty, Table.matched_empty, .nil⟩
  verbosity := rfl
  console := rfl
  logOpen := rfl
  emissions := .nil
  notes := .nil

/-- **What is printed reads the same.** -/
theorem shown (h : m.Matched rule m') : m.shown = m'.shown := by
  have hemissions := List.rel_reverse h.emissions
  unfold Machine.shown Machine.output
  generalize m.emissions.reverse = emissions at hemissions
  generalize m'.emissions.reverse = emissions' at hemissions
  induction hemissions with
  | nil => rfl
  | cons hemission _ ih =>
    cases hemission with
    | value hv =>
      simp only [List.filterMap_cons, Emission.value?, List.map_cons, hv.display, ih]
    | note _ => exact ih

theorem consoleLines (h : m.Matched rule m') : m.consoleLines = m'.consoleLines := by
  have hemissions := List.rel_reverse h.emissions
  unfold Machine.consoleLines
  generalize m.emissions.reverse = emissions at hemissions
  generalize m'.emissions.reverse = emissions' at hemissions
  induction hemissions with
  | nil => rfl
  | cons hemission _ ih =>
    rw [List.map_cons, List.map_cons, ih]
    cases hemission with
    | value hv => exact congrArg (· :: _) hv.display
    | note hline => exact congrArg (· :: _) hline

theorem logLines (h : m.Matched rule m') : m.logLines = m'.logLines := by
  have hnotes := List.rel_reverse h.notes
  unfold Machine.logLines
  generalize m.notes.reverse = notes at hnotes
  generalize m'.notes.reverse = notes' at hnotes
  induction hnotes with
  | nil => rfl
  | cons hline _ ih => rw [List.map_cons, List.map_cons, ih, hline]

end Machine.Matched

/-! ## Runs -/

/-- **An outcome of a first run**, which some outcome of a second one could match. -/
inductive Matchable (rule : Node → Node → Prop) {α β : Type} (R : α → β → Prop) :
    EStateM.Result RunFailure Machine α → Prop where
  | ok {a : α} {b : β} {m m' : Machine} (h : R a b) (hm : m.Matched rule m') : Matchable rule R (.ok a m)
  | error (e : RunFailure) {m m' : Machine} (hm : m.Matched rule m') : Matchable rule R (.error e m)

/-- **Outcomes that match**: values that are related, or the same error, on machines that match. Or the second run ends
    in an error that is excused, and what it has shown is the beginning of what the first one shows. -/
inductive Matching (rule : Node → Node → Prop) (excused : RunFailure → Prop) {α β : Type} (R : α → β → Prop) :
    EStateM.Result RunFailure Machine α → EStateM.Result RunFailure Machine β → Prop where
  | ok {a : α} {b : β} {m m' : Machine} (h : R a b) (hm : m.Matched rule m') :
      Matching rule excused R (.ok a m) (.ok b m')
  | error (e : RunFailure) {m m' : Machine} (hm : m.Matched rule m') :
      Matching rule excused R (.error e m) (.error e m')
  | excused {outcome : EStateM.Result RunFailure Machine α} {e : RunFailure} {m' : Machine} (h : excused e)
      (houtcome : Matchable rule R outcome) (hshown : m'.shown <+: (Run.leftBy outcome).shown) :
      Matching rule excused R outcome (.error e m')

theorem Matching.matchable {excused : RunFailure → Prop} {α β : Type} {R : α → β → Prop}
    {outcome : EStateM.Result RunFailure Machine α} {outcome' : EStateM.Result RunFailure Machine β}
    (h : Matching rule excused R outcome outcome') : Matchable rule R outcome := by
  cases h with
  | ok h hm => exact .ok h hm
  | error e hm => exact .error e hm
  | excused _ houtcome _ => exact houtcome

namespace Run

/-- **A run simulates another** if on machines that match their outcomes do. What has been shown stays shown. -/
def Simulates (rule : Node → Node → Prop) (excused : RunFailure → Prop) {α β : Type} (R : α → β → Prop) (r : Run α)
    (r' : Run β) : Prop :=
  ∀ ⦃m m'⦄, m.Matched rule m' → Matching rule excused R (r m) (r' m') ∧ m.shown <+: (leftBy (r m)).shown

variable {excused : RunFailure → Prop} {α β γ δ : Type} {R : α → β → Prop} {T : γ → δ → Prop}

theorem Simulates.pure {a : α} {b : β} (h : R a b) : Simulates rule excused R (pure a) (pure b) :=
  fun _ _ hm => ⟨.ok h hm, List.prefix_rfl⟩

theorem Simulates.throw (e : RunFailure) : Simulates rule excused R (throw e) (throw e) :=
  fun _ _ hm => ⟨.error e hm, List.prefix_rfl⟩

/-- An error that is excused may stand for whatever another run comes to. -/
theorem Simulates.of_excused {r : Run α} {r₀ r' : Run β} (hr : Simulates rule excused R r r₀) {e : RunFailure}
    (h : excused e) (hends : ∀ m, r' m = .error e m) : Simulates rule excused R r r' := by
  intro m m' hm
  obtain ⟨hmatching, hshown⟩ := hr hm
  rw [hends m']
  exact ⟨.excused h hmatching.matchable (hm.shown ▸ hshown), hshown⟩

/-- **One after the other.** -/
theorem Simulates.bind {r : Run α} {r' : Run β} {f : α → Run γ} {f' : β → Run δ}
    (hr : Simulates rule excused R r r') (hf : ∀ a b, R a b → Simulates rule excused T (f a) (f' b)) :
    Simulates rule excused T (r >>= f) (r' >>= f') := by
  intro m m' hm
  obtain ⟨hfirst, hshown⟩ := hr hm
  simp only [Bind.bind, EStateM.bind]
  -- As for runs that agree, the outcomes are named before the relation is taken apart.
  generalize r m = first at hfirst hshown ⊢
  generalize r' m' = first' at hfirst ⊢
  cases hfirst with
  | ok h hmid =>
    obtain ⟨hsecond, hmore⟩ := hf _ _ h hmid
    exact ⟨hsecond, hshown.trans hmore⟩
  | error e herr => exact ⟨.error e herr, hshown⟩
  | excused he houtcome hbefore =>
    -- The second run is over, and the first one goes on.
    cases houtcome with
    | ok h hmid =>
      obtain ⟨hsecond, hmore⟩ := hf _ _ h hmid
      exact ⟨.excused he hsecond.matchable (hbefore.trans hmore), hshown.trans hmore⟩
    | error e herr => exact ⟨.excused he (.error e herr) hbefore, hshown⟩

/-! ### Steps on the scope -/

/-- What is read off the scope, if scopes that match give related values or the same error. -/
theorem Simulates.query {read : Scope → Except RunFailure α} {read' : Scope → Except RunFailure β}
    (h : ∀ s s', s.Matched rule s' → (∃ a b, read s = .ok a ∧ read' s' = .ok b ∧ R a b) ∨
      ∃ e, read s = .error e ∧ read' s' = .error e) : Simulates rule excused R (query read) (query read') := by
  intro m m' hm
  unfold Run.query
  rcases h m.scope m'.scope hm.scope with ⟨a, b, ha, hb, hR⟩ | ⟨e, he, he'⟩
  · rw [ha, hb]
    exact ⟨.ok hR hm, List.prefix_rfl⟩
  · rw [he, he']
    exact ⟨.error e hm, List.prefix_rfl⟩

/-- The value of a variable. -/
theorem simulates_get (name : Value) :
    Simulates rule excused Value.Alike (query (·.get name)) (query (·.get name)) := by
  refine .query fun s s' hs => ?_
  unfold Scope.get
  cases hkey : Scope.key name with
  | error e => exact .inr ⟨e, rfl, rfl⟩
  | ok key =>
    simp only [Bind.bind, Except.bind]
    have hfound := hs.lookup? key
    generalize s.lookup? key = found at hfound ⊢
    generalize s'.lookup? key = found' at hfound ⊢
    cases hfound with
    | none => exact .inr ⟨_, rfl, rfl⟩
    | some hv => exact .inl ⟨_, _, rfl, rfl, hv⟩

/-- The function with a name. -/
theorem simulates_callee (name : Value) :
    Simulates rule excused (Node.FunctionRewritten rule) (query (·.callee name)) (query (·.callee name)) := by
  refine .query fun s s' hs => ?_
  unfold Scope.callee
  cases hkey : Scope.key name with
  | error e => exact .inr ⟨e, rfl, rfl⟩
  | ok key =>
    simp only [Bind.bind, Except.bind]
    have hfound := hs.functions key
    generalize s.functions.find? key = found at hfound ⊢
    generalize s'.functions.find? key = found' at hfound ⊢
    cases hfound with
    | none => exact .inr ⟨_, rfl, rfl⟩
    | some hf => exact .inl ⟨_, _, rfl, rfl, hf⟩

/-- A change of the scope at the key of a name, which may be refused. -/
theorem Simulates.update {name : Value} {change change' : Scope → Key → Scope}
    (h : ∀ key s s', s.Matched rule s' → (change s key).Matched rule (change' s' key)) :
    Simulates rule excused Eq (update fun s => do return change s (← Scope.key name))
      (update fun s => do return change' s (← Scope.key name)) := by
  intro m m' hm
  unfold Run.update
  cases Scope.key name with
  | error e => exact ⟨.error e hm, List.prefix_rfl⟩
  | ok key => exact ⟨.ok rfl (hm.withScope (h key _ _ hm.scope)), List.prefix_rfl⟩

/-- **Inside a frame**, which is closed on both machines however the runs end. -/
theorem Simulates.inFrame {frame frame' : Table Value} (hframe : frame.Matched Value.Alike frame') {r : Run α}
    {r' : Run β} (hr : Simulates rule excused R r r') :
    Simulates rule excused R (inFrame frame r) (inFrame frame' r') := by
  intro m m' hm
  obtain ⟨hbody, hshown⟩ := hr (hm.withScope (hm.scope.enter hframe))
  unfold Run.inFrame
  generalize r _ = body at hbody hshown ⊢
  generalize r' _ = body' at hbody ⊢
  cases hbody with
  | ok h hm => exact ⟨.ok h (hm.withScope hm.scope.leave), hshown⟩
  | error e hm => exact ⟨.error e (hm.withScope hm.scope.leave), hshown⟩
  | excused he houtcome hbefore =>
    cases houtcome with
    | ok h hm => exact ⟨.excused he (.ok h (hm.withScope hm.scope.leave)) hbefore, hshown⟩
    | error e hm => exact ⟨.excused he (.error e (hm.withScope hm.scope.leave)) hbefore, hshown⟩

/-! ### Steps that show something -/

/-- **Values that are alike** are printed on both machines, or on none. -/
theorem simulates_print {v v' : Value} (hv : v.Alike v') : Simulates rule excused Eq (print v) (print v') := by
  intro m m' hm
  unfold Run.print
  rw [hm.console, hv.display]
  split
  · exact ⟨.ok rfl (hm.printed hv), [v.display], (m.shown_printed v).symm⟩
  · exact ⟨.error _ hm, List.prefix_rfl⟩

/-- **Notes of one wording** are taken on both machines, or on none. -/
theorem simulates_note {n n' : Note} (hlevel : n.level = n'.level) (hline : n.line = n'.line) :
    Simulates rule excused Eq (note n) (note n') := by
  intro m m' hm
  have hcause : m.unwritable? n = m'.unwritable? n' := by
    unfold Machine.unwritable?
    rw [hm.logOpen, hm.console, hline]
  unfold Run.note
  rw [hlevel, hm.verbosity, hcause]
  split
  · split
    · exact ⟨.ok rfl (hm.noted hline), (m.shown_noted n).symm ▸ List.prefix_rfl⟩
    · exact ⟨.error _ hm, List.prefix_rfl⟩
  · exact ⟨.ok rfl hm, List.prefix_rfl⟩

theorem simulates_noteDefined (name : Value) (params : List Value) :
    Simulates rule excused Eq (Meaning.noteDefined name params) (Meaning.noteDefined name params) := by
  intro m m' hm
  rw [noteDefined_eq, noteDefined_eq, hm.verbosity]
  split
  · split
    · exact simulates_note rfl rfl hm
    · exact ⟨.error _ hm, List.prefix_rfl⟩
  · exact ⟨.ok rfl hm, List.prefix_rfl⟩

theorem simulates_checkCalls (name : Value) :
    Simulates rule excused Eq (Meaning.checkCalls name) (Meaning.checkCalls name) := by
  intro m m' hm
  rw [checkCalls_eq, checkCalls_eq, hm.scope.depth]
  split
  · exact ⟨.error _ hm, List.prefix_rfl⟩
  · exact ⟨.ok rfl hm, List.prefix_rfl⟩

end Run

end

end LineaLang
