import LineaLang.Proofs.Machine.Invariant
import LineaLang.Proofs.Machine.Output
import LineaLang.Proofs.Programs

/-!
# `LineaLang.Proofs.Machine.Logging` — what is noted does not matter

A machine takes more or fewer notes, as its verbosity says. Taking one can end a run that would have gone on without:
the log takes no surrogates, and the names of parameters are joined for a note only. Nothing else of a run depends on
it. So the more talkative of two machines is watched, and such an end of its run is excused; up to there the other one
does the same and keeps those of the notes that its verbosity asks for (`Listening`).

A program whose strings a file takes never comes to an end that is excused, whatever is noted. Its runs are therefore
alike at every verbosity, and each log is a part of every more talkative one.

## Contents

* `Run.result` — what a run comes to, without the machine.
* `Listening`, `coupling_listening` — a machine beside one that takes more notes.
* `Closing` — the note at the end of a run.
* `Node.LogsApart`, `notes_stand_apart` — the runs of a program at every verbosity.
-/

namespace LineaLang

open Run Meaning

/-! ## Results -/

/-- **What a run comes to**, without the machine. -/
def Run.result {α : Type} (r : Run α) (m : Machine) : Except RunFailure α :=
  match r m with
  | .ok a _ => .ok a
  | .error e _ => .error e

theorem result_congr {α : Type} {r r' : Run α} {m m' : Machine} (h : r m = r' m') : r.result m = r'.result m' := by
  rw [Run.result, Run.result, h]

theorem left_congr {α : Type} {r r' : Run α} {m m' : Machine} (h : r m = r' m') : r.left m = r'.left m' := by
  rw [Run.left, Run.left, h]

theorem result_closingLog {α : Type} (r : Run α) (m : Machine) : (Machine.closingLog r).result m = r.result m := by
  unfold Run.result Machine.closingLog
  cases r m <;> rfl

theorem left_closingLog {α : Type} (r : Run α) (m : Machine) :
    (Machine.closingLog r).left m = (r.left m).withLogClosed := by
  unfold Run.left Machine.closingLog
  cases r m <;> rfl

/-! ## Two verbosities -/

/-- **An end that only a note can cause**: the log does not take it, or it cannot be worded. -/
def RunFailure.IsOfNote : RunFailure → Prop
  | .unwritable _ => True
  | .fault (.value _) => True
  | _ => False

/-- **Two machines that have done the same**, apart from what they noted: of the notes of the first the second has
    those that a verbosity of `least` asks for. -/
structure Overheard (least : Nat) (m₁ m₂ : Machine) : Prop where
  scope : m₁.scope = m₂.scope
  emissions : m₁.emissions = m₂.emissions
  notes : m₂.notes = m₁.notes.filter fun n => n.level ≤ least

/-- **Two machines in the middle of a run** that began with the note `first`, with the verbosities `most` and
    `least`. -/
structure Listening (first : Note) (most least : Nat) (m₁ m₂ : Machine) : Prop extends Overheard least m₁ m₂ where
  console : m₁.console = m₂.console
  verbosity₁ : m₁.verbosity = most
  verbosity₂ : m₂.verbosity = least
  logOpen₁ : m₁.logOpen = decide (0 < most)
  logOpen₂ : m₂.logOpen = decide (0 < least)
  oldest : 0 < most → m₁.notes.getLast? = some first

namespace Listening

variable {first : Note} {most least : Nat} {m₁ m₂ : Machine}

theorem withScope (h : Listening first most least m₁ m₂) (change : Scope → Scope) :
    Listening first most least { m₁ with scope := change m₁.scope } { m₂ with scope := change m₂.scope } :=
  { h with scope := congrArg change h.scope }

theorem printed (h : Listening first most least m₁ m₂) (v : Value) :
    Listening first most least (m₁.printed v) (m₂.printed v) :=
  { h with emissions := congrArg (List.cons (Emission.value v)) h.emissions }

/-- A note behind the first leaves it the first. -/
theorem oldest_cons (h : Listening first most least m₁ m₂) (n : Note) (hopen : 0 < most) :
    (n :: m₁.notes).getLast? = some first := by
  rw [List.getLast?_cons, h.oldest hopen]
  rfl

/-- **A note that only the first machine takes** leaves what the second has of them. -/
theorem notedAlone (h : Listening first most least m₁ m₂) {n : Note} (hmost : n.level ≤ most)
    (hleast : ¬ n.level ≤ least) : Listening first most least (m₁.noted n) m₂ := by
  have hopen : 0 < most := Nat.lt_of_lt_of_le n.level_pos hmost
  have hlog : m₁.logOpen = true := h.logOpen₁.trans (decide_eq_true hopen)
  have hnotes : m₂.notes = (n :: m₁.notes).filter fun n => n.level ≤ least := by
    rw [List.filter_cons_of_neg (by simpa using hleast)]
    exact h.notes
  unfold Machine.noted
  rw [if_pos hlog]
  exact { h with notes := hnotes, oldest := h.oldest_cons n }

/-- **A note that both machines take.** -/
theorem notedBoth (h : Listening first most least m₁ m₂) {n : Note} (hmost : n.level ≤ most)
    (hleast : n.level ≤ least) : Listening first most least (m₁.noted n) (m₂.noted n) := by
  have hlog₁ : m₁.logOpen = true :=
    h.logOpen₁.trans (decide_eq_true (Nat.lt_of_lt_of_le n.level_pos hmost))
  have hlog₂ : m₂.logOpen = true :=
    h.logOpen₂.trans (decide_eq_true (Nat.lt_of_lt_of_le n.level_pos hleast))
  have hnotes : n :: m₂.notes = (n :: m₁.notes).filter fun n => n.level ≤ least := by
    rw [List.filter_cons_of_pos (by simpa using hleast), h.notes]
  unfold Machine.noted
  rw [if_pos hlog₁, if_pos hlog₂]
  exact { h with notes := hnotes, oldest := h.oldest_cons n }

/-- A log that is open takes what another open log takes. -/
theorem unwritable?_eq_none (h : Listening first most least m₁ m₂) {n : Note} (hmost : n.level ≤ most)
    (hwritable : m₁.unwritable? n = none) : m₂.unwritable? n = none := by
  have hlog₁ : m₁.logOpen = true :=
    h.logOpen₁.trans (decide_eq_true (Nat.lt_of_lt_of_le n.level_pos hmost))
  unfold Machine.unwritable? at hwritable
  rw [if_pos hlog₁] at hwritable
  exact m₂.unwritable?_eq_none (Utf8.unencodable?_eq_none_iff.mp hwritable)

theorem agree_note (hle : least ≤ most) (n : Note) :
    Run.Agree (Listening first most least) (Listening first most least) (Listening first most least)
      RunFailure.IsOfNote (note n) (note n) := by
  intro m₁ m₂ h
  unfold note
  rw [h.verbosity₁, h.verbosity₂]
  by_cases hmost : n.level ≤ most
  · rw [if_pos hmost]
    cases hwritable : m₁.unwritable? n with
    | some cause => exact .excused trivial
    | none =>
      by_cases hleast : n.level ≤ least
      · rw [if_pos hleast, h.unwritable?_eq_none hmost hwritable]
        exact .ok (h.notedBoth hmost hleast)
      · rw [if_neg hleast]
        exact .ok (h.notedAlone hmost hleast)
  · have hleast : ¬ n.level ≤ least := fun hlow => hmost (Nat.le_trans hlow hle)
    rw [if_neg hmost, if_neg hleast]
    exact .ok h

/-- Where a note on a declaration is not taken, its words do not matter. -/
theorem noteDefined_eq_note {name : Value} {params : List Value} {joined : Text} {m : Machine}
    (hjoined : Value.joinTexts ", " params = .ok joined) :
    noteDefined name params m = note (.defined name joined) m := by
  rw [noteDefined_eq, hjoined]
  split
  · rfl
  · rename_i hquiet
    exact (if_neg hquiet).symm

theorem agree_noteDefined (hle : least ≤ most) (name : Value) (params : List Value) :
    Run.Agree (Listening first most least) (Listening first most least) (Listening first most least)
      RunFailure.IsOfNote (noteDefined name params) (noteDefined name params) := by
  intro m₁ m₂ h
  cases hjoined : Value.joinTexts ", " params with
  | ok joined =>
    rw [noteDefined_eq_note hjoined, noteDefined_eq_note hjoined]
    exact agree_note hle _ h
  | error fault =>
    rw [noteDefined_eq, noteDefined_eq, hjoined, h.verbosity₁, h.verbosity₂]
    by_cases hmost : (Note.defined name []).level ≤ most
    · rw [if_pos hmost]
      exact .excused trivial
    · have hleast : ¬ (Note.defined name []).level ≤ least := fun hlow => hmost (Nat.le_trans hlow hle)
      rw [if_neg hmost, if_neg hleast]
      exact .ok h

theorem agree_checkCalls (name : Value) :
    Run.Agree (Listening first most least) (Listening first most least) (Listening first most least)
      RunFailure.IsOfNote (checkCalls name) (checkCalls name) := by
  intro m₁ m₂ h
  rw [checkCalls_eq, checkCalls_eq, h.scope]
  split
  · exact .error h
  · exact .ok h

end Listening

/-- **Notes keep two runs together** at two verbosities, as long as the more talkative one can take them. -/
theorem coupling_listening (first : Note) {most least : Nat} (hle : least ≤ most) :
    Coupling (fun _ => Listening first most least) (fun _ => True) RunFailure.IsOfNote where
  inside_succ _ := trivial
  lookup _ h key := by rw [h.scope]
  function h key := by rw [h.scope]
  assign _ h key v := h.withScope (·.assign key v)
  declare _ h key v := h.withScope (·.declare key v)
  define _ h key function := h.withScope (·.define key function)
  print _ v := .print (fun _ _ h => h.console) fun _ _ h => h.printed v
  note := Listening.agree_note hle
  noteDefined _ := Listening.agree_noteDefined hle
  checkCalls := Listening.agree_checkCalls
  enter h _ frame := h.withScope (·.enter frame)
  leave h := h.withScope Scope.leave

theorem passedOn_of_isOfNote (e : RunFailure) (h : e.IsOfNote) : Coupling.PassedOn e := by
  cases e with
  | error _ => exact h
  | unwritable _ => trivial
  | fault cause =>
    cases cause with
    | value _ => exact nofun
    | _ => exact h.elim

/-! ## The first note -/

/-- A new machine after the note on the start of a run. -/
def Machine.started (verbosity : Nat) (first : Note) : Machine :=
  { Machine.start verbosity with notes := if 0 < verbosity then [first] else [] }

/-- **The start of a run can always be noted.** -/
theorem note_started (verbosity statements : Nat) :
    note (.started statements) (.start verbosity) = .ok () (.started verbosity (.started statements)) := by
  have hline : (Note.started statements).line.SurrogateFree :=
    .append (.append .ofString (Numeral.surrogateFree_ofNat _)) .ofString
  unfold note
  rw [(Machine.start verbosity).unwritable?_eq_none hline]
  cases verbosity <;> rfl

theorem listening_started (first : Note) (hfirst : first.level = 1) (most least : Nat) (hle : least ≤ most) :
    Listening first most least (.started most first) (.started least first) where
  scope := rfl
  emissions := rfl
  notes := by
    cases least with
    | zero =>
      cases most <;> simp [Machine.started, hfirst]
    | succ least =>
      have hopen : 0 < most := Nat.lt_of_lt_of_le least.succ_pos hle
      simp [Machine.started, hopen, hfirst]
  console := rfl
  verbosity₁ := rfl
  verbosity₂ := rfl
  logOpen₁ := rfl
  logOpen₂ := rfl
  oldest hopen := by simp [Machine.started, hopen]

/-- A program's run after its first note. -/
theorem run_eq_after_started (statements : List Node) (verbosity : Nat) :
    Machine.run (.program statements) (.start verbosity) =
      Machine.closingLog (Machine.runAll statements) (.started verbosity (.started statements.length)) := by
  simp only [Machine.run, Node.statements?, Bind.bind, EStateM.bind, note_started]

/-- **Two runs of a program**, the first at a higher verbosity. -/
theorem run_overheard (statements : List Node) {most least : Nat} (hle : least ≤ most) :
    SameOutcome (Overheard least) (Overheard least) RunFailure.IsOfNote
      (Machine.run (.program statements) (.start most)) (Machine.run (.program statements) (.start least)) := by
  have hcoupling := coupling_listening (.started statements.length) hle
  have hclose : ∀ m₁ m₂, Listening (.started statements.length) most least m₁ m₂ →
      Overheard least m₁.withLogClosed m₂.withLogClosed := fun m₁ m₂ h => ⟨h.scope, h.emissions, h.notes⟩
  rw [run_eq_after_started, run_eq_after_started]
  have hagree := hcoupling.agree_runAll (k := 0) trivial passedOn_of_isOfNote statements
  exact hagree.closingLog hclose (listening_started _ rfl most least hle)

/-- **A run that goes well** stops for errors of the language only. -/
theorem Machine.RunsWell.error_of_result {verbosity : Nat} {program : Node} (h : Machine.RunsWell verbosity program)
    {failure : RunFailure} (hresult : (Machine.run program).result (.start verbosity) = .error failure) :
    ∃ e, failure = .error e := by
  unfold Machine.RunsWell at h
  unfold Run.result at hresult
  generalize Machine.run program (.start verbosity) = outcome at h hresult
  cases h with
  | ok _ _ => cases hresult
  | error _ he =>
    cases hresult
    exact he

/-- **Two runs of a program that come to the same**, since no note ends the first one. -/
theorem run_overheard_of_ordinary (statements : List Node) {most least : Nat} (hle : least ≤ most)
    (hordinary : ∀ failure, (Machine.run (.program statements)).result (.start most) = .error failure →
      ∃ e, failure = .error e) :
    (Machine.run (.program statements)).result (.start most) =
        (Machine.run (.program statements)).result (.start least) ∧
      Overheard least ((Machine.run (.program statements)).left (.start most))
        ((Machine.run (.program statements)).left (.start least)) := by
  have hoverheard := run_overheard statements hle
  unfold Run.result at hordinary ⊢
  unfold Run.left
  generalize Machine.run (.program statements) (.start most) = outcome₁ at hoverheard hordinary ⊢
  generalize Machine.run (.program statements) (.start least) = outcome₂ at hoverheard ⊢
  cases hoverheard with
  | ok h => exact ⟨rfl, h⟩
  | error h => exact ⟨rfl, h⟩
  | excused he =>
    obtain ⟨e, rfl⟩ := hordinary _ rfl
    exact he.elim

/-! ## The last note -/

/-- **The note at the end of a run**, by what the run comes to. -/
inductive Closing : Except RunFailure Value → Note → Prop where
  | finished (v : Value) : Closing (.ok v) .finished
  | stopped (e : RuntimeError) : Closing (.error (.error e)) (.stopped e)
  | tooDeep : Closing (.error (.error .nestingLimit)) .stoppedTooDeep

/-- **A log from beginning to end**: it begins with a note, and ends with one that fits what the run comes to. -/
structure Complete (first : Note) (result : Except RunFailure Value) (log : List Note) : Prop where
  begins : log.head? = some first
  ends : ∃ last, log.getLast? = some last ∧ Closing result last

/-- **A run that ends with a note** has a complete log, if it gives a value or an error of the language. -/
theorem complete_note {first n : Note} {verbosity : Nat} {m : Machine} {result : Except RunFailure Value}
    {run r : Run Value} {start : Machine} (hrun : run start = (note n >>= fun _ => r) m)
    (h : Listening first verbosity verbosity m m) (hopen : 0 < verbosity) (hlevel : n.level = 1)
    (hr : ∀ m', r.result m' = result ∧ r.left m' = m') (hclosing : Closing result n)
    (hends : ∀ failure, run.result start = .error failure → ∃ e, failure = .error e) :
    Complete first (run.result start) (run.left start).notes.reverse := by
  rw [result_congr hrun] at hends
  rw [result_congr hrun, left_congr hrun]
  have htaken : n.level ≤ verbosity := hlevel ▸ hopen
  have hlog : m.logOpen = true := h.logOpen₁.trans (decide_eq_true hopen)
  cases hwritable : m.unwritable? n with
  | some cause =>
    have hnote : note n m = .error (.unwritable cause) m := by
      rw [note, h.verbosity₁, if_pos htaken, hwritable]
    obtain ⟨e, he⟩ := hends (.unwritable cause) (by simp only [Run.result, bind, EStateM.bind, hnote])
    cases he
  | none =>
    have hnote : note n m = .ok () (m.noted n) := by
      rw [note, h.verbosity₁, if_pos htaken, hwritable]
    have hresult : (note n >>= fun _ => r).result m = result := by
      rw [← (hr (m.noted n)).1]
      simp only [Run.result, bind, EStateM.bind, hnote]
    have hleft : (note n >>= fun _ => r).left m = m.noted n := by
      rw [← (hr (m.noted n)).2]
      simp only [Run.left, bind, EStateM.bind, hnote]
    rw [hresult, hleft]
    refine ⟨?_, n, ?_, hclosing⟩
    · rw [List.head?_reverse, (h.notedBoth htaken htaken).oldest hopen]
    · rw [List.getLast?_reverse, Machine.noted, if_pos hlog]
      rfl

/-- **The log of a program's run is complete**, if the run gives a value or an error of the language. -/
theorem complete_runAll {first : Note} {verbosity : Nat} {m : Machine} (h : Listening first verbosity verbosity m m)
    (hopen : 0 < verbosity) {statements : List Node}
    (hends : ∀ failure, (Machine.runAll statements).result m = .error failure → ∃ e, failure = .error e) :
    Complete first ((Machine.runAll statements).result m) ((Machine.runAll statements).left m).notes.reverse := by
  have hbody := ((coupling_listening first (Nat.le_refl verbosity)).agree_withLevels maxLevels).executeAll (k := 0)
    trivial statements h
  change SameOutcome _ _ _ (Machine.executeAll statements m) (Machine.executeAll statements m) at hbody
  have hpure : ∀ (v : Value) (m' : Machine), Run.result (pure v) m' = .ok v ∧ Run.left (pure v : Run Value) m' = m' :=
    fun _ _ => ⟨rfl, rfl⟩
  have hstop : ∀ (e : RuntimeError) (m' : Machine),
      Run.result (stop e : Run Value) m' = .error (.error e) ∧ Run.left (stop e : Run Value) m' = m' :=
    fun _ _ => ⟨rfl, rfl⟩
  cases houtcome : Machine.executeAll statements m with
  | ok signal m' =>
    have hrun : Machine.runAll statements m = Machine.endedBy (.ok signal) m' := by
      rw [Machine.runAll_eq, Run.thenBy, houtcome]
    rw [houtcome] at hbody
    cases hbody with
    | ok h' => exact complete_note hrun h' hopen rfl (hpure _) (.finished _) hends
  | error failure m' =>
    have hrun : Machine.runAll statements m = Machine.endedBy (.error failure) m' := by
      rw [Machine.runAll_eq, Run.thenBy, houtcome]
    rw [houtcome] at hbody
    rcases Machine.endedBy_failure failure with ⟨e, rfl⟩ | rfl | ⟨herror, -, hpassed⟩
    · cases hbody with
      | error h' => exact complete_note hrun h' hopen rfl (hstop e) (.stopped e) hends
      | excused he => exact he.elim
    · cases hbody with
      | error h' => exact complete_note hrun h' hopen rfl (hstop .nestingLimit) .tooDeep hends
      | excused he => exact he.elim
    · -- A failure that is passed on is none that the run may end with.
      rw [hpassed] at hrun
      obtain ⟨e, he⟩ := hends failure (by rw [Run.result, hrun]; rfl)
      exact absurd he (herror e)

/-! ## Programs -/

/-- **The runs of a program at every verbosity.** They come to the same, in the same scope and with the same printed
    values. What is noted at some verbosity is what is noted at any higher one, without the notes of a higher level; and
    each log is complete. -/
structure Node.LogsApart (program : Node) : Prop where
  result_eq : ∀ verbosity, (Machine.run program).result (.start verbosity) = (Machine.run program).result (.start 0)
  scope_eq : ∀ verbosity,
    ((Machine.run program).left (.start verbosity)).scope = ((Machine.run program).left (.start 0)).scope
  output_eq : ∀ verbosity,
    ((Machine.run program).left (.start verbosity)).output = ((Machine.run program).left (.start 0)).output
  log_eq : ∀ {least most}, 0 < least → least ≤ most →
    ((Machine.run program).left (.start least)).notes.reverse =
      ((Machine.run program).left (.start most)).notes.reverse.filter fun n => n.level ≤ least
  complete : ∀ {verbosity}, 0 < verbosity → ∃ statements, program.statements? = some statements ∧
    Complete (.started statements.length) ((Machine.run program).result (.start verbosity))
      ((Machine.run program).left (.start verbosity)).notes.reverse

/-- **What is noted does not matter** to the run of a program, if files take its strings. -/
theorem notes_stand_apart [CharacterNames] {tokens : List Token} {program : Node}
    (hspelled : ∀ t ∈ tokens, t.WellSpelled) (h : Node.ofTokens tokens = .ok program) (hs : program.All Node.SurrogateFree) : program.LogsApart := by
  have hprogram := Node.isProgram_of_tokens hspelled h
  have hends : ∀ verbosity failure, (Machine.run program).result (.start verbosity) = .error failure →
      ∃ e, failure = .error e := fun _ _ => (hprogram.runsWell (.inr hs)).error_of_result
  obtain ⟨statements, rfl, -⟩ := hprogram
  have hsame {least most : Nat} (hle : least ≤ most) := run_overheard_of_ordinary statements hle (hends most)
  refine ⟨fun verbosity => (hsame verbosity.zero_le).1, fun verbosity => (hsame verbosity.zero_le).2.scope,
    fun verbosity => ?_, fun _ hle => ?_, fun {verbosity} hopen => ⟨statements, rfl, ?_⟩⟩
  · unfold Machine.output
    rw [(hsame verbosity.zero_le).2.emissions]
  · rw [(hsame hle).2.notes, List.filter_reverse]
  · have hstarted := listening_started (.started statements.length) rfl verbosity verbosity (Nat.le_refl _)
    have hrun := run_eq_after_started statements verbosity
    have hordinary := hends verbosity
    rw [result_congr hrun, result_closingLog] at hordinary
    rw [result_congr hrun, left_congr hrun, result_closingLog, left_closingLog]
    exact complete_runAll hstarted hopen hordinary

-- No character is called by its name from here on.
attribute [local instance] CharacterNames.unnamed

/-- The tokens of `func f(n) if n < 1 return "a" / n; f(0);`. -/
def misusedInCall : List Token :=
  [⟨.funcWord, "func", ⟨1, 1, 0⟩⟩, ⟨.ident, "f", ⟨1, 6, 5⟩⟩, ⟨.lparen, "(", ⟨1, 7, 6⟩⟩, ⟨.ident, "n", ⟨1, 8, 7⟩⟩,
    ⟨.rparen, ")", ⟨1, 9, 8⟩⟩, ⟨.ifWord, "if", ⟨1, 11, 10⟩⟩, ⟨.ident, "n", ⟨1, 14, 13⟩⟩, ⟨.lt, "<", ⟨1, 16, 15⟩⟩,
    ⟨.number, "1", ⟨1, 18, 17⟩⟩, ⟨.returnWord, "return", ⟨1, 20, 19⟩⟩, ⟨.string, "\"a\"", ⟨1, 27, 26⟩⟩,
    ⟨.div, "/", ⟨1, 31, 30⟩⟩, ⟨.ident, "n", ⟨1, 33, 32⟩⟩, ⟨.semi, ";", ⟨1, 34, 33⟩⟩, ⟨.ident, "f", ⟨1, 36, 35⟩⟩,
    ⟨.lparen, "(", ⟨1, 37, 36⟩⟩, ⟨.number, "0", ⟨1, 38, 37⟩⟩, ⟨.rparen, ")", ⟨1, 39, 38⟩⟩, ⟨.semi, ";", ⟨1, 40, 39⟩⟩]

/-- **A run that fails inside a call**, behind notes of every level. -/
theorem misusedInCall_stands_apart : ∃ program, Node.ofTokens misusedInCall = .ok program ∧ program.LogsApart := by
  have hscan : Token.scan "func f(n) if n < 1 return \"a\" / n; f(0);" = .ok misusedInCall := rfl
  have hread : Node.ofTokens misusedInCall =
      .ok (.program [.function (.str "f") [.str "n"] (.block [.ifElse
          (.comparison .lt (.ident (.str "n")) (.number (.int 1)))
          (.block [.ret (.arith .div (.string (.str "a")) (.ident (.str "n")))]) .absent]),
        .expression (.call (.str "f") [.number (.int 0)])]) := rfl
  refine ⟨_, hread, notes_stand_apart (Token.wellSpelled_of_scan hscan) hread ?_⟩
  simp only [Node.All, Node.AllOf, Node.SurrogateFree, Text.SurrogateFree]
  decide

end LineaLang
