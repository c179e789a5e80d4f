import LineaLang.Proofs.Calculation.Outcome
import LineaLang.Proofs.Machine.Logging
import LineaLang.Proofs.Machine.Simulation
import LineaLang.Proofs.Parsing.Printed

/-!
# `LineaLang.Proofs.Machine.Unfolding` — negative literals and subtractions from zero

A minus in front of a number is taken into the literal, and a minus in front of anything else is a subtraction from
zero. The two ways of reading a minus mean the same: in any program any number of negative literals may be unfolded into
subtractions, and what the program shows stays the same.

There are two reservations. A literal is taken as it is, while the result of a subtraction must be in range, so only
literals in range may be unfolded. And a subtraction stands one level above its operands, so a program that uses up its
levels may run out of them; then it stops short. Neither reservation can be dropped (`unfolding_seen`). The second is
shown by a source that is made to measure: it leaves one of the levels that there are here (`Meaning.maxLevels`), where
levels are all that counts. That there is a bound at all is what matters; with another one, another source would do.

## Contents

* `Machine.ShowsLike`, `Machine.RunsLike`, `Machine.StopsShort` — machines and programs that show the same.
* `runsLike_of_rewritten` — programs rewritten by a rule for literals.
* `unfolded_runs_alike` — programs with literals unfolded.
* `unfolding_seen` — a literal out of range, and a program without a level to spare.
-/

namespace LineaLang

open Run Meaning Node

/-! ## Programs that run alike -/

/-- **Machines that show the same**: the texts of the printed values, and the lines on the console and in the log. -/
structure Machine.ShowsLike (m m' : Machine) : Prop where
  shown : m.shown = m'.shown
  consoleLines : m.consoleLines = m'.consoleLines
  logLines : m.logLines = m'.logLines

/-- **Programs that run alike** on new machines: they come to values that print the same or to the same error, and
    leave machines that show the same. -/
structure Machine.RunsLike (verbosity : Nat) (program program' : Node) : Prop where
  result : ((run program).result (.start verbosity)).map Value.display =
    ((run program').result (.start verbosity)).map Value.display
  left : ((run program).left (.start verbosity)).ShowsLike ((run program').left (.start verbosity))

/-- **A program that stops short of another**, because its nesting is too deep. By then it has shown the beginning of
    what the other shows. -/
structure Machine.StopsShort (verbosity : Nat) (program program' : Node) : Prop where
  result : (run program').result (.start verbosity) = .error (.error .nestingLimit)
  shown : ((run program').left (.start verbosity)).shown <+: ((run program).left (.start verbosity)).shown

/-- The error with which a program stops on a new machine, in words. -/
def Machine.complaint? (program : Node) : Option Text :=
  match (run program).result (.start 0) with
  | .error (.error e) => some e.message
  | _ => none

theorem Machine.StopsShort.complaint?_eq {program program' : Node} (h : StopsShort 0 program program') :
    complaint? program' = some RuntimeError.nestingLimit.message := by
  rw [complaint?, h.result]

variable {rule : Node → Node → Prop}

theorem Machine.Matched.showsLike {m m' : Machine} (h : m.Matched rule m') : m.ShowsLike m' :=
  ⟨h.shown, h.consoleLines, h.logLines⟩

/-! ## Whole programs -/

/-- An error that a tree may end in because it is deeper than another. -/
def RunFailure.IsTooDeep (e : RunFailure) : Prop := e = .fault .tooDeep

/-- The same for a whole program, to which it is an error of the language. -/
def RunFailure.IsNestingLimit (e : RunFailure) : Prop := e = .error .nestingLimit

/-- That the nesting is too deep can always be noted, and is nothing that is shown. -/
theorem note_stoppedTooDeep (m : Machine) : ∃ m', note .stoppedTooDeep m = .ok () m' ∧ m'.shown = m.shown := by
  have hline : Note.stoppedTooDeep.line.SurrogateFree := Text.SurrogateFree.ofString
  unfold note
  rw [m.unwritable?_eq_none hline]
  split
  · exact ⟨_, rfl, m.shown_noted _⟩
  · exact ⟨_, rfl, rfl⟩

/-- The same note at the end of both runs. -/
theorem simulates_ending {α β : Type} {R : α → β → Prop} {excused : RunFailure → Prop} (n : Note) {r : Run α}
    {r' : Run β} (h : Run.Simulates rule excused R r r') :
    Run.Simulates rule excused R (do note n; r) (do note n; r') :=
  (simulates_note rfl rfl).bind fun _ _ _ => h

theorem simulates_endedBy_ok {signal signal' : Signal} (h : signal.Alike signal') :
    Run.Simulates rule RunFailure.IsNestingLimit Value.Alike (Machine.endedBy (.ok signal))
      (Machine.endedBy (.ok signal')) :=
  simulates_ending .finished (.pure h.value)

theorem simulates_endedBy_error (failure : RunFailure) :
    Run.Simulates rule RunFailure.IsNestingLimit Value.Alike (Machine.endedBy (.error failure))
      (Machine.endedBy (.error failure)) := by
  rcases Machine.endedBy_failure failure with ⟨e, rfl⟩ | rfl | ⟨-, -, hpassed⟩
  · exact simulates_ending (.stopped e) (.throw _)
  · exact simulates_ending .stoppedTooDeep (.throw _)
  · rw [hpassed]
    exact .throw _

/-- A run that is out of levels ends in the error of the language. -/
theorem endedBy_tooDeep (m : Machine) : ∃ m', Machine.endedBy (.error (.fault .tooDeep)) m =
    .error (.error .nestingLimit) m' ∧ m'.shown = m.shown := by
  obtain ⟨m', hnote, hshown⟩ := note_stoppedTooDeep m
  refine ⟨m', ?_, hshown⟩
  simp only [Machine.endedBy, Bind.bind, EStateM.bind, hnote]
  rfl

/-- **The statements of a program** come to the same, if those of the other do not run out of levels. -/
theorem simulates_runAll (hrule : ∀ levels, ReplacesLiterals rule RunFailure.IsTooDeep (withLevels (levels + 1)))
    {statements statements' : List Node} (hstatements : ∀ statement ∈ statements, statement.IsStatement Value.Any)
    (hr : List.Forall₂ (Rewritten rule) statements statements') :
    Run.Simulates rule RunFailure.IsNestingLimit Value.Alike (Machine.runAll statements)
      (Machine.runAll statements') := by
  intro m m' hm
  have hlimit : RunFailure.IsNestingLimit (.error .nestingLimit) := rfl
  obtain ⟨hexecuted, hshown⟩ := (simulates_withLevels hrule maxLevels).executeAll hstatements hr hm
  rw [Machine.runAll_eq, Machine.runAll_eq]
  unfold Run.thenBy Machine.executeAll full
  generalize (withLevels maxLevels).executeAll statements m = outcome at hexecuted hshown ⊢
  generalize (withLevels maxLevels).executeAll statements' m' = outcome' at hexecuted ⊢
  cases hexecuted with
  | ok hsignal hm =>
    obtain ⟨hended, hmore⟩ := simulates_endedBy_ok hsignal hm
    exact ⟨hended, hshown.trans hmore⟩
  | error failure hm =>
    obtain ⟨hended, hmore⟩ := simulates_endedBy_error failure hm
    exact ⟨hended, hshown.trans hmore⟩
  | @excused _ _ m' he houtcome hbefore =>
    cases he
    obtain ⟨m'', hends, hsame⟩ := endedBy_tooDeep m'
    simp only [hends]
    rw [← hsame] at hbefore
    cases houtcome with
    | ok hsignal hm =>
      obtain ⟨hended, hmore⟩ := simulates_endedBy_ok hsignal hm
      exact ⟨.excused hlimit hended.matchable (hbefore.trans hmore), hshown.trans hmore⟩
    | error failure hm =>
      obtain ⟨hended, hmore⟩ := simulates_endedBy_error failure hm
      exact ⟨.excused hlimit hended.matchable (hbefore.trans hmore), hshown.trans hmore⟩

/-- Matching outcomes of whole programs show the same, or the second one stops short. -/
theorem Matching.runsLike {r r' : Run Value} {m m' : Machine}
    (h : Matching rule RunFailure.IsNestingLimit Value.Alike (r m) (r' m')) :
    ((r.result m).map Value.display = (r'.result m').map Value.display ∧ (r.left m).Matched rule (r'.left m')) ∨
      r'.result m' = .error (.error .nestingLimit) ∧ (r'.left m').shown <+: (r.left m).shown := by
  have hleft : r.left m = leftBy (r m) := rfl
  rw [hleft]
  unfold Run.result Run.left
  generalize r m = outcome at h ⊢
  generalize r' m' = outcome' at h ⊢
  cases h with
  | ok h hm => exact .inl ⟨congrArg Except.ok h.display, hm⟩
  | error e hm => exact .inl ⟨rfl, hm⟩
  | excused he _ hshown =>
    cases he
    exact .inr ⟨rfl, hshown⟩

/-- **A program and the same with a rule for literals applied** run alike, unless the second runs out of levels. -/
theorem runsLike_of_rewritten (hrule : ∀ levels, ReplacesLiterals rule RunFailure.IsTooDeep (withLevels (levels + 1)))
    {program program' : Node} (hprogram : program.IsProgram Value.Any) (hr : program.Rewritten rule program')
    (verbosity : Nat) :
    Machine.RunsLike verbosity program program' ∨ Machine.StopsShort verbosity program program' := by
  obtain ⟨statements, rfl, hstatements⟩ := hprogram
  cases hr with
  | rule happlied =>
    obtain ⟨v, hv, -⟩ := hrule 0 happlied
    cases hv
  | @program _ statements' hr =>
    have hstarted : (Machine.started verbosity (.started statements.length)).Matched rule
        (Machine.started verbosity (.started statements'.length)) := by
      rw [hr.length_eq]
      exact { Machine.Matched.start verbosity with notes := List.forall₂_same.mpr fun _ _ => rfl }
    have hrun := run_eq_after_started statements verbosity
    have hrun' := run_eq_after_started statements' verbosity
    obtain ⟨houtcome, -⟩ := simulates_runAll hrule hstatements hr hstarted
    rcases houtcome.runsLike with ⟨hresult, hleft⟩ | ⟨hresult, hshown⟩
    · refine .inl ⟨?_, ?_⟩
      · rw [result_congr hrun, result_congr hrun', result_closingLog, result_closingLog, hresult]
      · rw [left_congr hrun, left_congr hrun', left_closingLog, left_closingLog]
        exact hleft.withLogClosed.showsLike
    · refine .inr ⟨?_, ?_⟩
      · rw [result_congr hrun', result_closingLog, hresult]
      · rw [left_congr hrun, left_congr hrun', left_closingLog, left_closingLog]
        exact hshown

/-! ## Unfolding -/

/-- A number in range. -/
def Value.IsNumberInRange (v : Value) : Prop := v.isNumber = true ∧ v.inRange? = .ok true

/-- **Unfolding is a rule for literals**, where the numbers are in range. -/
theorem replacesLiterals_unfolds (levels : Nat) :
    ReplacesLiterals (Unfolds Value.IsNumberInRange) RunFailure.IsTooDeep (withLevels (levels + 1)) := by
  intro node node' h
  cases h with
  | @negated v h =>
    obtain ⟨w, hw, halike⟩ := Calculation.arith_zero_sub h.1 h.2
    refine ⟨v.negated, rfl, ?_⟩
    cases levels with
    | zero =>
      have htooDeep : RunFailure.IsTooDeep (.fault .tooDeep) := rfl
      exact .of_excused (.pure (.refl _)) htooDeep fun _ => rfl
    | succ levels =>
      show Run.Simulates _ _ _ _ (ofCalculation (Calculation.arith .sub (.int 0) v))
      rw [hw]
      exact .pure halike

/-- **Any number of negative literals may be unfolded** in a program, as long as the numbers are in range. At every
    verbosity it still comes to a value that prints the same or to the same error, and shows the same on the way; or
    else its nesting has become too deep, and it stops short. -/
theorem unfolded_runs_alike [CharacterNames] {tokens : List Token} {program program' : Node} (hspelled : ∀ t ∈ tokens, t.WellSpelled)
    (h : Node.ofTokens tokens = .ok program) (hr : program.Rewritten (Unfolds Value.IsNumberInRange) program')
    (verbosity : Nat) :
    Machine.RunsLike verbosity program program' ∨ Machine.StopsShort verbosity program program' :=
  runsLike_of_rewritten replacesLiterals_unfolds (Node.isProgram_of_tokens hspelled h) hr verbosity

-- No character is called by its name from here on.
attribute [local instance] CharacterNames.unnamed

/-- The tokens of `func f(n) return -0.0 * n; print(f(-2)); return -7;`. -/
def negations : List Token :=
  [⟨.funcWord, "func", ⟨1, 1, 0⟩⟩, ⟨.ident, "f", ⟨1, 6, 5⟩⟩, ⟨.lparen, "(", ⟨1, 7, 6⟩⟩, ⟨.ident, "n", ⟨1, 8, 7⟩⟩,
    ⟨.rparen, ")", ⟨1, 9, 8⟩⟩, ⟨.returnWord, "return", ⟨1, 11, 10⟩⟩, ⟨.minus, "-", ⟨1, 18, 17⟩⟩,
    ⟨.number, "0.0", ⟨1, 19, 18⟩⟩, ⟨.times, "*", ⟨1, 23, 22⟩⟩, ⟨.ident, "n", ⟨1, 25, 24⟩⟩, ⟨.semi, ";", ⟨1, 26, 25⟩⟩,
    ⟨.printWord, "print", ⟨1, 28, 27⟩⟩, ⟨.lparen, "(", ⟨1, 33, 32⟩⟩, ⟨.ident, "f", ⟨1, 34, 33⟩⟩,
    ⟨.lparen, "(", ⟨1, 35, 34⟩⟩, ⟨.minus, "-", ⟨1, 36, 35⟩⟩, ⟨.number, "2", ⟨1, 37, 36⟩⟩, ⟨.rparen, ")", ⟨1, 38, 37⟩⟩,
    ⟨.rparen, ")", ⟨1, 39, 38⟩⟩, ⟨.semi, ";", ⟨1, 40, 39⟩⟩, ⟨.returnWord, "return", ⟨1, 42, 41⟩⟩,
    ⟨.minus, "-", ⟨1, 49, 48⟩⟩, ⟨.number, "7", ⟨1, 50, 49⟩⟩, ⟨.semi, ";", ⟨1, 51, 50⟩⟩]

/-- The tree of a program with three literals. -/
def negationsWith (first second third : Node) : Node :=
  .program [.function (.str "f") [.str "n"] (.block [.ret (.arith .mul first (.ident (.str "n")))]),
    .print (.call (.str "f") [second]), .ret third]

theorem rewritten_negationsWith {first first' second second' third third' : Node}
    (hfirst : first.Rewritten rule first') (hsecond : second.Rewritten rule second')
    (hthird : third.Rewritten rule third') :
    (negationsWith first second third).Rewritten rule (negationsWith first' second' third') :=
  .program (.cons (.function _ _ (.block (.cons (.ret (.arith .mul hfirst (.ident _))) .nil)))
    (.cons (.print (.call _ (.cons hsecond .nil))) (.cons (.ret hthird) .nil)))

/-- **A negative zero** in the body of a function is unfolded, and one of two integers. -/
theorem negations_unfolded :
    Node.ofTokens negations = .ok (negationsWith (.number (.float (Binary64.zero true))) (.number (.int (-2)))
      (.number (.int (-7)))) ∧
    Machine.RunsLike 0
      (negationsWith (.number (.float (Binary64.zero true))) (.number (.int (-2))) (.number (.int (-7))))
      (negationsWith (.arith .sub (.number (.int 0)) (.number (.float (Binary64.zero false)))) (.number (.int (-2)))
        (.arith .sub (.number (.int 0)) (.number (.int 7)))) := by
  have hscan : Token.scan "func f(n) return -0.0 * n; print(f(-2)); return -7;" = .ok negations := rfl
  have hread : Node.ofTokens negations = .ok (negationsWith (.number (.float (Binary64.zero true)))
      (.number (.int (-2))) (.number (.int (-7)))) := rfl
  have hzero : Value.IsNumberInRange (.float (Binary64.zero false)) := ⟨rfl, rfl⟩
  have hseven : Value.IsNumberInRange (.int 7) := ⟨rfl, congrArg Except.ok (by decide +kernel)⟩
  have hunfolded := rewritten_negationsWith (.rule (Unfolds.negated hzero)) (.refl _ (.number (.int (-2))))
    (.rule (Unfolds.negated hseven))
  have hcomplaint : Machine.complaint? (negationsWith
      (.arith .sub (.number (.int 0)) (.number (.float (Binary64.zero false)))) (.number (.int (-2)))
      (.arith .sub (.number (.int 0)) (.number (.int 7)))) = none := by decide +kernel
  have halike := unfolded_runs_alike (Token.wellSpelled_of_scan hscan) hread hunfolded 0
  refine ⟨hread, halike.resolve_right fun hshort => ?_⟩
  exact absurd (hcomplaint.symm.trans hshort.complaint?_eq) nofun

/-! ## Reservations -/

/-- A number that is written as a literal. -/
def Value.IsSpelled (v : Value) : Prop := ∃ lexeme, NumberLexeme lexeme ∧ Grammar.numberValue lexeme = .ok v

theorem Value.isSpelled_int {n : Nat} (h : (Numeral.ofNat n).length ≤ Numeral.limit) : (Value.int n).IsSpelled := by
  refine ⟨Numeral.ofNat n, .whole (Numeral.isRun_ofNat n).isDigit, ?_⟩
  rw [Grammar.numberValue_ofNat, if_neg (Nat.not_lt.mpr h)]

/-- **Unfolding is seen** in a source: its program goes well, and with literals unfolded it stops with an error. -/
def UnfoldingSeen (allowed : Value → Prop) (source message : Text) : Prop :=
  ∃ program program', Node.ofSource source = .ok program ∧ program.Rewritten (Unfolds allowed) program' ∧
    Machine.complaint? program = none ∧ Machine.complaint? program' = some message

/-- An integer beyond the doubles. -/
def giant : Nat := 10 ^ 309

theorem length_giant : (Numeral.ofNat giant).length ≤ Numeral.limit := by
  rw [Numeral.length_ofNat_le_iff (by decide), giant, Nat.pow_lt_pow_iff_right (by decide)]
  decide

/-- A function that calls itself until all levels are open but one. -/
def descent : Text :=
  "func f(n) if n < 61 return f(n + 1) + 0 + 0 + 0 + 0 + 0 + 0 + 0 + 0; else return -1 + 0 + 0 + 0; f(0);"

/-- Its tokens. -/
def descentTokens : List Token :=
  [⟨.funcWord, "func", ⟨1, 1, 0⟩⟩, ⟨.ident, "f", ⟨1, 6, 5⟩⟩, ⟨.lparen, "(", ⟨1, 7, 6⟩⟩, ⟨.ident, "n", ⟨1, 8, 7⟩⟩,
    ⟨.rparen, ")", ⟨1, 9, 8⟩⟩, ⟨.ifWord, "if", ⟨1, 11, 10⟩⟩, ⟨.ident, "n", ⟨1, 14, 13⟩⟩, ⟨.lt, "<", ⟨1, 16, 15⟩⟩,
    ⟨.number, "61", ⟨1, 18, 17⟩⟩, ⟨.returnWord, "return", ⟨1, 21, 20⟩⟩, ⟨.ident, "f", ⟨1, 28, 27⟩⟩,
    ⟨.lparen, "(", ⟨1, 29, 28⟩⟩, ⟨.ident, "n", ⟨1, 30, 29⟩⟩, ⟨.plus, "+", ⟨1, 32, 31⟩⟩, ⟨.number, "1", ⟨1, 34, 33⟩⟩,
    ⟨.rparen, ")", ⟨1, 35, 34⟩⟩, ⟨.plus, "+", ⟨1, 37, 36⟩⟩, ⟨.number, "0", ⟨1, 39, 38⟩⟩, ⟨.plus, "+", ⟨1, 41, 40⟩⟩,
    ⟨.number, "0", ⟨1, 43, 42⟩⟩, ⟨.plus, "+", ⟨1, 45, 44⟩⟩, ⟨.number, "0", ⟨1, 47, 46⟩⟩, ⟨.plus, "+", ⟨1, 49, 48⟩⟩,
    ⟨.number, "0", ⟨1, 51, 50⟩⟩, ⟨.plus, "+", ⟨1, 53, 52⟩⟩, ⟨.number, "0", ⟨1, 55, 54⟩⟩, ⟨.plus, "+", ⟨1, 57, 56⟩⟩,
    ⟨.number, "0", ⟨1, 59, 58⟩⟩, ⟨.plus, "+", ⟨1, 61, 60⟩⟩, ⟨.number, "0", ⟨1, 63, 62⟩⟩, ⟨.plus, "+", ⟨1, 65, 64⟩⟩,
    ⟨.number, "0", ⟨1, 67, 66⟩⟩, ⟨.semi, ";", ⟨1, 68, 67⟩⟩, ⟨.elseWord, "else", ⟨1, 70, 69⟩⟩,
    ⟨.returnWord, "return", ⟨1, 75, 74⟩⟩, ⟨.minus, "-", ⟨1, 82, 81⟩⟩, ⟨.number, "1", ⟨1, 83, 82⟩⟩,
    ⟨.plus, "+", ⟨1, 85, 84⟩⟩, ⟨.number, "0", ⟨1, 87, 86⟩⟩, ⟨.plus, "+", ⟨1, 89, 88⟩⟩, ⟨.number, "0", ⟨1, 91, 90⟩⟩,
    ⟨.plus, "+", ⟨1, 93, 92⟩⟩, ⟨.number, "0", ⟨1, 95, 94⟩⟩, ⟨.semi, ";", ⟨1, 96, 95⟩⟩, ⟨.ident, "f", ⟨1, 98, 97⟩⟩,
    ⟨.lparen, "(", ⟨1, 99, 98⟩⟩, ⟨.number, "0", ⟨1, 100, 99⟩⟩, ⟨.rparen, ")", ⟨1, 101, 100⟩⟩,
    ⟨.semi, ";", ⟨1, 102, 101⟩⟩]

/-- Its tree, by what is returned at the end. -/
def descentTo (last : Node) : Node :=
  let plusZero (expr : Node) : Node := .arith .add expr (.number (.int 0))
  .program [.function (.str "f") [.str "n"] (.block [.ifElse
      (.comparison .lt (.ident (.str "n")) (.number (.int 61)))
      (.block [.ret (plusZero (plusZero (plusZero (plusZero (plusZero (plusZero (plusZero (plusZero
        (.call (.str "f") [.arith .add (.ident (.str "n")) (.number (.int 1))])))))))))])
      (.block [.ret (plusZero (plusZero (plusZero last)))])]),
    .expression (.call (.str "f") [.number (.int 0)])]

theorem rewritten_descentTo {last last' : Node} (h : last.Rewritten rule last') :
    (descentTo last).Rewritten rule (descentTo last') := by
  have hzero : (Node.number (.int 0)).Rewritten rule (.number (.int 0)) := .number _
  have hsum := Rewritten.arith .add (.arith .add (.arith .add h hzero) hzero) hzero
  exact .program (.cons (.function _ _ (.block (.cons
    (.ifElse (.refl _ _) (.refl _ _) (.block (.cons (.ret hsum) .nil))) .nil))) (.cons (.refl _ _) .nil))

/-- **Both reservations are necessary.** A literal below all doubles is taken as it is, but its unfolded
    form overflows. And where a literal stands on the last level, its unfolded form would need one more; where that is
    depends on the number of levels, which is idealised (`Meaning.maxLevels`). -/
theorem unfolding_seen :
    UnfoldingSeen Value.IsSpelled ((Value.int (-giant)).formatNumber ++ Text.ofString ";")
      (RuntimeError.numericOverflow .sub).message ∧
    UnfoldingSeen (fun v => v.IsSpelled ∧ v.IsNumberInRange) descent RuntimeError.nestingLimit.message := by
  constructor
  · have hread := (Node.ofSource_formatNumber (-giant)).mpr (by rw [Int.natAbs_neg]; exact length_giant)
    have hunfolded : (Node.number (.int (-giant))).Rewritten (Unfolds Value.IsSpelled)
        (.arith .sub (.number (.int 0)) (.number (.int giant))) := .rule (.negated (Value.isSpelled_int length_giant))
    refine ⟨_, _, hread, .program (.cons (.expression hunfolded) .nil), ?_, ?_⟩
    · decide +kernel
    · decide +kernel
  · have hscan : Token.scan descent = .ok descentTokens := by decide +kernel
    have hread : Node.ofTokens descentTokens = .ok (descentTo (.number (.int (-1)))) := rfl
    have hshort : (Numeral.ofNat 1).length ≤ Numeral.limit :=
      (Numeral.length_ofNat_le_iff (by decide)).mpr (Nat.one_lt_pow (by decide) (by decide))
    have hone : (Value.int 1).IsSpelled ∧ (Value.int 1).IsNumberInRange :=
      ⟨Value.isSpelled_int hshort, rfl, congrArg Except.ok (by decide +kernel)⟩
    have hunfolds : Unfolds (fun v => v.IsSpelled ∧ v.IsNumberInRange) (.number (Value.int 1).negated)
        (.arith .sub (.number (.int 0)) (.number (.int 1))) := .negated hone
    refine ⟨_, _, (Node.ofSource_eq_ok_iff hscan).mpr hread, rewritten_descentTo (.rule hunfolds), ?_, ?_⟩
    · decide +kernel
    · decide +kernel

end LineaLang
