import LineaLang.CommandLine.Perform
import LineaLang.Proofs.Machine.Consoles
import LineaLang.Proofs.Stages
import LineaLang.Proofs.Text.Utf8

/-!
# `LineaLang.Proofs.Agreement` — the ways to run a source

A source can be compiled in one go, run on a machine, read first and run later, or handed to the command line as a
file. A compilation lists the program before it runs it, the command line never lists it, and each passes on printed
values and diagnostics in its own form: to a list and to a sink behind it, to a sink alone, or to a console that may not
take every line. They agree nevertheless. The listing of a program that has been read is always there, so it does not
keep a run from being made; and a run does not depend on who takes its values.

A compilation is one of four, by the stage that ended it (`Compilation.Stages`), and everything else is read off these.

## Contents

* `Compilation.TellsStage` — what the parts of a compilation tell.
* `Compilation.AgreesWithRuns` — a compilation beside the runs of its source.
* `Compilation.ShownAs` — a compilation beside the outcome of the command line.
* `source_runs_alike` — all of them for every source.
-/

namespace LineaLang

open CommandLine

namespace Compilation

/-! ## What the parts tell -/

/-- **The parts of a compilation tell which stage ended it.** -/
structure TellsStage [CharacterNames] (c : Compilation) (source : Text) : Prop where
  /-- The source has no tokens exactly if the compilation has none, and no program either. -/
  lex_iff : (∃ e, c.diagnostic? = some (.lex e)) ↔ c.tokens = [] ∧ c.program? = none
  lex : ∀ e, c.diagnostic? = some (.lex e) ↔ Token.scan source = .error e
  /-- The tokens have no tree exactly if they are there and nothing after them. -/
  parse_iff : (∃ e, c.diagnostic? = some (.parse e)) ↔
    Token.scan source = .ok c.tokens ∧ c.program? = none ∧ c.listing = [] ∧ c.output = []
  parse : ∀ e, c.diagnostic? = some (.parse e) → Node.ofTokens c.tokens = .error (.refused e)
  unread : c.program? = none → c.listing = [] ∧ c.output = [] ∧ c.returned = .none
  /-- In any other case all is there that comes before the run. -/
  otherwise : (∀ e, c.diagnostic? ≠ some (.lex e)) → (∀ e, c.diagnostic? ≠ some (.parse e)) →
    ∃ program, c.program? = some program ∧ Token.scan source = .ok c.tokens ∧
      Node.ofTokens c.tokens = .ok program ∧ program.listingLines = .ok c.listing
  /-- A run that stopped has left what it had printed, and no value. -/
  runtime : ∀ e, c.diagnostic? = some (.runtime e) → c.returned = .none ∧
    ∃ program m, c.program? = some program ∧ Machine.run program (.start 0) = .error (.error e) m ∧
      c.output = m.output
  succeeded : c.diagnostic? = none →
    ∃ program m, c.program? = some program ∧ Machine.run program (.start 0) = .ok c.returned m ∧
      c.output = m.output

namespace Stages

variable [CharacterNames] {source : Text} {c : Compilation}

theorem lex_iff (h : c.Stages source) :
    (∃ e, c.diagnostic? = some (.lex e)) ↔ c.tokens = [] ∧ c.program? = none := by
  cases h with
  | scanning hscan => exact ⟨fun _ => ⟨rfl, rfl⟩, fun _ => ⟨_, rfl⟩⟩
  | reading hscan hread =>
    refine ⟨nofun, fun ⟨htokens, _⟩ => ?_⟩
    -- No tokens have a tree, that of the empty program.
    obtain rfl : _ = [] := htokens
    cases hread
  | running hscan hread hlisting hrun | returning hscan hread hlisting hrun => exact ⟨nofun, nofun⟩

theorem parse_iff (h : c.Stages source) :
    (∃ e, c.diagnostic? = some (.parse e)) ↔
      Token.scan source = .ok c.tokens ∧ c.program? = none ∧ c.listing = [] ∧ c.output = [] := by
  cases h with
  | scanning hscan =>
    refine ⟨nofun, fun ⟨hscan', _⟩ => ?_⟩
    rw [hscan] at hscan'
    cases hscan'
  | reading hscan hread => exact ⟨fun _ => ⟨hscan, rfl, rfl, rfl⟩, fun _ => ⟨_, rfl⟩⟩
  | running hscan hread hlisting hrun | returning hscan hread hlisting hrun => exact ⟨nofun, nofun⟩

theorem lex (h : c.Stages source) (e : LexError) :
    c.diagnostic? = some (.lex e) ↔ Token.scan source = .error e := by
  cases h with
  | scanning hscan =>
    rw [hscan]
    exact ⟨fun heq => by cases heq; rfl, fun heq => by cases heq; rfl⟩
  | reading hscan _ | running hscan _ _ _ | returning hscan _ _ _ =>
    rw [hscan]
    exact ⟨nofun, nofun⟩

theorem tellsStage (h : c.Stages source) : c.TellsStage source where
  lex_iff := h.lex_iff
  lex := h.lex
  parse_iff := h.parse_iff
  parse e heq := by
    cases h with
    | reading hscan hread =>
      cases heq
      exact hread
    | scanning _ | running _ _ _ _ | returning _ _ _ _ => cases heq
  unread hnone := by
    cases h with
    | scanning _ | reading _ _ => exact ⟨rfl, rfl, rfl⟩
    | running _ _ _ _ | returning _ _ _ _ => cases hnone
  otherwise hlex hparse := by
    cases h with
    | scanning _ => exact absurd rfl (hlex _)
    | reading _ _ => exact absurd rfl (hparse _)
    | running hscan hread hlisting _ | returning hscan hread hlisting _ => exact ⟨_, rfl, hscan, hread, hlisting⟩
  runtime e heq := by
    cases h with
    | running _ _ _ hrun =>
      cases heq
      exact ⟨rfl, _, _, rfl, hrun, rfl⟩
    | scanning _ | reading _ _ | returning _ _ _ _ => cases heq
  succeeded hnone := by
    cases h with
    | returning _ _ _ hrun => exact ⟨_, _, rfl, hrun, rfl⟩
    | scanning _ | reading _ _ | running _ _ _ _ => cases hnone

end Stages

/-! ## Runs -/

/-- **What a compilation comes to**: the value that was returned, or the diagnostic. -/
def result (c : Compilation) : Except Failure Value :=
  match c.diagnostic? with
  | none => .ok c.returned
  | some d => .error (.diagnostic d)

/-- What a run comes to, and the machine as it is left. -/
def ending : EStateM.Result RunFailure Machine Value → Except Failure Value × Machine
  | .ok v m => (.ok v, m)
  | .error failure m => (.error (.ofRun failure), m)

theorem leftBy_of_ending {outcome : EStateM.Result RunFailure Machine Value} {comes : Except Failure Value} {m : Machine}
    (h : ending outcome = (comes, m)) : Run.leftBy outcome = m := by
  cases outcome <;> exact (Prod.mk.inj h).2

theorem runSource_eq_ending [CharacterNames] {source : Text} {program : Node} (h : Node.ofSource source = .ok program)
    (verbosity : Nat) :
    Machine.runSource verbosity source = ending (Machine.run program (.start verbosity)) := by
  rw [Machine.runSource, h]
  simp only
  cases Machine.run program (.start verbosity) <;> rfl

theorem endings_of_sameOutcome {ok : Machine → Machine → Prop}
    {outcome₁ outcome₂ : EStateM.Result RunFailure Machine Value}
    (h : SameOutcome ok ok (fun _ => False) outcome₁ outcome₂) :
    ∃ comes m₁ m₂, ending outcome₁ = (comes, m₁) ∧ ending outcome₂ = (comes, m₂) ∧ ok m₁ m₂ := by
  cases h with
  | ok h | error h => exact ⟨_, _, _, rfl, rfl, h⟩
  | excused he => exact he.elim

/-- A run into a sink comes to the same, and gives the sink what it prints. -/
theorem runInto_eq {σ : Type} (sink : Sink σ) {program : Node} {comes : Except Failure Value} {m : Machine}
    (h : ending (Machine.run program (.start 0)) = (comes, m)) :
    (Machine.runInto sink 0 program).1.mapError .ofRun = comes ∧
      (Machine.runInto sink 0 program).2 = sink.after m.output := by
  unfold Machine.runInto
  generalize Machine.run program (.start 0) = outcome at h ⊢
  cases outcome with
  | ok v m' | error failure m' =>
    cases h
    exact ⟨rfl, rfl⟩

/-- **A compilation agrees with the runs of its source.** A source without a tree fails in the same way. Otherwise a
    run comes to the same, and adds the same values to what was printed before it, whatever that is. And any sink is
    given just these values, whether it goes with the source or with its tree. -/
structure AgreesWithRuns [CharacterNames] (c : Compilation) (source : Text) : Prop where
  ran : ∃ m, Machine.runSource 0 source = (c.result, m) ∧ m.emissions = (c.output.map .value).reverse
  unread : ∀ failure, Node.ofSource source = .error failure → c.result = .error failure ∧ c.output = []
  read : ∀ program, Node.ofSource source = .ok program → ∀ past, ∃ m,
    ending (Machine.run program { Machine.start 0 with emissions := past }) = (c.result, m) ∧
      m.emissions = (c.output.map .value).reverse ++ past
  given : ∀ {σ : Type} (sink : Sink σ), Machine.runSourceInto sink 0 source = (c.result, sink.after c.output)
  readGiven : ∀ program, Node.ofSource source = .ok program → ∀ {σ : Type} (sink : Sink σ),
    (Machine.runInto sink 0 program).1.mapError .ofRun = c.result ∧
      (Machine.runInto sink 0 program).2 = sink.after c.output

namespace Stages

variable [CharacterNames] {source : Text} {c : Compilation}

/-- **A source either has no tree or has a run**, after any past. -/
theorem unread_or_run (h : c.Stages source) :
    (∃ d, c.diagnostic? = some d ∧ c.output = [] ∧ Node.ofSource source = .error (.diagnostic d)) ∨
      ∃ program, Node.ofSource source = .ok program ∧ ∀ past, ∃ m₁ m₂,
        ending (Machine.run program (.start 0)) = (c.result, m₁) ∧
        ending (Machine.run program { Machine.start 0 with emissions := past }) = (c.result, m₂) ∧
        m₁.output = c.output ∧ Printed past m₁ m₂ := by
  cases h with
  | scanning hscan => exact .inl ⟨_, rfl, rfl, Node.ofSource_of_scan_error hscan⟩
  | reading hscan hread =>
    refine .inl ⟨_, rfl, rfl, ?_⟩
    rw [Node.ofSource_of_scan hscan, hread]
    rfl
  | @running _ program _ _ m hscan hread _ hrun | @returning _ program _ _ m hscan hread _ hrun =>
    refine .inr ⟨program, ?_, fun past => ?_⟩
    · rw [Node.ofSource_of_scan hscan, hread]
      rfl
    · obtain ⟨comes, m₁, m₂, h₁, h₂, hprinted⟩ := endings_of_sameOutcome (run_printed program past)
      rw [hrun] at h₁ ⊢
      cases h₁
      exact ⟨m, m₂, rfl, h₂, rfl, hprinted⟩

theorem agreesWithRuns (h : c.Stages source) : c.AgreesWithRuns source := by
  rcases h.unread_or_run with ⟨d, hd, houtput, hsource⟩ | ⟨program, hsource, hruns⟩
  · have hresult : c.result = .error (.diagnostic d) := by rw [result, hd]
    refine ⟨⟨.start 0, ?_, ?_⟩, ?_, ?_, ?_, ?_⟩
    · rw [Machine.runSource, hsource, hresult]
    · rw [houtput]
      rfl
    · intro failure heq
      rw [hsource] at heq
      cases heq
      exact ⟨hresult, houtput⟩
    · intro program heq
      rw [hsource] at heq
      cases heq
    · intro σ sink
      rw [Machine.runSourceInto, hsource, hresult, houtput, Sink.after_nil]
    · intro program heq
      rw [hsource] at heq
      cases heq
  · have hgiven : ∀ {σ : Type} (sink : Sink σ), (Machine.runInto sink 0 program).1.mapError .ofRun = c.result ∧
        (Machine.runInto sink 0 program).2 = sink.after c.output := by
      intro σ sink
      obtain ⟨m₁, -, hrun, -, houtput, -⟩ := hruns []
      exact houtput ▸ runInto_eq sink hrun
    refine ⟨?_, ?_, ?_, ?_, ?_⟩
    · obtain ⟨m₁, m₂, hrun, -, houtput, hprinted⟩ := hruns []
      refine ⟨m₁, ?_, ?_⟩
      · rw [runSource_eq_ending hsource, hrun]
      · rw [← houtput]
        exact hprinted.1
    · intro failure heq
      rw [hsource] at heq
      cases heq
    · intro program' heq past
      rw [hsource] at heq
      cases heq
      obtain ⟨m₁, m₂, -, hrun, houtput, hprinted⟩ := hruns past
      refine ⟨m₂, hrun, ?_⟩
      rw [← houtput]
      exact hprinted.2
    · intro σ sink
      obtain ⟨hcomes, hleft⟩ := hgiven sink
      rw [Machine.runSourceInto, hsource]
      exact Prod.ext hcomes hleft
    · intro program' heq
      rw [hsource] at heq
      cases heq
      exact hgiven

end Stages

/-! ## The command line -/

/-- **A compilation agrees with an outcome of the command line**: each printed value is a line of the output, and a
    diagnostic is the one line on the error stream, and gives the status. The output can be written to any file, if
    no value shows a surrogate. -/
structure ShownAs (c : Compilation) (o : Outcome) : Prop where
  output : o.output = Text.ofLines (c.output.map Value.display)
  succeeded_iff : c.diagnostic? = none ↔ o.ending = .status 0 ∧ o.errors = []
  failed : ∀ d, c.diagnostic? = some d → o.ending = .status 1 ∧ o.errors = Text.ofLines [d.report]
  written : o.written = []
  writable : (∀ v ∈ c.output, v.display.SurrogateFree) → Utf8.unencodable? o.output = none

section Outcomes

variable {c : Compilation}

theorem writable_ofLines (h : ∀ v ∈ c.output, v.display.SurrogateFree) :
    Utf8.unencodable? (Text.ofLines (c.output.map Value.display)) = none := by
  refine Utf8.unencodable?_eq_none_iff.mpr (Text.SurrogateFree.ofLines fun line hline => ?_)
  obtain ⟨v, hv, rfl⟩ := List.mem_map.mp hline
  exact h v hv

theorem shownAs_lines (h : c.diagnostic? = none) :
    c.ShownAs ⟨Text.ofLines (c.output.map Value.display), [], [], .status 0⟩ where
  output := rfl
  succeeded_iff := ⟨fun _ => ⟨rfl, rfl⟩, fun _ => h⟩
  failed d hd := by
    rw [h] at hd
    cases hd
  written := rfl
  writable := writable_ofLines

theorem shownAs_failed {d : Diagnostic} (h : c.diagnostic? = some d) :
    c.ShownAs ⟨Text.ofLines (c.output.map Value.display), Text.ofLines [d.report], [], .status 1⟩ where
  output := rfl
  succeeded_iff := by
    rw [h]
    exact ⟨nofun, nofun⟩
  failed d' hd := by
    rw [h] at hd
    cases hd
    exact ⟨rfl, rfl⟩
  written := rfl
  writable := writable_ofLines

/-- What the command line makes of a run that comes to the same. -/
theorem shownAs_outcomeOfRun {outcome : EStateM.Result RunFailure Machine Value} {m : Machine}
    (hending : ending outcome = (c.result, m)) (hconsole : m.consoleLines = c.output.map Value.display) :
    c.ShownAs (outcomeOfRun outcome) := by
  unfold result at hending
  cases outcome with
  | ok v m' =>
    cases hd : c.diagnostic? with
    | none =>
      rw [hd] at hending
      cases hending
      rw [outcomeOfRun, hconsole]
      exact shownAs_lines hd
    | some d =>
      rw [hd] at hending
      cases hending
  | error failure m' =>
    cases hd : c.diagnostic? with
    | none =>
      rw [hd] at hending
      cases hending
    | some d =>
      rw [hd] at hending
      obtain ⟨hfailure, rfl⟩ := Prod.mk.inj hending
      rw [outcomeOfRun, Except.error.inj hfailure, hconsole]
      exact shownAs_failed hd

end Outcomes

/-- **A file is run as its text is compiled**, on a console that takes the values. -/
theorem Stages.shownAs [CharacterNames] {c : Compilation} {source : Text} (h : c.Stages source) {find : Lookup}
    {console : Console} {path : Text} {octets : List UInt8} (hfile : find (Path.plain path) = .file octets)
    (htext : textOf octets = .ok source) (hconsole : ∀ v ∈ c.output, console.unwritable? v.display = none) :
    c.ShownAs (performRun find console 0 path) := by
  rcases h.unread_or_run with ⟨d, hd, houtput, hsource⟩ | ⟨program, hsource, hruns⟩
  · have hfailed := shownAs_failed hd
    rw [houtput] at hfailed
    simp only [performRun, withTree, withText, withOctets, hfile, htext, hsource]
    exact hfailed
  · obtain ⟨m₁, m₂, hrun, -, houtput, hprinted⟩ := hruns []
    have hlines : m₁.consoleLines = c.output.map Value.display := by rw [hprinted.consoleLines_eq, houtput]
    have htakes : console.Takes program (.start 0) := by
      intro line hline
      rw [show (Machine.start 0).on .anyText = .start 0 from rfl, leftBy_of_ending hrun, hlines] at hline
      obtain ⟨v, hv, rfl⟩ := List.mem_map.mp hline
      exact hconsole v hv
    obtain ⟨comes, m, m', hlenient, hstrict, hm⟩ := endings_of_sameOutcome (Machine.run_on_console htakes)
    obtain ⟨rfl, rfl⟩ := Prod.mk.inj (hrun.symm.trans hlenient)
    simp only [performRun, withTree, withText, withOctets, hfile, htext, hsource, runTree, if_true]
    exact shownAs_outcomeOfRun hstrict (hm ▸ hlines)

end Compilation

/-- **A path alone asks for a run** without notes, unless it begins like an option. -/
theorem CommandLine.Request.ofArguments_path {path : Text} (hne : path ≠ []) (hdash : path.head? ≠ some Piece.dash) :
    Request.ofArguments [path] = .ok ⟨0, none, path⟩ := by
  cases path with
  | nil => exact absurd rfl hne
  | cons first rest =>
    have hfirst : first ≠ Piece.dash := fun heq => hdash (congrArg some heq)
    have hseparator : first :: rest ≠ Piece.separatorText := by
      intro heq
      exact hfirst (List.cons.inj heq).1
    have hpieces : Piece.ofArguments [first :: rest] = .ok [.operand (first :: rest)] := by
      simp only [Piece.ofArguments, Piece.ofArgument, if_neg hseparator, if_pos hfirst]
      rfl
    rw [Request.ofArguments, hpieces]
    rfl

/-- **A source runs alike in every way.** If its integers can be read and its tree can be walked, then it has a
    compilation, the same for every caller, whose sink is given the output. The parts of that compilation tell which
    stage ended it. To run the source, or to read it first and run the tree then, comes to the same value or the same
    diagnostic, prints the same values in the same order, whatever was printed before, and gives the same values to any
    other sink. And the command line shows those values and that diagnostic for any file with just this text, as long as
    no line end in it is read as another and the console takes the values. -/
theorem source_runs_alike [CharacterNames] {source : Text}
    (hnumbers : ∀ tokens, Token.scan source = .ok tokens → ∀ t ∈ tokens, t.kind = .number →
      CodePoint.ofChar '.' ∉ t.lexeme → t.lexeme.length ≤ Numeral.limit)
    (hdepth : ∀ program, Node.ofSource source = .ok program → program.depth ≤ Node.maxDepth) :
    ∃ c, (∀ {σ : Type} (caller? : Option (Sink σ)),
        Compilation.ofSourceInto caller? source = (.ok c, caller?.map (·.after c.output))) ∧
      c.TellsStage source ∧ c.AgreesWithRuns source ∧
      ∀ (find : Lookup) (console : Console) (arguments : List Text) (path : Text) (octets : List UInt8),
        Request.ofArguments arguments = .ok ⟨0, none, path⟩ → find (Path.plain path) = .file octets →
        Utf8.decode octets = .ok source → CodePoint.ofChar '\r' ∉ source →
        (∀ v ∈ c.output, console.unwritable? v.display = none) → c.ShownAs (commandLine find console arguments) := by
  obtain ⟨c, hstages⟩ := Compilation.exists_stages hnumbers hdepth
  refine ⟨c, hstages.ofSourceInto_eq, hstages.tellsStage, hstages.agreesWithRuns, ?_⟩
  intro find console arguments path octets hrequest hfile hdecode hreturn hconsole
  have htext : textOf octets = .ok source := by
    rw [textOf, hdecode]
    show Except.ok source.unifyLines = _
    rw [Text.unifyLines_eq_self hreturn]
  rw [commandLine, hrequest]
  exact hstages.shownAs hfile htext hconsole

-- No character is called by its name from here on.
attribute [local instance] CharacterNames.unnamed

/-- A program that prints a text and then divides by zero. -/
def dividing : Text := "print(\"a\"); print(1 / 0);"

/-- The file of that program, and no other entry. -/
def onlyDividing : Lookup := fun path => if path = "dividing.linea" then .file (Utf8.encode dividing) else .absent

/-- **What was printed before an error** is shown before it is reported. -/
theorem dividing_runs_alike : ∃ c, Compilation.ofSource dividing = .ok c ∧
    c.diagnostic? = some (.runtime .divisionByZero) ∧ c.output = [.str "a"] ∧ c.TellsStage dividing ∧
    c.AgreesWithRuns dividing ∧ c.ShownAs (commandLine onlyDividing .octets ["dividing.linea"]) := by
  have hscan : Token.scan dividing = .ok [⟨.printWord, "print", ⟨1, 1, 0⟩⟩, ⟨.lparen, "(", ⟨1, 6, 5⟩⟩,
      ⟨.string, "\"a\"", ⟨1, 7, 6⟩⟩, ⟨.rparen, ")", ⟨1, 10, 9⟩⟩, ⟨.semi, ";", ⟨1, 11, 10⟩⟩,
      ⟨.printWord, "print", ⟨1, 13, 12⟩⟩, ⟨.lparen, "(", ⟨1, 18, 17⟩⟩, ⟨.number, "1", ⟨1, 19, 18⟩⟩,
      ⟨.div, "/", ⟨1, 21, 20⟩⟩, ⟨.number, "0", ⟨1, 23, 22⟩⟩, ⟨.rparen, ")", ⟨1, 24, 23⟩⟩,
      ⟨.semi, ";", ⟨1, 25, 24⟩⟩] := rfl
  have hsource : Node.ofSource dividing = .ok (.program [.print (.string (.str "a")),
      .print (.arith .div (.number (.int 1)) (.number (.int 0)))]) := by
    rw [Node.ofSource, hscan]
    rfl
  have hnumbers : ∀ tokens, Token.scan dividing = .ok tokens → ∀ t ∈ tokens, t.kind = .number →
      CodePoint.ofChar '.' ∉ t.lexeme → t.lexeme.length ≤ Numeral.limit := by
    intro tokens htokens
    rw [hscan] at htokens
    cases htokens
    decide
  have hdepth : ∀ program, Node.ofSource dividing = .ok program → program.depth ≤ Node.maxDepth := by
    intro program hprogram
    rw [hsource] at hprogram
    cases hprogram
    decide
  have hrequest : Request.ofArguments ["dividing.linea"] = .ok ⟨0, none, "dividing.linea"⟩ :=
    Request.ofArguments_path (by decide) (by decide)
  have hends : (Compilation.ofSource dividing).map (fun c => (c.diagnostic?, c.output)) =
      .ok (some (.runtime .divisionByZero), [.str "a"]) := by
    rw [Compilation.ofSource, Compilation.ofSourceInto, hscan]
    rfl
  obtain ⟨c, hcompiled, htells, hagrees, hshown⟩ := source_runs_alike hnumbers hdepth
  have hcompiled : Compilation.ofSource dividing = .ok c := congrArg Prod.fst (hcompiled (none : Option (Sink Unit)))
  rw [hcompiled] at hends
  obtain ⟨hdiagnostic, houtput⟩ := Prod.mk.inj (Except.ok.inj hends)
  have hconsole : ∀ v ∈ c.output, Console.octets.unwritable? v.display = none := by
    intro v hv
    rw [houtput, List.mem_singleton] at hv
    exact hv ▸ rfl
  exact ⟨c, hcompiled, hdiagnostic, houtput, htells, hagrees,
    hshown onlyDividing .octets _ _ _ hrequest rfl (by rfl) (by decide) hconsole⟩

end LineaLang
