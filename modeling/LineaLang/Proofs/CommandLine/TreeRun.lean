import LineaLang.Proofs.CommandLine.TreeFile
import LineaLang.Proofs.Machine.Consoles
import LineaLang.Proofs.Machine.Executable
import LineaLang.Proofs.Machine.Logging

/-!
# `LineaLang.Proofs.CommandLine.TreeRun` — what comes of running a tree file

A tree file that holds no program is reported and nothing runs. A file that holds one is run, and here the reading is
lenient: it asks for a program at the top and lets anything stand below. If the tree is executable, the run ends as
the run of a source does, with status zero or with one line on an error of the language, as long as the console takes
what is shown. If it is not, a run that comes to the misplaced part breaks off without a status (`misplaced_breaks`),
although the file could have been reported before.

## Contents

* `Outcome.EndsAsRun` — the ends that a run is meant to have.
* `Lookup.TakesLog` — what a run needs from the log.
* `treeFile_ends` — what comes of running a tree file.
* `misplaced_breaks` — a program whose first statement is none.
-/

namespace LineaLang.CommandLine

variable {find : Lookup} {console : Console} {verbosity : Nat} {path : Text} {octets : List UInt8}

/-! ## Ends of runs -/

/-- **An end that a run is meant to have**: status zero, or status one and a line on an error of the language. Before
    that there may have been output and a log. -/
inductive Outcome.EndsAsRun : Outcome → Prop where
  | finished (output : Text) (written : List (Text × Text)) : EndsAsRun ⟨output, [], written, .status 0⟩
  | stopped (output : Text) (written : List (Text × Text)) (e : RuntimeError) :
      EndsAsRun ⟨output, Text.ofLines ["Runtime error: " ++ e.message], written, .status 1⟩

/-- **The log can be opened**, if there is to be one. -/
def Lookup.TakesLog (find : Lookup) (verbosity : Nat) : Prop := verbosity = 0 ∨ ∀ fault, find logPath ≠ .faulty fault

/-- **A run comes to what its result says**, apart from the log. -/
theorem exists_runTree_eq (program : Node) (hlog : find.TakesLog verbosity) :
    ∃ written, runTree find console verbosity program =
      { outcomeOfRun (Machine.run program (.start verbosity console)) with written := written } := by
  unfold runTree
  by_cases hzero : verbosity = 0
  · rw [if_pos hzero]
    exact ⟨_, rfl⟩
  · rw [if_neg hzero, withTarget]
    split
    · rename_i fault hfault
      exact absurd hfault (hlog.resolve_left hzero fault)
    · exact ⟨_, rfl⟩

/-- **The run of an executable program ends as a run is meant to.** -/
theorem runTree_ends {statements : List Node} (h : ∀ statement ∈ statements, statement.IsExecutable verbosity)
    (hlog : find.TakesLog verbosity) (hconsole : console.Takes (.program statements) (.start verbosity)) :
    (runTree find console verbosity (.program statements)).EndsAsRun := by
  obtain ⟨written, houtcome⟩ := exists_runTree_eq (.program statements) hlog
  have hsame : SameOutcome _ _ _ (Machine.run (.program statements) (.start verbosity))
      (Machine.run (.program statements) (.start verbosity console)) :=
    Machine.run_on_console (m := .start verbosity) hconsole
  rw [houtcome]
  generalize Machine.run (.program statements) (.start verbosity console) = outcome at hsame ⊢
  rcases Machine.run_executable h with ⟨v, m, hrun⟩ | ⟨e, m, hrun⟩
  · rw [hrun] at hsame
    cases hsame with
    | ok _ => exact .finished _ written
  · rw [hrun] at hsame
    cases hsame with
    | error _ => exact .stopped _ written e
    | excused he => exact he.elim

/-! ## Tree files -/

/-- What is read as a program is one. -/
theorem exists_statements_of_programOfRecord {v : Value} {program : Node} (h : Node.programOfRecord v = .ok program) :
    ∃ statements, program = .program statements := by
  simp only [Node.programOfRecord, bind, Except.bind] at h
  split at h
  · cases h
  · split at h
    · cases h
      exact ⟨_, rfl⟩
    · cases h

theorem exists_statements_of_programOfFile {program : Node} (h : programOfFile octets = .ok program) :
    ∃ statements, program = .program statements := by
  have hmapped : ∀ {v : Value}, (Node.programOfRecord v).mapError TreeFileError.record = .ok program →
      ∃ statements, program = .program statements := by
    intro v h
    cases hrecord : Node.programOfRecord v with
    | error fault =>
      rw [hrecord] at h
      cases h
    | ok node =>
      rw [hrecord] at h
      cases h
      exact exists_statements_of_programOfRecord hrecord
  simp only [programOfFile, bind, Except.bind] at h
  split at h
  · cases h
  · split at h
    · cases h
    · exact hmapped h

/-- Only excessive nesting has no wording. -/
theorem TreeFileError.eq_tooDeep {e : TreeFileError} (h : e.message? = none) : e = .json .tooDeep := by
  cases e with
  | undecodable fault | record fault => cases h
  | json e =>
    cases e with
    | flaw flaw position | numeral fault => cases h
    | tooDeep => rfl

/-- **What comes of running a tree file.** A file that holds no program is reported: the program ends with status one,
    one line says why, and nothing is run, printed or written. Text that is nested too deep to be read ends it
    otherwise. A file that holds a program is run; and if what stands in every place of the tree is what is run there,
    the log can be opened, and the console takes what is shown, then this ends with status zero, or with status one and
    one line on an error of the language. -/
theorem treeFile_ends (find : Lookup) (console : Console) (verbosity : Nat) (path : Text)
    (hfile : find (Path.plain path) = .file octets) :
    (∃ e message, programOfFile octets = .error e ∧ e.message? = some message ∧
      performTree find console verbosity path =
        ⟨[], Text.ofLines ["Error: invalid AST file " ++ path ++ ": " ++ message], [], .status 1⟩) ∨
    (programOfFile octets = .error (.json .tooDeep) ∧
      performTree find console verbosity path = .brokenBy (.tree .tooDeep)) ∨
    ∃ statements, programOfFile octets = .ok (.program statements) ∧
      performTree find console verbosity path = runTree find console verbosity (.program statements) ∧
      ((∀ statement ∈ statements, statement.IsExecutable verbosity) → find.TakesLog verbosity →
        console.Takes (.program statements) (.start verbosity) → (performTree find console verbosity path).EndsAsRun) := by
  cases hprogram : programOfFile octets with
  | error e =>
    cases hmessage : e.message? with
    | some message =>
      refine .inl ⟨e, message, rfl, hmessage, ?_⟩
      simp only [performTree, withOctets, hfile, hprogram, hmessage]
      rfl
    | none =>
      obtain rfl := e.eq_tooDeep hmessage
      refine .inr (.inl ⟨rfl, ?_⟩)
      simp only [performTree, withOctets, hfile, hprogram, hmessage]
  | ok program =>
    obtain ⟨statements, rfl⟩ := exists_statements_of_programOfFile hprogram
    have hperform : performTree find console verbosity path = runTree find console verbosity (.program statements) := by
      simp only [performTree, withOctets, hfile, hprogram]
    refine .inr (.inr ⟨statements, rfl, hperform, fun h hlog hconsole => ?_⟩)
    rw [hperform]
    exact runTree_ends h hlog hconsole

/-- `print("a" < "b");`, whose tree the grammar does not yield. -/
def printedComparison : List Node := [.print (.comparison .lt (.string (.str "a")) (.string (.str "b")))]

/-- **A comparison can be printed** from a tree file, with any notes. -/
theorem printedComparison_ends :
    (performTree (fun _ => .file (Utf8.encode (Json.write (Node.program printedComparison).toRecord))) .octets 3
      "p.json").EndsAsRun := by
  have hg : (Node.program printedComparison).All Node.Grammatical := by
    simp only [printedComparison, Node.All, Node.AllOf, Node.Grammatical]
    decide
  have hs : (Node.program printedComparison).All Node.SurrogateFree := by
    exact ⟨trivial, ⟨trivial, trivial, ⟨.ofString, trivial⟩, .ofString, trivial⟩, trivial⟩
  have hread := programOfFile_record hg hs (by decide)
  have hexecutable : ∀ statement ∈ printedComparison, statement.IsExecutable 3 :=
    List.forall_mem_singleton.mpr (.print (.comparison .lt (.string (.inr .ofString)) (.string (.inr .ofString))))
  have hconsole : Console.octets.Takes (.program printedComparison) (.start 3) := by
    have hshown : (Run.leftBy (Machine.run (.program printedComparison) (.start 3))).consoleLines =
        [Text.ofString "true"] := by decide +kernel
    intro line (hline : line ∈ (Run.leftBy (Machine.run (.program printedComparison) (.start 3))).consoleLines)
    rw [hshown, List.mem_singleton] at hline
    exact hline ▸ rfl
  rcases treeFile_ends (fun _ => .file (Utf8.encode (Json.write (Node.program printedComparison).toRecord))) .octets 3
    "p.json" rfl with ⟨e, _, he, -⟩ | ⟨he, -⟩ | ⟨statements, hstatements, -, hends⟩
  · rw [hread] at he
    cases he
  · rw [hread] at he
    cases he
  · rw [hread] at hstatements
    cases hstatements
    refine hends hexecutable (.inr fun fault hfault => ?_) hconsole
    cases hfault

/-! ## Misplaced nodes -/

/-- **A node that can be executed**, whatever its parts. -/
def standsAsStatement : Node → Bool
  | .expression _ | .print _ | .ret _ | .declare .. | .function .. | .block _ | .ifElse .. | .whileLoop .. => true
  | _ => false

/-- **A run stops at a statement that is none.** -/
theorem executeAll_misplaced {node : Node} (h : standsAsStatement node = false) (rest : List Node) (m : Machine) :
    Machine.executeAll (node :: rest) m = .error (.fault (.unexpected .execution node.kind)) m := by
  have hnode : ∀ parts : Meaning, Meaning.executeBy parts node = Run.misfit (.unexpected .execution node.kind) := by
    intro parts
    cases node <;> first | rfl | cases h
  -- Two levels are opened before the node is looked at, and there are more than that.
  have hexecute : (Meaning.withLevels (Meaning.maxLevels - 1)).execute node m =
      .error (.fault (.unexpected .execution node.kind)) m := by
    show Meaning.executeBy (Meaning.withLevels (Meaning.maxLevels - 2)) node m = _
    rw [hnode]
    rfl
  show Meaning.executeAllBy (Meaning.withLevels (Meaning.maxLevels - 1)) (node :: rest) m = _
  simp only [Meaning.executeAllBy, bind, EStateM.bind, hexecute]

/-- **A tree file whose first statement is none** is taken for a program, and its run breaks off without a status. -/
theorem misplaced_breaks (hfile : find (Path.plain path) = .file octets) {node : Node} {rest : List Node}
    (hprogram : programOfFile octets = .ok (.program (node :: rest))) (hnode : standsAsStatement node = false)
    (hlog : find.TakesLog verbosity) :
    (performTree find console verbosity path).ending = .broken (.tree (.unexpected .execution node.kind)) := by
  have hrun : ∃ m, m.consoleLines = [] ∧ Machine.run (.program (node :: rest)) (.start verbosity) =
      .error (.fault (.unexpected .execution node.kind)) m := by
    rw [run_eq_after_started]
    unfold Machine.closingLog Machine.runAll
    rw [executeAll_misplaced hnode]
    exact ⟨_, rfl, rfl⟩
  obtain ⟨m, hshown, hrun⟩ := hrun
  -- Nothing has been shown so far, so it does not matter which lines the console takes.
  have hconsole : console.Takes (.program (node :: rest)) (.start verbosity) := by
    intro line hline
    rw [show Run.leftBy (Machine.run (.program (node :: rest)) ((Machine.start verbosity).on .anyText)) = m from
      congrArg Run.leftBy hrun, hshown] at hline
    cases hline
  have hsame : SameOutcome _ _ _ (Machine.run (.program (node :: rest)) (.start verbosity))
      (Machine.run (.program (node :: rest)) (.start verbosity console)) := Machine.run_on_console hconsole
  have hperform : performTree find console verbosity path = runTree find console verbosity (.program (node :: rest)) := by
    simp only [performTree, withOctets, hfile, hprogram]
  obtain ⟨written, houtcome⟩ := exists_runTree_eq (.program (node :: rest)) hlog
  rw [hperform, houtcome]
  generalize Machine.run (.program (node :: rest)) (.start verbosity console) = outcome at hsame ⊢
  rw [hrun] at hsame
  cases hsame with
  | error _ => rfl
  | excused he => exact he.elim

end LineaLang.CommandLine
