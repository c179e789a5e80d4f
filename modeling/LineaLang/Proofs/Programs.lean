import LineaLang.Proofs.Machine.Safety
import LineaLang.Proofs.Parsing.Trees
import LineaLang.Proofs.Tree.Views
import LineaLang.Proofs.Tree.Within

/-!
# `LineaLang.Proofs.Programs` — what is done with the program of some tokens

The grammar yields well-formed programs, and these serve all that is done with them: they are listed, recorded and
outlined, and they are run. A run gives a value or ends in an error of the language, and deals in values of a few
kinds on the way: numbers, texts and the absent value. An integer never gets too long to be written, since literals
are not and no result of arithmetic exceeds the greatest double.

One thing stands between a program and the end of its run. The log is a file, and files take no surrogates: where
values are noted, from verbosity two on, a string with a surrogate in it ends the run. Below that a note holds names and
numbers only, which files take.

## Contents

* `Text.IsLoggable`, `Value.IsSimple` — what a program computes with.
* `valueRules_isSimple` — literals and arithmetic give nothing else.
* `Node.IsProgram.runsWell` — the run of a well-formed program.
* `program_serves` — the views of a program, and its run.
* `surrogate_unwritable` — a surrogate and an open log.
-/

namespace LineaLang

attribute [local instance (2000)] instPowNat

/-! ## Values of programs -/

/-- **A text that can be noted**, if notes of a level are taken at all. -/
def Text.IsLoggable (level verbosity : Nat) (text : Text) : Prop := verbosity < level ∨ text.SurrogateFree

/-- **A value as programs compute it**: nothing, a number that can be written, or a text that can be noted if values
    are. -/
def Value.IsSimple (verbosity : Nat) : Value → Prop
  | .none => True
  | .int n => (Numeral.ofNat n.natAbs).length ≤ Numeral.limit
  | .float _ => True
  | .str text => text.IsLoggable 2 verbosity
  | _ => False

section

variable {level verbosity : Nat}

theorem Text.IsLoggable.append {a b : Text} (ha : a.IsLoggable level verbosity) (hb : b.IsLoggable level verbosity) :
    Text.IsLoggable level verbosity (a ++ b) := by
  rcases ha with hquiet | ha
  · exact .inl hquiet
  · exact hb.imp_right ha.append

/-- What is displayed of a simple value can be noted. -/
theorem Value.IsSimple.isLoggable_display {v : Value} (h : v.IsSimple verbosity) :
    v.display.IsLoggable 2 verbosity := by
  cases v with
  | none => exact .inr .ofString
  | int n => exact .inr (.of_isVisible (Numeral.isVisible_ofInt n))
  | float x => exact .inr (.of_isVisible x.isVisible_display)
  | str text => exact h
  | bool _ | list _ | dict _ => cases h

/-- A number has no more decimal digits than binary ones. -/
theorem Nat.pred_two_pow_mul_lt {a b k : Nat} (h : a + b ≤ k) : (2 ^ a - 1) * 2 ^ b < 10 ^ k := by
  have hbinary : (2 ^ a - 1) * 2 ^ b < 2 ^ (a + b) := by
    rw [Nat.pow_add]
    exact Nat.mul_lt_mul_of_pos_right (Nat.sub_lt (Nat.two_pow_pos a) Nat.one_pos) (Nat.two_pow_pos b)
  calc (2 ^ a - 1) * 2 ^ b < 2 ^ (a + b) := hbinary
    _ ≤ 10 ^ (a + b) := Nat.pow_le_pow_left (by decide) _
    _ ≤ 10 ^ k := Nat.pow_le_pow_right (by decide) h

/-- An integer in the range of the doubles has few enough digits to be written. -/
theorem length_ofNat_of_intInRange {n : Int} (h : Value.intInRange n = true) :
    (Numeral.ofNat n.natAbs).length ≤ Numeral.limit := by
  rw [Value.intInRange, decide_eq_true_eq] at h
  rw [Numeral.length_ofNat_le_iff (by decide)]
  exact Nat.lt_of_le_of_lt h (Nat.pred_two_pow_mul_lt (by decide))

/-- **Arithmetic on simple values gives simple values.** -/
theorem Value.IsSimple.arith {op : ArithOp} {a b v : Value} (ha : a.IsSimple verbosity) (hb : b.IsSimple verbosity)
    (h : Calculation.arith op a b = .ok v) : v.IsSimple verbosity := by
  unfold Calculation.arith at h
  split at h
  · cases h
    exact ha.isLoggable_display.append hb.isLoggable_display
  · split at h
    · split at h
      · cases h
      · split at h
        · rename_i r _
          split at h
          · rename_i hrange
            cases h
            cases r with
            | int n => exact length_ofNat_of_intInRange hrange
            | float x => trivial
          · cases h
        · cases h
    · cases h

end

/-- What is known of the literals of a program whose strings can be noted. -/
abbrev Value.IsSimpleLiteral (verbosity : Nat) (v : Value) : Prop := Value.Any v ∧ v.IsSimple verbosity

theorem valueRules_isSimple (verbosity : Nat) :
    ValueRules (Value.IsSimpleLiteral verbosity) (Value.IsSimple verbosity) where
  none := trivial
  number _ h := h.2
  string h := h.2
  arith := Value.IsSimple.arith

theorem loggable_isSimple (verbosity : Nat) : Value.Loggable (Value.IsSimple verbosity) verbosity := by
  by_cases hquiet : verbosity < 2
  · exact .inl hquiet
  · exact .inr fun v hv => hv.isLoggable_display.resolve_left hquiet

/-- The literals of a program are simple, if files take its strings or no values are noted. -/
theorem Node.allLiterals_isSimple {program : Node} {verbosity : Nat} (hg : program.All Grammatical)
    (hs : verbosity < 2 ∨ program.All SurrogateFree) : program.AllLiterals (Value.IsSimple verbosity) := by
  refine allLiterals_of_within hg (fun v hv _ => ?_) fun text hwithin => ?_
  · cases v with
    | int n => exact hv
    | float x => trivial
    | none | bool _ | str _ | list _ | dict _ => cases hv
  · exact hs.imp_right fun hs => all_iff_within.mp hs _ hwithin

/-! ## Programs -/

/-- **A run that ends well**, on a machine that noted nothing before: it gives a simple value or stops with an error of
    the language, and all values that are bound or printed are simple. -/
abbrev Machine.RunsWell (verbosity : Nat) (program : Node) : Prop :=
  Expected (Machine.Orderly (Value.IsSimpleLiteral verbosity) (Value.IsSimple verbosity) verbosity)
    (Value.IsSimple verbosity) (fun failure => ∃ e, failure = .error e)
    (Machine.run program (.start verbosity))

/-- **The run of a well-formed program ends well**, if no values are noted or no string in it holds a surrogate. -/
theorem Node.IsProgram.runsWell {program : Node} {verbosity : Nat} (h : program.IsProgram Value.Any)
    (hs : verbosity < 2 ∨ program.All Node.SurrogateFree) : Machine.RunsWell verbosity program := by
  have hliterals := h.and (Node.allLiterals_isSimple h.all_grammatical hs)
  exact Machine.endsWell_run (valueRules_isSimple verbosity) (loggable_isSimple verbosity) hliterals _
    Machine.orderly_start

/-- **The program of some tokens serves all that is done with it.** It is well-formed. If it is not too deep to be
    walked, its listing, its record and its outline are there. And its run on a new machine ends well, if no values are
    noted, as below verbosity two, or no string in it holds a surrogate. -/
theorem program_serves [CharacterNames] {tokens : List Token} {program : Node} (hspelled : ∀ t ∈ tokens, t.WellSpelled)
    (h : Node.ofTokens tokens = .ok program) :
    program.IsProgram Value.Any ∧
    (program.depth ≤ Node.maxDepth → program.Viewable) ∧
    ∀ verbosity, (verbosity < 2 ∨ program.All Node.SurrogateFree) → Machine.RunsWell verbosity program := by
  have hprogram := Node.isProgram_of_tokens hspelled h
  exact ⟨hprogram, hprogram.viewable, fun _ => hprogram.runsWell⟩

-- No character is called by its name from here on.
attribute [local instance] CharacterNames.unnamed

/-- The tokens of `return "x" - "y";`. -/
def subtracting : List Token :=
  [⟨.returnWord, "return", ⟨1, 1, 0⟩⟩, ⟨.string, "\"x\"", ⟨1, 8, 7⟩⟩, ⟨.minus, "-", ⟨1, 12, 11⟩⟩,
    ⟨.string, "\"y\"", ⟨1, 14, 13⟩⟩, ⟨.semi, ";", ⟨1, 17, 16⟩⟩]

/-- **A misused operator is an error of the language**, and is noted as one. -/
theorem subtracting_serves : ∃ program, Node.ofTokens subtracting = .ok program ∧
    program.IsProgram Value.Any ∧ program.Viewable ∧ Machine.RunsWell 2 program := by
  have hscan : Token.scan "return \"x\" - \"y\";" = .ok subtracting := rfl
  have hread : Node.ofTokens subtracting =
      .ok (.program [.ret (.arith .sub (.string (.str "x")) (.string (.str "y")))]) := rfl
  have hserves := program_serves (Token.wellSpelled_of_scan hscan) hread
  have hs : Node.All Node.SurrogateFree (.program [.ret (.arith .sub (.string (.str "x")) (.string (.str "y")))]) := by
    simp only [Node.All, Node.AllOf, Node.SurrogateFree, Text.SurrogateFree]
    decide
  exact ⟨_, hread, hserves.1, hserves.2.1 (by decide), hserves.2.2 2 (.inr hs)⟩

/-- The tokens of `let x = "\ud800";`. -/
def surrogate : List Token :=
  [⟨.letWord, "let", ⟨1, 1, 0⟩⟩, ⟨.ident, "x", ⟨1, 5, 4⟩⟩, ⟨.assign, "=", ⟨1, 7, 6⟩⟩,
    ⟨.string, "\"\\ud800\"", ⟨1, 9, 8⟩⟩, ⟨.semi, ";", ⟨1, 17, 16⟩⟩]

theorem scan_surrogate : Token.scan "let x = \"\\ud800\";" = .ok surrogate := rfl

theorem read?_surrogate : Literal.read? "\"\\ud800\"" = some (.str [CodePoint.ofNat 0xD800]) := by
  have htext : (Literal.read? "\"\\ud800\"").map Value.plain = some [CodePoint.ofNat 0xD800] := by decide +kernel
  obtain ⟨v, hv, hplain⟩ := Option.map_eq_some_iff.mp htext
  have hmem : (⟨.string, "\"\\ud800\"", ⟨1, 9, 8⟩⟩ : Token) ∈ surrogate := by decide
  have hstring : StringLexeme "\"\\ud800\"" := Token.wellSpelled_of_scan scan_surrogate _ hmem
  obtain ⟨text, rfl⟩ := read?_of_stringLexeme hstring hv
  rw [hv, show text = [CodePoint.ofNat 0xD800] from hplain]

/-- The tree is that of a derivation, so the literal need not be read again. -/
theorem ofTokens_surrogate : Node.ofTokens surrogate =
    .ok (.program [.declare (.str "x") (.string (.str [CodePoint.ofNat 0xD800]))]) := by
  refine ofTokens_eq_ok_iff.mpr ⟨.program (.statements (.ofVariable (.variableDeclaration
    ⟨⟨.letWord, "let", ⟨1, 1, 0⟩⟩, by decide⟩ ⟨⟨.ident, "x", ⟨1, 5, 4⟩⟩, by decide⟩
    ⟨⟨.assign, "=", ⟨1, 7, 6⟩⟩, by decide⟩
    (.expression (.sum (.additive (.multiplicative (.plain
      (.string ⟨⟨.string, "\"\\ud800\"", ⟨1, 9, 8⟩⟩, by decide⟩)) .noFactors) .noAddends)))
    ⟨⟨.semi, ";", ⟨1, 17, 16⟩⟩, by decide⟩)) .noStatements), ?_, rfl, ?_⟩
  · exact ⟨⟨by decide, by decide, ⟨⟨nofun, fun _ => ⟨_, read?_surrogate⟩⟩, trivial⟩, trivial⟩, trivial⟩
  · show Node.program [.declare (.str "x") (.string ((Literal.read? "\"\\ud800\"").getD .none))] = _
    rw [read?_surrogate]
    rfl

/-- **A surrogate ends a run that notes declarations**: neither a value comes of it nor an error of the language. -/
theorem surrogate_unwritable : (∀ t ∈ surrogate, t.WellSpelled) ∧
    ∃ program, Node.ofTokens surrogate = .ok program ∧
      ∃ cause m, Machine.run program (.start 2) = .error (.unwritable cause) m := by
  have hrun : Machine.run (.program [.declare (.str "x") (.string (.str [CodePoint.ofNat 0xD800]))]) (.start 2) =
      .error (.unwritable ⟨CodePoint.ofNat 0xD800, 17, 1⟩)
        { Machine.start 2 with
          scope := Scope.empty.setGlobal (.str "x") (.str [CodePoint.ofNat 0xD800])
          logOpen := false
          notes := [.started 1] } := by
    -- The start of the run can be noted, the declaration cannot.
    have hline : (Note.started 1).line.SurrogateFree :=
      .append (.append .ofString (Numeral.surrogateFree_ofNat 1)) .ofString
    have hwritable : (Machine.start 2).unwritable? (.started 1) = none := Utf8.unencodable?_eq_none_iff.mpr hline
    have hstarted : Run.note (.started 1) (.start 2) = .ok () ((Machine.start 2).noted (.started 1)) := by
      unfold Run.note
      rw [hwritable]
      rfl
    simp only [Machine.run, Node.statements?, List.length_cons, List.length_nil, Bind.bind, EStateM.bind, hstarted]
    rfl
  exact ⟨Token.wellSpelled_of_scan scan_surrogate, _, ofTokens_surrogate, _, _, hrun⟩

end LineaLang
