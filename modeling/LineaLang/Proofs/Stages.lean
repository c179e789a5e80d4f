import LineaLang.Compilation
import LineaLang.Proofs.Machine.Output
import LineaLang.Proofs.Parsing.Refusals
import LineaLang.Proofs.Programs
import LineaLang.Proofs.Scanning.Layout

/-!
# `LineaLang.Proofs.Stages` — how a compilation ends

A compilation is one of four, by the stage that ended it: a diagnostic of scanning, of reading or of the run, or the
value that the run returned. Two things keep a source from having one. Both are limits and not errors of the language,
and nothing turns them into diagnostics. An integer may have more digits than are read, and reading stops there if it
comes so far; a string that cannot be read is refused in the same place. And a tree may be too deep to be listed, which
an operator chain of any length is as soon as it is long enough: no level of nesting is open in it. A run would end with
a diagnostic there, but the listing comes first.

The sink of the caller has no say in this. A compilation keeps each value and hands it on, so in the end the sink has
been given just the output.

## Contents

* `Compilation.Stages` — the four compilations.
* `Compilation.Unreported` — the two failures that are no diagnostic.
* `Compilation.forwarding_after` — what the sink of a compilation keeps, and what it hands on.
* `compilation_ends` — one or the other comes of every source.
* `Compilation.exists_stages` — the compilation of a source that keeps within the limits.
* `longInteger_unreported` — sources of the first kind.
-/

namespace LineaLang

namespace Compilation

/-- **A compilation, by the stage that ended it.** -/
inductive Stages [CharacterNames] (source : Text) : Compilation → Prop where
  | scanning {e : LexError} (hscan : Token.scan source = .error e) :
      Stages source
        { tokens := [], program? := none, listing := [], output := [], returned := .none
          diagnostic? := some (.lex e) }
  | reading {tokens : List Token} {e : ParseError} (hscan : Token.scan source = .ok tokens)
      (hread : Node.ofTokens tokens = .error (.refused e)) :
      Stages source
        { tokens := tokens, program? := none, listing := [], output := [], returned := .none
          diagnostic? := some (.parse e) }
  | running {tokens : List Token} {program : Node} {listing : List Text} {e : RuntimeError} {m : Machine}
      (hscan : Token.scan source = .ok tokens) (hread : Node.ofTokens tokens = .ok program)
      (hlisting : program.listingLines = .ok listing) (hrun : Machine.run program (.start 0) = .error (.error e) m) :
      Stages source
        { tokens := tokens, program? := some program, listing := listing, output := m.output, returned := .none
          diagnostic? := some (.runtime e) }
  | returning {tokens : List Token} {program : Node} {listing : List Text} {v : Value} {m : Machine}
      (hscan : Token.scan source = .ok tokens) (hread : Node.ofTokens tokens = .ok program)
      (hlisting : program.listingLines = .ok listing) (hrun : Machine.run program (.start 0) = .ok v m) :
      Stages source
        { tokens := tokens, program? := some program, listing := listing, output := m.output, returned := v
          diagnostic? := none }

/-- **A failure that no diagnostic reports.** -/
inductive Unreported [CharacterNames] (source : Text) : Failure → Prop where
  /-- Reading comes to an integer with more digits than are read. -/
  | longInteger {tokens : List Token} {t : Token} (hscan : Token.scan source = .ok tokens) (hmem : t ∈ tokens)
      (hkind : t.kind = .number) (hpoint : CodePoint.ofChar '.' ∉ t.lexeme) (hlong : Numeral.limit < t.lexeme.length)
      (hread : Node.ofTokens tokens = .error (.numeral (.tooLong t.lexeme.length))) :
      Unreported source (.numeral (.tooLong t.lexeme.length))
  /-- The tree is too deep to be listed. -/
  | deepTree {tokens : List Token} {program : Node} (hscan : Token.scan source = .ok tokens)
      (hread : Node.ofTokens tokens = .ok program) (hdeep : Node.maxDepth < program.depth) :
      Unreported source (.tree .tooDeep)

/-! ## Sinks -/

section

variable {σ : Type}

/-- **The sink of a compilation** keeps the values and hands them on, both in order. -/
theorem forwarding_after (caller? : Option (Sink σ)) (values : List Value) :
    ((forwarding caller?).after values).state = (values, caller?.map (·.after values)) := by
  have hgiven : ∀ (sink : Sink (List Value × Option (Sink σ))) (output : List Value) (left? : Option (Sink σ)),
      sink.take = (forwarding caller?).take → sink.state = (output, left?) →
      (sink.after values).state = (output ++ values, left?.map (·.after values)) := by
    induction values with
    | nil =>
      intro sink output left? _ hstate
      cases left? <;> simp [hstate]
    | cons v rest ih =>
      intro sink output left? htake hstate
      have hnext : (sink.given v).state = (output ++ [v], left?.map (·.given v)) := by
        show sink.take sink.state v = _
        rw [htake, hstate]
        rfl
      rw [Sink.after_cons, ih (sink.given v) _ _ htake hnext, Option.map_map, List.append_assoc]
      rfl
  exact hgiven (forwarding caller?) [] caller? rfl rfl

end

/-! ## Every source -/

theorem listingLines_of_deep {program : Node} (h : program.IsProgram Value.Any)
    (hdeep : Node.maxDepth < program.depth) : program.listingLines = .error .tooDeep := by
  obtain ⟨statements, rfl, -⟩ := h
  rw [Node.listingLines, Node.listing, Node.walk, if_neg (Nat.not_le.mpr hdeep)]
  rfl

section

variable [CharacterNames] {σ : Type} {source : Text} {c : Compilation}

/-- **What a stage has ended is the compilation**, whoever takes its values; and the caller's sink is given these. -/
theorem Stages.ofSourceInto_eq (h : c.Stages source) (caller? : Option (Sink σ)) :
    ofSourceInto caller? source = (.ok c, caller?.map (·.after c.output)) := by
  have hgiven : caller?.map (·.after []) = caller? := by cases caller? <;> rfl
  cases h with
  | scanning hscan => simp only [ofSourceInto, hscan, hgiven, empty]
  | reading hscan hread => simp only [ofSourceInto, hscan, hread, hgiven, empty]
  | running hscan hread hlisting hrun | returning hscan hread hlisting hrun =>
    simp only [ofSourceInto, hscan, hread, hlisting, hrun, afterRun, forwarding_after, empty]

/-- What is unreported is why there is no compilation. The run has not begun then. -/
theorem Unreported.ofSourceInto_eq {failure : Failure} (h : Unreported source failure) (caller? : Option (Sink σ)) :
    ofSourceInto caller? source = (.error failure, caller?) := by
  cases h with
  | longInteger hscan _ _ _ _ hread => simp only [ofSourceInto, hscan, hread]
  | deepTree hscan hread hdeep =>
    have hprogram := Node.isProgram_of_tokens (Token.wellSpelled_of_scan hscan) hread
    simp only [ofSourceInto, hscan, hread, listingLines_of_deep hprogram hdeep]

/-- **A stage ends the compilation of a source, or there is an unreported failure.** -/
theorem stages_or_unreported (source : Text) :
    (∃ c : Compilation, c.Stages source) ∨ ∃ failure, Unreported source failure := by
  cases hscan : Token.scan source with
  | error e => exact .inl ⟨_, .scanning hscan⟩
  | ok tokens =>
    have hspelled := Token.wellSpelled_of_scan hscan
    cases hread : Node.ofTokens tokens with
    | error failure =>
      cases failure with
      | refused e => exact .inl ⟨_, .reading hscan hread⟩
      | numeral fault =>
        obtain ⟨t, hmem, hkind, hvalue⟩ := exists_number_of_ofTokens hread
        have hlexeme := hspelled t hmem
        rw [Token.WellSpelled, hkind] at hlexeme
        obtain ⟨hpoint, hlong, rfl⟩ := long_of_numberValue_error hlexeme hvalue
        exact .inr ⟨_, .longInteger hscan hmem hkind hpoint hlong hread⟩
    | ok program =>
      have hprogram := Node.isProgram_of_tokens hspelled hread
      by_cases hdepth : program.depth ≤ Node.maxDepth
      · obtain ⟨listing, hlisting⟩ := (hprogram.viewable hdepth).listingLines
        have hends : Machine.RunsWell 0 program := hprogram.runsWell (.inl Nat.two_pos)
        unfold Machine.RunsWell at hends
        cases hrun : Machine.run program (.start 0) with
        | ok v m => exact .inl ⟨_, .returning hscan hread hlisting hrun⟩
        | error failure m =>
          rw [hrun] at hends
          cases hends with
          | error _ he =>
            obtain ⟨e, rfl⟩ := he
            exact .inl ⟨_, .running hscan hread hlisting hrun⟩
      · exact .inr ⟨_, .deepTree hscan hread (Nat.not_le.mp hdepth)⟩

/-- **A stage ends the compilation of every source**, if its integers can be read and its tree can be walked. -/
theorem exists_stages
    (hnumbers : ∀ tokens, Token.scan source = .ok tokens → ∀ t ∈ tokens, t.kind = .number →
      CodePoint.ofChar '.' ∉ t.lexeme → t.lexeme.length ≤ Numeral.limit)
    (hdepth : ∀ program, Node.ofSource source = .ok program → program.depth ≤ Node.maxDepth) :
    ∃ c : Compilation, c.Stages source := by
  refine (stages_or_unreported source).resolve_right ?_
  rintro ⟨failure, hunreported⟩
  cases hunreported with
  | longInteger hscan hmem hkind hpoint hlong _ =>
    exact absurd (hnumbers _ hscan _ hmem hkind hpoint) (Nat.not_le.mpr hlong)
  | deepTree hscan hread hdeep =>
    refine absurd (hdepth _ ?_) (Nat.not_le.mpr hdeep)
    rw [Node.ofSource_of_scan hscan, hread]
    rfl

end

end Compilation

open Compilation in
/-- **How a compilation ends**, for every source and every caller. If there is one, a stage ended it, with a diagnostic
    of that stage or with the value of the run, and the caller's sink has been given the output, in order. There is none
    exactly if reading comes to an integer that is too long, or the tree is too deep to be listed; and these are the
    failures. The sink has been given nothing then. -/
theorem compilation_ends [CharacterNames] {σ : Type} (caller? : Option (Sink σ)) (source : Text) :
    (∀ c left?, Compilation.ofSourceInto caller? source = (.ok c, left?) →
      c.Stages source ∧ left? = caller?.map (·.after c.output)) ∧
      ∀ failure left?, Compilation.ofSourceInto caller? source = (.error failure, left?) ↔
        Unreported source failure ∧ left? = caller? := by
  rcases stages_or_unreported source with ⟨c, hstages⟩ | ⟨failure, hunreported⟩
  · have hcompiled := hstages.ofSourceInto_eq caller?
    refine ⟨fun c' left? h => ?_, fun failure left? => ⟨fun h => ?_, fun ⟨h, hleft⟩ => ?_⟩⟩
    · rw [hcompiled] at h
      cases h
      exact ⟨hstages, rfl⟩
    · rw [hcompiled] at h
      cases h
    · rw [hleft, h.ofSourceInto_eq caller?]
  · have hfails := hunreported.ofSourceInto_eq caller?
    refine ⟨fun c left? h => ?_, fun failure' left? => ⟨fun h => ?_, fun ⟨h, hleft⟩ => ?_⟩⟩
    · rw [hfails] at h
      cases h
    · rw [hfails] at h
      cases h
      exact ⟨hunreported, rfl⟩
    · rw [hleft, h.ofSourceInto_eq caller?]

/-! ## Long integers -/

section

variable {digits : Text}

/-- The tokens of a run of digits and a semicolon. -/
def numberStatement (digits : Text) : List Token :=
  [⟨.number, digits, .start⟩, ⟨.semi, ";", Position.start.after digits⟩]

theorem longestLexeme_digits (h : digits.IsRun CodePoint.isDigit) :
    LongestLexeme (some .number) digits (digits ++ Text.ofString ";") := by
  have hne : digits.length ≠ 0 := fun hzero => h.1 (List.length_eq_zero_iff.mp hzero)
  have hrun : runLength CodePoint.isDigit (digits ++ Text.ofString ";") = digits.length := by
    rw [runLength_append h.2]
    rfl
  have hlength : numberLength (digits ++ Text.ofString ";") = digits.length := by
    unfold numberLength
    simp only [hrun, List.drop_left]
    rw [if_neg hne]
    rfl
  refine longestLexeme_iff.mpr ⟨List.prefix_append _ _, ?_⟩
  rw [← hlength] at hne ⊢
  obtain ⟨c, more, rfl⟩ := List.exists_cons_of_ne_nil h.1
  exact lexemeAt?_number (h.2 c List.mem_cons_self) hne

theorem scan_numberStatement (h : digits.IsRun CodePoint.isDigit) :
    Token.scan (digits ++ Text.ofString ";") = .ok (numberStatement digits) := by
  rw [Token.scan, Token.scanFrom_lexeme _ (longestLexeme_digits h), List.drop_left]
  rfl

open Grammar in
/-- Reading stops at the first token if that is a number without a value. -/
theorem ofTokens_numberStatement [CharacterNames] {fault : NumeralFault} (h : Grammar.numberValue digits = .error fault) :
    Node.ofTokens (numberStatement digits) = .error (.numeral fault) := by
  have hprimary : ∀ expr : Reading Node, primary expr (numberStatement digits) =
      .error (.numeral fault) [⟨.semi, ";", Position.start.after digits⟩] := by
    intro expr
    simp [primary, numberStatement, bind, EStateM.bind, expect, primaryStart, h, fail]
  have hexpression : ∀ expr : Reading Node, assignment expr (numberStatement digits) =
      .error (.numeral fault) [⟨.semi, ";", Position.start.after digits⟩] := by
    intro expr
    simp only [numberStatement] at hprimary ⊢
    simp [assignment, additive, multiplicative, chain, unary, bind, EStateM.bind, lookingAt, hprimary]
  have hstatement : statementAt maxLevels (numberStatement digits) =
      .error (.numeral fault) [⟨.semi, ";", Position.start.after digits⟩] := by
    show statement (statementAt 99) (assignment (expressionAt 98)) (numberStatement digits) = _
    simp only [numberStatement] at hexpression ⊢
    simp [statement, expressionStatement, bind, EStateM.bind, hexpression]
  refine ofTokens_eq_error_iff.mpr ⟨.numeral fault, [⟨.semi, ";", Position.start.after digits⟩], ?_, rfl⟩
  simp only [numberStatement] at hstatement ⊢
  simp [programReading, repeatUntil, repeatAlong, bind, EStateM.bind, atEnd, hstatement]

theorem numberValue_of_long (h : digits.IsRun CodePoint.isDigit) (hlong : Numeral.limit < digits.length) :
    Grammar.numberValue digits = .error (.tooLong digits.length) := by
  cases hvalue : Grammar.numberValue digits with
  | ok v =>
    have hshort := (numberValue_iff (.whole h)).mp ⟨v, hvalue⟩ (h.not_mem '.' (by decide))
    exact absurd hshort (Nat.not_le.mpr hlong)
  | error fault =>
    obtain ⟨-, -, rfl⟩ := long_of_numberValue_error (.whole h) hvalue
    rfl

/-- **A statement that is only an integer** has no compilation if the integer has too many digits. -/
theorem longInteger_unreported [CharacterNames] (h : digits.IsRun CodePoint.isDigit) (hlong : Numeral.limit < digits.length) :
    Compilation.ofSource (digits ++ Text.ofString ";") = .error (.numeral (.tooLong digits.length)) := by
  simp only [Compilation.ofSource, Compilation.ofSourceInto, scan_numberStatement h, ofTokens_numberStatement (numberValue_of_long h hlong)]

end

end LineaLang
