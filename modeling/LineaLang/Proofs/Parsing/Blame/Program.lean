import LineaLang.Proofs.Parsing.Blame.Statement
import LineaLang.Proofs.Parsing.Program

/-!
# `LineaLang.Proofs.Parsing.Blame.Program` — a refusal blames the first token that fits no program

Refusals have the correct-prefix property: the tokens before the blamed one begin a program, no program begins with
them and the blamed token, and each kind of token that is named as expected could have gone on. Programs may be nested
here as deeply as they like, since the tokens before the blamed one may have used up all the levels there are.

## Contents

* `programs` — the token lists that are programs.
* `ParseError.HasCorrectPrefix` — what a refusal says of the tokens.
* `refusal_hasCorrectPrefix` — every refusal that names what was expected says so with right.
-/

namespace LineaLang

open Grammar

open scoped Computability

variable {tokens before left : List Token}

/-! ## Programs -/

section

variable [CharacterNames]

/-- **The token lists that are programs**, if as many levels may be opened as it takes. -/
def programs : Language Token :=
  {tokens | ∃ levels program, programReading (statementAt levels) tokens = .ok program []}

theorem words_program_le (n : Nat) : words .program n ≤ programs := by
  rintro _ ⟨d, hd, rfl⟩
  exact ⟨n, d.tree, (finds_programReading n).mpr ⟨d, hd, rfl, by rw [List.append_nil], rfl⟩⟩

theorem reads_programReading (n : Nat) {P : List Token → Prop} :
    Reads P (programReading (statementAt n)) (words .program (n + 1)) := by
  have hprogram : (words .statement (n + 1))∗ * 1 ≤ words .program (n + 1) := by
    rw [mul_one]
    exact statements_le.trans (words_le .program (fun _ => rfl) fun _ h => h)
  refine Reads.le ?_ hprogram
  exact Reads.repeatUntil asks_atEnd ((finds_statementAt n).takes rfl) (reads_atEnd.le le_self_add)
    (reads_statementAt n) fun statements => .pure (Node.program statements)

/-! ## Refusals -/

/-- Every kind has a token that can be read. -/
theorem exists_legible (kind : TokenKind) : ∃ t : Token, t.kind = kind ∧ t.Legible := by
  by_cases hnumber : kind = .number
  · exact ⟨⟨.number, "1", .start⟩, hnumber.symm, fun _ => ⟨_, rfl⟩, nofun⟩
  by_cases hstring : kind = .string
  · exact ⟨⟨.string, "''", .start⟩, hstring.symm, nofun, fun _ => ⟨.str [], rfl⟩⟩
  · exact ⟨⟨kind, [], .start⟩, rfl, fun h => absurd h hnumber, fun h => absurd h hstring⟩

/-- **What a refusal of `tokens` says**, when `before` are the tokens before the blamed one and `left` the others. -/
structure ParseError.HasCorrectPrefix (e : ParseError) (tokens before left : List Token) : Prop where
  tokens_eq : tokens = before ++ left
  found_eq : left.head? = e.found?
  /-- What begins with the tokens up to the blamed one is refused, and for the same reason; if the tokens are at an
  end, so are they. -/
  refused : ∀ left' : List Token, left'.head? = e.found? →
    ∃ e', Node.ofTokens (before ++ left') = .error (.refused e') ∧ e'.refusal = e.refusal
  /-- The tokens before the blamed one begin a program. -/
  begins : Begins programs before
  /-- Each of the expected kinds could have gone on with a program, unless a sign was blamed for what it assigns to. -/
  cause : Cause programs e.expected before left ((Cursor.start tokens).phrase .program).2.rest
  /-- Tokens that were too few are the first ones of a program. -/
  unfinished : e.found? = none → ∃ more, more ≠ [] ∧ tokens ++ more ∈ programs

omit [CharacterNames] in
/-- **What is left behind the cursor** of a reading that stopped. -/
theorem rest_of_read {α : Type} {c : Cursor} {reading : Reading α} {fault : ReadingFault} {rest : List Token}
    (h : reading c.rest = .error fault rest) (hsuffix : rest <:+ c.tokens) : (c.read reading).2.rest = rest := by
  obtain ⟨taken, htokens⟩ := hsuffix
  rw [Cursor.read, h]
  simp [Cursor.rest, ← htokens]

theorem Grammar.Cause.suffix {L : Language Token} {kinds : List TokenKind} {rest : List Token}
    (h : Cause L kinds before left rest) : rest <:+ left := by
  cases h with
  | next hrest => exact hrest ▸ List.suffix_refl _
  | literal hrest | target hrest => exact hrest ▸ List.suffix_cons _ _

omit [CharacterNames] in
theorem Cursor.refusal_locate (c : Cursor) (refusal : Refusal) : (c.locate refusal).refusal = refusal := by
  rcases refusal with ⟨_, _ | _⟩ | (_ | _) <;> rfl

/-- **Tokens are refused** exactly if the reading of a program stops with the refusal. -/
theorem ofTokens_refused_iff {refusal : Refusal} :
    (∃ e, Node.ofTokens tokens = .error (.refused e) ∧ e.refusal = refusal) ↔
      ∃ rest, programReading (statementAt maxLevels) tokens = .error (.refused refusal) rest := by
  constructor
  · rintro ⟨e, h, rfl⟩
    obtain ⟨fault, rest, hread, hfailure⟩ := ofTokens_eq_error_iff.mp h
    cases fault with
    | numeral fault => cases hfailure
    | refused refusal =>
      cases hfailure
      exact ⟨rest, by rw [hread, Cursor.refusal_locate]⟩
  · rintro ⟨rest, hread⟩
    exact ⟨_, ofTokens_eq_error_iff.mpr ⟨_, rest, hread, rfl⟩, Cursor.refusal_locate _ _⟩

/-- **Refusals have the correct-prefix property**, all of them that name what was expected. -/
theorem refusal_hasCorrectPrefix {e : ParseError} (h : Node.ofTokens tokens = .error (.refused e))
    (hexpected : e.expected ≠ []) : ∃ before left, e.HasCorrectPrefix tokens before left := by
  obtain ⟨refusal, line, column⟩ := e
  cases refusal with
  | tooNested found => exact absurd rfl hexpected
  | unexpected kinds found =>
    obtain ⟨rest, hread⟩ := ofTokens_refused_iff.mp ⟨_, h, rfl⟩
    obtain ⟨before, left, rfl, hblames⟩ := (reads_programReading (P := fun _ => True) maxLevels).stops trivial hread
    -- What is said of programs of one level more is said of programs.
    have hprograms : Blames (programReading (statementAt maxLevels)) programs kinds found rest before left :=
      hblames.lift [] (fun _ hq => .of_mem (words_program_le _ hq)) fun _ _ _ _ h => h
    refine ⟨before, left, rfl, hprograms.found_eq, fun left' hleft' => ?_, hprograms.begins, ?_, fun hnone => ?_⟩
    · obtain ⟨rest', hrest'⟩ := hprograms.again left' hleft'
      exact ofTokens_refused_iff.mpr ⟨rest', hrest'⟩
    · have hrest : ((Cursor.start (before ++ left)).phrase .program).2.rest = rest :=
        rest_of_read hread (hprograms.cause.suffix.trans (List.suffix_append before left))
      rw [hrest]
      exact hprograms.cause
    · obtain rfl : left = [] := List.head?_eq_none_iff.mp (hprograms.found_eq.trans hnone)
      rw [List.append_nil]
      cases hprograms.cause with
      | next _ _ hexpects =>
        obtain ⟨kind, hkind⟩ := List.exists_mem_of_ne_nil kinds hexpected
        obtain ⟨t, rfl, hlegible⟩ := exists_legible kind
        obtain ⟨more, hmore⟩ := hexpects t hkind hlegible
        exact ⟨t :: more, List.cons_ne_nil _ _, by simpa using hmore⟩
      | literal hrest | target hrest => cases hrest

end

-- No character is called by its name from here on.
attribute [local instance] CharacterNames.unnamed

/-- `if a < b (`, with all tokens at one place. -/
def openCondition : List Token :=
  [⟨.ifWord, "if", .start⟩, ⟨.ident, "a", .start⟩, ⟨.lt, "<", .start⟩, ⟨.ident, "b", .start⟩, ⟨.lparen, "(", .start⟩]

/-- **A name and a parenthesis behind a condition** are a call that is not finished. -/
theorem openCondition_begins_program :
    ∃ e : ParseError, Node.ofTokens openCondition = .error (.refused e) ∧ e.found? = none ∧
      e.expected = primaryStart ∧ ∃ before left, e.HasCorrectPrefix openCondition before left :=
  ⟨⟨.unexpected primaryStart none, 1, 2⟩, rfl, rfl, rfl, refusal_hasCorrectPrefix rfl (by decide)⟩

end LineaLang
