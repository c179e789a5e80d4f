import LineaLang.Proofs.Parsing.Likeness
import LineaLang.Proofs.Parsing.Program

/-!
# `LineaLang.Proofs.Parsing.Refusals` — why reading stops

Reading stops at a token that does not fit or at a level too many, and at a number that has no value. The last is one
of the tokens: a reading only takes tokens away, so each number that it comes to was there from the start. Whether a
reading takes as many tokens as it should plays no part in this.

## Contents

* `ReadingFault.ComesOf` — a fault that some tokens account for.
* `Likeness.among` — a reading of some of the tokens.
* `exists_number_of_ofTokens` — the number at which reading stopped.
-/

namespace LineaLang

/-- **A fault that some tokens account for**: a refusal always, and a numeral if it is that of a number among them. -/
def ReadingFault.ComesOf (tokens : List Token) : ReadingFault → Prop
  | .refused _ => True
  | .numeral fault => ∃ t ∈ tokens, t.kind = .number ∧ Grammar.numberValue t.lexeme = .error fault

/-- **A reading of some of the tokens**, which stops by a fault that they account for. -/
def Likeness.among (tokens : List Token) : Likeness where
  remaining ts ts' := ts = ts' ∧ ∀ t ∈ ts, t ∈ tokens
  token t t' := t = t' ∧ t ∈ tokens
  fault fault _ := fault.ComesOf tokens

theorem Likeness.lawful_among (tokens : List Token) : (among tokens).Lawful where
  next := by
    rintro ts _ ⟨rfl, hts⟩
    cases ts with
    | nil => exact .inl ⟨rfl, rfl⟩
    | cons t more =>
      rw [List.forall_mem_cons] at hts
      exact .inr ⟨t, more, t, more, rfl, rfl, ⟨rfl, hts.1⟩, rfl, hts.2⟩
  word h := congrArg Token.word h.1
  unexpected _ _ := trivial
  tooNested _ := trivial
  misfit _ _ := trivial
  numeral ht hkind hvalue := ⟨_, ht.2, hkind, hvalue⟩

variable [CharacterNames]

/-- **Reading stops at a number only if it has no value**, and the number is one of the tokens. -/
theorem exists_number_of_ofTokens {tokens : List Token} {fault : NumeralFault}
    (h : Node.ofTokens tokens = .error (.numeral fault)) :
    ∃ t ∈ tokens, t.kind = .number ∧ Grammar.numberValue t.lexeme = .error fault := by
  have hfrom : (Likeness.among tokens).remaining (Cursor.start tokens).rest (Cursor.start tokens).rest :=
    ⟨rfl, fun _ => List.mem_of_mem_drop⟩
  have houtcome := Likeness.reads_programReading (Likeness.lawful_among tokens) Grammar.maxLevels hfrom
  change ((Cursor.start tokens).read (Grammar.programReading (Grammar.statementAt Grammar.maxLevels))).1 = _ at h
  rw [Cursor.read] at h
  generalize Grammar.programReading (Grammar.statementAt Grammar.maxLevels) (Cursor.start tokens).rest = outcome
    at h houtcome
  cases houtcome with
  | ok _ _ => cases h
  | @error reason _ _ _ _ hreason =>
    cases reason with
    | refused _ => cases h
    | numeral _ =>
      cases h
      exact hreason

end LineaLang
