import LineaLang.Proofs.Parsing.Blame.Reads

/-!
# `LineaLang.Proofs.Parsing.Blame.Words` — the words of the grammar's symbols

The words of a symbol are the tokens of those of its derivations that a reading finds. Each production is stated once
more here, as an inclusion between languages: what a reading puts together from the words of its parts is a word of
the whole. The one place where the grammar needs more than its productions is a condition without `then`, and for it
`Derivation.callable_of_isOperand` shows how a name at the end of the condition takes a parenthesis.

## Contents

* `words` — the words of a symbol, when some levels may be opened.
* `words_le` and the inclusions after it — a production as an inclusion.
* `Derivation.callable_of_isOperand` — a name at the end of operands can be called.
-/

namespace LineaLang

variable [CharacterNames]

/-- More levels do no harm. -/
theorem Derivation.Fits.mono {s : Symbol} {d : Derivation s} {n N : Nat} (h : d.Fits n) (hle : n ≤ N) : d.Fits N := by
  obtain ⟨helse, hthen, htarget, hlevels, hlegible⟩ := fits_iff.mp h
  exact fits_iff.mpr ⟨helse, hthen, htarget, Nat.le_trans hlevels hle, hlegible⟩

namespace Grammar

variable {a b : List Token} {token : Token}

omit [CharacterNames] in
theorem not_endsInName_of_last (before : List Token) (h : token.kind ≠ .ident) : ¬ EndsInName (before ++ [token]) := by
  rwa [endsInName_append (List.cons_ne_nil _ _), endsInName_singleton]

omit [CharacterNames] in
/-- Tokens that end in a name do so at the end of their second part, unless that is empty. -/
theorem EndsInName.parts (h : EndsInName (a ++ b)) : b = [] ∧ EndsInName a ∨ EndsInName b := by
  by_cases hb : b = []
  · rw [hb, List.append_nil] at h
    exact .inl ⟨hb, h⟩
  · exact .inr ((endsInName_append hb).mp h)

end Grammar

open Grammar

/-- The symbols of operands and of what is joined from them by operators. -/
def Symbol.isOperand : Symbol → Bool
  | .primary | .unary | .factors | .multiplicative | .addends | .additive | .comparison => true
  | _ => false

namespace Derivation

variable {N : Nat} {opening : Terminal [.lparen]} {closing : Terminal [.rparen]}

/-- **A name at the end can be called**: with two parentheses behind it the tokens still are of the symbol. -/
def Callable (N : Nat) (opening : Terminal [.lparen]) (closing : Terminal [.rparen]) {s : Symbol} (d : Derivation s) :
    Prop :=
  d.Fits N → EndsInName d.tokens →
    ∃ called : Derivation s, called.Fits N ∧ called.tokens = d.tokens ++ [opening.1, closing.1]

theorem callable_of_last {s : Symbol} {d : Derivation s} (before : List Token) (last : Token)
    (htokens : d.tokens = before ++ [last]) (hkind : last.kind ≠ .ident) : d.Callable N opening closing :=
  fun _ hname => absurd (htokens ▸ hname) (not_endsInName_of_last before hkind)

/-- A name at the end of two parts is at the end of the second, or of the first if the second is empty. -/
theorem Callable.parts {s t u : Symbol} (production : Derivation s → Derivation t → Derivation u) (before : List Token)
    (htokens : ∀ d e, (production d e).tokens = before ++ (d.tokens ++ e.tokens))
    (hfits : ∀ d e, (production d e).Fits N ↔ d.Fits N ∧ e.Fits N) {d : Derivation s} {e : Derivation t}
    (hne : d.tokens ≠ []) (hd : d.Callable N opening closing) (he : e.Callable N opening closing) :
    (production d e).Callable N opening closing := by
  intro hwhole hname
  have hparts : EndsInName (d.tokens ++ e.tokens) := by
    rw [htokens] at hname
    exact (endsInName_append (List.append_ne_nil_of_left_ne_nil hne _)).mp hname
  obtain ⟨hdFits, heFits⟩ := (hfits d e).mp hwhole
  rcases hparts.parts with ⟨hnil, hends⟩ | hends
  · obtain ⟨called, hcalled, hcalledTokens⟩ := hd hdFits hends
    exact ⟨production called e, (hfits _ _).mpr ⟨hcalled, heFits⟩, by simp [htokens, hcalledTokens, hnil]⟩
  · obtain ⟨called, hcalled, hcalledTokens⟩ := he heFits hends
    exact ⟨production d called, (hfits _ _).mpr ⟨hdFits, hcalled⟩, by simp [htokens, hcalledTokens]⟩

/-- **A name at the end of operands can be called.** -/
theorem callable_of_isOperand {s : Symbol} (d : Derivation s) (hs : s.isOperand = true)
    (opening : Terminal [.lparen]) (closing : Terminal [.rparen]) : d.Callable N opening closing := by
  induction d with
  | ident token => exact fun _ _ => ⟨.ofCall (.call token opening .noArguments closing), trivial, rfl⟩
  | number token | string token =>
    exact callable_of_last [] token.1 rfl (by simp [List.mem_singleton.mp token.2])
  | ofCall c =>
    cases c with
    | call name opening args closing =>
      exact callable_of_last (name.1 :: opening.1 :: args.tokens) closing.1 rfl
        (by simp [List.mem_singleton.mp closing.2])
  | parenthesised opening inner closing =>
    exact callable_of_last (opening.1 :: inner.tokens) closing.1 rfl (by simp [List.mem_singleton.mp closing.2])
  | plain operand ih =>
    intro hfits hname
    obtain ⟨called, hcalled, htokens⟩ := ih rfl hfits hname
    exact ⟨.plain called, hcalled, htokens⟩
  | negative sign operand ih =>
    intro hfits hname
    have hends : EndsInName operand.tokens := (endsInName_append (a := [sign.1]) (operand.tokens_ne_nil rfl)).mp hname
    obtain ⟨called, hcalled, htokens⟩ := ih rfl hfits hends
    exact ⟨.negative sign called, hcalled, by simp [tokens, htokens]⟩
  | noFactors | noAddends => exact fun _ hname => absurd hname endsInName_nil
  | factors sign next more ih ih' =>
    exact Callable.parts (.factors sign) [sign.1] (fun _ _ => rfl) (fun _ _ => Iff.rfl)
      (next.tokens_ne_nil rfl) (ih rfl) (ih' rfl)
  | addends sign next more ih ih' =>
    exact Callable.parts (.addends sign) [sign.1] (fun _ _ => rfl) (fun _ _ => Iff.rfl)
      (next.tokens_ne_nil rfl) (ih rfl) (ih' rfl)
  | multiplicative first more ih ih' =>
    exact Callable.parts .multiplicative [] (fun _ _ => rfl) (fun _ _ => Iff.rfl)
      (first.tokens_ne_nil rfl) (ih rfl) (ih' rfl)
  | additive first more ih ih' =>
    exact Callable.parts .additive [] (fun _ _ => rfl) (fun _ _ => Iff.rfl)
      (first.tokens_ne_nil rfl) (ih rfl) (ih' rfl)
  | comparison left sign right ih ih' =>
    intro hfits hname
    have hends : EndsInName right.tokens :=
      (endsInName_append (a := left.tokens ++ [sign.1]) (right.tokens_ne_nil rfl)).mp (by simpa [tokens] using hname)
    obtain ⟨called, hcalled, htokens⟩ := ih' rfl hfits.2 hends
    exact ⟨.comparison left sign called, ⟨hfits.1, hcalled⟩, by simp [tokens, htokens]⟩
  | _ => cases hs

end Derivation

namespace Grammar

open scoped Computability

variable {N M : Nat}

/-- **The words of a symbol**: what the derivations stand for that are found when `N` levels may be opened. -/
def words (s : Symbol) (N : Nat) : Language Token := {word | ∃ d : Derivation s, d.Fits N ∧ d.tokens = word}

/-- A production with one part and no tokens of its own. -/
theorem words_le {s s' : Symbol} (production : Derivation s → Derivation s')
    (htokens : ∀ d, (production d).tokens = d.tokens) (hfits : ∀ d, d.Fits N → (production d).Fits M) :
    words s N ≤ words s' M := by
  rintro _ ⟨d, hd, rfl⟩
  exact ⟨production d, hfits d hd, htokens d⟩

/-! ## Terminals -/

/-- A name. -/
def someName : Terminal [.ident] := ⟨⟨.ident, "x", .start⟩, by decide⟩

/-- An opening parenthesis. -/
def someOpening : Terminal [.lparen] := ⟨⟨.lparen, "(", .start⟩, by decide⟩

/-- A closing parenthesis. -/
def someClosing : Terminal [.rparen] := ⟨⟨.rparen, ")", .start⟩, by decide⟩

/-! ## Expressions -/

theorem primary_le_unary : words .primary N ≤ words .unary N := words_le .plain (fun _ => rfl) fun _ h => h

theorem unary_le_multiplicative : words .unary N ≤ words .multiplicative N :=
  words_le (.multiplicative · .noFactors) (fun _ => List.append_nil _) fun _ h => ⟨h, trivial⟩

theorem multiplicative_le_additive : words .multiplicative N ≤ words .additive N :=
  words_le (.additive · .noAddends) (fun _ => List.append_nil _) fun _ h => ⟨h, trivial⟩

theorem additive_le_assignment : words .additive N ≤ words .assignment N := words_le .sum (fun _ => rfl) fun _ h => h

theorem assignment_le_expression : words .assignment N ≤ words .expression (N + 1) :=
  words_le .expression (fun _ => rfl) fun _ h => ⟨Nat.succ_pos N, h⟩

theorem primary_le_additive : words .primary N ≤ words .additive N :=
  primary_le_unary.trans (unary_le_multiplicative.trans multiplicative_le_additive)

theorem primary_le_expression : words .primary N ≤ words .expression (N + 1) :=
  primary_le_additive.trans (additive_le_assignment.trans assignment_le_expression)

theorem moreArguments_le : (terminals [.comma] * words .expression N)∗ ≤ words .moreArguments N := by
  refine kstar_le_of_mul_le_right ?_ ?_
  · rintro _ rfl
    exact ⟨.noMoreArguments, trivial, rfl⟩
  · rintro _ ⟨_, ⟨_, ⟨comma, rfl⟩, _, ⟨next, hnext, rfl⟩, rfl⟩, _, ⟨more, hmore, rfl⟩, rfl⟩
    exact ⟨.moreArguments comma next more, ⟨hnext, hmore⟩, by simp [Derivation.tokens]⟩

/-- Arguments with commas between them. -/
theorem arguments_le :
    1 + words .expression N * (terminals [.comma] * words .expression N)∗ ≤ words .arguments N := by
  rintro _ (rfl | ⟨_, ⟨first, hfirst, rfl⟩, _, hmore, rfl⟩)
  · exact ⟨.noArguments, trivial, rfl⟩
  · obtain ⟨more, hfits, rfl⟩ := moreArguments_le hmore
    exact ⟨.arguments first more, ⟨hfirst, hfits⟩, rfl⟩

theorem factors_le : (terminals [.times, .div] * words .unary N)∗ ≤ words .factors N := by
  refine kstar_le_of_mul_le_right ?_ ?_
  · rintro _ rfl
    exact ⟨.noFactors, trivial, rfl⟩
  · rintro _ ⟨_, ⟨_, ⟨sign, rfl⟩, _, ⟨next, hnext, rfl⟩, rfl⟩, _, ⟨more, hmore, rfl⟩, rfl⟩
    exact ⟨.factors sign next more, ⟨hnext, hmore⟩, by simp [Derivation.tokens]⟩

theorem addends_le : (terminals [.plus, .minus] * words .multiplicative N)∗ ≤ words .addends N := by
  refine kstar_le_of_mul_le_right ?_ ?_
  · rintro _ rfl
    exact ⟨.noAddends, trivial, rfl⟩
  · rintro _ ⟨_, ⟨_, ⟨sign, rfl⟩, _, ⟨next, hnext, rfl⟩, rfl⟩, _, ⟨more, hmore, rfl⟩, rfl⟩
    exact ⟨.addends sign next more, ⟨hnext, hmore⟩, by simp [Derivation.tokens]⟩

/-- **Operands with a sign or without.** -/
theorem negative_le : terminals [.minus] * words .primary N ≤ words .unary N := by
  rintro _ ⟨_, ⟨sign, rfl⟩, _, ⟨operand, hoperand, rfl⟩, rfl⟩
  exact ⟨.negative sign operand, hoperand, rfl⟩

theorem multiplicative_le :
    words .unary N * (terminals [.times, .div] * words .unary N)∗ ≤ words .multiplicative N := by
  rintro _ ⟨_, ⟨first, hfirst, rfl⟩, _, hmore, rfl⟩
  obtain ⟨more, hfits, rfl⟩ := factors_le hmore
  exact ⟨.multiplicative first more, ⟨hfirst, hfits⟩, rfl⟩

theorem additive_le :
    words .multiplicative N * (terminals [.plus, .minus] * words .multiplicative N)∗ ≤ words .additive N := by
  rintro _ ⟨_, ⟨first, hfirst, rfl⟩, _, hmore, rfl⟩
  obtain ⟨more, hfits, rfl⟩ := addends_le hmore
  exact ⟨.additive first more, ⟨hfirst, hfits⟩, rfl⟩

theorem comparison_le :
    words .additive N * (terminals comparisonKinds * words .additive N) ≤ words .comparison N := by
  rintro _ ⟨_, ⟨left, hleft, rfl⟩, _, ⟨_, ⟨sign, rfl⟩, _, ⟨right, hright, rfl⟩, rfl⟩, rfl⟩
  exact ⟨.comparison left sign right, ⟨hleft, hright⟩, rfl⟩

/-! ## Statements -/

theorem statements_le : (words .statement N)∗ ≤ words .statements N := by
  refine kstar_le_of_mul_le_right ?_ ?_
  · rintro _ rfl
    exact ⟨.noStatements, trivial, rfl⟩
  · rintro _ ⟨_, ⟨first, hfirst, rfl⟩, _, ⟨more, hmore, rfl⟩, rfl⟩
    exact ⟨.statements first more, ⟨hfirst, hmore⟩, rfl⟩

theorem braced_le : terminals [.lbrace] * ((words .statement N)∗ * terminals [.rbrace]) ≤ words .block N := by
  rintro _ ⟨_, ⟨opening, rfl⟩, _, ⟨_, hbody, _, ⟨closing, rfl⟩, rfl⟩, rfl⟩
  obtain ⟨body, hfits, rfl⟩ := statements_le hbody
  exact ⟨.braced opening body closing, hfits, rfl⟩

theorem statement_le_block : words .statement N ≤ words .block N := words_le .bare (fun _ => rfl) fun _ h => h

theorem else_le : terminals [.elseWord] * words .block N ≤ words .elsePart N := by
  rintro _ ⟨_, ⟨word, rfl⟩, _, ⟨block, hblock, rfl⟩, rfl⟩
  exact ⟨.elseBlock word block, hblock, rfl⟩

theorem noElse_le : 1 ≤ words .elsePart N := by
  rintro _ rfl
  exact ⟨.noElse, trivial, rfl⟩

theorem moreParameters_le : (terminals [.comma] * terminals [.ident])∗ ≤ words .moreParameters N := by
  refine kstar_le_of_mul_le_right ?_ ?_
  · rintro _ rfl
    exact ⟨.noMoreParameters, trivial, rfl⟩
  · rintro _ ⟨_, ⟨_, ⟨comma, rfl⟩, _, ⟨next, rfl⟩, rfl⟩, _, ⟨more, hmore, rfl⟩, rfl⟩
    exact ⟨.moreParameters comma next more, hmore, rfl⟩

theorem parameters_le :
    1 + terminals [.ident] * (terminals [.comma] * terminals [.ident])∗ ≤ words .parameters N := by
  rintro _ (rfl | ⟨_, ⟨first, rfl⟩, _, hmore, rfl⟩)
  · exact ⟨.noParameters, trivial, rfl⟩
  · obtain ⟨more, hfits, rfl⟩ := moreParameters_le (N := N) hmore
    exact ⟨.parameters first more, hfits, rfl⟩

theorem while_le :
    terminals [.whileWord] * (words .comparison N * (terminals [.doWord] * words .block N)) ≤
      words .whileStatement N := by
  rintro _ ⟨_, ⟨word, rfl⟩, _, ⟨_, ⟨condition, hcondition, rfl⟩, _, ⟨_, ⟨doWord, rfl⟩, _, ⟨body, hbody, rfl⟩, rfl⟩,
    rfl⟩, rfl⟩
  exact ⟨.whileStatement word condition doWord body, ⟨hcondition, hbody⟩, rfl⟩

theorem function_le :
    terminals [.funcWord] * (terminals [.ident] * (terminals [.lparen] *
      (words .parameters N * (terminals [.rparen] * words .block N)))) ≤ words .functionDeclaration N := by
  rintro _ ⟨_, ⟨word, rfl⟩, _, ⟨_, ⟨name, rfl⟩, _, ⟨_, ⟨opening, rfl⟩, _, ⟨_, ⟨names, hnames, rfl⟩, _,
    ⟨_, ⟨closing, rfl⟩, _, ⟨body, hbody, rfl⟩, rfl⟩, rfl⟩, rfl⟩, rfl⟩, rfl⟩
  exact ⟨.functionDeclaration word name opening names closing body, ⟨hnames, hbody⟩, rfl⟩

theorem return_le :
    terminals [.returnWord] * (words .expression N * terminals [.semi]) ≤ words .returnStatement N := by
  rintro _ ⟨_, ⟨word, rfl⟩, _, ⟨_, ⟨value, hvalue, rfl⟩, _, ⟨semi, rfl⟩, rfl⟩, rfl⟩
  exact ⟨.returnStatement word value semi, hvalue, rfl⟩

theorem variable_le :
    terminals [.letWord] * (terminals [.ident] * (terminals [.assign] * (words .expression N * terminals [.semi]))) ≤
      words .variableDeclaration N := by
  rintro _ ⟨_, ⟨word, rfl⟩, _, ⟨_, ⟨name, rfl⟩, _, ⟨_, ⟨sign, rfl⟩, _, ⟨_, ⟨init, hinit, rfl⟩, _, ⟨semi, rfl⟩, rfl⟩,
    rfl⟩, rfl⟩, rfl⟩
  exact ⟨.variableDeclaration word name sign init semi, hinit, rfl⟩

theorem print_le :
    terminals [.printWord] * (terminals [.lparen] * (words .expression N *
      (terminals [.rparen] * terminals [.semi]))) ≤ words .printStatement N := by
  rintro _ ⟨_, ⟨word, rfl⟩, _, ⟨_, ⟨opening, rfl⟩, _, ⟨_, ⟨value, hvalue, rfl⟩, _, ⟨_, ⟨closing, rfl⟩, _, ⟨semi, rfl⟩,
    rfl⟩, rfl⟩, rfl⟩, rfl⟩
  exact ⟨.printStatement word opening value closing semi, hvalue, rfl⟩

theorem expressionStatement_le :
    words .expression N * terminals [.semi] ≤ words .expressionStatement N := by
  rintro _ ⟨_, ⟨value, hvalue, rfl⟩, _, ⟨semi, rfl⟩, rfl⟩
  exact ⟨.expressionStatement value semi, hvalue, rfl⟩

/-- **A statement of each sort is a statement**, and opens a level. -/
theorem le_statement {s : Symbol} (production : Derivation s → Derivation .statement)
    (htokens : ∀ d, (production d).tokens = d.tokens)
    (hfits : ∀ d, (production d).Fits (N + 1) ↔ 0 < N + 1 ∧ d.Fits N) :
    words s N ≤ words .statement (N + 1) :=
  words_le production htokens fun d hd => (hfits d).mpr ⟨Nat.succ_pos N, hd⟩

/-- A block in braces with nothing in it. -/
def emptyBlock : Derivation .block :=
  .braced ⟨⟨.lbrace, "\x7b", .start⟩, by decide⟩ .noStatements ⟨⟨.rbrace, "\x7d", .start⟩, by decide⟩

end Grammar

end LineaLang
