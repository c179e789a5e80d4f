import LineaLang.Proofs.Parsing.Derivation

/-!
# `LineaLang.Proofs.Parsing.Fits` — the derivations that reading finds

Of the derivations of a token list reading finds the one that makes the right choices, opens no more levels
than there are, and has only literals that can be read. `Derivation.Fits` says all of this production by
production, in the form in which a reading checks it; `fits_iff` takes it apart into the separate conditions.
-/

namespace LineaLang

variable [CharacterNames]

/-- **A token that is no literal, or one that can be read.** -/
def Token.Legible (t : Token) : Prop :=
  (t.kind = .number → ∃ v, Grammar.numberValue t.lexeme = .ok v) ∧
  (t.kind = .string → ∃ v, Literal.read? t.lexeme = some v)

namespace Derivation

open Grammar

/-- **A derivation that is found when `n` levels may be opened.** -/
def Fits : Nat → {s : Symbol} → Derivation s → Prop
  | n, _, .program body => body.Fits n
  | n, _, .statements first more => first.Fits n ∧ more.Fits n
  | n, _, .ofIf s => 0 < n ∧ s.Fits (n - 1)
  | n, _, .ofWhile s => 0 < n ∧ s.Fits (n - 1)
  | n, _, .ofFunction s => 0 < n ∧ s.Fits (n - 1)
  | n, _, .ofReturn s => 0 < n ∧ s.Fits (n - 1)
  | n, _, .ofVariable s => 0 < n ∧ s.Fits (n - 1)
  | n, _, .ofPrint s => 0 < n ∧ s.Fits (n - 1)
  | n, _, .ofExpression s => 0 < n ∧ s.Fits (n - 1)
  | n, _, .braced _ body _ => body.Fits n
  | n, _, .bare only => only.Fits n
  | n, _, d@(.ifStatement _ condition _ thenBlock elsePart) =>
    ElseNearest d ∧ ThenApart d ∧ condition.Fits n ∧ thenBlock.Fits n ∧ elsePart.Fits n
  | n, _, .elseBlock _ block => block.Fits n
  | n, _, .whileStatement _ condition _ body => condition.Fits n ∧ body.Fits n
  | n, _, .functionDeclaration _ _ _ names _ body => names.Fits n ∧ body.Fits n
  | n, _, .parameters _ more => more.Fits n
  | n, _, .moreParameters _ _ more => more.Fits n
  | n, _, .returnStatement _ value _ => value.Fits n
  | n, _, .variableDeclaration _ _ _ init _ => init.Fits n
  | n, _, .printStatement _ _ value _ _ => value.Fits n
  | n, _, .expressionStatement value _ => value.Fits n
  | n, _, .comparison left _ right => left.Fits n ∧ right.Fits n
  | n, _, .expression value => 0 < n ∧ value.Fits (n - 1)
  | n, _, .sum value => value.Fits n
  | n, _, d@(.assign target _ value) => NamedTarget d ∧ target.Fits n ∧ 0 < n ∧ value.Fits (n - 1)
  | n, _, .additive first more => first.Fits n ∧ more.Fits n
  | n, _, .addends _ next more => next.Fits n ∧ more.Fits n
  | n, _, .multiplicative first more => first.Fits n ∧ more.Fits n
  | n, _, .factors _ next more => next.Fits n ∧ more.Fits n
  | n, _, .plain operand => operand.Fits n
  | n, _, .negative _ operand => operand.Fits n
  | _, _, .number token => token.1.Legible
  | _, _, .string token => token.1.Legible
  | n, _, .ofCall c => c.Fits n
  | n, _, .parenthesised _ inner _ => inner.Fits n
  | n, _, .call _ _ args _ => args.Fits n
  | n, _, .arguments first more => first.Fits n ∧ more.Fits n
  | n, _, .moreArguments _ next more => next.Fits n ∧ more.Fits n
  | _, _, .noStatements | _, _, .noElse | _, _, .noParameters | _, _, .noMoreParameters
  | _, _, .noAddends | _, _, .noFactors | _, _, .ident _ | _, _, .noArguments
  | _, _, .noMoreArguments => True

/-- A token of another kind than the literals is legible. -/
theorem legible_of_kind {kinds : List TokenKind} (t : Terminal kinds) (hn : .number ∉ kinds)
    (hs : .string ∉ kinds) : t.1.Legible :=
  ⟨fun h => absurd (h ▸ t.2) hn, fun h => absurd (h ▸ t.2) hs⟩

omit [CharacterNames] in
/-- A level more than some is one level, and those under it. -/
theorem add_one_le_iff {levels n : Nat} : levels + 1 ≤ n ↔ 0 < n ∧ levels ≤ n - 1 := by omega

omit [CharacterNames] in
/-- The conditions on two parts are conditions on both. -/
theorem conditions_and {a b c e a' b' c' e' : Prop} {l l' n : Nat} :
    (a ∧ b ∧ c ∧ l ≤ n ∧ e) ∧ (a' ∧ b' ∧ c' ∧ l' ≤ n ∧ e') ↔
      (a ∧ a') ∧ (b ∧ b') ∧ (c ∧ c') ∧ max l l' ≤ n ∧ e ∧ e' := by
  rw [Nat.max_le]
  constructor
  · rintro ⟨⟨ha, hb, hc, hl, he⟩, ha', hb', hc', hl', he'⟩
    exact ⟨⟨ha, ha'⟩, ⟨hb, hb'⟩, ⟨hc, hc'⟩, ⟨hl, hl'⟩, he, he'⟩
  · rintro ⟨⟨ha, ha'⟩, ⟨hb, hb'⟩, ⟨hc, hc'⟩, ⟨hl, hl'⟩, he, he'⟩
    exact ⟨⟨ha, hb, hc, hl, he⟩, ha', hb', hc', hl', he'⟩

omit [CharacterNames] in
/-- The conditions on a part under a level are conditions on the whole. -/
theorem conditions_level {a b c e : Prop} {l n : Nat} :
    (0 < n ∧ a ∧ b ∧ c ∧ l ≤ n - 1 ∧ e) ↔ a ∧ b ∧ c ∧ l + 1 ≤ n ∧ e := by
  rw [add_one_le_iff]
  constructor
  · rintro ⟨hn, ha, hb, hc, hl, he⟩
    exact ⟨ha, hb, hc, ⟨hn, hl⟩, he⟩
  · rintro ⟨ha, hb, hc, ⟨hn, hl⟩, he⟩
    exact ⟨hn, ha, hb, hc, hl, he⟩

/-- **What it takes to be found**, condition by condition. -/
theorem fits_iff {s : Symbol} {d : Derivation s} {n : Nat} :
    d.Fits n ↔ d.All ElseNearest ∧ d.All ThenApart ∧ d.All NamedTarget ∧ d.levels ≤ n ∧
      ∀ t ∈ d.tokens, t.Legible := by
  induction d generalizing n with
  | noStatements | noElse | noParameters | noMoreParameters | noAddends | noFactors | noArguments
  | noMoreArguments | number _ | string _ | ident _ =>
    simp [Fits, All, levels, tokens, ElseNearest, ThenApart, NamedTarget, legible_of_kind]
  | program _ ih | braced _ _ _ ih | bare _ ih | elseBlock _ _ ih | parameters _ _ ih
  | moreParameters _ _ _ ih | returnStatement _ _ _ ih | variableDeclaration _ _ _ _ _ ih
  | printStatement _ _ _ _ _ ih | expressionStatement _ _ ih | sum _ ih | plain _ ih | negative _ _ ih
  | ofCall _ ih | parenthesised _ _ _ ih | call _ _ _ _ ih =>
    simp [Fits, All, levels, tokens, ElseNearest, ThenApart, NamedTarget, ih, legible_of_kind, or_imp,
      forall_and]
  | statements _ _ ih ih' | whileStatement _ _ _ _ ih ih' | functionDeclaration _ _ _ _ _ _ ih ih'
  | comparison _ _ _ ih ih' | additive _ _ ih ih' | addends _ _ _ ih ih' | multiplicative _ _ ih ih'
  | factors _ _ _ ih ih' | arguments _ _ ih ih' | moreArguments _ _ _ ih ih' =>
    rw [Fits, ih, ih', conditions_and]
    simp (disch := decide) only [All, levels, tokens, ElseNearest, ThenApart, NamedTarget, true_and,
      List.forall_mem_cons, List.forall_mem_append, legible_of_kind]
  -- The productions that open a level.
  | ofIf _ ih | ofWhile _ ih | ofFunction _ ih | ofReturn _ ih | ofVariable _ ih | ofPrint _ ih
  | ofExpression _ ih | expression _ ih =>
    rw [Fits, ih, conditions_level]
    simp only [All, levels, tokens, ElseNearest, ThenApart, NamedTarget, true_and]
  | ifStatement word _ thenWord _ _ ih ih' ih'' =>
    have hthen : ∀ t ∈ (thenWord.map Subtype.val).toList, t.Legible := by
      rcases thenWord with _ | word
      · simp
      · simp [legible_of_kind]
    have hword := legible_of_kind word (by decide) (by decide)
    simp only [Fits, ih, ih', ih'']
    simp only [All, levels, tokens, NamedTarget, hword, List.mem_cons, List.mem_append, or_imp,
      forall_and, forall_eq, Nat.max_le, true_and, and_assoc, and_left_comm, iff_true_intro hthen]
  | assign _ sign _ ih ih' =>
    have hsign := legible_of_kind sign (by decide) (by decide)
    simp only [Fits, ih, ih']
    simp only [All, levels, tokens, ElseNearest, ThenApart, hsign, List.mem_cons,
      List.mem_append, or_imp, forall_and, forall_eq, Nat.max_le, add_one_le_iff, true_and, and_assoc,
      and_left_comm]

end Derivation

end LineaLang
