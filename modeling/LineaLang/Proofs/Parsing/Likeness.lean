import LineaLang.Proofs.Parsing.Reading

/-!
# `LineaLang.Proofs.Parsing.Likeness` — two readings side by side

A reading looks at the kinds and the lexemes of tokens and at nothing else of them. So on tokens that are alike it goes
the same way, step by step: it makes the same of them, or it stops for the same reason, with tokens before it that are
alike again. What alike means is left open. A `Likeness` says it of tokens, of what remains of them, and of faults, and
it is lawful if tokens that are alike have the same word and the faults that come of them are alike.

What holds of one reading only is a likeness of the reading with itself.

## Contents

* `Likeness`, `Likeness.Lawful` — what two runs of a reading have in common.
* `Likeness.Reads` — two readings that go side by side, with one lemma for each phrase.
* `Likeness.reads_programReading` — programs.
-/

namespace LineaLang

open Grammar

/-- **What two runs of a reading have in common.** -/
structure Likeness where
  /-- The tokens that remain. -/
  remaining : List Token → List Token → Prop
  token : Token → Token → Prop
  fault : ReadingFault → ReadingFault → Prop

namespace Likeness

/-- **A lawful likeness**: the next tokens are alike, tokens that are alike have the same word, and so are the faults
    that come of them. -/
structure Lawful (L : Likeness) : Prop where
  next : ∀ {ts₁ ts₂}, L.remaining ts₁ ts₂ → (ts₁ = [] ∧ ts₂ = []) ∨
    ∃ t₁ more₁ t₂ more₂, ts₁ = t₁ :: more₁ ∧ ts₂ = t₂ :: more₂ ∧ L.token t₁ t₂ ∧ L.remaining more₁ more₂
  word : ∀ {t₁ t₂}, L.token t₁ t₂ → t₁.word = t₂.word
  unexpected : ∀ {ts₁ ts₂}, L.remaining ts₁ ts₂ → ∀ kinds,
    L.fault (.refused (.unexpected kinds ts₁.head?)) (.refused (.unexpected kinds ts₂.head?))
  tooNested : ∀ {ts₁ ts₂}, L.remaining ts₁ ts₂ →
    L.fault (.refused (.tooNested ts₁.head?)) (.refused (.tooNested ts₂.head?))
  misfit : ∀ {t₁ t₂}, L.token t₁ t₂ → ∀ kinds,
    L.fault (.refused (.unexpected kinds (some t₁))) (.refused (.unexpected kinds (some t₂)))
  numeral : ∀ {t₁ t₂ fault}, L.token t₁ t₂ → t₁.kind = .number → numberValue t₁.lexeme = .error fault →
    L.fault (.numeral fault) (.numeral fault)

/-- **Two outcomes that are alike**: what was read is the same in some sense, or the faults are alike; and so is what
    remains. -/
inductive SameEnd (L : Likeness) {α : Type} (same : α → α → Prop) :
    EStateM.Result ReadingFault (List Token) α → EStateM.Result ReadingFault (List Token) α → Prop where
  | ok {a₁ a₂ : α} {rest₁ rest₂ : List Token} (hrest : L.remaining rest₁ rest₂) (h : same a₁ a₂) :
      SameEnd L same (.ok a₁ rest₁) (.ok a₂ rest₂)
  | error {fault₁ fault₂ : ReadingFault} {rest₁ rest₂ : List Token} (hrest : L.remaining rest₁ rest₂)
      (h : L.fault fault₁ fault₂) : SameEnd L same (.error fault₁ rest₁) (.error fault₂ rest₂)

/-- **Two readings that go side by side** on tokens that are alike. -/
def Reads (L : Likeness) {α : Type} (r₁ r₂ : Reading α) (same : α → α → Prop := Eq) : Prop :=
  ∀ ⦃ts₁ ts₂⦄, L.remaining ts₁ ts₂ → SameEnd L same (r₁ ts₁) (r₂ ts₂)

variable {L : Likeness} {α β : Type} {r₁ r₂ : Reading α} {same : α → α → Prop} {same' : β → β → Prop}

/-! ## Steps -/

namespace Reads

theorem pure {a₁ a₂ : α} (h : same a₁ a₂) : L.Reads (pure a₁) (pure a₂) same := fun _ _ hts => .ok hts h

/-- **One after the other.** -/
theorem bind {f₁ f₂ : α → Reading β} (hr : L.Reads r₁ r₂ same)
    (hf : ∀ a₁ a₂, same a₁ a₂ → L.Reads (f₁ a₁) (f₂ a₂) same') : L.Reads (r₁ >>= f₁) (r₂ >>= f₂) same' := by
  intro ts₁ ts₂ hts
  have hfirst := hr hts
  simp only [Bind.bind, EStateM.bind]
  generalize r₁ ts₁ = first₁, r₂ ts₂ = first₂ at hfirst ⊢
  cases hfirst with
  | ok hrest h => exact hf _ _ h hrest
  | error hrest h => exact .error hrest h

/-- If the first gives the same, the second goes on with it. -/
theorem andThen {f₁ f₂ : α → Reading β} (hr : L.Reads r₁ r₂) (hf : ∀ a, L.Reads (f₁ a) (f₂ a) same') :
    L.Reads (r₁ >>= f₁) (r₂ >>= f₂) same' :=
  hr.bind fun a _ heq => heq ▸ hf a

end Reads

variable (hL : L.Lawful)
include hL

theorem Lawful.length_eq {ts₁ ts₂ : List Token} (h : L.remaining ts₁ ts₂) : ts₁.length = ts₂.length := by
  induction ts₁ generalizing ts₂ with
  | nil =>
    rcases hL.next h with ⟨-, rfl⟩ | ⟨_, _, _, _, heq, -⟩
    · rfl
    · cases heq
  | cons t more ih =>
    rcases hL.next h with ⟨heq, -⟩ | ⟨t₁, more₁, t₂, more₂, heq, rfl, -, hmore⟩
    · cases heq
    · cases heq
      exact congrArg (· + 1) (ih hmore)

theorem Lawful.kind_eq {t₁ t₂ : Token} (h : L.token t₁ t₂) : t₁.kind = t₂.kind := congrArg Prod.fst (hL.word h)

theorem Lawful.lexeme_eq {t₁ t₂ : Token} (h : L.token t₁ t₂) : t₁.lexeme = t₂.lexeme := congrArg Prod.snd (hL.word h)

theorem reads_lookingAt (kinds : List TokenKind) : L.Reads (lookingAt kinds) (lookingAt kinds) := by
  intro ts₁ ts₂ hts
  rcases hL.next hts with ⟨rfl, rfl⟩ | ⟨t₁, more₁, t₂, more₂, rfl, rfl, ht, -⟩
  · exact .ok hts rfl
  · refine .ok hts ?_
    rw [hL.kind_eq ht]

theorem reads_atEnd : L.Reads atEnd atEnd := by
  intro ts₁ ts₂ hts
  refine .ok hts ?_
  rcases hL.next hts with ⟨rfl, rfl⟩ | ⟨t₁, more₁, t₂, more₂, rfl, rfl, -, -⟩ <;> rfl

theorem reads_refuse (kinds : List TokenKind) : L.Reads (refuse kinds) (refuse kinds) same :=
  fun _ _ hts => .error hts (hL.unexpected hts kinds)

theorem reads_refuseLevel : L.Reads refuseLevel refuseLevel same := fun _ _ hts => .error hts (hL.tooNested hts)

omit hL in
theorem reads_fail {fault₁ fault₂ : ReadingFault} (h : L.fault fault₁ fault₂) :
    L.Reads (fail fault₁) (fail fault₂) same := fun _ _ hts => .error hts h

/-- **The tokens that are taken are alike.** -/
theorem reads_expect (kinds : List TokenKind) : L.Reads (expect kinds) (expect kinds) L.token := by
  intro ts₁ ts₂ hts
  have hrefused := hL.unexpected hts kinds
  rcases hL.next hts with ⟨rfl, rfl⟩ | ⟨t₁, more₁, t₂, more₂, rfl, rfl, ht, hmore⟩
  · exact .error hts hrefused
  · rw [expect, expect, ← hL.kind_eq ht]
    split
    · exact .ok hmore ht
    · exact .error hts hrefused

theorem reads_repeatUntil {done : Reading Bool} (hdone : L.Reads done done) (hitem : L.Reads r₁ r₂) :
    L.Reads (repeatUntil done r₁) (repeatUntil done r₂) := by
  have halong : ∀ {bound₁ bound₂ : List Token}, bound₁.length = bound₂.length →
      L.Reads (repeatAlong done r₁ bound₁) (repeatAlong done r₂ bound₂) := by
    intro bound₁
    induction bound₁ with
    | nil =>
      intro bound₂ hlength
      obtain rfl := List.length_eq_zero_iff.mp hlength.symm
      exact hdone.andThen fun _ => .pure rfl
    | cons _ bound₁ ih =>
      intro bound₂ hlength
      cases bound₂ with
      | nil => cases hlength
      | cons _ bound₂ =>
        refine hdone.andThen fun stops => ?_
        split
        · exact .pure rfl
        · exact hitem.andThen fun _ => (ih (Nat.succ.inj hlength)).andThen fun _ => .pure rfl
  exact fun ts₁ ts₂ hts => halong (hL.length_eq hts) hts

theorem reads_repeatWhile (kinds : List TokenKind) (hitem : L.Reads r₁ r₂) :
    L.Reads (Grammar.repeatWhile kinds r₁) (Grammar.repeatWhile kinds r₂) :=
  reads_repeatUntil hL ((reads_lookingAt hL kinds).andThen fun _ => .pure rfl) hitem

theorem reads_commaList (hitem : L.Reads r₁ r₂) : L.Reads (commaList r₁) (commaList r₂) := by
  refine (reads_lookingAt hL _).andThen fun closing => ?_
  split
  · exact .pure rfl
  · have hmore := reads_repeatWhile hL [.comma] ((reads_expect hL [.comma]).bind fun _ _ _ => hitem)
    exact hitem.andThen fun _ => hmore.andThen fun _ => .pure rfl

/-! ## Expressions -/

section Expressions

variable {expr : Reading Node} (hexpr : L.Reads expr expr)
include hexpr

theorem reads_callOf (name : Text) : L.Reads (callOf expr name) (callOf expr name) :=
  (reads_expect hL _).bind fun _ _ _ => (reads_commaList hL hexpr).andThen fun _ =>
    (reads_expect hL _).bind fun _ _ _ => .pure rfl

variable [CharacterNames]

/-- **A primary expression** is the one phrase where the lexeme of a token plays a part, but for names. -/
theorem reads_primary : L.Reads (primary expr) (primary expr) := by
  refine (reads_expect hL _).bind fun t₁ t₂ ht => ?_
  have hnumeral : ∀ {fault}, t₁.kind = .number → numberValue t₁.lexeme = .error fault →
      L.fault (.numeral fault) (.numeral fault) := hL.numeral ht
  have hmisfit := hL.misfit ht [.string]
  rw [← hL.kind_eq ht, ← hL.lexeme_eq ht]
  cases hkind : t₁.kind with
  | number =>
    simp only
    cases hvalue : numberValue t₁.lexeme with
    | ok value => exact .pure rfl
    | error fault => exact reads_fail (hnumeral hkind hvalue)
  | string =>
    simp only
    cases Literal.read? t₁.lexeme with
    | some value => exact .pure rfl
    | none => exact reads_fail hmisfit
  | ident =>
    refine (reads_lookingAt hL _).andThen fun called => ?_
    split
    · exact reads_callOf hL hexpr _
    · exact .pure rfl
  | _ => exact hexpr.andThen fun _ => (reads_expect hL _).bind fun _ _ _ => .pure rfl

theorem reads_unary : L.Reads (unary expr) (unary expr) := by
  refine (reads_lookingAt hL _).andThen fun negative => ?_
  split
  · exact (reads_expect hL _).bind fun _ _ _ => (reads_primary hL hexpr).andThen fun _ => .pure rfl
  · exact reads_primary hL hexpr

omit [CharacterNames] in
omit hexpr in
theorem reads_chain {operand : Reading Node} (kinds : List TokenKind) (h : L.Reads operand operand) :
    L.Reads (chain kinds operand) (chain kinds operand) := by
  have hitem : ∀ {r : Reading (ArithOp × Node)}, r = (do
      let token ← expect kinds
      let right ← operand
      return (arithOf token.kind, right)) → L.Reads r r := by
    rintro r rfl
    refine (reads_expect hL _).bind fun t₁ t₂ ht => h.andThen fun _ => .pure ?_
    rw [hL.kind_eq ht]
  exact h.andThen fun _ => (reads_repeatWhile hL kinds (hitem rfl)).andThen fun _ => .pure rfl

theorem reads_additive : L.Reads (additive expr) (additive expr) :=
  reads_chain hL _ (reads_chain hL _ (reads_unary hL hexpr))

theorem reads_comparison : L.Reads (comparison expr) (comparison expr) := by
  refine (reads_additive hL hexpr).andThen fun left => (reads_expect hL _).bind fun t₁ t₂ ht => ?_
  refine (reads_additive hL hexpr).andThen fun right => .pure ?_
  rw [hL.kind_eq ht]

theorem reads_assignment : L.Reads (assignment expr) (assignment expr) := by
  refine (reads_additive hL hexpr).andThen fun left => (reads_lookingAt hL _).andThen fun assigns => ?_
  split
  · refine (reads_expect hL _).bind fun t₁ t₂ ht => ?_
    cases left with
    | ident name => exact hexpr.andThen fun _ => .pure rfl
    | _ => exact reads_fail (hL.misfit ht _)
  · exact .pure rfl

end Expressions

variable [CharacterNames]

theorem reads_expressionAt (levels : Nat) : L.Reads (expressionAt levels) (expressionAt levels) := by
  induction levels with
  | zero => exact reads_refuseLevel hL
  | succ levels ih => exact reads_assignment hL ih

/-! ## Statements -/

section Statements

variable {stmt expr : Reading Node} (hstmt : L.Reads stmt stmt) (hexpr : L.Reads expr expr)

omit [CharacterNames] in
include hstmt in
theorem reads_block : L.Reads (block stmt) (block stmt) := by
  have hclosed : L.Reads block.closed block.closed := by
    refine (reads_lookingAt hL _).andThen fun closing => ?_
    split
    · exact .pure rfl
    · refine (reads_atEnd hL).andThen fun atEnd => ?_
      split
      · exact reads_refuse hL _
      · exact .pure rfl
  refine (reads_lookingAt hL _).andThen fun braced => ?_
  split
  · exact (reads_expect hL _).bind fun _ _ _ => (reads_repeatUntil hL hclosed hstmt).andThen fun _ =>
      (reads_expect hL _).bind fun _ _ _ => .pure rfl
  · exact hstmt.andThen fun _ => .pure rfl

include hstmt hexpr in
theorem reads_ifStatement : L.Reads (ifStatement stmt expr) (ifStatement stmt expr) := by
  have helse : ∀ condition thenBlock : Node, ∀ {r : Reading Node}, r = (do
      if ← lookingAt [.elseWord] then
        let _ ← expect [.elseWord]
        let elseBlock ← block stmt
        return Node.ifElse condition thenBlock elseBlock
      else return .ifElse condition thenBlock .absent) → L.Reads r r := by
    rintro condition thenBlock r rfl
    refine (reads_lookingAt hL _).andThen fun otherwise => ?_
    split
    · exact (reads_expect hL _).bind fun _ _ _ => (reads_block hL hstmt).andThen fun _ => .pure rfl
    · exact .pure rfl
  refine (reads_expect hL _).bind fun _ _ _ => (reads_comparison hL hexpr).andThen fun condition => ?_
  refine (reads_lookingAt hL _).andThen fun named => ?_
  split
  · exact (reads_expect hL _).bind fun _ _ _ => (reads_block hL hstmt).andThen fun thenBlock =>
      helse condition thenBlock rfl
  · exact (reads_block hL hstmt).andThen fun thenBlock => helse condition thenBlock rfl

include hstmt hexpr in
theorem reads_whileStatement : L.Reads (whileStatement stmt expr) (whileStatement stmt expr) :=
  (reads_expect hL _).bind fun _ _ _ => (reads_comparison hL hexpr).andThen fun _ =>
    (reads_expect hL _).bind fun _ _ _ => (reads_block hL hstmt).andThen fun _ => .pure rfl

omit [CharacterNames] in
theorem reads_identifier : L.Reads identifier identifier :=
  (reads_expect hL _).bind fun _ _ ht => .pure (congrArg Value.str (hL.lexeme_eq ht))

omit [CharacterNames] in
include hstmt in
theorem reads_functionDeclaration : L.Reads (functionDeclaration stmt) (functionDeclaration stmt) :=
  (reads_expect hL _).bind fun _ _ _ => (reads_identifier hL).andThen fun _ => (reads_expect hL _).bind fun _ _ _ =>
    (reads_commaList hL (reads_identifier hL)).andThen fun _ => (reads_expect hL _).bind fun _ _ _ =>
      (reads_block hL hstmt).andThen fun _ => .pure rfl

omit [CharacterNames] in
include hexpr in
theorem reads_returnStatement : L.Reads (returnStatement expr) (returnStatement expr) :=
  (reads_expect hL _).bind fun _ _ _ => hexpr.andThen fun _ => (reads_expect hL _).bind fun _ _ _ => .pure rfl

omit [CharacterNames] in
include hexpr in
theorem reads_variableDeclaration : L.Reads (variableDeclaration expr) (variableDeclaration expr) :=
  (reads_expect hL _).bind fun _ _ _ => (reads_identifier hL).andThen fun _ => (reads_expect hL _).bind fun _ _ _ =>
    hexpr.andThen fun _ => (reads_expect hL _).bind fun _ _ _ => .pure rfl

omit [CharacterNames] in
include hexpr in
theorem reads_printStatement : L.Reads (printStatement expr) (printStatement expr) :=
  (reads_expect hL _).bind fun _ _ _ => (reads_expect hL _).bind fun _ _ _ => hexpr.andThen fun _ =>
    (reads_expect hL _).bind fun _ _ _ => (reads_expect hL _).bind fun _ _ _ => .pure rfl

omit [CharacterNames] in
include hexpr in
theorem reads_expressionStatement : L.Reads (expressionStatement expr) (expressionStatement expr) :=
  hexpr.andThen fun _ => (reads_expect hL _).bind fun _ _ _ => .pure rfl

include hstmt hexpr in
/-- **Which statement it is** depends on the kind of the next token. -/
theorem reads_statement : L.Reads (statement stmt expr) (statement stmt expr) := by
  intro ts₁ ts₂ hts
  have hkind : ts₂.head?.map Token.kind = ts₁.head?.map Token.kind := by
    rcases hL.next hts with ⟨rfl, rfl⟩ | ⟨t₁, more₁, t₂, more₂, rfl, rfl, ht, -⟩
    · rfl
    · exact congrArg some (hL.kind_eq ht).symm
  unfold statement
  rw [hkind]
  split
  · exact reads_ifStatement hL hstmt hexpr hts
  · exact reads_whileStatement hL hstmt hexpr hts
  · exact reads_functionDeclaration hL hstmt hts
  · exact reads_returnStatement hL hexpr hts
  · exact reads_variableDeclaration hL hexpr hts
  · exact reads_printStatement hL hexpr hts
  · exact reads_expressionStatement hL hexpr hts

end Statements

theorem reads_statementAt (levels : Nat) : L.Reads (statementAt levels) (statementAt levels) := by
  induction levels with
  | zero => exact reads_refuseLevel hL
  | succ levels ih => exact reads_statement hL ih (reads_expressionAt hL levels)

/-! ## Programs -/

/-- **The reading of a program goes the same way on tokens that are alike.** -/
theorem reads_programReading (levels : Nat) :
    L.Reads (programReading (statementAt levels)) (programReading (statementAt levels)) :=
  (reads_repeatUntil hL (reads_atEnd hL) (reads_statementAt hL levels)).andThen fun _ => .pure rfl

end Likeness

end LineaLang
