import LineaLang.Proofs.Parsing.Derivation
import Mathlib.Data.List.Chain

/-!
# `LineaLang.Proofs.Parsing.Joints` — where operands meet

Between two operands of an expression there is always a token that joins them, and the arguments of a call follow the
name in parentheses. So nowhere in an expression does one operand end and another one start at the next token
(`Grammar.Meets`), unless a name is followed by a parenthesis. Where two operands meet, an expression has come to its
end. An expression also ends as an operand does, and has no tokens but those that occur in expressions.

## Contents

* `Grammar.operandEnd`, `Grammar.expressionKinds` — the last token of an operand, and all tokens of expressions.
* `Grammar.Meets`, `Grammar.Joined` — two operands side by side, and tokens where there are none such.
* `Derivation.joined` — the tokens of every expression and of every comparison are joined.
-/

namespace LineaLang

namespace Grammar

/-- The kinds of token that an operand may end with. -/
def operandEnd : List TokenKind := [.number, .string, .ident, .rparen]

/-- The kinds of token that occur in expressions and comparisons. -/
def expressionKinds : List TokenKind :=
  operandEnd ++ [.lparen, .comma, .assign, .plus, .minus, .times, .div] ++ comparisonKinds

/-- **Two operands meet**: the first token ends one, and the second starts another that is not the arguments for
    it. -/
def Meets (t u : Token) : Prop :=
  t.kind ∈ operandEnd ∧ u.kind ∈ primaryStart ∧ ¬ (t.kind = .ident ∧ u.kind = .lparen)

/-- **Tokens as they stand in an expression**, or none at all: no two operands meet, and an operand ends them. -/
structure Joined (tokens : List Token) : Prop where
  kinds : ∀ t ∈ tokens, t.kind ∈ expressionKinds
  apart : tokens.IsChain fun t u => ¬ Meets t u
  last : ∀ t ∈ tokens.getLast?, t.kind ∈ operandEnd

namespace Joined

variable {a b : List Token} {kinds : List TokenKind}

theorem nil : Joined [] := ⟨List.forall_mem_nil _, .nil, nofun⟩

theorem singleton (t : Terminal kinds) (h : kinds ⊆ operandEnd) : Joined [t.1] where
  kinds := List.forall_mem_singleton.mpr (List.mem_append_left _ (List.mem_append_left _ (h t.2)))
  apart := .singleton _
  last u hu := by
    cases hu
    exact h t.2

theorem append (ha : Joined a) (hb : Joined b) (h : ∀ t ∈ a.getLast?, ∀ u ∈ b.head?, ¬ Meets t u) :
    Joined (a ++ b) where
  kinds := List.forall_mem_append.mpr ⟨ha.kinds, hb.kinds⟩
  apart := List.isChain_append.mpr ⟨ha.apart, hb.apart, h⟩
  last t ht := by
    cases b with
    | nil =>
      rw [List.append_nil] at ht
      exact ha.last t ht
    | cons u rest =>
      rw [List.getLast?_append_cons] at ht
      exact hb.last t ht

/-- What starts as no operand does goes on with anything. -/
theorem append_of_starts (ha : Joined a) (hb : Joined b) (hstarts : Starts kinds b ∨ b = [])
    (hkinds : ∀ kind ∈ kinds, kind ∉ primaryStart) : Joined (a ++ b) := by
  refine ha.append hb fun t _ u hu hmeets => ?_
  cases b with
  | nil => cases hu
  | cons token rest =>
    cases hu
    exact hkinds u.kind (hstarts.resolve_right (List.cons_ne_nil _ _)) hmeets.2.1

/-- A token that ends no operand may stand before anything. -/
theorem cons (t : Terminal kinds) (hb : Joined b) (hne : b ≠ []) (hin : kinds ⊆ expressionKinds)
    (hend : ∀ kind ∈ kinds, kind ∉ operandEnd) : Joined (t.1 :: b) where
  kinds := List.forall_mem_cons.mpr ⟨hin t.2, hb.kinds⟩
  apart := List.isChain_cons.mpr ⟨fun _ _ hmeets => hend _ t.2 hmeets.1, hb.apart⟩
  last u hu := by
    rw [List.getLast?_cons_of_ne_nil hne] at hu
    exact hb.last u hu

/-- A closing parenthesis may stand after anything. -/
theorem closed (ha : Joined a) (closing : Terminal [.rparen]) : Joined (a ++ [closing.1]) := by
  have hstarts : Starts [.rparen] [closing.1] := closing.2
  exact ha.append_of_starts (singleton closing (by decide)) (.inl hstarts) (by decide)

end Joined

end Grammar

namespace Symbol

/-- The symbols of comparisons, of expressions, and of what is within. -/
def isExpression : Symbol → Bool
  | .comparison | .expression | .assignment | .additive | .addends | .multiplicative | .factors | .unary | .primary
  | .call | .arguments | .moreArguments => true
  | _ => false

end Symbol

namespace Derivation

open Grammar

/-- An operator between two operands. -/
theorem joined_infix {kinds : List TokenKind} {a b : List Token} (ha : Joined a) (sign : Terminal kinds)
    (hb : Joined b) (hne : b ≠ []) (hin : kinds ⊆ expressionKinds)
    (hkinds : ∀ kind ∈ kinds, kind ∉ operandEnd ∧ kind ∉ primaryStart) : Joined (a ++ sign.1 :: b) :=
  ha.append_of_starts (.cons sign hb hne hin fun kind hk => (hkinds kind hk).1) (.inl sign.2)
    fun kind hk => (hkinds kind hk).2

/-- **The tokens of an expression are joined**, production by production. -/
theorem joined {s : Symbol} (hs : s.isExpression = true) (d : Derivation s) : Joined d.tokens := by
  induction d with
  | program | noStatements | statements | ofIf | ofWhile | ofFunction | ofReturn | ofVariable | ofPrint | ofExpression
  | braced | bare | ifStatement | noElse | elseBlock | whileStatement | functionDeclaration | noParameters | parameters
  | noMoreParameters | moreParameters | returnStatement | variableDeclaration | printStatement
  | expressionStatement => cases hs
  | expression _ ih | sum _ ih | plain _ ih | ofCall _ ih => exact ih rfl
  | noAddends | noFactors | noArguments | noMoreArguments => exact .nil
  | number token | string token | ident token => exact .singleton token (by decide)
  | comparison left sign right ih ih' =>
    exact joined_infix (ih rfl) sign (ih' rfl) (right.tokens_ne_nil rfl) (by decide) (by decide)
  | assign target sign value ih ih' =>
    exact joined_infix (ih rfl) sign (ih' rfl) (value.tokens_ne_nil rfl) (by decide) (by decide)
  | additive first more ih ih' | multiplicative first more ih ih' | arguments first more ih ih' =>
    exact (ih rfl).append_of_starts (ih' rfl) (more.starts_or_nil.imp_right And.right) (by decide)
  | addends sign next more ih ih' | factors sign next more ih ih' | moreArguments sign next more ih ih' =>
    have hmore := (ih rfl).append_of_starts (ih' rfl) (more.starts_or_nil.imp_right And.right) (by decide)
    exact .cons sign hmore (List.append_ne_nil_of_left_ne_nil (next.tokens_ne_nil rfl) _) (by decide) (by decide)
  | negative sign operand ih => exact .cons sign (ih rfl) (operand.tokens_ne_nil rfl) (by decide) (by decide)
  | parenthesised opening inner closing ih =>
    exact .cons opening ((ih rfl).closed closing) (List.append_ne_nil_of_right_ne_nil _ (List.cons_ne_nil _ _))
      (by decide) (by decide)
  | call name opening args closing ih =>
    have hargs : Joined (opening.1 :: (args.tokens ++ [closing.1])) :=
      .cons opening ((ih rfl).closed closing) (List.append_ne_nil_of_right_ne_nil _ (List.cons_ne_nil _ _))
        (by decide) (by decide)
    have hname : Joined [name.1] := .singleton name (by decide)
    refine hname.append hargs fun t ht u hu hmeets => ?_
    -- A name and the parenthesis after it do not meet.
    cases ht
    cases hu
    exact hmeets.2.2 ⟨List.mem_singleton.mp name.2, List.mem_singleton.mp opening.2⟩

end Derivation

end LineaLang
