import LineaLang.Failure
import LineaLang.Proofs.Parsing.Program
import LineaLang.Proofs.Parsing.Scanned
import LineaLang.Proofs.Text.Written
import LineaLang.Proofs.Tree.WellFormed

/-!
# `LineaLang.Proofs.Parsing.Trees` — what the trees of sources are made of

Tokens whose lexemes are well spelled, as those of a source are, give well-formed trees only. Derivations carry this
upwards production by production: `Symbol.Holds` says what it means for the tree of each symbol. An integer has few
enough digits to be read again, since no more were read.

## Contents

* `Numeral.length_ofNat_of_readInteger` — integers that have been read.
* `Symbol.Holds` — what a tree of a symbol is.
* `Derivation.holds` — what the tree of a derivation is.
* `Node.ofSource_eq_ok_iff`, `Node.tokens_of_source` — the tree of a source is that of its tokens.
* `Node.isProgram_of_tokens`, `Node.all_grammatical_of_source` — what the trees of tokens and of sources are.
-/

namespace LineaLang

attribute [local instance (2000)] instPowNat

/-! ## Integers -/

namespace Numeral

/-- A run of digits denotes a number that has no more digits. -/
theorem valueFrom_lt {text : Text} {acc n : Nat} (h : valueFrom acc text = some n) :
    n < (acc + 1) * 10 ^ text.length := by
  induction text generalizing acc with
  | nil =>
    obtain rfl := Option.some.inj h
    simp
  | cons c rest ih =>
    rw [valueFrom] at h
    split at h
    · rename_i d hd
      have hlt : d < 10 := by
        simp only [CodePoint.digit?, Option.map_eq_some_iff, CodePoint.within] at hd
        obtain ⟨first, hfirst, rfl⟩ := hd
        have hrange := List.find?_some hfirst
        simp only [Bool.and_eq_true, decide_eq_true_eq] at hrange
        omega
      have hrest := ih h
      -- A digit is less than ten, whatever its script.
      have hgrow : (10 * acc + d + 1) * 10 ^ rest.length ≤ (acc + 1) * 10 ^ (rest.length + 1) := by
        rw [Nat.pow_succ', ← Nat.mul_assoc]
        exact Nat.mul_le_mul_right _ (by omega)
      exact Nat.lt_of_lt_of_le hrest hgrow
    · cases h

/-- **What is read as an integer has few enough digits to be read again.** -/
theorem length_ofNat_of_readInteger {text : Text} {n : Int} (h : readInteger text = .ok n) :
    (ofNat n.natAbs).length ≤ limit := by
  unfold readInteger at h
  simp only at h
  split at h
  · cases h
  · rename_i digits _
    split at h
    · cases h
    · rename_i hlength
      split at h
      · cases h
      · split at h
        · cases h
        · rename_i m hm
          have habs : n.natAbs = m := by
            obtain rfl := Except.ok.inj h
            split <;> simp
          rw [value?] at hm
          split at hm
          · cases hm
          · have hlt := valueFrom_lt hm
            rw [habs, length_ofNat_le_iff (by decide)]
            refine Nat.lt_of_lt_of_le hlt ?_
            rw [Nat.zero_add, Nat.one_mul]
            exact Nat.pow_le_pow_right (by decide) (Nat.not_lt.mp hlength)

end Numeral

/-! ## The shape of trees -/

/-- **What a tree of a symbol is.** -/
def Symbol.Holds : (s : Symbol) → s.Tree → Prop
  | .program, node => node.IsProgram Value.Any
  | .statements, nodes => ∀ node ∈ nodes, node.IsStatement Value.Any
  | .arguments, nodes | .moreArguments, nodes => ∀ node ∈ nodes, node.IsExpression Value.Any
  | .parameters, names | .moreParameters, names => ∀ name ∈ names, name.IsName
  | .addends, operands | .factors, operands => ∀ operand ∈ operands, operand.2.IsExpression Value.Any
  | .block, node => node.IsBlock Value.Any
  | .elsePart, node => node = .absent ∨ node.IsBlock Value.Any
  | .comparison, node => node.IsCondition Value.Any
  | .statement, node | .ifStatement, node | .whileStatement, node | .functionDeclaration, node
  | .returnStatement, node | .variableDeclaration, node | .printStatement, node | .expressionStatement, node =>
    node.IsStatement Value.Any
  | .expression, node | .assignment, node | .additive, node | .multiplicative, node | .unary, node | .primary, node
  | .call, node => node.IsExpression Value.Any

/-! ## Literals and names -/

open Grammar

theorem isLiteralNumber_of_numberValue {lexeme : Text} {v : Value} (h : numberValue lexeme = .ok v) :
    v.IsLiteralNumber := by
  unfold numberValue at h
  split at h
  · split at h
    · cases h
      trivial
    · cases h
  · cases hread : Numeral.readInteger lexeme with
    | error fault =>
      rw [hread] at h
      cases h
    | ok n =>
      rw [hread] at h
      cases h
      exact Numeral.length_ofNat_of_readInteger hread

theorem isLiteralNumber_negated {v : Value} (h : v.IsLiteralNumber) : v.negated.IsLiteralNumber := by
  cases v with
  | int n =>
    show (Numeral.ofNat (-n).natAbs).length ≤ Numeral.limit
    rwa [Int.natAbs_neg]
  | float x => trivial
  | none | bool _ | str _ | list _ | dict _ => exact h

theorem isName_of_wellSpelled (token : Terminal [.ident]) (h : token.1.WellSpelled) :
    Value.IsName (.str token.1.lexeme) := by
  have hkind : token.1.kind = .ident := List.mem_singleton.mp token.2
  rwa [Token.WellSpelled, hkind] at h

/-- Operands joined by operators. -/
theorem isExpression_foldl {first : Node} {more : List (ArithOp × Node)} (hfirst : first.IsExpression Value.Any)
    (hmore : ∀ operand ∈ more, operand.2.IsExpression Value.Any) :
    (more.foldl (fun left (op, right) => Node.arith op left right) first).IsExpression Value.Any := by
  induction more generalizing first with
  | nil => exact hfirst
  | cons operand more ih =>
    rw [List.forall_mem_cons] at hmore
    exact ih (.arith operand.1 hfirst hmore.1) hmore.2

theorem isExpression_negation {operand : Node} (h : operand.IsExpression Value.Any) :
    (negation operand).IsExpression Value.Any := by
  have hzero : Value.IsLiteralNumber (.int 0) := by
    show (Numeral.ofNat 0).length ≤ Numeral.limit
    rw [Numeral.ofNat_of_lt (by decide)]
    decide
  cases h with
  | number hnumber _ => exact .number (isLiteralNumber_negated hnumber) trivial
  | string h => exact .arith .sub (.number hzero trivial) (.string h)
  | ident hname => exact .arith .sub (.number hzero trivial) (.ident hname)
  | assign htarget hexpr => exact .arith .sub (.number hzero trivial) (.assign htarget hexpr)
  | arith op hleft hright => exact .arith .sub (.number hzero trivial) (.arith op hleft hright)
  | call hcallee hargs => exact .arith .sub (.number hzero trivial) (.call hcallee hargs)

/-! ## Derivations -/

namespace Derivation

variable [CharacterNames]

/-- **The tree of a derivation that fits** is as the grammar yields it. -/
theorem holds {s : Symbol} (d : Derivation s) {n : Nat} (hfits : d.Fits n)
    (hspelled : ∀ t ∈ d.tokens, t.WellSpelled) : s.Holds d.tree := by
  induction d generalizing n with
  | noStatements | noArguments | noMoreArguments | noParameters | noMoreParameters | noAddends | noFactors =>
    exact List.forall_mem_nil _
  | noElse => exact .inl rfl
  | program _ ih => exact ⟨_, rfl, ih hfits hspelled⟩
  | ofIf _ ih | ofWhile _ ih | ofFunction _ ih | ofReturn _ ih | ofVariable _ ih | ofPrint _ ih
  | ofExpression _ ih | expression _ ih => exact ih hfits.2 hspelled
  | sum _ ih | plain _ ih | ofCall _ ih => exact ih hfits hspelled
  | bare _ ih => exact ⟨_, rfl, List.forall_mem_singleton.mpr (ih hfits hspelled)⟩
  | statements _ _ ih ih' | arguments _ _ ih ih' =>
    rw [tokens, List.forall_mem_append] at hspelled
    exact List.forall_mem_cons.mpr ⟨ih hfits.1 hspelled.1, ih' hfits.2 hspelled.2⟩
  | additive _ _ ih ih' | multiplicative _ _ ih ih' =>
    rw [tokens, List.forall_mem_append] at hspelled
    exact isExpression_foldl (ih hfits.1 hspelled.1) (ih' hfits.2 hspelled.2)
  | moreArguments _ _ _ ih ih' | addends _ _ _ ih ih' | factors _ _ _ ih ih' =>
    rw [tokens, List.forall_mem_cons, List.forall_mem_append] at hspelled
    exact List.forall_mem_cons.mpr ⟨ih hfits.1 hspelled.2.1, ih' hfits.2 hspelled.2.2⟩
  | braced _ _ _ ih =>
    rw [tokens, List.forall_mem_cons, List.forall_mem_append] at hspelled
    exact ⟨_, rfl, ih hfits hspelled.2.1⟩
  | ifStatement _ _ _ thenBlock elsePart ih ih' ih'' =>
    simp only [tokens, List.forall_mem_cons, List.forall_mem_append] at hspelled
    obtain ⟨-, -, hcondition, hthen, helse⟩ := hfits
    obtain ⟨-, hspelled, -, hspelled', hspelled''⟩ := hspelled
    obtain ⟨thens, hthens, hstatements⟩ := ih' hthen hspelled'
    show (Node.ifElse _ thenBlock.tree elsePart.tree).IsStatement Value.Any
    rw [hthens]
    rcases ih'' helse hspelled'' with habsent | ⟨elses, helses, hstatements'⟩
    · rw [habsent]
      exact .ifThen (ih hcondition hspelled) hstatements
    · rw [helses]
      exact .ifElse (ih hcondition hspelled) hstatements hstatements'
  | elseBlock _ _ ih =>
    rw [tokens, List.forall_mem_cons] at hspelled
    exact .inr (ih hfits hspelled.2)
  | whileStatement _ _ _ body ih ih' =>
    simp only [tokens, List.forall_mem_cons, List.forall_mem_append] at hspelled
    obtain ⟨statements, hbody, hstatements⟩ := ih' hfits.2 hspelled.2.2.2
    show (Node.whileLoop _ body.tree).IsStatement Value.Any
    rw [hbody]
    exact .whileLoop (ih hfits.1 hspelled.2.1) hstatements
  | functionDeclaration _ name _ _ _ body ih ih' =>
    simp only [tokens, List.forall_mem_cons, List.forall_mem_append] at hspelled
    obtain ⟨-, hname, -, hnames, -, hspelled⟩ := hspelled
    obtain ⟨statements, hbody, hstatements⟩ := ih' hfits.2 hspelled
    show (Node.function _ _ body.tree).IsStatement Value.Any
    rw [hbody]
    exact .function (isName_of_wellSpelled name hname) (ih hfits.1 hnames) hstatements
  | parameters first _ ih =>
    rw [tokens, List.forall_mem_cons] at hspelled
    exact List.forall_mem_cons.mpr ⟨isName_of_wellSpelled first hspelled.1, ih hfits hspelled.2⟩
  | moreParameters _ next _ ih =>
    rw [tokens, List.forall_mem_cons, List.forall_mem_cons] at hspelled
    exact List.forall_mem_cons.mpr ⟨isName_of_wellSpelled next hspelled.2.1, ih hfits hspelled.2.2⟩
  | returnStatement _ _ _ ih =>
    rw [tokens, List.forall_mem_cons, List.forall_mem_append] at hspelled
    exact .ret (ih hfits hspelled.2.1)
  | variableDeclaration _ name _ _ _ ih =>
    simp only [tokens, List.forall_mem_cons, List.forall_mem_append] at hspelled
    exact .declare (isName_of_wellSpelled name hspelled.2.1) (ih hfits hspelled.2.2.2.1)
  | printStatement _ _ _ _ _ ih =>
    simp only [tokens, List.forall_mem_cons, List.forall_mem_append] at hspelled
    exact .print (ih hfits hspelled.2.2.1)
  | expressionStatement _ _ ih =>
    rw [tokens, List.forall_mem_append] at hspelled
    exact .expression (ih hfits hspelled.1)
  | comparison _ _ _ ih ih' =>
    rw [tokens, List.forall_mem_append, List.forall_mem_cons] at hspelled
    exact .comparison _ (ih hfits.1 hspelled.1) (ih' hfits.2 hspelled.2.2)
  | assign target _ _ ih ih' =>
    rw [tokens, List.forall_mem_append, List.forall_mem_cons] at hspelled
    obtain ⟨⟨name, htarget⟩, hfits, -, hfits'⟩ := hfits
    -- The target is a name, so the tree left of the sign is the node of that name.
    have htree : (Node.ident name).IsExpression Value.Any := by
      rw [← htarget]
      exact ih hfits hspelled.1
    have hname : name.IsName := by
      cases htree with
      | ident h => exact h
    show (Node.assign (targetName target.tree) _).IsExpression Value.Any
    rw [htarget]
    exact .assign hname (ih' hfits' hspelled.2.2)
  | negative _ _ ih =>
    rw [tokens, List.forall_mem_cons] at hspelled
    exact isExpression_negation (ih hfits hspelled.2)
  | number token =>
    obtain ⟨v, hv⟩ := hfits.1 (List.mem_singleton.mp token.2)
    show (Node.number ((numberValue token.1.lexeme).toOption.getD .none)).IsExpression Value.Any
    rw [hv]
    exact .number (isLiteralNumber_of_numberValue hv) trivial
  | string token =>
    have hkind : token.1.kind = .string := List.mem_singleton.mp token.2
    have hlexeme : StringLexeme token.1.lexeme := by
      have hself := hspelled token.1 List.mem_cons_self
      rwa [Token.WellSpelled, hkind] at hself
    obtain ⟨v, hv⟩ := hfits.2 hkind
    obtain ⟨text, rfl⟩ := read?_of_stringLexeme hlexeme hv
    show (Node.string ((Literal.read? token.1.lexeme).getD .none)).IsExpression Value.Any
    rw [hv]
    exact .string trivial
  | ident token => exact .ident (isName_of_wellSpelled token (hspelled _ List.mem_cons_self))
  | parenthesised _ _ _ ih =>
    rw [tokens, List.forall_mem_cons, List.forall_mem_append] at hspelled
    exact ih hfits hspelled.2.1
  | call name _ _ _ ih =>
    simp only [tokens, List.forall_mem_cons, List.forall_mem_append] at hspelled
    exact .call (isName_of_wellSpelled name hspelled.1) (ih hfits hspelled.2.2.1)

end Derivation

variable [CharacterNames]

/-- **Well-spelled tokens give well-formed programs.** -/
theorem Node.isProgram_of_tokens {tokens : List Token} {program : Node} (hspelled : ∀ t ∈ tokens, t.WellSpelled)
    (h : Node.ofTokens tokens = .ok program) : program.IsProgram Value.Any := by
  obtain ⟨d, hfits, rfl, rfl⟩ := ofTokens_eq_ok_iff.mp h
  exact d.holds hfits hspelled

section Sources

variable {source : Text}

theorem Node.ofSource_of_scan_error {e : LexError} (h : Token.scan source = .error e) :
    Node.ofSource source = .error (.diagnostic (.lex e)) := by
  rw [ofSource, h]
  rfl

/-- A source that has tokens has their tree. -/
theorem Node.ofSource_of_scan {tokens : List Token} (h : Token.scan source = .ok tokens) :
    Node.ofSource source = (Node.ofTokens tokens).mapError .ofParse := by
  rw [ofSource, h]
  rfl

/-- Such a source has a tree exactly if its tokens have it. -/
theorem Node.ofSource_eq_ok_iff {tokens : List Token} {program : Node} (h : Token.scan source = .ok tokens) :
    Node.ofSource source = .ok program ↔ Node.ofTokens tokens = .ok program := by
  rw [ofSource_of_scan h]
  cases Node.ofTokens tokens with
  | error failure => exact ⟨nofun, nofun⟩
  | ok program' =>
    constructor
    · rintro ⟨⟩
      rfl
    · rintro ⟨⟩
      rfl

/-- The tokens of a source that has a tree. -/
theorem Node.tokens_of_source {program : Node} (h : Node.ofSource source = .ok program) :
    ∃ tokens, Token.scan source = .ok tokens ∧ Node.ofTokens tokens = .ok program := by
  cases hscan : Token.scan source with
  | error e =>
    rw [ofSource_of_scan_error hscan] at h
    cases h
  | ok tokens => exact ⟨tokens, rfl, (ofSource_eq_ok_iff hscan).mp h⟩

end Sources

/-- **The tree of a source is as the grammar yields it.** -/
theorem Node.all_grammatical_of_source {source : Text} {program : Node}
    (h : Node.ofSource source = .ok program) :
    (∃ statements, program = .program statements) ∧ program.All Node.Grammatical := by
  obtain ⟨tokens, hscan, hread⟩ := tokens_of_source h
  have hprogram := isProgram_of_tokens (Token.wellSpelled_of_scan hscan) hread
  refine ⟨?_, hprogram.all_grammatical⟩
  obtain ⟨statements, heq, -⟩ := hprogram
  exact ⟨statements, heq⟩

end LineaLang
