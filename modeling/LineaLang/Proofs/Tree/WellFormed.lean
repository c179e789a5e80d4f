import LineaLang.Proofs.Text.Plain
import LineaLang.Proofs.Tree.All

/-!
# `LineaLang.Proofs.Tree.WellFormed` — trees as the grammar yields them

A tree may hold any node in any place, and any value for a name or a literal. The grammar yields only some of
them: what is evaluated is an expression, or a comparison where a condition stands, and nowhere else; branches and
bodies are blocks; names are words, and literals numbers or texts. These are predicates with one rule for each kind
of node, so that whatever walks over such trees can be followed rule by rule.

What else is known of the literals of a tree, be it that files take its strings or that its numbers are in range,
is a property that the predicates carry along.

## Contents

* `Value.IsName`, `Value.IsLiteralNumber` — names and numbers as a source has them.
* `Node.IsExpression`, `Node.IsCondition`, `Node.IsStatement`, `Node.IsProgram` — well-formed trees.
* `Node.Grammatical` — what is left of this at one node; `Node.IsProgram.all_grammatical`.
* `Node.IsProgram.and` — more that is known of the literals.
-/

namespace LineaLang

/-! ## Names and literals -/

/-- **A name as a source has it.** -/
def Value.IsName : Value → Prop
  | .str word => WordLexeme word
  | _ => False

/-- **A number as a source has it**, which is short enough to be read back. -/
def Value.IsLiteralNumber : Value → Prop
  | .int n => (Numeral.ofNat n.natAbs).length ≤ Numeral.limit
  | .float _ => True
  | _ => False

/-- No more is known of a literal than what the grammar says. -/
abbrev Value.Any : Value → Prop := fun _ => True

theorem Value.IsName.exists_word {name : Value} (h : name.IsName) : ∃ word, name = .str word ∧ WordLexeme word := by
  cases name with
  | str word => exact ⟨word, rfl, h⟩
  | none | bool _ | int _ | float _ | list _ | dict _ => cases h

theorem Value.exists_words {names : List Value} (h : ∀ name ∈ names, name.IsName) :
    ∃ words : List Text, names = words.map .str ∧ ∀ word ∈ words, WordLexeme word := by
  induction names with
  | nil => exact ⟨[], rfl, List.forall_mem_nil _⟩
  | cons name rest ih =>
    rw [List.forall_mem_cons] at h
    obtain ⟨word, rfl, hword⟩ := h.1.exists_word
    obtain ⟨words, rfl, hwords⟩ := ih h.2
    exact ⟨word :: words, rfl, List.forall_mem_cons.mpr ⟨hword, hwords⟩⟩

namespace Node

/-- **A node as the grammar yields it**: names are words, and literals are numbers or texts. -/
def Grammatical : Node → Prop
  | .declare name _ => name.IsName
  | .function name params _ => name.IsName ∧ ∀ param ∈ params, param.IsName
  | .assign target _ => target.IsName
  | .ident name => name.IsName
  | .call callee _ => callee.IsName
  | .number value => value.IsLiteralNumber
  | .string value => value.isText = true
  | _ => True

/-- **A string that a file takes**, or a node that is no string. -/
def SurrogateFree : Node → Prop
  | .string (.str text) => text.SurrogateFree
  | _ => True

/-! ## Well-formed trees -/

section

variable (L : Value → Prop)

/-- **An expression** whose literals satisfy `L`. A comparison is none. -/
inductive IsExpression : Node → Prop where
  | number {value : Value} (hnumber : value.IsLiteralNumber) (h : L value) : IsExpression (.number value)
  | string {text : Text} (h : L (.str text)) : IsExpression (.string (.str text))
  | ident {name : Value} (hname : name.IsName) : IsExpression (.ident name)
  | assign {target : Value} {expr : Node} (htarget : target.IsName) (hexpr : IsExpression expr) :
      IsExpression (.assign target expr)
  | arith (op : ArithOp) {left right : Node} (hleft : IsExpression left) (hright : IsExpression right) :
      IsExpression (.arith op left right)
  | call {callee : Value} {args : List Node} (hcallee : callee.IsName) (hargs : ∀ arg ∈ args, IsExpression arg) :
      IsExpression (.call callee args)

/-- **A condition** compares two expressions. -/
inductive IsCondition : Node → Prop where
  | comparison (op : CompareOp) {left right : Node} (hleft : IsExpression L left) (hright : IsExpression L right) :
      IsCondition (.comparison op left right)

/-- **A statement.** Its branches and its body are blocks of statements. -/
inductive IsStatement : Node → Prop where
  | expression {expr : Node} (hexpr : IsExpression L expr) : IsStatement (.expression expr)
  | print {expr : Node} (hexpr : IsExpression L expr) : IsStatement (.print expr)
  | ret {expr : Node} (hexpr : IsExpression L expr) : IsStatement (.ret expr)
  | declare {name : Value} {init : Node} (hname : name.IsName) (hinit : IsExpression L init) :
      IsStatement (.declare name init)
  | function {name : Value} {params : List Value} {body : List Node} (hname : name.IsName)
      (hparams : ∀ param ∈ params, param.IsName) (hbody : ∀ statement ∈ body, IsStatement statement) :
      IsStatement (.function name params (.block body))
  | ifThen {condition : Node} {thens : List Node} (hcondition : IsCondition L condition)
      (hthens : ∀ statement ∈ thens, IsStatement statement) : IsStatement (.ifElse condition (.block thens) .absent)
  | ifElse {condition : Node} {thens elses : List Node} (hcondition : IsCondition L condition)
      (hthens : ∀ statement ∈ thens, IsStatement statement) (helses : ∀ statement ∈ elses, IsStatement statement) :
      IsStatement (.ifElse condition (.block thens) (.block elses))
  | whileLoop {condition : Node} {body : List Node} (hcondition : IsCondition L condition)
      (hbody : ∀ statement ∈ body, IsStatement statement) : IsStatement (.whileLoop condition (.block body))

/-- A block of statements. -/
def IsBlock (node : Node) : Prop :=
  ∃ statements, node = .block statements ∧ ∀ statement ∈ statements, IsStatement L statement

/-- **A program.** -/
def IsProgram (node : Node) : Prop :=
  ∃ statements, node = .program statements ∧ ∀ statement ∈ statements, IsStatement L statement

end

/-! ## Node by node -/

variable {L : Value → Prop}

theorem allOf_iff {p : Node → Prop} {nodes : List Node} : AllOf p nodes ↔ ∀ node ∈ nodes, node.All p := by
  induction nodes with
  | nil => exact ⟨fun _ => List.forall_mem_nil _, fun _ => trivial⟩
  | cons node rest ih => rw [AllOf, ih, List.forall_mem_cons]

theorem IsExpression.all_grammatical {expr : Node} (h : IsExpression L expr) : expr.All Grammatical := by
  induction h with
  | number hnumber _ => exact ⟨hnumber, trivial⟩
  | string _ => exact ⟨rfl, trivial⟩
  | ident hname => exact ⟨hname, trivial⟩
  | assign htarget _ ih => exact ⟨htarget, ih⟩
  | arith _ _ _ ih ih' => exact ⟨trivial, ih, ih'⟩
  | call hcallee _ ih => exact ⟨hcallee, allOf_iff.mpr ih⟩

theorem IsCondition.all_grammatical {condition : Node} (h : IsCondition L condition) : condition.All Grammatical := by
  cases h with
  | comparison _ hleft hright => exact ⟨trivial, hleft.all_grammatical, hright.all_grammatical⟩

theorem all_block {statements : List Node} (h : ∀ statement ∈ statements, statement.All Grammatical) :
    (Node.block statements).All Grammatical := ⟨trivial, allOf_iff.mpr h⟩

theorem IsStatement.all_grammatical {statement : Node} (h : IsStatement L statement) : statement.All Grammatical := by
  induction h with
  | expression h | print h | ret h => exact ⟨trivial, h.all_grammatical⟩
  | declare hname h => exact ⟨hname, h.all_grammatical⟩
  | function hname hparams _ ih => exact ⟨⟨hname, hparams⟩, all_block ih⟩
  | ifThen hcondition _ ih => exact ⟨trivial, hcondition.all_grammatical, all_block ih, trivial, trivial⟩
  | ifElse hcondition _ _ ih ih' => exact ⟨trivial, hcondition.all_grammatical, all_block ih, all_block ih'⟩
  | whileLoop hcondition _ ih => exact ⟨trivial, hcondition.all_grammatical, all_block ih⟩

/-- **Every node of a program is as the grammar yields it.** -/
theorem IsProgram.all_grammatical {program : Node} (h : IsProgram L program) : program.All Grammatical := by
  obtain ⟨statements, rfl, h⟩ := h
  exact ⟨trivial, allOf_iff.mpr fun statement hmem => (h statement hmem).all_grammatical⟩

/-! ## More about literals -/

section

variable {Q : Value → Prop}

/-- All literals of a tree satisfy `Q`. -/
def AllLiterals (Q : Value → Prop) (node : Node) : Prop := node.All fun n => ∀ v ∈ n.ownLiteral, Q v

theorem IsExpression.and {expr : Node} (h : IsExpression L expr) (hQ : expr.AllLiterals Q) :
    IsExpression (fun v => L v ∧ Q v) expr := by
  induction h with
  | number hnumber h => exact .number hnumber ⟨h, hQ.1 _ (List.mem_singleton_self _)⟩
  | string h => exact .string ⟨h, hQ.1 _ (List.mem_singleton_self _)⟩
  | ident hname => exact .ident hname
  | assign htarget _ ih => exact .assign htarget (ih hQ.2)
  | arith op _ _ ih ih' => exact .arith op (ih hQ.2.1) (ih' hQ.2.2)
  | call hcallee _ ih => exact .call hcallee fun arg hmem => ih arg hmem (allOf_iff.mp hQ.2 arg hmem)

theorem IsCondition.and {condition : Node} (h : IsCondition L condition) (hQ : condition.AllLiterals Q) :
    IsCondition (fun v => L v ∧ Q v) condition := by
  cases h with
  | comparison op hleft hright => exact .comparison op (hleft.and hQ.2.1) (hright.and hQ.2.2)

theorem IsStatement.and {statement : Node} (h : IsStatement L statement) (hQ : statement.AllLiterals Q) :
    IsStatement (fun v => L v ∧ Q v) statement := by
  induction h with
  | expression h => exact .expression (h.and hQ.2)
  | print h => exact .print (h.and hQ.2)
  | ret h => exact .ret (h.and hQ.2)
  | declare hname h => exact .declare hname (h.and hQ.2)
  | function hname hparams _ ih =>
    exact .function hname hparams fun s hmem => ih s hmem (allOf_iff.mp hQ.2.2 s hmem)
  | ifThen hcondition _ ih =>
    exact .ifThen (hcondition.and hQ.2.1) fun s hmem => ih s hmem (allOf_iff.mp hQ.2.2.1.2 s hmem)
  | ifElse hcondition _ _ ih ih' =>
    exact .ifElse (hcondition.and hQ.2.1) (fun s hmem => ih s hmem (allOf_iff.mp hQ.2.2.1.2 s hmem))
      fun s hmem => ih' s hmem (allOf_iff.mp hQ.2.2.2.2 s hmem)
  | whileLoop hcondition _ ih =>
    exact .whileLoop (hcondition.and hQ.2.1) fun s hmem => ih s hmem (allOf_iff.mp hQ.2.2.2 s hmem)

/-- **What is known of the literals besides** is carried along. -/
theorem IsProgram.and {program : Node} (h : IsProgram L program) (hQ : program.AllLiterals Q) :
    IsProgram (fun v => L v ∧ Q v) program := by
  obtain ⟨statements, rfl, h⟩ := h
  exact ⟨statements, rfl, fun s hmem => (h s hmem).and (allOf_iff.mp hQ.2 s hmem)⟩

end

end Node

end LineaLang
