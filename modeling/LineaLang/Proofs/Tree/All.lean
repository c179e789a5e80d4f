import LineaLang.Tree.Basic

/-!
# `LineaLang.Proofs.Tree.All` — properties of all nodes of a tree

A property of nodes that looks at one node is carried to a whole tree by `Node.All`. The names and the literal
of a node are its own values; all else in it are other nodes.

## Contents

* `Node.All` — a property of a node and of every node below it.
* `Node.ownNames`, `Node.ownLiteral`, `Node.OwnValues` — the values of one node.
* `Node.All.imp` — what follows at each node follows for the tree.
-/

namespace LineaLang.Node

/-! ## Properties of all nodes -/

mutual

/-- **A property of a node and of every node below it.** -/
def All (p : Node → Prop) (node : Node) : Prop :=
  p node ∧ match node with
  | .absent => True
  | .program statements => AllOf p statements
  | .block statements => AllOf p statements
  | .ifElse condition thenBlock elseBlock => condition.All p ∧ thenBlock.All p ∧ elseBlock.All p
  | .whileLoop condition body => condition.All p ∧ body.All p
  | .declare _ init => init.All p
  | .function _ _ body => body.All p
  | .ret expr => expr.All p
  | .print expr => expr.All p
  | .expression expr => expr.All p
  | .assign _ expr => expr.All p
  | .comparison _ left right => left.All p ∧ right.All p
  | .arith _ left right => left.All p ∧ right.All p
  | .ident _ => True
  | .number _ => True
  | .string _ => True
  | .call _ args => AllOf p args

/-- A property of all nodes of some trees. -/
def AllOf (p : Node → Prop) : List Node → Prop
  | [] => True
  | node :: rest => node.All p ∧ AllOf p rest

end

/-- The names in a node itself. -/
def ownNames : Node → List Value
  | .declare name _ => [name]
  | .function name params _ => name :: params
  | .assign target _ => [target]
  | .ident name => [name]
  | .call callee _ => [callee]
  | _ => []

/-- The literal that a node itself is. -/
def ownLiteral : Node → List Value
  | .number value => [value]
  | .string value => [value]
  | _ => []

/-- A property of the values of a node itself. -/
def OwnValues (p : Value → Prop) (node : Node) : Prop :=
  (∀ v ∈ node.ownNames, p v) ∧ ∀ v ∈ node.ownLiteral, p v

/-- A property of all nodes is one of the topmost. -/
theorem All.self {p : Node → Prop} {node : Node} (h : node.All p) : p node := by
  cases node <;> exact h.1

section Implication

variable {p q r : Node → Prop}

mutual

/-- **What follows at each node follows for the tree.** -/
theorem All.imp (h : ∀ node, p node → q node → r node) (node : Node) (hp : node.All p) (hq : node.All q) :
    node.All r := by
  have hself := h node hp.self hq.self
  cases node with
  | absent | ident _ | number _ | string _ => exact ⟨hself, trivial⟩
  | program statements | block statements => exact ⟨hself, AllOf.imp h statements hp.2 hq.2⟩
  | ifElse condition thenBlock elseBlock =>
    exact ⟨hself, All.imp h condition hp.2.1 hq.2.1, All.imp h thenBlock hp.2.2.1 hq.2.2.1,
      All.imp h elseBlock hp.2.2.2 hq.2.2.2⟩
  | whileLoop left right | comparison _ left right | arith _ left right =>
    exact ⟨hself, All.imp h left hp.2.1 hq.2.1, All.imp h right hp.2.2 hq.2.2⟩
  | declare _ child | function _ _ child | ret child | print child | expression child | assign _ child =>
    exact ⟨hself, All.imp h child hp.2 hq.2⟩
  | call _ args => exact ⟨hself, AllOf.imp h args hp.2 hq.2⟩

theorem AllOf.imp (h : ∀ node, p node → q node → r node) (nodes : List Node) (hp : AllOf p nodes)
    (hq : AllOf q nodes) : AllOf r nodes := by
  cases nodes with
  | nil => trivial
  | cons node rest => exact ⟨All.imp h node hp.1 hq.1, AllOf.imp h rest hp.2 hq.2⟩

end

end Implication

end LineaLang.Node
