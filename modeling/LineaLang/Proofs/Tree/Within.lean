import LineaLang.Proofs.Tree.WellFormed

/-!
# `LineaLang.Proofs.Tree.Within` — the nodes that occur in a tree

Which nodes occur in a tree depends on how far one looks: the body of a function is a part of its declaration, but
it is not executed where the declaration is. So what the parts of a node are is a parameter of `Node.Within`. A
property of all nodes that occur in a tree goes down to its parts without more ado. In a program whatever occurs is a
part as the grammar has it, so a node of a kind that is evaluated is an expression or a condition.

## Contents

* `Node.parts`, `Node.outerParts` — the parts of a node, with and without the bodies of functions.
* `Node.Within` — a node occurs in a tree.
* `Node.forall_within`, `Node.all_iff_within` — properties of all nodes that occur in a tree.
* `Node.allLiterals_of_within` — what is known of the literals of a tree.
* `Node.IsEvaluated`, `Node.IsProgram.evaluated` — what is evaluated in a program.
-/

namespace LineaLang.Node

/-- **The parts of a node**, in the order in which they stand. -/
def parts : Node → List Node
  | .program statements => statements
  | .block statements => statements
  | .ifElse condition thenBlock elseBlock => [condition, thenBlock, elseBlock]
  | .whileLoop condition body => [condition, body]
  | .declare _ init => [init]
  | .function _ _ body => [body]
  | .ret expr => [expr]
  | .print expr => [expr]
  | .expression expr => [expr]
  | .assign _ expr => [expr]
  | .comparison _ left right => [left, right]
  | .arith _ left right => [left, right]
  | .call _ args => args
  | .absent => []
  | .ident _ => []
  | .number _ => []
  | .string _ => []

/-- The parts of a node that are executed where the node is: all but the bodies of functions. -/
def outerParts : Node → List Node
  | .function .. => []
  | node => node.parts

/-- **A node occurs in a tree**, where `below` says what the parts of a node are. -/
inductive Within (below : Node → List Node) (n : Node) : Node → Prop where
  | self : Within below n n
  | part {part node : Node} (hpart : part ∈ below node) (h : Within below n part) : Within below n node

variable {below : Node → List Node} {p : Node → Prop}

/-- **All nodes that occur in a tree**: the topmost, and those that occur in its parts. -/
theorem forall_within {node : Node} :
    (∀ n, Within below n node → p n) ↔ p node ∧ ∀ part ∈ below node, ∀ n, Within below n part → p n := by
  constructor
  · exact fun h => ⟨h node .self, fun part hpart n hn => h n (.part hpart hn)⟩
  · rintro ⟨hself, hparts⟩ n hn
    cases hn with
    | self => exact hself
    | part hpart hn => exact hparts _ hpart n hn

/-- A property of a whole tree is one of its topmost node and of its parts. -/
theorem all_iff_parts {node : Node} : node.All p ↔ p node ∧ ∀ part ∈ node.parts, part.All p := by
  cases node <;> simp [All, allOf_iff, parts]

theorem sizeOf_lt_of_mem_parts {part node : Node} (h : part ∈ node.parts) : sizeOf part < sizeOf node := by
  cases node with
  | program statements | block statements | call _ statements =>
    have hpart : sizeOf part < sizeOf statements := List.sizeOf_lt_of_mem h
    simp
    omega
  | absent | ident _ | number _ | string _ => exact absurd h List.not_mem_nil
  | _ =>
    simp only [parts, List.mem_cons, List.not_mem_nil, or_false] at h
    grind

/-- **A property of a tree** is one of all nodes that occur in it. -/
theorem all_iff_within {node : Node} : node.All p ↔ ∀ n, Within parts n node → p n := by
  constructor
  · intro h n hn
    induction hn with
    | self => exact h.self
    | part hpart _ ih => exact ih ((all_iff_parts.mp h).2 _ hpart)
  · -- From the top down, along the parts, which are smaller.
    intro h
    have hdown := forall_within.mp h
    exact all_iff_parts.mpr ⟨hdown.1, fun part hpart => all_iff_within.mpr (hdown.2 part hpart)⟩
termination_by sizeOf node
decreasing_by exact sizeOf_lt_of_mem_parts hpart

/-! ## Well-formed trees -/

/-- **A node of a kind that is evaluated.** -/
def IsEvaluated : Node → Prop
  | .number _ => True
  | .string _ => True
  | .ident _ => True
  | .assign .. => True
  | .arith .. => True
  | .comparison .. => True
  | .call .. => True
  | _ => False

/-- **A part of a program.** -/
inductive IsPart (L : Value → Prop) : Node → Prop where
  | program {node : Node} (h : IsProgram L node) : IsPart L node
  | statement {node : Node} (h : IsStatement L node) : IsPart L node
  | block {node : Node} (h : IsBlock L node) : IsPart L node
  | expression {node : Node} (h : IsExpression L node) : IsPart L node
  | condition {node : Node} (h : IsCondition L node) : IsPart L node
  | absent : IsPart L .absent

variable {L : Value → Prop}

theorem IsExpression.isPart_parts {node : Node} (h : IsExpression L node) : ∀ part ∈ node.parts, IsPart L part := by
  cases h with
  | number _ _ | string _ | ident _ => exact List.forall_mem_nil _
  | assign _ hexpr => exact List.forall_mem_singleton.mpr (.expression hexpr)
  | arith _ hleft hright => simpa [parts] using ⟨.expression hleft, .expression hright⟩
  | call _ hargs => exact fun arg hmem => .expression (hargs arg hmem)

theorem IsCondition.isPart_parts {node : Node} (h : IsCondition L node) : ∀ part ∈ node.parts, IsPart L part := by
  cases h with
  | comparison _ hleft hright => simpa [parts] using ⟨.expression hleft, .expression hright⟩

theorem IsStatement.isPart_parts {node : Node} (h : IsStatement L node) : ∀ part ∈ node.parts, IsPart L part := by
  have hblock : ∀ {statements : List Node}, (∀ statement ∈ statements, IsStatement L statement) →
      IsPart L (.block statements) := fun h => .block ⟨_, rfl, h⟩
  cases h with
  | expression hexpr | print hexpr | ret hexpr => exact List.forall_mem_singleton.mpr (.expression hexpr)
  | declare _ hinit => exact List.forall_mem_singleton.mpr (.expression hinit)
  | function _ _ hbody => exact List.forall_mem_singleton.mpr (hblock hbody)
  | ifThen hcondition hthens => simpa [parts] using ⟨.condition hcondition, hblock hthens, .absent⟩
  | ifElse hcondition hthens helses => simpa [parts] using ⟨.condition hcondition, hblock hthens, hblock helses⟩
  | whileLoop hcondition hbody => simpa [parts] using ⟨.condition hcondition, hblock hbody⟩

/-- **The parts of a part of a program** are parts of it. -/
theorem IsPart.isPart_parts {node : Node} (h : IsPart L node) : ∀ part ∈ node.parts, IsPart L part := by
  cases h with
  | program h | block h =>
    obtain ⟨statements, rfl, h⟩ := h
    exact fun statement hmem => .statement (h statement hmem)
  | statement h => exact h.isPart_parts
  | expression h => exact h.isPart_parts
  | condition h => exact h.isPart_parts
  | absent => exact List.forall_mem_nil _

theorem IsPart.within {n node : Node} (h : IsPart L node) (hn : Within parts n node) : IsPart L n := by
  induction hn with
  | self => exact h
  | part hpart _ ih => exact ih (h.isPart_parts _ hpart)

/-- **What is known of all literals** of a tree of the grammar, if it is known of the numbers and the strings that occur
    in it. -/
theorem allLiterals_of_within {Q : Value → Prop} {node : Node} (h : node.All Grammatical)
    (hnumber : ∀ v, v.IsLiteralNumber → Within parts (.number v) node → Q v)
    (hstring : ∀ text, Within parts (.string (.str text)) node → Q (.str text)) : node.AllLiterals Q := by
  refine all_iff_within.mpr fun n hn => ?_
  have hgrammatical := all_iff_within.mp h n hn
  cases n with
  | number v => exact List.forall_mem_singleton.mpr (hnumber v hgrammatical hn)
  | string v =>
    refine List.forall_mem_singleton.mpr ?_
    cases v with
    | str text => exact hstring text hn
    | none | bool _ | int _ | float _ | list _ | dict _ => cases hgrammatical
  | _ => exact List.forall_mem_nil _

/-- **What is evaluated in a program** is an expression or a condition. -/
theorem IsProgram.evaluated {program expr : Node} (h : IsProgram L program) (hwithin : Within parts expr program)
    (hexpr : expr.IsEvaluated) : IsExpression L expr ∨ IsCondition L expr := by
  cases (IsPart.program h).within hwithin with
  | expression h => exact .inl h
  | condition h => exact .inr h
  | program h | block h =>
    obtain ⟨_, rfl, -⟩ := h
    exact hexpr.elim
  | statement h => cases h <;> exact hexpr.elim
  | absent => exact hexpr.elim

end LineaLang.Node
