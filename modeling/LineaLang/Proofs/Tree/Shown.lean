import LineaLang.Proofs.Tree.Preorder

/-!
# `LineaLang.Proofs.Tree.Shown` — trees that differ in numbers that are shown alike

An outline shows a number by a text, and different numbers may have the same. `Node.shown` puts this text in the place
of each number, so that trees are shown alike if they are the same but for such numbers. An outline says no more of a
tree than what is shown of it.

## Contents

* `Node.shown` — a tree with the numbers as they are shown.
* `Node.outline_shown`, `Node.render_shown` — it has the same outline and the same view.
-/

namespace LineaLang.Node

mutual

/-- **A tree with the text that shows it in the place of each number.** Nothing else is changed. -/
def shown : Node → Node
  | .number value => .number (.str value.formatNumber)
  | .program statements => .program (shownAll statements)
  | .block statements => .block (shownAll statements)
  | .ifElse condition thenBlock elseBlock => .ifElse condition.shown thenBlock.shown elseBlock.shown
  | .whileLoop condition body => .whileLoop condition.shown body.shown
  | .declare name init => .declare name init.shown
  | .function name params body => .function name params body.shown
  | .ret expr => .ret expr.shown
  | .print expr => .print expr.shown
  | .expression expr => .expression expr.shown
  | .assign target expr => .assign target expr.shown
  | .comparison op left right => .comparison op left.shown right.shown
  | .arith op left right => .arith op left.shown right.shown
  | .call callee args => .call callee (shownAll args)
  | .absent => .absent
  | .ident name => .ident name
  | .string value => .string value

/-- Trees side by side, with their numbers as they are shown. -/
def shownAll : List Node → List Node
  | [] => []
  | node :: rest => node.shown :: shownAll rest

end

theorem shownAll_eq_map (nodes : List Node) : shownAll nodes = nodes.map shown := by
  induction nodes with
  | nil => rfl
  | cons node rest ih => rw [shownAll, ih, List.map_cons]

theorem isAbsent_shown (node : Node) : node.shown.isAbsent = node.isAbsent := by
  cases node <;> rfl

/-- A number is shown by the text that shows it, and no other label is changed. -/
theorem label_shown (node : Node) : node.shown.label = node.label := by
  cases node <;> rfl

theorem children_shown (node : Node) : node.shown.children = node.children.map shown := by
  cases node with
  | program statements | block statements | call _ statements => exact shownAll_eq_map statements
  | ifElse condition thenBlock elseBlock =>
    have hsame : (fun part : Node => !part.isAbsent) ∘ shown = fun part => !part.isAbsent :=
      funext fun part => congrArg Bool.not part.isAbsent_shown
    show ([condition, thenBlock, elseBlock].map shown).filter (fun part => !part.isAbsent) = _
    rw [List.filter_map, hsame]
    rfl
  | _ => rfl

theorem outlines_shown {level : Int} {nodes : List Node}
    (h : ∀ node ∈ nodes, node.shown.outline level = node.outline level) :
    outlines level (nodes.map shown) = outlines level nodes := by
  induction nodes with
  | nil => rfl
  | cons node rest ih =>
    rw [List.forall_mem_cons] at h
    rw [List.map_cons, outlines, outlines, h.1, ih h.2]

/-- **What is shown of a tree has the same outline.** -/
theorem outline_shown (level : Int) (node : Node) : node.shown.outline level = node.outline level := by
  induction node using children_induction generalizing level with
  | step node ih =>
    rw [outline_eq, outline_eq, children_shown, outlines_shown fun child hchild => ih child hchild (level + 1),
      withLabel, withLabel, label_shown]

mutual

theorem depth_shown (node : Node) : node.shown.depth = node.depth := by
  cases node with
  | absent | ident _ | number _ | string _ => rfl
  | program statements | block statements | call _ statements =>
    rw [shown, depth, depth, maxDepthOf_shownAll statements]
  | ifElse condition thenBlock elseBlock =>
    rw [shown, depth, depth, depth_shown condition, depth_shown thenBlock, depth_shown elseBlock]
  | whileLoop left right | comparison _ left right | arith _ left right =>
    rw [shown, depth, depth, depth_shown left, depth_shown right]
  | declare _ child | function _ _ child | ret child | print child | expression child | assign _ child =>
    rw [shown, depth, depth, depth_shown child]

theorem maxDepthOf_shownAll (nodes : List Node) : maxDepthOf (shownAll nodes) = maxDepthOf nodes := by
  cases nodes with
  | nil => rfl
  | cons node rest => rw [shownAll, maxDepthOf, maxDepthOf, depth_shown node, maxDepthOf_shownAll rest]

end

/-- **What is shown of a tree has the same view.** -/
theorem render_shown (indent : Int) (node : Node) : node.shown.render indent = node.render indent := by
  rw [render, render, walk, walk, depth_shown, outline_shown]

end LineaLang.Node
