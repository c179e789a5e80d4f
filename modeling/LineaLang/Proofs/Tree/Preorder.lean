import LineaLang.Proofs.Tree.Within
import LineaLang.Tree.Outline

/-!
# `LineaLang.Proofs.Tree.Preorder` — an outline has one line for each node

An outline is written kind by kind: each kind of node says which of its parts have lines and in which order. All of
this comes down to one list, the children of a node. With it the nodes of a tree are listed in the order of a walk
from the top, each with its level, and the outline is the list of their lines, whatever the tree is. It stops where
the first of these lines is missing.

## Contents

* `Node.children`, `Node.children_induction` — the parts of a node that have lines, and induction along them.
* `Node.preorder` — the nodes of a tree with their levels.
* `Node.outline_eq_mapM` — an outline has the line of each node, in this order.
-/

namespace LineaLang.Node

/-! ## Children -/

/-- **The parts of a node that have lines below its own**: all but the missing ones of a conditional. -/
def children : Node → List Node
  | .ifElse condition thenBlock elseBlock => [condition, thenBlock, elseBlock].filter fun part => !part.isAbsent
  | node => node.parts

theorem mem_parts_of_mem_children {child node : Node} (h : child ∈ node.children) : child ∈ node.parts := by
  cases node with
  | ifElse _ _ _ => exact (List.mem_filter.mp h).1
  | _ => exact h

theorem sizeOf_lt_of_mem_children {child node : Node} (h : child ∈ node.children) : sizeOf child < sizeOf node :=
  sizeOf_lt_of_mem_parts (mem_parts_of_mem_children h)

/-- **Induction along the children.** -/
theorem children_induction {motive : Node → Prop}
    (step : ∀ node, (∀ child ∈ node.children, motive child) → motive node) (node : Node) : motive node :=
  step node fun child _ => children_induction step child
termination_by sizeOf node
decreasing_by exact sizeOf_lt_of_mem_children ‹_›

/-! ## The walk -/

/-- **The nodes of a tree in the order of a walk from the top**, each with its level. -/
def preorder (level : Int) (node : Node) : List (Int × Node) :=
  (level, node) :: node.children.attach.flatMap fun child => preorder (level + 1) child.1
termination_by sizeOf node
decreasing_by exact sizeOf_lt_of_mem_children child.2

theorem preorder_eq (level : Int) (node : Node) :
    node.preorder level = (level, node) :: node.children.flatMap (preorder (level + 1)) := by
  rw [preorder, List.flatMap_subtype fun _ _ => rfl, List.unattach_attach]

/-- What goes down from a node to its children holds all the way down, and no level is above the first. -/
theorem forall_mem_preorder {p : Node → Prop} (hdown : ∀ node, p node → ∀ child ∈ node.children, p child)
    {level : Int} {node : Node} (h : p node) : ∀ entry ∈ node.preorder level, level ≤ entry.1 ∧ p entry.2 := by
  induction node using children_induction generalizing level with
  | step node ih =>
    rw [preorder_eq]
    refine List.forall_mem_cons.mpr ⟨⟨Int.le_refl level, h⟩, fun entry hentry => ?_⟩
    obtain ⟨child, hchild, hentry⟩ := List.mem_flatMap.mp hentry
    obtain ⟨hlevel, hp⟩ := ih child hchild (hdown node h child hchild) entry hentry
    exact ⟨by omega, hp⟩

/-! ## Lines -/

/-- The line of a node at its level. -/
def line (entry : Int × Node) : Except TreeFault Text := entry.2.label.map (indented entry.1)

theorem linesThen_nil (lines : Except TreeFault (List Text)) : linesThen lines (.ok []) = lines := by
  cases lines with
  | error fault => rfl
  | ok lines => exact congrArg Except.ok (List.append_nil lines)

theorem outlines_singleton (level : Int) (node : Node) : outlines level [node] = node.outline level := by
  rw [outlines, outlines, linesThen_nil]

theorem outlines_pair (level : Int) (first second : Node) :
    outlines level [first, second] = linesThen (first.outline level) (second.outline level) := by
  rw [outlines, outlines_singleton]

/-- A missing branch adds no lines. -/
theorem outlines_filter (level : Int) (node : Node) (rest : List Node) :
    outlines level ((node :: rest).filter fun part => !part.isAbsent) =
      linesThen (unlessAbsent node (node.outline level)) (outlines level (rest.filter fun part => !part.isAbsent)) := by
  unfold unlessAbsent
  cases h : node.isAbsent with
  | true =>
    rw [List.filter_cons_of_neg (by simp [h]), if_pos rfl]
    cases outlines level (rest.filter fun part => !part.isAbsent) <;> rfl
  | false => rw [List.filter_cons_of_pos (by simp [h]), outlines, if_neg Bool.false_ne_true]

/-- **The outline of a node of any kind**: its line, then the lines of its children. -/
theorem outline_eq (level : Int) (node : Node) :
    node.outline level = node.withLabel level (outlines (level + 1) node.children) := by
  cases node with
  | absent | ident _ | number _ | string _ | program _ | block _ | call _ _ =>
    rw [outline]
    rfl
  | ifElse condition thenBlock elseBlock =>
    have hlast : unlessAbsent elseBlock (elseBlock.outline (level + 1)) =
        outlines (level + 1) ([elseBlock].filter fun part => !part.isAbsent) := by
      rw [outlines_filter, List.filter_nil, outlines, linesThen_nil]
    rw [outline, children, outlines_filter, outlines_filter, hlast]
  | whileLoop left right | comparison _ left right | arith _ left right =>
    rw [outline]
    exact congrArg (withLabel _ level) (outlines_pair (level + 1) left right).symm
  | declare _ child | function _ _ child | ret child | print child | expression child | assign _ child =>
    rw [outline]
    exact congrArg (withLabel _ level) (outlines_singleton (level + 1) child).symm

theorem outlines_eq_mapM {level : Int} {nodes : List Node}
    (h : ∀ node ∈ nodes, node.outline level = (node.preorder level).mapM line) :
    outlines level nodes = (nodes.flatMap (preorder level)).mapM line := by
  induction nodes with
  | nil => rfl
  | cons node rest ih =>
    rw [List.forall_mem_cons] at h
    rw [outlines, List.flatMap_cons, List.mapM_append, ← h.1, ← ih h.2]
    rfl

/-- **An outline has one line for each node**, in the order of a walk from the top, indented by its level. -/
theorem outline_eq_mapM (level : Int) (node : Node) : node.outline level = (node.preorder level).mapM line := by
  induction node using children_induction generalizing level with
  | step node ih =>
    rw [outline_eq, outlines_eq_mapM fun child hchild => ih child hchild (level + 1), preorder_eq, List.mapM_cons]
    unfold withLabel line
    cases node.label <;> rfl

end LineaLang.Node
