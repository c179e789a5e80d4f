import LineaLang.Tree.Basic

/-!
# `LineaLang.Tree.Outline` — a tree as an indented outline

One line for each node, in the order of a walk from the top, indented by two spaces for each level. A line
shows the kind of its node and what the node carries besides its children.

## Contents

* `Node.label` — the line of a node.
* `Node.outline` — the lines of a tree.
* `Node.render` — the whole view as text.
-/

namespace LineaLang.Node

/-- **The line of a node**, without indentation. Only the names of parameters must be texts. -/
def label (node : Node) : Except TreeFault Text :=
  match node with
  | .comparison op _ _ => .ok (node.kind ++ " " ++ op.code)
  | .arith op _ _ => .ok (node.kind ++ " " ++ op.code)
  | .ident name => .ok (node.kind ++ " " ++ name.plain)
  | .declare name _ => .ok (node.kind ++ " " ++ name.plain)
  | .function name params _ =>
    match Value.joinTexts ", " params with
    | .ok joined => .ok (node.kind ++ " " ++ name.plain ++ "(" ++ joined ++ ")")
    | .error fault => .error (.value fault)
  | .assign target _ => .ok (node.kind ++ " " ++ target.plain)
  | .call callee _ => .ok (node.kind ++ " " ++ callee.plain)
  | .number value => .ok (node.kind ++ " " ++ value.formatNumber)
  | .string value => .ok (node.kind ++ " " ++ value.repr)
  | _ => .ok node.kind

/-- A line at a level. Levels may start below zero; only those above it are indented. -/
def indented (level : Int) (line : Text) : Text := Text.repeated level.toNat "  " ++ line

/-- The lines of a node and of what is below it, given those below. -/
def withLabel (node : Node) (level : Int) (below : Except TreeFault (List Text)) :
    Except TreeFault (List Text) := do
  let line ← node.label
  let lines ← below
  return indented level line :: lines

/-- Lines one after the other. -/
def linesThen (first second : Except TreeFault (List Text)) : Except TreeFault (List Text) := do
  let a ← first
  let b ← second
  return a ++ b

/-- The lines of a branch of a conditional, none if it is missing. -/
def unlessAbsent (node : Node) (lines : Except TreeFault (List Text)) : Except TreeFault (List Text) :=
  if node.isAbsent then .ok [] else lines

mutual

/-- **The lines of a tree**, whose top stands at `level`. A missing branch of a conditional has no line. -/
def outline (level : Int) : Node → Except TreeFault (List Text)
  | .program statements => withLabel (.program statements) level (outlines (level + 1) statements)
  | .block statements => withLabel (.block statements) level (outlines (level + 1) statements)
  | .ifElse condition thenBlock elseBlock =>
    withLabel (.ifElse condition thenBlock elseBlock) level
      (linesThen (unlessAbsent condition (outline (level + 1) condition))
        (linesThen (unlessAbsent thenBlock (outline (level + 1) thenBlock))
          (unlessAbsent elseBlock (outline (level + 1) elseBlock))))
  | .whileLoop condition body =>
    withLabel (.whileLoop condition body) level
      (linesThen (outline (level + 1) condition) (outline (level + 1) body))
  | .function name params body =>
    withLabel (.function name params body) level (outline (level + 1) body)
  | .declare name init => withLabel (.declare name init) level (outline (level + 1) init)
  | .ret expr => withLabel (.ret expr) level (outline (level + 1) expr)
  | .print expr => withLabel (.print expr) level (outline (level + 1) expr)
  | .expression expr => withLabel (.expression expr) level (outline (level + 1) expr)
  | .assign target expr => withLabel (.assign target expr) level (outline (level + 1) expr)
  | .comparison op left right =>
    withLabel (.comparison op left right) level
      (linesThen (outline (level + 1) left) (outline (level + 1) right))
  | .arith op left right =>
    withLabel (.arith op left right) level
      (linesThen (outline (level + 1) left) (outline (level + 1) right))
  | .call callee args => withLabel (.call callee args) level (outlines (level + 1) args)
  | .absent => withLabel .absent level (.ok [])
  | .ident name => withLabel (.ident name) level (.ok [])
  | .number value => withLabel (.number value) level (.ok [])
  | .string value => withLabel (.string value) level (.ok [])

/-- The lines of trees side by side. -/
def outlines (level : Int) : List Node → Except TreeFault (List Text)
  | [] => .ok []
  | node :: rest => linesThen (outline level node) (outlines level rest)

end

/-- **The view of a tree**, its lines joined by line feeds, with the top at level `indent`. -/
def render (indent : Int) (node : Node) : Except TreeFault Text :=
  node.walk fun top => (top.outline indent).map (Text.join "\n")

end LineaLang.Node
