import LineaLang.Operator

/-!
# `LineaLang.Tree.Basic` — the tree of a program

One type of node serves the trees that the grammar yields and the trees that a file describes. A file may
leave a child out, put a statement where an expression belongs, or name a variable by a number; such a tree
is data like any other and is refused only where something walks over the misplaced part. So children are
nodes of any kind, `Node.absent` stands for a missing one, and names and literals are values.

## Contents

* `Node` — the nodes, with `Node.kind` naming each.
* `Node.depth` — how many nodes stand on the longest way down.
* `Node.maxDepth` — the depth beyond which no walk over a tree is started.
* `TreeFault` — why a walk stopped.
-/

namespace LineaLang

/-- **A node of a program's tree.** -/
inductive Node where
  /-- No node: a missing branch, or a hole in a tree from a file. -/
  | absent
  | program (statements : List Node)
  | block (statements : List Node)
  | ifElse (condition thenBlock elseBlock : Node)
  | whileLoop (condition body : Node)
  | declare (name : Value) (init : Node)
  | function (name : Value) (params : List Value) (body : Node)
  | ret (expr : Node)
  | print (expr : Node)
  | expression (expr : Node)
  | assign (target : Value) (expr : Node)
  | comparison (op : CompareOp) (left right : Node)
  | arith (op : ArithOp) (left right : Node)
  | ident (name : Value)
  | number (value : Value)
  | string (value : Value)
  | call (callee : Value) (args : List Node)
deriving Inhabited

namespace Node

/-- The name of a node's kind. -/
def kind : Node → Text
  | .absent => "NoneType"
  | .program _ => "Program"
  | .block _ => "Block"
  | .ifElse .. => "If"
  | .whileLoop .. => "While"
  | .declare .. => "VariableDeclaration"
  | .function .. => "FunctionDeclaration"
  | .ret _ => "ReturnStatement"
  | .print _ => "PrintStatement"
  | .expression _ => "ExpressionStatement"
  | .assign .. => "Assign"
  | .comparison .. => "Comparison"
  | .arith .. => "BinaryArith"
  | .ident _ => "Identifier"
  | .number _ => "NumberLiteral"
  | .string _ => "StringLiteral"
  | .call .. => "Call"

def isAbsent : Node → Bool
  | .absent => true
  | _ => false

/-- The statements of a program or a block; no other node has any. -/
def statements? : Node → Option (List Node)
  | .program statements => some statements
  | .block statements => some statements
  | _ => none

/-- The name that a declaration or an identifier carries. -/
def name? : Node → Option Value
  | .declare name _ => some name
  | .function name _ _ => some name
  | .ident name => some name
  | _ => none

/-! ## Depth -/

mutual

/-- The number of nodes on the longest way down from a node, itself included. -/
def depth : Node → Nat
  | .absent => 1
  | .program statements => maxDepthOf statements + 1
  | .block statements => maxDepthOf statements + 1
  | .ifElse condition thenBlock elseBlock =>
    max condition.depth (max thenBlock.depth elseBlock.depth) + 1
  | .whileLoop condition body => max condition.depth body.depth + 1
  | .declare _ init => init.depth + 1
  | .function _ _ body => body.depth + 1
  | .ret expr => expr.depth + 1
  | .print expr => expr.depth + 1
  | .expression expr => expr.depth + 1
  | .assign _ expr => expr.depth + 1
  | .comparison _ left right => max left.depth right.depth + 1
  | .arith _ left right => max left.depth right.depth + 1
  | .ident _ => 1
  | .number _ => 1
  | .string _ => 1
  | .call _ args => maxDepthOf args + 1

/-- The greatest depth among some nodes. -/
def maxDepthOf : List Node → Nat
  | [] => 0
  | node :: rest => max node.depth (maxDepthOf rest)

end

/-- **The depth beyond which no walk over a tree is started.** -/
def maxDepth : Nat := 1000

end Node

/-! ## Walks that stop -/

/-- The walks that expect nodes of certain kinds at certain places. -/
inductive Walk where
  | execution
  | evaluation
  | statementListing
  | expressionListing
deriving DecidableEq

/-- **Why a walk over a tree stopped.** None of this can happen to a tree that the grammar yields, unless it
    is too deep. -/
inductive TreeFault where
  /-- A node of a kind that the walk does not expect at its place. -/
  | unexpected (walk : Walk) (kind : Text)
  /-- A listing was asked for something that is no program. -/
  | notAProgram
  /-- A part was asked for that the node at hand does not have. -/
  | missingPart
  /-- Something that is no node where a node is wanted. -/
  | notANode (dataKind : Text)
  /-- A misplaced value. -/
  | value (fault : ValueFault)
  /-- More levels of nesting than a walk or a run may open. -/
  | tooDeep
deriving DecidableEq

namespace TreeFault

/-- The report on a walk that stopped; two causes have no wording. -/
def message? : TreeFault → Option Text
  | .unexpected .execution kind => some ("execute: unexpected node type " ++ kind)
  | .unexpected .evaluation kind => some ("evaluate: unexpected node type " ++ kind)
  | .unexpected .statementListing kind => some ("Unknown statement node: " ++ kind)
  | .unexpected .expressionListing kind => some ("Unknown expression node: " ++ kind)
  | .notAProgram => some "BytecodeEmitter expects a Program node at the top"
  | .notANode kind => some ("Unsupported node for serialization: " ++ kind)
  | .value fault => some fault.message
  | .missingPart => none
  | .tooDeep => none

end TreeFault

/-- Starts a walk unless the tree is too deep for one. -/
def Node.walk {α : Type} (node : Node) (view : Node → Except TreeFault α) : Except TreeFault α :=
  if node.depth ≤ Node.maxDepth then view node else .error .tooDeep

/-- The node that a value stands for: none is the absent node, and no other value is a node. -/
def Value.toNode : Value → Except TreeFault Node
  | .none => .ok .absent
  | v => .error (.notANode v.dataKind)

end LineaLang
