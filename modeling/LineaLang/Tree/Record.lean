import LineaLang.Tree.Basic

/-!
# `LineaLang.Tree.Record` — trees as structured data

A tree is stored as a record for each node: its type, and a field for each part. Records are values, and
are written and read here; how a value becomes the text of a file is no concern of this module. Reading is
lenient: fields that are not wanted are passed over, a missing branch of a conditional is absent, and names
and literals may be any value. What cannot be made out stops it, in the order in which parts are read.

## Contents

* `Node.toRecord` — the record of a tree.
* `RecordFault` — why a value is no record of a tree.
* `Node.ofRecord` — the tree of a record.
-/

namespace LineaLang

namespace Node

/-! ## Writing -/

/-- A record: its type and the fields after it. -/
def recordOf (kind : Text) (fields : List (Text × Value)) : Value :=
  .dict (("type", .str kind) :: fields)

mutual

/-- **The record of a tree.** -/
def toRecord : Node → Value
  | .absent => .none
  | .program statements => recordOf "Program" [("statements", .list (toRecords statements))]
  | .block statements => recordOf "Block" [("statements", .list (toRecords statements))]
  | .ifElse condition thenBlock elseBlock =>
    recordOf "If" [("condition", toRecord condition), ("then_block", toRecord thenBlock),
      ("else_block", toRecord elseBlock)]
  | .whileLoop condition body =>
    recordOf "While" [("condition", toRecord condition), ("body", toRecord body)]
  | .declare name init => recordOf "VariableDeclaration" [("name", name), ("init", toRecord init)]
  | .function name params body =>
    recordOf "FunctionDeclaration" [("name", name), ("params", .list params), ("body", toRecord body)]
  | .ret expr => recordOf "ReturnStatement" [("expr", toRecord expr)]
  | .print expr => recordOf "PrintStatement" [("expr", toRecord expr)]
  | .expression expr => recordOf "ExpressionStatement" [("expr", toRecord expr)]
  | .assign target expr => recordOf "Assign" [("target", target), ("expr", toRecord expr)]
  | .comparison op left right =>
    recordOf "Comparison" [("op", .str op.code), ("left", toRecord left), ("right", toRecord right)]
  | .arith op left right =>
    recordOf "BinaryArith" [("op", .str op.code), ("left", toRecord left), ("right", toRecord right)]
  | .ident name => recordOf "Identifier" [("name", name)]
  | .number value => recordOf "NumberLiteral" [("value", value)]
  | .string value => recordOf "StringLiteral" [("value", value)]
  | .call callee args => recordOf "Call" [("callee", callee), ("args", .list (toRecords args))]

/-- The records of trees side by side. -/
def toRecords : List Node → List Value
  | [] => []
  | node :: rest => toRecord node :: toRecords rest

end

/-- The record of a tree that is not too deep to be written. -/
def record (node : Node) : Except TreeFault Value := node.walk fun top => .ok top.toRecord

end Node

/-! ## Reading -/

/-- **Why a value is no record of a tree.** -/
inductive RecordFault where
  /-- Neither a record nor the absent value. -/
  | notARecord
  /-- A field that the type of the record wants. -/
  | missing (field : Text)
  /-- A type that no node has. -/
  | unknownType (type : Value)
  | operator (fault : UnknownOperator)
  | value (fault : ValueFault)
  /-- A whole tree that is no program. -/
  | notAProgram

/-- The report on a value that is no record of a tree. -/
def RecordFault.message : RecordFault → Text
  | .notARecord => "Invalid AST object"
  | .missing field => field.quoted
  | .unknownType type => "Unknown AST node type: " ++ type.plain
  | .operator fault => fault.message
  | .value fault => fault.message
  | .notAProgram => "top-level node is not a Program"

/-- **A field of a record**: its value, and what the value is as a tree and as a list of trees. -/
structure RecordField where
  value : Value
  node : Except RecordFault Node
  members : Except RecordFault (List Node)

namespace RecordField

/-- The field with a given name. -/
def find (fields : List (Text × RecordField)) (name : Text) : Except RecordFault RecordField :=
  match fields.find? fun entry => entry.1 = name with
  | some (_, field) => .ok field
  | none => .error (.missing name)

/-- The members of a value: of a list its items, of a text its code points, of a dictionary its keys. -/
def plainMembers : Value → Except RecordFault (List Value)
  | .list items => .ok items
  | .str text => .ok (text.map fun c => .str [c])
  | .dict entries => .ok (entries.map fun entry => .str entry.1)
  | v => .error (.value (.noMembers v.dataKind))

end RecordField

namespace Node

open RecordField in
/-- **The tree of a record whose fields are at hand.** The type tells which fields are read, in order. -/
def ofFields (fields : List (Text × RecordField)) : Except RecordFault Node := do
  let type := match find fields "type" with
    | .ok field => field.value
    | .error _ => .none
  match type with
  | .str kind =>
    if kind = Text.ofString "Program" then
      return .program (← (← find fields "statements").members)
    else if kind = Text.ofString "Block" then
      return .block (← (← find fields "statements").members)
    else if kind = Text.ofString "If" then
      let condition ← (← find fields "condition").node
      let thenBlock ← (← find fields "then_block").node
      match find fields "else_block" with
      | .ok field => return .ifElse condition thenBlock (← field.node)
      | .error _ => return .ifElse condition thenBlock .absent
    else if kind = Text.ofString "While" then
      let condition ← (← find fields "condition").node
      let body ← (← find fields "body").node
      return .whileLoop condition body
    else if kind = Text.ofString "VariableDeclaration" then
      let name ← find fields "name"
      return .declare name.value (← (← find fields "init").node)
    else if kind = Text.ofString "FunctionDeclaration" then
      let name ← find fields "name"
      let params ← plainMembers (← find fields "params").value
      return .function name.value params (← (← find fields "body").node)
    else if kind = Text.ofString "ReturnStatement" then
      return .ret (← (← find fields "expr").node)
    else if kind = Text.ofString "PrintStatement" then
      return .print (← (← find fields "expr").node)
    else if kind = Text.ofString "ExpressionStatement" then
      return .expression (← (← find fields "expr").node)
    else if kind = Text.ofString "Assign" then
      let target ← find fields "target"
      return .assign target.value (← (← find fields "expr").node)
    else if kind = Text.ofString "Comparison" then
      let op ← (CompareOp.ofValue (← find fields "op").value).mapError .operator
      let left ← (← find fields "left").node
      let right ← (← find fields "right").node
      return .comparison op left right
    else if kind = Text.ofString "BinaryArith" then
      let op ← (ArithOp.ofValue (← find fields "op").value).mapError .operator
      let left ← (← find fields "left").node
      let right ← (← find fields "right").node
      return .arith op left right
    else if kind = Text.ofString "Identifier" then
      return .ident (← find fields "name").value
    else if kind = Text.ofString "NumberLiteral" then
      return .number (← find fields "value").value
    else if kind = Text.ofString "StringLiteral" then
      return .string (← find fields "value").value
    else if kind = Text.ofString "Call" then
      let callee ← find fields "callee"
      return .call callee.value (← (← find fields "args").members)
    else throw (.unknownType type)
  | _ => throw (.unknownType type)

mutual

/-- **The tree of a record**; the absent value is the absent node. -/
def ofRecord : Value → Except RecordFault Node
  | .none => .ok .absent
  | .dict entries => ofFields (fieldsOf entries)
  | _ => .error .notARecord

/-- The trees of the members of a value. The members of a text or a dictionary are texts, which are no
    records. -/
def ofMembers : Value → Except RecordFault (List Node)
  | .list items => ofItems items
  | .str text => if text.isEmpty then .ok [] else .error .notARecord
  | .dict entries => if entries.isEmpty then .ok [] else .error .notARecord
  | v => .error (.value (.noMembers v.dataKind))

/-- The trees of the items of a list, up to the first that is no record. -/
def ofItems : List Value → Except RecordFault (List Node)
  | [] => .ok []
  | v :: rest => do
    let node ← ofRecord v
    let nodes ← ofItems rest
    return node :: nodes

/-- The fields of a record. -/
def fieldsOf : List (Text × Value) → List (Text × RecordField)
  | [] => []
  | (name, v) :: rest => (name, ⟨v, ofRecord v, ofMembers v⟩) :: fieldsOf rest

end

/-- The tree of a record that must be a program. -/
def programOfRecord (v : Value) : Except RecordFault Node := do
  match ← ofRecord v with
  | .program statements => return .program statements
  | _ => throw .notAProgram

end Node

end LineaLang
