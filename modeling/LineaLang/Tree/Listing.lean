import LineaLang.Tree.Basic

/-!
# `LineaLang.Tree.Listing` — a program as a list of stack-machine instructions

The listing shows a program as it would run on a stack machine: operands are pushed, operators take them
from the stack, and control flow goes by labels. It is for reading only. Labels are named for their
construct and not numbered, so that nested or repeated constructs share them.

## Contents

* `Label`, `Instruction` — with `opcode`, `operand` and `render` for the text of a line.
* `Node.expressionListing` — the instructions that leave the value of an expression on the stack.
* `Node.statementListing` — those of a statement.
* `Node.listing` — those of a program.
-/

namespace LineaLang

/-- The labels of control flow. -/
inductive Label where
  | elseBranch
  | endIf
  | loopStart
  | loopEnd
deriving DecidableEq

/-- The name of a label. -/
def Label.name : Label → Text
  | .elseBranch => "else"
  | .endIf => "end"
  | .loopStart => "loop_start"
  | .loopEnd => "loop_end"

/-- **An instruction.** A pushed literal is known by its text only. -/
inductive Instruction where
  | push (literal : Text)
  | load (name : Value)
  | store (name : Value)
  | arith (op : ArithOp)
  | compare (op : CompareOp)
  | call (callee : Value) (count : Nat)
  | print
  | jump (target : Label)
  | jumpIfFalse (target : Label)
  | label (target : Label)
  | function (name : Value)
  | param (name : Value)
  | ret

namespace Instruction

/-- The instruction that applies an arithmetic operator. -/
def arithOpcode : ArithOp → Text
  | .add => "ADD"
  | .sub => "SUB"
  | .mul => "MUL"
  | .div => "DIV"

/-- What an instruction does. -/
def opcode : Instruction → Text
  | .push _ => "PUSH"
  | .load _ => "LOAD"
  | .store _ => "STORE"
  | .arith op => arithOpcode op
  | .compare _ => "COMPARE"
  | .call .. => "CALL"
  | .print => "CALL"
  | .jump _ => "JUMP"
  | .jumpIfFalse _ => "JUMP_IF_FALSE"
  | .label _ => "LABEL"
  | .function _ => "FUNCTION"
  | .param _ => "PARAM"
  | .ret => "RETURN"

/-- What an instruction works on; empty where there is nothing. Printing is a call with one argument. -/
def operand : Instruction → Value
  | .push literal => .str literal
  | .load name => name
  | .store name => name
  | .arith _ => .str []
  | .compare op => .str op.code
  | .call callee count => .str (callee.plain ++ " " ++ Numeral.ofNat count)
  | .print => .str "print 1"
  | .jump target => .str target.name
  | .jumpIfFalse target => .str target.name
  | .label target => .str target.name
  | .function name => name
  | .param name => name
  | .ret => .str []

/-- **The line of an instruction**: what it does, and what it works on unless that is empty. -/
def render (i : Instruction) : Text :=
  if i.operand.isTruthy then i.opcode ++ " " ++ i.operand.plain else i.opcode

end Instruction

/-- Instructions, or why there are none. -/
abbrev Listing := Except TreeFault (List Instruction)

namespace Listing

/-- The instructions of both, one after the other. -/
def followedBy (first second : Listing) : Listing := do
  let a ← first
  let b ← second
  return a ++ b

/-- A listing from instructions that are at hand. -/
def of (instructions : List Instruction) : Listing := .ok instructions

end Listing

namespace Node

/-! ## Expressions -/

mutual

/-- **The instructions of an expression**: operands from left to right, then what is done with them. An
    assigned value stays on the stack. -/
def expressionListing : Node → Listing
  | .number value => .of [.push value.formatNumber]
  | .string value => .of [.push ("\"" ++ value.plain ++ "\"")]
  | .ident name => .of [.load name]
  | .assign target expr => (expressionListing expr).followedBy (.of [.store target])
  | .arith op left right =>
    (expressionListing left).followedBy ((expressionListing right).followedBy (.of [.arith op]))
  | .comparison op left right =>
    (expressionListing left).followedBy ((expressionListing right).followedBy (.of [.compare op]))
  | .call callee args => (argumentListing args).followedBy (.of [.call callee args.length])
  | other => .error (.unexpected .expressionListing other.kind)

/-- The instructions of arguments, in order. -/
def argumentListing : List Node → Listing
  | [] => .of []
  | arg :: rest => (expressionListing arg).followedBy (argumentListing rest)

end

/-! ## Statements -/

/-- Does a statement return? -/
def isReturn : Node → Bool
  | .ret _ => true
  | _ => false

/-- The return at the end of a function whose body does not end with one. -/
def impliedReturn (body : Node) : Listing :=
  match body.statements? with
  | none => .error .missingPart
  | some statements => .of (if (statements.getLast?.map isReturn).getD false then [] else [.ret])

mutual

/-- **The instructions of a statement.** -/
def statementListing : Node → Listing
  | .expression expr => expr.expressionListing
  | .print expr => expr.expressionListing.followedBy (.of [.print])
  | .declare name init => init.expressionListing.followedBy (.of [.store name])
  | .ret expr => expr.expressionListing.followedBy (.of [.ret])
  | .block statements => statementListings statements
  | .ifElse condition thenBlock elseBlock =>
    condition.expressionListing.followedBy
      (if elseBlock.isAbsent then
        (Listing.of [.jumpIfFalse .endIf]).followedBy
          ((statementListing thenBlock).followedBy (.of [.label .endIf]))
      else
        (Listing.of [.jumpIfFalse .elseBranch]).followedBy
          ((statementListing thenBlock).followedBy
            ((Listing.of [.jump .endIf, .label .elseBranch]).followedBy
              ((statementListing elseBlock).followedBy (.of [.label .endIf])))))
  | .whileLoop condition body =>
    (Listing.of [.label .loopStart]).followedBy
      (condition.expressionListing.followedBy
        ((Listing.of [.jumpIfFalse .loopEnd]).followedBy
          ((statementListing body).followedBy (.of [.jump .loopStart, .label .loopEnd]))))
  | .function name params body =>
    (Listing.of (.function name :: params.map .param)).followedBy
      ((statementListing body).followedBy body.impliedReturn)
  | other => .error (.unexpected .statementListing other.kind)

/-- The instructions of statements, in order. -/
def statementListings : List Node → Listing
  | [] => .of []
  | statement :: rest => (statementListing statement).followedBy (statementListings rest)

end

/-- **The instructions of a program.** -/
def listing : Node → Listing
  | .program statements => (Node.program statements).walk fun _ => statementListings statements
  | _ => .error .notAProgram

/-- The lines of a program's listing. -/
def listingLines (node : Node) : Except TreeFault (List Text) :=
  node.listing.map (·.map Instruction.render)

end Node

end LineaLang
