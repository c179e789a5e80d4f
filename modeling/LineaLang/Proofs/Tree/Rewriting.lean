import LineaLang.Proofs.Tree.WellFormed
import Mathlib.Data.List.Forall2

/-!
# `LineaLang.Proofs.Tree.Rewriting` — trees that differ by a rule

A rule says what a node may be replaced by. A tree is rewritten by a rule if it is replaced in any number of places,
be it none or all, and everything else is left as it is.

The rule that matters here is `Node.Unfolds`. A minus in front of a number is taken into the literal, while in front of
anything else it is a subtraction from zero; unfolding a literal undoes the first in favour of the second.

## Contents

* `Node.Rewritten` — one tree is another in which a rule has been applied in some places.
* `Node.Rewritten.refl` — in no place.
* `Node.Unfolds` — a negative literal, and the subtraction that it stands for.
-/

namespace LineaLang.Node

/-- **A tree rewritten by a rule**, in any number of places. -/
inductive Rewritten (rule : Node → Node → Prop) : Node → Node → Prop where
  | rule {node node' : Node} (h : rule node node') : Rewritten rule node node'
  | absent : Rewritten rule .absent .absent
  | program {statements statements' : List Node} (h : List.Forall₂ (Rewritten rule) statements statements') :
      Rewritten rule (.program statements) (.program statements')
  | block {statements statements' : List Node} (h : List.Forall₂ (Rewritten rule) statements statements') :
      Rewritten rule (.block statements) (.block statements')
  | ifElse {condition condition' thenBlock thenBlock' elseBlock elseBlock' : Node}
      (hcondition : Rewritten rule condition condition') (hthen : Rewritten rule thenBlock thenBlock')
      (helse : Rewritten rule elseBlock elseBlock') :
      Rewritten rule (.ifElse condition thenBlock elseBlock) (.ifElse condition' thenBlock' elseBlock')
  | whileLoop {condition condition' body body' : Node} (hcondition : Rewritten rule condition condition')
      (hbody : Rewritten rule body body') : Rewritten rule (.whileLoop condition body) (.whileLoop condition' body')
  | declare (name : Value) {init init' : Node} (h : Rewritten rule init init') :
      Rewritten rule (.declare name init) (.declare name init')
  | function (name : Value) (params : List Value) {body body' : Node} (h : Rewritten rule body body') :
      Rewritten rule (.function name params body) (.function name params body')
  | ret {expr expr' : Node} (h : Rewritten rule expr expr') : Rewritten rule (.ret expr) (.ret expr')
  | print {expr expr' : Node} (h : Rewritten rule expr expr') : Rewritten rule (.print expr) (.print expr')
  | expression {expr expr' : Node} (h : Rewritten rule expr expr') :
      Rewritten rule (.expression expr) (.expression expr')
  | assign (target : Value) {expr expr' : Node} (h : Rewritten rule expr expr') :
      Rewritten rule (.assign target expr) (.assign target expr')
  | comparison (op : CompareOp) {left left' right right' : Node} (hleft : Rewritten rule left left')
      (hright : Rewritten rule right right') : Rewritten rule (.comparison op left right) (.comparison op left' right')
  | arith (op : ArithOp) {left left' right right' : Node} (hleft : Rewritten rule left left')
      (hright : Rewritten rule right right') : Rewritten rule (.arith op left right) (.arith op left' right')
  | ident (name : Value) : Rewritten rule (.ident name) (.ident name)
  | number (value : Value) : Rewritten rule (.number value) (.number value)
  | string (value : Value) : Rewritten rule (.string value) (.string value)
  | call (callee : Value) {args args' : List Node} (h : List.Forall₂ (Rewritten rule) args args') :
      Rewritten rule (.call callee args) (.call callee args')

/-- **No place at all** may be rewritten. -/
theorem Rewritten.refl (rule : Node → Node → Prop) : (node : Node) → Rewritten rule node node
  | .absent => .absent
  | .program statements => .program (all statements)
  | .block statements => .block (all statements)
  | .ifElse condition thenBlock elseBlock => .ifElse (refl rule condition) (refl rule thenBlock) (refl rule elseBlock)
  | .whileLoop condition body => .whileLoop (refl rule condition) (refl rule body)
  | .declare name init => .declare name (refl rule init)
  | .function name params body => .function name params (refl rule body)
  | .ret expr => .ret (refl rule expr)
  | .print expr => .print (refl rule expr)
  | .expression expr => .expression (refl rule expr)
  | .assign target expr => .assign target (refl rule expr)
  | .comparison op left right => .comparison op (refl rule left) (refl rule right)
  | .arith op left right => .arith op (refl rule left) (refl rule right)
  | .ident name => .ident name
  | .number value => .number value
  | .string value => .string value
  | .call callee args => .call callee (all args)
where
  all : (nodes : List Node) → List.Forall₂ (Rewritten rule) nodes nodes
    | [] => .nil
    | node :: rest => .cons (refl rule node) (all rest)

/-- **A negative literal, unfolded**: the literal of a number with its sign changed stands for zero less that number.
    The rule is for numbers that satisfy `allowed`. -/
inductive Unfolds (allowed : Value → Prop) : Node → Node → Prop where
  | negated {v : Value} (h : allowed v) :
      Unfolds allowed (.number v.negated) (.arith .sub (.number (.int 0)) (.number v))

end LineaLang.Node
