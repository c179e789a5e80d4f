import LineaLang.Proofs.Number.Operand
import LineaLang.Proofs.Tree.Rebuilding

/-!
# `LineaLang.Proofs.Tree.Postfix` — an expression is rebuilt from its listing

The listing of an expression has no brackets; its operators stand behind their operands. It is read from its first
line to its last, with a stack of the expressions that have been read and wait for what is done with them. How many of
them a line takes is said by the line alone: an operator takes two, an assignment one, and a call as many as it counts.

The lines of an expression put the expression on the stack, whatever lies below it, and leave the rest as it is. So
the listing loses nothing of an expression but for the numbers, of which it has the text: strings stand between
quotation marks, which no number begins with, and names come with an instruction of their own.

## Contents

* `Postfix.readLine`, `Postfix.rebuild` — reading a listing.
* `Postfix.StandFor` — lines that stand for expressions, with a rule for each kind of line.
* `Node.IsExpression.standFor`, `Node.IsCondition.standFor` — the lines of an expression stand for it.
* `Node.expressionLines_faithful` — the listing of an expression of a program determines the expression.
-/

namespace LineaLang

/-! ## Reading a listing -/

namespace Postfix

/-- The literal that is pushed: a string if it stands behind a quotation mark, else the text of a number. -/
def literal (operand : Text) : Node :=
  if operand.head? = some (CodePoint.ofChar '"') then .string (.str operand.tail.dropLast) else .number (.str operand)

/-- What an operator makes of its operands. An arithmetic operator has an instruction of its own, a comparison is the
    operand of one. -/
def operation (opcode operand : Text) (left right : Node) : Node :=
  match ArithOp.all.find? fun op => Instruction.arithOpcode op = opcode with
  | some op => .arith op left right
  | none =>
    match CompareOp.ofValue (.str operand) with
    | .ok op => .comparison op left right
    | .error _ => .absent

/-- The call of a function: its name and the count of its arguments, which are on top of the stack. -/
def applyCall (operand : Text) (stack : List Node) : List Node :=
  let arity := (Numeral.value? (Outline.splitLabel operand).2).getD 0
  .call (.str (Outline.splitLabel operand).1) (stack.take arity).reverse :: stack.drop arity

/-- **What an instruction makes of a stack** of expressions, whose top comes first. -/
def apply (opcode operand : Text) (stack : List Node) : List Node :=
  if opcode = Text.ofString "PUSH" then literal operand :: stack
  else if opcode = Text.ofString "LOAD" then .ident (.str operand) :: stack
  else if opcode = Text.ofString "STORE" then stack.modifyHead (.assign (.str operand))
  else if opcode = Text.ofString "CALL" then applyCall operand stack
  else
    match stack with
    | right :: left :: rest => operation opcode operand left right :: rest
    | _ => stack

/-- **What a line makes of a stack.** The first blank ends what is done. -/
def readLine (stack : List Node) (line : Text) : List Node :=
  apply (Outline.splitLabel line).1 (Outline.splitLabel line).2 stack

/-- **The expression of a listing**, which is on the stack when all lines have been read. -/
def rebuild (lines : List Text) : Node := (lines.foldl readLine []).headD .absent

/-! ## Lines and expressions -/

/-- **Lines that stand for expressions side by side**: they put them on the stack, the last one on top, whatever lies
    below. -/
def StandFor (code : List Instruction) (exprs : List Node) : Prop :=
  ∀ stack, (code.map Instruction.render).foldl readLine stack = exprs.reverse ++ stack

theorem blank_notMem_opcode (i : Instruction) : Outline.blank ∉ i.opcode := by
  cases i with
  | arith op => cases op <;> decide
  | _ =>
    rw [Instruction.opcode]
    decide

/-- A line says what is done and with what. -/
theorem splitLabel_render {i : Instruction} {operand : Text} (h : i.operand = .str operand) :
    Outline.splitLabel i.render = (i.opcode, operand) := by
  rw [Instruction.render, h]
  cases operand with
  | nil => exact Outline.splitLabel_kind (blank_notMem_opcode i)
  | cons c rest => exact Outline.splitLabel_carried (blank_notMem_opcode i) (c :: rest)

theorem readLine_render {i : Instruction} {operand : Text} (h : i.operand = .str operand) (stack : List Node) :
    readLine stack i.render = apply i.opcode operand stack := by
  rw [readLine, splitLabel_render h]

variable {code first second : List Instruction} {exprs exprs' : List Node} {expr left right : Node}

theorem StandFor.nil : StandFor [] [] := fun _ => rfl

/-- Lines one after the other. -/
theorem StandFor.append (h : StandFor first exprs) (h' : StandFor second exprs') :
    StandFor (first ++ second) (exprs ++ exprs') := by
  intro stack
  rw [List.map_append, List.foldl_append, h, h', List.reverse_append, List.append_assoc]

/-- One more line, which makes one expression of those that are there. -/
theorem StandFor.apply {i : Instruction} {operand : Text} (h : StandFor code exprs) (hi : i.operand = .str operand)
    (hmade : ∀ stack, Postfix.apply i.opcode operand (exprs.reverse ++ stack) = expr :: stack) :
    StandFor (code ++ [i]) [expr] := by
  intro stack
  rw [List.map_append, List.foldl_append, h, List.map_singleton, List.foldl_cons, List.foldl_nil, readLine_render hi,
    hmade]
  rfl

theorem literal_number {v : Value} (h : v.isNumber = true) : literal v.formatNumber = .number (.str v.formatNumber) :=
  if_neg (Value.head_formatNumber_ne h)

theorem literal_string (text : Text) :
    literal (Text.ofString "\"" ++ text ++ Text.ofString "\"") = .string (.str text) := by
  have hquote : Text.ofString "\"" = [CodePoint.ofChar '"'] := by decide
  simp [literal, hquote]

/-- **A literal.** -/
theorem standFor_push {operand : Text} (h : literal operand = expr) : StandFor [.push operand] [expr] :=
  StandFor.nil.apply rfl fun stack => congrArg (· :: stack) h

theorem standFor_load (word : Text) : StandFor [.load (.str word)] [.ident (.str word)] :=
  StandFor.nil.apply rfl fun _ => rfl

/-- **An assignment**, whose value is the expression before it. -/
theorem standFor_store (h : StandFor code [expr]) (word : Text) :
    StandFor (code ++ [.store (.str word)]) [.assign (.str word) expr] :=
  h.apply rfl fun _ => rfl

/-- **An arithmetic operator**, whose operands are the two expressions before it. -/
theorem standFor_arith (h : StandFor first [left]) (h' : StandFor second [right]) (op : ArithOp) :
    StandFor (first ++ (second ++ [.arith op])) [.arith op left right] := by
  rw [← List.append_assoc]
  refine (h.append h').apply rfl fun stack => ?_
  cases op <;> rfl

theorem standFor_compare (h : StandFor first [left]) (h' : StandFor second [right]) (op : CompareOp) :
    StandFor (first ++ (second ++ [.compare op])) [.comparison op left right] := by
  rw [← List.append_assoc]
  refine (h.append h').apply rfl fun stack => ?_
  cases op <;> rfl

/-- **A call**, which says how many of the expressions before it are its arguments. -/
theorem standFor_call {word : Text} (h : StandFor code exprs) (hword : WordLexeme word) :
    StandFor (code ++ [.call (.str word) exprs.length]) [.call (.str word) exprs] := by
  refine h.apply rfl fun stack => ?_
  have hsplit : Outline.splitLabel (word ++ Text.ofString " " ++ Numeral.ofNat exprs.length) =
      (word, Numeral.ofNat exprs.length) := Outline.splitLabel_carried (hword.notMem (by decide)) _
  -- As many expressions are taken from the stack as have been put there for the arguments.
  have htake : (exprs.reverse ++ stack).take exprs.length = exprs.reverse := by
    rw [← List.length_reverse, List.take_left]
  have hdrop : (exprs.reverse ++ stack).drop exprs.length = stack := by
    rw [← List.length_reverse, List.drop_left]
  show applyCall (word ++ Text.ofString " " ++ Numeral.ofNat exprs.length) (exprs.reverse ++ stack) = _
  rw [applyCall, hsplit]
  simp only [Numeral.value?_ofNat, Option.getD_some, htake, hdrop, List.reverse_reverse]

end Postfix

/-! ## Listings of expressions -/

namespace Node

open Postfix

variable {L : Value → Prop}

/-- **The lines of an expression's listing.** -/
def expressionLines (expr : Node) : Except TreeFault (List Text) :=
  expr.expressionListing.map (·.map Instruction.render)

/-- The lines of arguments stand for the arguments. -/
theorem exists_standFor_arguments {args : List Node}
    (h : ∀ arg ∈ args, ∃ code, arg.expressionListing = .ok code ∧ StandFor code [arg.shown]) :
    ∃ code, argumentListing args = .ok code ∧ StandFor code (args.map shown) := by
  induction args with
  | nil => exact ⟨[], rfl, .nil⟩
  | cons arg rest ih =>
    rw [List.forall_mem_cons] at h
    obtain ⟨first, hfirst, hstand⟩ := h.1
    obtain ⟨more, hmore, hstandAll⟩ := ih h.2
    refine ⟨first ++ more, ?_, hstand.append hstandAll⟩
    rw [argumentListing, hfirst, hmore]
    rfl

/-- **The lines of an expression stand for it.** -/
theorem IsExpression.standFor {expr : Node} (h : IsExpression L expr) :
    ∃ code, expr.expressionListing = .ok code ∧ StandFor code [expr.shown] := by
  induction h with
  | @number v hnumber _ =>
    have hv : v.isNumber = true := by
      cases v with
      | int _ | float _ => rfl
      | _ => exact hnumber.elim
    exact ⟨_, by rw [expressionListing]; rfl, standFor_push (literal_number hv)⟩
  | string _ => exact ⟨_, by rw [expressionListing]; rfl, standFor_push (literal_string _)⟩
  | ident hname =>
    obtain ⟨word, rfl, -⟩ := hname.exists_word
    exact ⟨_, by rw [expressionListing]; rfl, standFor_load word⟩
  | assign htarget _ ih =>
    obtain ⟨word, rfl, -⟩ := htarget.exists_word
    obtain ⟨code, hcode, hstand⟩ := ih
    refine ⟨_, ?_, standFor_store hstand word⟩
    rw [expressionListing, hcode]
    rfl
  | arith op _ _ ih ih' =>
    obtain ⟨first, hfirst, hleft⟩ := ih
    obtain ⟨second, hsecond, hright⟩ := ih'
    refine ⟨_, ?_, standFor_arith hleft hright op⟩
    rw [expressionListing, hfirst, hsecond]
    rfl
  | @call callee args hcallee _ ih =>
    obtain ⟨word, rfl, hword⟩ := hcallee.exists_word
    obtain ⟨code, hcode, hstand⟩ := exists_standFor_arguments ih
    have hcall := standFor_call hstand hword
    rw [List.length_map, ← shownAll_eq_map] at hcall
    refine ⟨_, ?_, hcall⟩
    rw [expressionListing, hcode]
    rfl

/-- **The lines of a condition stand for it.** -/
theorem IsCondition.standFor {condition : Node} (h : IsCondition L condition) :
    ∃ code, condition.expressionListing = .ok code ∧ StandFor code [condition.shown] := by
  cases h with
  | comparison op hleft hright =>
    obtain ⟨first, hfirst, hleft⟩ := hleft.standFor
    obtain ⟨second, hsecond, hright⟩ := hright.standFor
    refine ⟨_, ?_, standFor_compare hleft hright op⟩
    rw [expressionListing, hfirst, hsecond]
    rfl

mutual

/-- **What is shown of an expression has the same listing.** -/
theorem expressionListing_shown (node : Node) : node.shown.expressionListing = node.expressionListing := by
  cases node with
  | assign _ expr => rw [shown, expressionListing, expressionListing, expressionListing_shown expr]
  | arith _ left right | comparison _ left right =>
    rw [shown, expressionListing, expressionListing, expressionListing_shown left, expressionListing_shown right]
  | call _ args =>
    rw [shown, expressionListing, expressionListing, argumentListing_shownAll args, shownAll_eq_map, List.length_map]
  | _ => rfl

theorem argumentListing_shownAll (args : List Node) : argumentListing (shownAll args) = argumentListing args := by
  cases args with
  | nil => rfl
  | cons arg rest =>
    rw [shownAll, argumentListing, argumentListing, expressionListing_shown arg, argumentListing_shownAll rest]

end

/-! ## Expressions in sources -/

/-- What is evaluated in a source has lines, and these are read as the expression, its numbers as they are shown. -/
theorem exists_expressionLines [CharacterNames] {source : Text} {program expr : Node}
    (hsource : Node.ofSource source = .ok program) (hwithin : Within parts expr program) (hexpr : expr.IsEvaluated) :
    ∃ lines, expr.expressionLines = .ok lines ∧ Postfix.rebuild lines = expr.shown := by
  obtain ⟨tokens, hscan, hread⟩ := tokens_of_source hsource
  have hprogram := isProgram_of_tokens (Token.wellSpelled_of_scan hscan) hread
  have hstand : ∃ code, expr.expressionListing = .ok code ∧ StandFor code [expr.shown] := by
    rcases hprogram.evaluated hwithin hexpr with hexpr | hcondition
    · exact hexpr.standFor
    · exact hcondition.standFor
  obtain ⟨code, hcode, hstand⟩ := hstand
  refine ⟨code.map Instruction.render, ?_, ?_⟩
  · rw [expressionLines, hcode]
    rfl
  · rw [Postfix.rebuild, hstand]
    rfl

/-- **Listings of expressions are uniquely readable.** Whatever is evaluated in a source has a listing, and the lines
    of the listing are read as the expression, its numbers as they are shown. So expressions and conditions, in
    whatever sources they occur, have the same lines exactly if they are the same but for numbers that are shown
    alike. -/
theorem expressionLines_faithful [CharacterNames] {source : Text} {program expr : Node}
    (hsource : Node.ofSource source = .ok program) (hwithin : Within parts expr program) (hexpr : expr.IsEvaluated) :
    ∃ lines, expr.expressionLines = .ok lines ∧ Postfix.rebuild lines = expr.shown ∧
      ∀ source' program' expr', Node.ofSource source' = .ok program' → Within parts expr' program' →
        expr'.IsEvaluated → (expr'.expressionLines = .ok lines ↔ expr'.shown = expr.shown) := by
  obtain ⟨lines, hlines, hrebuilt⟩ := exists_expressionLines hsource hwithin hexpr
  refine ⟨lines, hlines, hrebuilt, fun source' program' expr' hsource' hwithin' hexpr' => ?_⟩
  refine ⟨fun hsame => ?_, fun h => ?_⟩
  · obtain ⟨lines', hlines', hrebuilt'⟩ := exists_expressionLines hsource' hwithin' hexpr'
    obtain rfl : lines' = lines := Except.ok.inj (hlines'.symm.trans hsame)
    exact hrebuilt'.symm.trans hrebuilt
  · rw [expressionLines, ← expressionListing_shown, h, expressionListing_shown, ← expressionLines, hlines]

-- No character is called by its name from here on.
attribute [local instance] CharacterNames.unnamed

/-- The tokens of `g("1", 2 * x);`. -/
def mixedTokens : List Token :=
  [⟨.ident, "g", ⟨1, 1, 0⟩⟩, ⟨.lparen, "(", ⟨1, 2, 1⟩⟩, ⟨.string, "\"1\"", ⟨1, 3, 2⟩⟩, ⟨.comma, ",", ⟨1, 6, 5⟩⟩,
    ⟨.number, "2", ⟨1, 8, 7⟩⟩, ⟨.times, "*", ⟨1, 10, 9⟩⟩, ⟨.ident, "x", ⟨1, 12, 11⟩⟩, ⟨.rparen, ")", ⟨1, 13, 12⟩⟩,
    ⟨.semi, ";", ⟨1, 14, 13⟩⟩]

/-- The call in `g("1", 2 * x);`. -/
def mixedCall : Node :=
  .call (.str "g") [.string (.str "1"), .arith .mul (.number (.int 2)) (.ident (.str "x"))]

/-- **A call with a string, a number and a name**: its lines, and the call that they are read as. -/
theorem mixedCall_read_back :
    ∃ lines, mixedCall.expressionLines = .ok lines ∧
      lines = [Text.ofString "PUSH \"1\"", "PUSH 2", "LOAD x", "MUL", "CALL g 2"] ∧
      Postfix.rebuild lines = mixedCall.shown := by
  have hscan : Token.scan "g(\"1\", 2 * x);" = .ok mixedTokens := rfl
  have htree : Node.ofTokens mixedTokens = .ok (.program [.expression mixedCall]) := rfl
  have hsource : Node.ofSource "g(\"1\", 2 * x);" = .ok (.program [.expression mixedCall]) :=
    (ofSource_eq_ok_iff hscan).mpr htree
  have hwithin : Within parts mixedCall (.program [.expression mixedCall]) :=
    .part (List.mem_singleton_self _) (.part (List.mem_singleton_self _) .self)
  have htwo : Numeral.ofNat 2 = Text.ofString "2" := Numeral.ofNat_of_lt (by decide)
  have hshown : mixedCall.expressionLines = .ok ([.push "\"1\"", .push (Numeral.ofNat 2), .load (.str "x"), .arith .mul,
      .call (.str "g") 2].map Instruction.render) := rfl
  have hcall : Instruction.render (.call (.str "g") 2) = Text.ofString "CALL g " ++ Numeral.ofNat 2 := rfl
  obtain ⟨lines, hlines, hrebuilt, -⟩ := expressionLines_faithful hsource hwithin trivial
  refine ⟨lines, hlines, ?_, hrebuilt⟩
  rw [Except.ok.inj (hlines.symm.trans hshown), List.map_cons, List.map_cons, List.map_cons, List.map_cons,
    List.map_singleton, hcall, htwo]
  decide

end Node

end LineaLang
