import LineaLang.Proofs.Tree.Preorder
import LineaLang.Proofs.Tree.Segments

/-!
# `LineaLang.Proofs.Tree.Nesting` — the jumps and labels of a listing are nested as its constructs are

A listing is written statement by statement, and only a conditional or a loop writes jumps and labels. So the
conditionals and loops of a tree say how its listing is divided into segments, and since there is no other way to
divide it, every jump goes to the label that its own construct has written, whatever other labels have the same name.

What a statement writes is told by the relation `Node.Listed`, with one rule for each kind of statement; a block is
taken apart statement by statement. All that is said of listings here goes along these rules, for every tree that has
a listing, be it of the grammar or not.

## Contents

* `Node.Listed`, `Node.statementListing_eq_ok_iff` — what statements write.
* `Node.segments`, `Node.Listed.codeOf_segments` — the division that the constructs of a tree give.
* `Node.constructs`, `Node.Listed.count_marks` — the constructs of a tree, and how often each mark occurs.
* `Node.Listed.function_within` — the code of a function.
* `Node.listing_well_nested` — the listings of programs.
-/

namespace LineaLang

/-- Instructions of two parts are those of both. -/
theorem Listing.followedBy_eq_ok_iff {first second : Listing} {code : List Instruction} :
    first.followedBy second = .ok code ↔ ∃ a b, first = .ok a ∧ second = .ok b ∧ a ++ b = code := by
  cases first with
  | error fault => exact ⟨nofun, nofun⟩
  | ok a =>
    cases second with
    | error fault => exact ⟨nofun, nofun⟩
    | ok b =>
      constructor
      · intro h
        cases h
        exact ⟨a, b, rfl, rfl, rfl⟩
      · rintro ⟨_, _, ⟨⟩, ⟨⟩, rfl⟩
        rfl

namespace Node

open Listing Segment

/-! ## Expressions -/

/-- **Code that only computes**: there are no jumps and no labels in it, and it has been written for nodes that are
    evaluated. -/
structure IsStraight (expr : Node) (code : List Instruction) : Prop where
  straight : ∀ i ∈ code, i.mark? = none
  evaluated : ∀ n, Within parts n expr → n.IsEvaluated

mutual

/-- **The listing of an expression only computes.** -/
theorem isStraight_of_listing (expr : Node) {code : List Instruction} (h : expr.expressionListing = .ok code) :
    expr.IsStraight code := by
  cases expr with
  | number _ | string _ | ident _ =>
    cases h
    exact ⟨by simp [Instruction.mark?], forall_within.mpr ⟨trivial, nofun⟩⟩
  | assign target inner =>
    rw [expressionListing, followedBy_eq_ok_iff] at h
    obtain ⟨first, _, hfirst, ⟨⟩, rfl⟩ := h
    have hinner := isStraight_of_listing inner hfirst
    refine ⟨?_, forall_within.mpr ⟨trivial, List.forall_mem_singleton.mpr hinner.evaluated⟩⟩
    exact List.forall_mem_append.mpr ⟨hinner.straight, by simp [Instruction.mark?]⟩
  | arith op left right | comparison op left right =>
    rw [expressionListing, followedBy_eq_ok_iff] at h
    obtain ⟨first, _, hfirst, hmore, rfl⟩ := h
    obtain ⟨second, _, hsecond, ⟨⟩, rfl⟩ := followedBy_eq_ok_iff.mp hmore
    have hleft := isStraight_of_listing left hfirst
    have hright := isStraight_of_listing right hsecond
    refine ⟨?_, forall_within.mpr ⟨trivial, ?_⟩⟩
    · exact List.forall_mem_append.mpr ⟨hleft.straight, List.forall_mem_append.mpr ⟨hright.straight, by
        simp [Instruction.mark?]⟩⟩
    · simpa [parts] using ⟨hleft.evaluated, hright.evaluated⟩
  | call callee args =>
    rw [expressionListing, followedBy_eq_ok_iff] at h
    obtain ⟨first, _, hfirst, ⟨⟩, rfl⟩ := h
    have hargs := isStraight_of_listings args hfirst
    refine ⟨?_, forall_within.mpr ⟨trivial, hargs.2⟩⟩
    exact List.forall_mem_append.mpr ⟨hargs.1, by simp [Instruction.mark?]⟩
  | _ => cases h

theorem isStraight_of_listings (args : List Node) {code : List Instruction} (h : argumentListing args = .ok code) :
    (∀ i ∈ code, i.mark? = none) ∧ ∀ arg ∈ args, ∀ n, Within parts n arg → n.IsEvaluated := by
  cases args with
  | nil =>
    cases h
    exact ⟨List.forall_mem_nil _, List.forall_mem_nil _⟩
  | cons arg rest =>
    rw [argumentListing, followedBy_eq_ok_iff] at h
    obtain ⟨first, more, hfirst, hmore, rfl⟩ := h
    have harg := isStraight_of_listing arg hfirst
    have hrest := isStraight_of_listings rest hmore
    exact ⟨List.forall_mem_append.mpr ⟨harg.straight, hrest.1⟩,
      List.forall_mem_cons.mpr ⟨harg.evaluated, hrest.2⟩⟩

end

/-! ## Statements -/

/-- **What a statement writes**, with one rule for each kind of statement, and two for a block. -/
inductive Listed : Node → List Instruction → Prop where
  | expression {expr : Node} {code : List Instruction} (h : expr.expressionListing = .ok code) :
      Listed (.expression expr) code
  | print {expr : Node} {code : List Instruction} (h : expr.expressionListing = .ok code) :
      Listed (.print expr) (code ++ [.print])
  | declare (name : Value) {init : Node} {code : List Instruction} (h : init.expressionListing = .ok code) :
      Listed (.declare name init) (code ++ [.store name])
  | ret {expr : Node} {code : List Instruction} (h : expr.expressionListing = .ok code) :
      Listed (.ret expr) (code ++ [.ret])
  | nil : Listed (.block []) []
  | cons {statement : Node} {rest : List Node} {first more : List Instruction} (hfirst : Listed statement first)
      (hmore : Listed (.block rest) more) : Listed (.block (statement :: rest)) (first ++ more)
  | ifThen {condition thenBlock : Node} {test thens : List Instruction}
      (hcondition : condition.expressionListing = .ok test) (hthen : Listed thenBlock thens) :
      Listed (.ifElse condition thenBlock .absent)
        (test ++ .jumpIfFalse .endIf :: (thens ++ [.label .endIf]))
  | ifElse {condition thenBlock elseBlock : Node} {test thens elses : List Instruction}
      (hcondition : condition.expressionListing = .ok test) (hthen : Listed thenBlock thens)
      (hpresent : elseBlock.isAbsent = false) (helse : Listed elseBlock elses) :
      Listed (.ifElse condition thenBlock elseBlock)
        (test ++ .jumpIfFalse .elseBranch ::
          (thens ++ .jump .endIf :: .label .elseBranch :: (elses ++ [.label .endIf])))
  | whileLoop {condition body : Node} {test code : List Instruction}
      (hcondition : condition.expressionListing = .ok test) (hbody : Listed body code) :
      Listed (.whileLoop condition body)
        (.label .loopStart :: (test ++ .jumpIfFalse .loopEnd :: (code ++ [.jump .loopStart, .label .loopEnd])))
  | function (name : Value) (params : List Value) {body : Node} {code last : List Instruction}
      (hbody : Listed body code) (hlast : body.impliedReturn = .ok last) :
      Listed (.function name params body) (.function name :: params.map .param ++ (code ++ last))

mutual

theorem listed_of_listing (statement : Node) {code : List Instruction} (h : statement.statementListing = .ok code) :
    Listed statement code := by
  cases statement with
  | expression expr =>
    rw [statementListing] at h
    exact .expression h
  | print expr =>
    rw [statementListing, followedBy_eq_ok_iff] at h
    obtain ⟨_, _, hexpr, ⟨⟩, rfl⟩ := h
    exact .print hexpr
  | declare name init =>
    rw [statementListing, followedBy_eq_ok_iff] at h
    obtain ⟨_, _, hinit, ⟨⟩, rfl⟩ := h
    exact .declare name hinit
  | ret expr =>
    rw [statementListing, followedBy_eq_ok_iff] at h
    obtain ⟨_, _, hexpr, ⟨⟩, rfl⟩ := h
    exact .ret hexpr
  | block statements =>
    rw [statementListing] at h
    exact listed_of_listings statements h
  | ifElse condition thenBlock elseBlock =>
    rw [statementListing, followedBy_eq_ok_iff] at h
    obtain ⟨test, _, hcondition, hbranches, rfl⟩ := h
    -- Which jumps and labels are written depends on whether there is a branch for the other case.
    split at hbranches
    · rename_i habsent
      obtain ⟨_, _, ⟨⟩, hfirst, rfl⟩ := followedBy_eq_ok_iff.mp hbranches
      obtain ⟨thens, _, hthen, ⟨⟩, rfl⟩ := followedBy_eq_ok_iff.mp hfirst
      cases elseBlock with
      | absent => exact .ifThen hcondition (listed_of_listing thenBlock hthen)
      | _ => cases habsent
    · rename_i hpresent
      obtain ⟨_, _, ⟨⟩, hfirst, rfl⟩ := followedBy_eq_ok_iff.mp hbranches
      obtain ⟨thens, _, hthen, hsecond, rfl⟩ := followedBy_eq_ok_iff.mp hfirst
      obtain ⟨_, _, ⟨⟩, hthird, rfl⟩ := followedBy_eq_ok_iff.mp hsecond
      obtain ⟨elses, _, helse, ⟨⟩, rfl⟩ := followedBy_eq_ok_iff.mp hthird
      exact .ifElse hcondition (listed_of_listing thenBlock hthen) (Bool.eq_false_iff.mpr hpresent)
        (listed_of_listing elseBlock helse)
  | whileLoop condition body =>
    rw [statementListing, followedBy_eq_ok_iff] at h
    obtain ⟨_, _, ⟨⟩, hfirst, rfl⟩ := h
    obtain ⟨test, _, hcondition, hsecond, rfl⟩ := followedBy_eq_ok_iff.mp hfirst
    obtain ⟨_, _, ⟨⟩, hthird, rfl⟩ := followedBy_eq_ok_iff.mp hsecond
    obtain ⟨code, _, hbody, ⟨⟩, rfl⟩ := followedBy_eq_ok_iff.mp hthird
    exact .whileLoop hcondition (listed_of_listing body hbody)
  | function name params body =>
    rw [statementListing, followedBy_eq_ok_iff] at h
    obtain ⟨_, _, ⟨⟩, hmore, rfl⟩ := h
    obtain ⟨code, last, hbody, hlast, rfl⟩ := followedBy_eq_ok_iff.mp hmore
    exact .function name params (listed_of_listing body hbody) hlast
  | _ => cases h

theorem listed_of_listings (statements : List Node) {code : List Instruction}
    (h : statementListings statements = .ok code) : Listed (.block statements) code := by
  cases statements with
  | nil =>
    cases h
    exact .nil
  | cons statement rest =>
    rw [statementListings, followedBy_eq_ok_iff] at h
    obtain ⟨first, more, hfirst, hmore, rfl⟩ := h
    exact .cons (listed_of_listing statement hfirst) (listed_of_listings rest hmore)

end

/-- **The listing of a statement is what it writes.** -/
theorem statementListing_eq_ok_iff {statement : Node} {code : List Instruction} :
    statement.statementListing = .ok code ↔ Listed statement code := by
  refine ⟨listed_of_listing statement, fun h => ?_⟩
  induction h with
  | expression h => rw [statementListing, h]
  | print h | declare _ h | ret h =>
    rw [statementListing, h]
    rfl
  | nil => rfl
  | cons _ _ ih ih' =>
    rw [statementListing] at ih'
    rw [statementListing, statementListings, ih, ih']
    rfl
  | ifThen hcondition _ ih =>
    rw [statementListing, hcondition, ih]
    rfl
  | ifElse hcondition _ hpresent _ ih ih' =>
    rw [statementListing, hcondition, hpresent, ih, ih']
    rfl
  | whileLoop hcondition _ ih =>
    rw [statementListing, hcondition, ih]
    rfl
  | function _ _ _ hlast ih =>
    rw [statementListing, hlast, ih]
    rfl

/-! ## Segments -/

/-- The listing of an expression; it is empty if there is none. -/
def listed (expr : Node) : List Instruction := expr.expressionListing.toOption.getD []

/-- The return at the end of a function, where the body does not end with one. -/
def lastReturn (body : Node) : List Instruction := body.impliedReturn.toOption.getD []

mutual

/-- **The segments of a tree.** Every conditional and every loop is a segment, with those of its parts inside; the
    condition of a conditional stands in front of it. All else is plain. -/
def segments : Node → List Segment
  | .expression expr => plains expr.listed
  | .print expr => plains (expr.listed ++ [.print])
  | .declare name init => plains (init.listed ++ [.store name])
  | .ret expr => plains (expr.listed ++ [.ret])
  | .program statements => segmentsOf statements
  | .block statements => segmentsOf statements
  | .ifElse condition thenBlock elseBlock =>
    plains condition.listed ++
      [if elseBlock.isAbsent then .ifThen (segments thenBlock) else .ifElse (segments thenBlock) (segments elseBlock)]
  | .whileLoop condition body => [.loop (Straight.ofCode condition.listed) (segments body)]
  | .function name params body =>
    plains (.function name :: params.map .param) ++ (segments body ++ plains body.lastReturn)
  | _ => []

/-- The segments of trees side by side. -/
def segmentsOf : List Node → List Segment
  | [] => []
  | node :: rest => segments node ++ segmentsOf rest

end

theorem listed_eq {expr : Node} {code : List Instruction} (h : expr.expressionListing = .ok code) :
    expr.listed = code := by
  rw [listed, h]
  rfl

/-- The implied return is a return, or there is none. -/
theorem straight_impliedReturn {body : Node} {last : List Instruction} (h : body.impliedReturn = .ok last) :
    ∀ i ∈ last, i.mark? = none := by
  rw [impliedReturn] at h
  split at h
  · cases h
  · cases h
    split
    · exact List.forall_mem_nil _
    · exact List.forall_mem_singleton.mpr rfl

/-- **The segments of a tree make up its listing.** -/
theorem Listed.codeOf_segments {statement : Node} {code : List Instruction} (h : Listed statement code) :
    codeOf statement.segments = code := by
  induction h with
  | @expression expr code h =>
    rw [segments, listed_eq h, codeOf_plains (isStraight_of_listing expr h).straight]
  | @print expr code h | @declare _ expr code h | @ret expr code h =>
    have hstraight := (isStraight_of_listing expr h).straight
    rw [segments, listed_eq h, codeOf_plains]
    exact List.forall_mem_append.mpr ⟨hstraight, List.forall_mem_singleton.mpr rfl⟩
  | nil => rfl
  | cons _ _ ih ih' =>
    rw [segments] at ih'
    rw [segments, segmentsOf, codeOf_append, ih, ih']
  | @ifThen condition thenBlock test thens hcondition _ ih =>
    have htest := codeOf_plains (isStraight_of_listing condition hcondition).straight
    rw [segments, listed_eq hcondition, codeOf_append, htest]
    simp [isAbsent, codeOf, Segment.code, ih]
  | @ifElse condition thenBlock elseBlock test thens elses hcondition _ hpresent _ ih ih' =>
    have htest := codeOf_plains (isStraight_of_listing condition hcondition).straight
    rw [segments, listed_eq hcondition, codeOf_append, htest]
    simp [hpresent, codeOf, Segment.code, ih, ih']
  | @whileLoop condition body test code hcondition _ ih =>
    rw [segments, listed_eq hcondition]
    simp [codeOf, Segment.code, Straight.map_ofCode (isStraight_of_listing condition hcondition).straight, ih]
  | @function name params body code last _ hlast ih =>
    have hlastReturn : body.lastReturn = last := by
      rw [lastReturn, hlast]
      rfl
    rw [segments, codeOf_append, codeOf_append, ih, hlastReturn, codeOf_plains (straight_impliedReturn hlast),
      codeOf_plains]
    simp [Instruction.mark?]

/-! ## Constructs -/

/-- The construct that a node is, if it is one. -/
def construct? : Node → Option Construct
  | .ifElse _ _ elseBlock => some (if elseBlock.isAbsent then .ifThen else .ifElse)
  | .whileLoop .. => some .loop
  | _ => none

/-- **The constructs of a tree**, in the order of a walk from the top. -/
def constructs (node : Node) : List Construct := (node.preorder 0).filterMap fun entry => entry.2.construct?

/-- The constructs do not depend on the level at which the walk begins. -/
theorem filterMap_preorder (level : Int) (node : Node) :
    (node.preorder level).filterMap (fun entry => entry.2.construct?) = node.constructs := by
  rw [constructs]
  generalize (0 : Int) = level'
  induction node using children_induction generalizing level level' with
  | step node ih =>
    rw [preorder_eq, preorder_eq, List.filterMap_cons, List.filterMap_cons, List.filterMap_flatMap,
      List.filterMap_flatMap, List.flatMap_congr fun child hchild => ih child hchild (level + 1) (level' + 1)]

theorem absent_constructs : Node.absent.constructs = [] := by
  rw [constructs, preorder_eq]
  rfl

/-- A branch that is missing is a part and no child, but there are no constructs in it. -/
theorem flatMap_constructs_children (node : Node) :
    node.children.flatMap constructs = node.parts.flatMap constructs := by
  have hpresent : ∀ nodes : List Node,
      (nodes.filter fun part => !part.isAbsent).flatMap constructs = nodes.flatMap constructs := by
    intro nodes
    induction nodes with
    | nil => rfl
    | cons node rest ih =>
      cases node with
      | absent => simpa [isAbsent, absent_constructs] using ih
      | _ => simpa [isAbsent] using ih
  cases node with
  | ifElse condition thenBlock elseBlock => exact hpresent [condition, thenBlock, elseBlock]
  | _ => rfl

/-- **The constructs of a node** are itself, if it is one, and those of its parts. -/
theorem constructs_eq (node : Node) : node.constructs = node.construct?.toList ++ node.parts.flatMap constructs := by
  have hchildren := List.flatMap_congr fun child (_ : child ∈ node.children) => filterMap_preorder (0 + 1) child
  rw [← flatMap_constructs_children, constructs, preorder_eq, List.filterMap_cons, List.filterMap_flatMap, hchildren]
  cases node.construct? <;> rfl

/-- What is evaluated has no constructs in it. -/
theorem constructs_of_evaluated (expr : Node) (h : ∀ n, Within parts n expr → n.IsEvaluated) :
    expr.constructs = [] := by
  have hevaluated := forall_within.mp h
  have hnone : expr.construct? = none := by
    cases expr with
    | ifElse _ _ _ | whileLoop _ _ => exact hevaluated.1.elim
    | _ => rfl
  rw [constructs_eq, hnone]
  exact List.flatMap_eq_nil_iff.mpr fun part hpart => constructs_of_evaluated part (hevaluated.2 part hpart)
termination_by sizeOf expr
decreasing_by exact sizeOf_lt_of_mem_parts hpart

/-- An expression is listed without marks, and has no constructs. -/
theorem marksOf_expression {expr : Node} {code : List Instruction} (h : expr.expressionListing = .ok code) :
    marksOf code = [] ∧ expr.constructs = [] := by
  have hstraight := isStraight_of_listing expr h
  exact ⟨marksOf_straight hstraight.straight, constructs_of_evaluated expr hstraight.evaluated⟩

/-- **The jumps and labels of a listing are those of the constructs** of the tree, each as often. -/
theorem Listed.count_marks {statement : Node} {code : List Instruction} (h : Listed statement code) (mark : Mark) :
    (marksOf code).count mark = (statement.constructs.flatMap Construct.marks).count mark := by
  induction h with
  | expression h =>
    obtain ⟨hmarks, hconstructs⟩ := marksOf_expression h
    rw [constructs_eq, hmarks]
    simp [construct?, parts, hconstructs]
  | print h | declare _ h | ret h =>
    obtain ⟨hmarks, hconstructs⟩ := marksOf_expression h
    rw [constructs_eq, marksOf_append, hmarks, marksOf_straight (List.forall_mem_singleton.mpr rfl)]
    simp [construct?, parts, hconstructs]
  | nil =>
    rw [constructs_eq]
    rfl
  | cons _ _ ih ih' =>
    rw [constructs_eq] at ih' ⊢
    simp only [construct?, parts, Option.toList_none, List.nil_append] at ih' ⊢
    rw [marksOf_append, List.count_append, ih, ih', List.flatMap_cons, List.flatMap_append, List.count_append]
  | ifThen hcondition _ ih =>
    obtain ⟨hmarks, hconstructs⟩ := marksOf_expression hcondition
    rw [constructs_eq]
    simp [construct?, parts, hmarks, hconstructs, absent_constructs, isAbsent, Construct.marks, ih, List.count_cons]
  | ifElse hcondition _ hpresent _ ih ih' =>
    obtain ⟨hmarks, hconstructs⟩ := marksOf_expression hcondition
    rw [constructs_eq]
    simp [construct?, parts, hmarks, hconstructs, hpresent, Construct.marks, ih, ih', List.count_cons]
    omega
  | whileLoop hcondition _ ih =>
    obtain ⟨hmarks, hconstructs⟩ := marksOf_expression hcondition
    rw [constructs_eq]
    simp [construct?, parts, hmarks, hconstructs, Construct.marks, ih, List.count_cons]
    omega
  | function name params _ hlast ih =>
    have hheading : ∀ i ∈ Instruction.function name :: params.map .param, i.mark? = none := by
      simp [Instruction.mark?]
    rw [constructs_eq, marksOf_append, marksOf_append, marksOf_straight hheading,
      marksOf_straight (straight_impliedReturn hlast)]
    simp [construct?, parts, ih]

/-! ## Functions -/

/-- Statements of which the last returns are listed with a return at the end. -/
theorem Listed.ends_in_return {statements : List Node} {code : List Instruction} (h : Listed (.block statements) code)
    (hlast : (statements.getLast?.map isReturn).getD false = true) : ∃ inner, code = inner ++ [.ret] := by
  induction statements generalizing code with
  | nil => cases hlast
  | cons statement rest ih =>
    obtain _ | _ | _ | _ | _ | ⟨hfirst, hmore⟩ := h
    cases rest with
    | nil =>
      cases hmore
      cases hfirst with
      | @ret expr code _ => exact ⟨code, List.append_nil _⟩
      | _ => cases hlast
    | cons next others =>
      rw [List.getLast?_cons_cons] at hlast
      obtain ⟨inner, rfl⟩ := ih hmore hlast
      exact ⟨_, (List.append_assoc _ _ _).symm⟩

/-- **A function is listed with its heading in front and a return at the end.** -/
theorem Listed.function_code {name : Value} {params : List Value} {body : Node} {code : List Instruction}
    (h : Listed (.function name params body) code) :
    ∃ inner, code = .function name :: params.map .param ++ inner ++ [.ret] := by
  obtain _ | _ | _ | _ | _ | _ | _ | _ | _ | @⟨_, _, _, code, last, hbody, hlast⟩ := h
  have hends : ∃ inner, code ++ last = inner ++ [.ret] := by
    rw [impliedReturn] at hlast
    split at hlast
    · cases hlast
    · rename_i statements hstatements
      cases hlast
      split
      · rename_i hreturn
        -- No return is added, so it is the last statement of the body that has written one.
        have hblock : body = .block statements := by
          cases hbody <;> cases hstatements <;> rfl
        rw [hblock] at hbody
        obtain ⟨inner, rfl⟩ := hbody.ends_in_return hreturn
        exact ⟨inner, List.append_nil _⟩
      · exact ⟨code, rfl⟩
  obtain ⟨inner, hinner⟩ := hends
  exact ⟨inner, by rw [hinner, List.append_assoc]⟩

/-- **A part of a statement** is an expression, or it is missing, or what it writes is part of the listing. -/
theorem Listed.part {statement part : Node} {code : List Instruction} (h : Listed statement code)
    (hpart : part ∈ statement.parts) :
    (∃ inner, part.expressionListing = .ok inner) ∨ part = .absent ∨ ∃ inner, Listed part inner ∧ inner <:+: code := by
  induction h with
  | expression h | print h | declare _ h | ret h =>
    obtain rfl := List.mem_singleton.mp hpart
    exact .inl ⟨_, h⟩
  | nil => cases hpart
  | @cons first rest _ _ hfirst _ _ ih =>
    rcases List.mem_cons.mp hpart with rfl | hrest
    · exact .inr (.inr ⟨_, hfirst, (List.prefix_append _ _).isInfix⟩)
    · refine (ih hrest).imp_right fun hmore => hmore.imp_right fun ⟨inner, hinner, hinfix⟩ => ?_
      exact ⟨inner, hinner, hinfix.trans (List.suffix_append _ _).isInfix⟩
  | @ifThen _ _ test thens hcondition hthen _ =>
    simp only [parts, List.mem_cons, List.not_mem_nil, or_false] at hpart
    rcases hpart with rfl | rfl | rfl
    · exact .inl ⟨_, hcondition⟩
    · exact .inr (.inr ⟨_, hthen, test ++ [.jumpIfFalse .endIf], [.label .endIf], by simp⟩)
    · exact .inr (.inl rfl)
  | @ifElse _ _ _ test thens elses hcondition hthen _ helse _ _ =>
    simp only [parts, List.mem_cons, List.not_mem_nil, or_false] at hpart
    rcases hpart with rfl | rfl | rfl
    · exact .inl ⟨_, hcondition⟩
    · exact .inr (.inr ⟨_, hthen, test ++ [.jumpIfFalse .elseBranch],
        .jump .endIf :: .label .elseBranch :: (elses ++ [.label .endIf]), by simp⟩)
    · exact .inr (.inr ⟨_, helse,
        test ++ .jumpIfFalse .elseBranch :: (thens ++ [.jump .endIf, .label .elseBranch]), [.label .endIf], by simp⟩)
  | @whileLoop _ _ test _ hcondition hbody _ =>
    simp only [parts, List.mem_cons, List.not_mem_nil, or_false] at hpart
    rcases hpart with rfl | rfl
    · exact .inl ⟨_, hcondition⟩
    · exact .inr (.inr ⟨_, hbody, .label .loopStart :: (test ++ [.jumpIfFalse .loopEnd]),
        [.jump .loopStart, .label .loopEnd], by simp⟩)
  | @function name params _ _ last hbody _ _ =>
    obtain rfl := List.mem_singleton.mp hpart
    exact .inr (.inr ⟨_, hbody, .function name :: params.map .param, last, by simp⟩)

/-- **What a function in a statement writes is part of the listing** of the statement. -/
theorem Listed.function_within {statement body : Node} {name : Value} {params : List Value} {code : List Instruction}
    (h : Listed statement code) (hwithin : Within parts (.function name params body) statement) :
    ∃ inner, Listed (.function name params body) inner ∧ inner <:+: code := by
  induction hwithin generalizing code with
  | self => exact ⟨code, h, List.infix_refl code⟩
  | @part part statement hpart hwithin ih =>
    -- On the way down to a function there are no expressions and no missing branches.
    obtain ⟨test, htest⟩ | rfl | ⟨inner, hinner, hinfix⟩ := h.part hpart
    · exact ((isStraight_of_listing part htest).evaluated _ hwithin).elim
    · cases hwithin with
      | part hnone _ => cases hnone
    · obtain ⟨deeper, hdeeper, hdeep⟩ := ih hinner
      exact ⟨deeper, hdeeper, hdeep.trans hinfix⟩

/-! ## Programs -/

/-- The listing of a program is what a block of its statements writes. -/
theorem listed_of_program {program : Node} {instructions : List Instruction} (h : program.listing = .ok instructions) :
    ∃ statements, program = .program statements ∧ Listed (.block statements) instructions := by
  cases program with
  | program statements =>
    rw [listing, walk] at h
    split at h
    · exact ⟨statements, rfl, listed_of_listings statements h⟩
    · cases h
  | _ => cases h

/-- **The listing of a program is well nested.** The conditionals and loops of the program divide its listing into
    segments, and there is no other way to divide it into segments. So every jump goes to the label that its own
    construct has written for it, which has the name that the jump wants. The jumps and labels are those of the
    conditionals and loops, and there are no others. The code of each function, wherever it is declared, has the
    heading in front and a return at the end. -/
theorem listing_well_nested {program : Node} {instructions : List Instruction}
    (h : program.listing = .ok instructions) :
    codeOf program.segments = instructions ∧
    (∀ others, codeOf others = instructions → others = program.segments) ∧
    List.Forall₂ (Resolves instructions) instructions (targetsOf 0 program.segments) ∧
    (∀ mark, (marksOf instructions).count mark = mark.occurrences program.constructs.count) ∧
    ∀ name params body, Within parts (.function name params body) program →
      ∃ inner, (Node.function name params body).statementListing =
          .ok (.function name :: params.map .param ++ inner ++ [.ret]) ∧
        (.function name :: params.map .param ++ inner ++ [.ret]) <:+: instructions := by
  obtain ⟨statements, rfl, hlisted⟩ := listed_of_program h
  have hsegments : (Node.program statements).segments = (Node.block statements).segments := rfl
  have hcode : codeOf (Node.program statements).segments = instructions := by
    rw [hsegments, hlisted.codeOf_segments]
  refine ⟨hcode, fun others hothers => codeOf_injective (hothers.trans hcode.symm), ?_, fun mark => ?_, ?_⟩
  · have hresolves := resolves_codeOf (Node.program statements).segments
    rwa [hcode] at hresolves
  · have hsame : (Node.program statements).constructs = (Node.block statements).constructs := by
      rw [constructs_eq, constructs_eq]
      rfl
    rw [hlisted.count_marks, count_flatMap_marks, hsame]
  · intro name params body hwithin
    have hblock : Within parts (.function name params body) (.block statements) := by
      cases hwithin with
      | part hpart hwithin => exact .part hpart hwithin
    obtain ⟨code, hfunction, hinfix⟩ := hlisted.function_within hblock
    obtain ⟨inner, rfl⟩ := hfunction.function_code
    exact ⟨inner, statementListing_eq_ok_iff.mpr hfunction, hinfix⟩

/-- The body of a function that has a loop in a loop. -/
def loopInLoop : Node :=
  .block [.whileLoop (.ident (.str "a"))
    (.block [.whileLoop (.ident (.str "b")) (.block [.print (.ident (.str "b"))])])]

/-- **Each of two loops has its own labels**, which have the same names. The function is called as a label is. -/
theorem loopInLoop_well_nested :
    ∃ segments, codeOf segments =
        [.function (.str "loop_end"), .label .loopStart, .load (.str "a"), .jumpIfFalse .loopEnd,
          .label .loopStart, .load (.str "b"), .jumpIfFalse .loopEnd, .load (.str "b"), .print,
          .jump .loopStart, .label .loopEnd, .jump .loopStart, .label .loopEnd, .ret] ∧
      targetsOf 0 segments =
        [none, none, none, some 12, none, none, some 10, none, none, some 4, none, some 1, none, none] ∧
      ∀ others, codeOf others = codeOf segments → others = segments := by
  have hlisting : (Node.program [.function (.str "loop_end") [] loopInLoop]).listing = .ok
      [.function (.str "loop_end"), .label .loopStart, .load (.str "a"), .jumpIfFalse .loopEnd,
        .label .loopStart, .load (.str "b"), .jumpIfFalse .loopEnd, .load (.str "b"), .print,
        .jump .loopStart, .label .loopEnd, .jump .loopStart, .label .loopEnd, .ret] := rfl
  obtain ⟨hcode, honly, -, -, -⟩ := listing_well_nested hlisting
  exact ⟨_, hcode, rfl, fun others hothers => honly others (hothers.trans hcode)⟩

end Node

end LineaLang
