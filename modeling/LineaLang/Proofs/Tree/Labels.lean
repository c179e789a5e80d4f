import LineaLang.Proofs.Text.Requoted
import LineaLang.Proofs.Tree.Shown
import LineaLang.Proofs.Tree.Views
import Mathlib.Data.List.Basic

/-!
# `LineaLang.Proofs.Tree.Labels` — what a label tells of its node

The label of a node begins with the kind of the node; what the node carries besides its children follows after a
blank. Both can be read off again: the kinds are words, so the first blank ends them; names are words too, so the
parameters of a function end at commas and at a parenthesis; and the literal of a string denotes the string. Only of a
number no more is left than the text that shows it.

## Contents

* `Outline.ofLabel` — the node of a label, given the trees below it.
* `Node.IsPart.exists_label` — in a program every label is one line and tells its node.
-/

namespace LineaLang

-- The literals in labels never call a character by name, so no names are needed to read them.
attribute [local instance] CharacterNames.unnamed

/-! ## Reading a label -/

namespace Outline

/-- The blank after a kind, and between parameters. -/
def blank : CodePoint := ' '

/-- The kind that a label begins with, and what it says besides. -/
def splitLabel (label : Text) : Text × Text := (Text.splitAt? blank label).getD (label, [])

/-- Names with commas between them. -/
def readNames (text : Text) : List Text :=
  if text.isEmpty then [] else (text.filter fun c => c ≠ blank).splitOn (CodePoint.ofChar ',')

/-- The name of a function, and its parameters, which stand between parentheses. -/
def readHeading (heading : Text) : Text × List Text :=
  match Text.splitAt? '(' heading with
  | some (name, rest) => (name, readNames rest.dropLast)
  | none => (heading, [])

/-- **The node of a kind** that carries what a label says besides, with trees below it. A tree that is wanted below
    and is not there is absent, and so is the node of a label that no program has. -/
def ofKind (kind carried : Text) (below : List Node) : Node :=
  let part (index : Nat) : Node := below.getD index .absent
  if kind = Text.ofString "Program" then .program below
  else if kind = Text.ofString "Block" then .block below
  else if kind = Text.ofString "If" then .ifElse (part 0) (part 1) (part 2)
  else if kind = Text.ofString "While" then .whileLoop (part 0) (part 1)
  else if kind = Text.ofString "VariableDeclaration" then .declare (.str carried) (part 0)
  else if kind = Text.ofString "FunctionDeclaration" then
    let (name, params) := readHeading carried
    .function (.str name) (params.map .str) (part 0)
  else if kind = Text.ofString "ReturnStatement" then .ret (part 0)
  else if kind = Text.ofString "PrintStatement" then .print (part 0)
  else if kind = Text.ofString "ExpressionStatement" then .expression (part 0)
  else if kind = Text.ofString "Assign" then .assign (.str carried) (part 0)
  else if kind = Text.ofString "Comparison" then
    match CompareOp.ofValue (.str carried) with
    | .ok op => .comparison op (part 0) (part 1)
    | .error _ => .absent
  else if kind = Text.ofString "BinaryArith" then
    match ArithOp.ofValue (.str carried) with
    | .ok op => .arith op (part 0) (part 1)
    | .error _ => .absent
  else if kind = Text.ofString "Identifier" then .ident (.str carried)
  else if kind = Text.ofString "NumberLiteral" then .number (.str carried)
  else if kind = Text.ofString "StringLiteral" then
    match Text.literalAt? carried with
    | some (text, _) => .string (.str text)
    | none => .absent
  else if kind = Text.ofString "Call" then .call (.str carried) below
  else .absent

/-- **The node of a label**, with trees below it. -/
def ofLabel (label : Text) (below : List Node) : Node := ofKind (splitLabel label).1 (splitLabel label).2 below

theorem splitLabel_kind {kind : Text} (h : blank ∉ kind) : splitLabel kind = (kind, []) := by
  rw [splitLabel, Text.splitAt?_eq_none h]
  rfl

theorem splitLabel_carried {kind : Text} (h : blank ∉ kind) (carried : Text) :
    splitLabel (kind ++ " " ++ carried) = (kind, carried) := by
  have hlabel : kind ++ Text.ofString " " ++ carried = kind ++ blank :: carried := List.append_assoc _ _ _
  rw [splitLabel, hlabel, Text.splitAt?_append h]
  rfl

/-! ## Parameters -/

section Names

variable {names : List Text}

/-- Names hold no blanks, so without blanks only commas stand between them. -/
theorem filter_join (h : ∀ name ∈ names, blank ∉ name) :
    (Text.join ", " names).filter (fun c => c ≠ blank) = [CodePoint.ofChar ','].intercalate names := by
  have hself : ∀ name ∈ names, name.filter (fun c => c ≠ blank) = name := fun name hname =>
    List.filter_eq_self.mpr fun c hc => decide_eq_true fun heq => h name hname (heq ▸ hc)
  induction names with
  | nil => rfl
  | cons name rest ih =>
    rw [List.forall_mem_cons] at h hself
    cases rest with
    | nil => simpa [Text.join] using hself.1
    | cons next rest =>
      have hcomma : (Text.ofString ", ").filter (fun c => c ≠ blank) = [CodePoint.ofChar ','] := by decide
      rw [Text.join, List.filter_append, List.filter_append, hself.1, hcomma, ih h.2 hself.2,
        List.intercalate_cons_cons]

/-- **Names are read back.** -/
theorem readNames_join (h : ∀ name ∈ names, WordLexeme name) : readNames (Text.join ", " names) = names := by
  cases names with
  | nil => rfl
  | cons name rest =>
    have hne : (Text.join ", " (name :: rest)).isEmpty = false := by
      obtain ⟨hc, _⟩ := (List.forall_mem_cons.mp h).1
      cases rest <;> rfl
    rw [readNames, hne, if_neg Bool.false_ne_true,
      filter_join fun name hname => (h name hname).notMem (by decide)]
    exact List.splitOn_intercalate _ (fun name hname => (h name hname).notMem (by decide))
      (List.cons_ne_nil _ _)

theorem readHeading_eq {name : Text} (hname : WordLexeme name) (h : ∀ name ∈ names, WordLexeme name) :
    readHeading (name ++ "(" ++ Text.join ", " names ++ ")") = (name, names) := by
  have hheading : name ++ Text.ofString "(" ++ Text.join ", " names ++ Text.ofString ")" =
      name ++ CodePoint.ofChar '(' :: (Text.join ", " names ++ [CodePoint.ofChar ')']) := by
    rw [List.append_assoc, List.append_assoc]
    rfl
  rw [readHeading, hheading, Text.splitAt?_append (hname.notMem (by decide))]
  simp only [List.dropLast_concat, readNames_join h]

end Names

end Outline

/-! ## Labels of programs -/

namespace Node

open Outline

/-- A kind is written with letters. -/
theorem isRun_kind (node : Node) : node.kind.IsRun CodePoint.isLetter := by
  cases node <;> exact ⟨List.cons_ne_nil _ _, by rw [kind]; decide⟩

theorem notMem_kind (node : Node) {mark : CodePoint} (hmark : mark.isLetter = false) : mark ∉ node.kind := by
  intro hmem
  rw [node.isRun_kind.2 mark hmem] at hmark
  cases hmark

/-- **A label that tells its node**, given what is shown of the trees below it. -/
structure IsLegible (label : Text) (node : Node) : Prop where
  isLabel : node.label = .ok label
  oneLine : Text.newline ∉ label
  head : label.head? ≠ some blank
  read : ofLabel label (node.children.map shown) = node.shown

variable {node : Node}

theorem isLegible_kind (hlabel : node.label = .ok node.kind)
    (hread : ofKind node.kind [] (node.children.map shown) = node.shown) : IsLegible node.kind node where
  isLabel := hlabel
  oneLine := node.notMem_kind (by decide)
  head hhead := node.notMem_kind (by decide) (List.mem_of_head? hhead)
  read := by
    rw [ofLabel, splitLabel_kind (node.notMem_kind (by decide))]
    exact hread

theorem isLegible_carried {carried : Text} (hlabel : node.label = .ok (node.kind ++ " " ++ carried))
    (hline : Text.newline ∉ carried) (hread : ofKind node.kind carried (node.children.map shown) = node.shown) :
    IsLegible (node.kind ++ " " ++ carried) node where
  isLabel := hlabel
  oneLine := by
    have hblank : Text.newline ∉ Text.ofString " " := by decide
    exact List.not_mem_append (List.not_mem_append (node.notMem_kind (by decide)) hblank) hline
  head hhead := by
    rw [List.append_assoc, List.head?_append_of_ne_nil _ node.isRun_kind.1] at hhead
    exact node.notMem_kind (by decide) (List.mem_of_head? hhead)
  read := by
    rw [ofLabel, splitLabel_carried (node.notMem_kind (by decide))]
    exact hread

theorem isLegible_number {value : Value} (h : value.IsLiteralNumber) : ∃ label, IsLegible label (.number value) := by
  refine ⟨_, isLegible_carried rfl (Text.newline_notMem_of_isVisible ?_) rfl⟩
  cases value with
  | int n => exact Numeral.isVisible_ofInt n
  | float x => exact x.isVisible_display
  | none | bool _ | str _ | list _ | dict _ => cases h

theorem isLegible_string (text : Text) : ∃ label, IsLegible label (.string (.str text)) := by
  refine ⟨_, isLegible_carried rfl text.newline_notMem_quoted ?_⟩
  have hread : ofKind (string (.str text)).kind text.quoted [] = match Text.literalAt? text.quoted with
      | some (text, _) => .string (.str text)
      | none => .absent := rfl
  rw [Text.literalAt?_quoted] at hread
  exact hread

theorem isLegible_function {name : Value} {params : List Value} (hname : name.IsName)
    (hparams : ∀ param ∈ params, param.IsName) (body : Node) :
    ∃ label, IsLegible label (.function name params body) := by
  obtain ⟨word, rfl, hword⟩ := hname.exists_word
  obtain ⟨words, rfl, hwords⟩ := Value.exists_words hparams
  have hlabel : (Node.function (.str word) (words.map .str) body).label =
      .ok ((Node.function (.str word) (words.map .str) body).kind ++ " " ++
        (word ++ "(" ++ Text.join ", " words ++ ")")) := by
    rw [label, joinTexts_map_str]
    simp only [Value.plain, List.append_assoc]
  refine ⟨_, isLegible_carried hlabel ?_ ?_⟩
  · have hparams : ∀ c ∈ Text.join ", " words, c.isVisible = true :=
      Text.forall_mem_join (by decide) fun word hmem => (hwords word hmem).isVisible
    refine Text.newline_notMem_of_isVisible (List.forall_mem_append.mpr ⟨?_, by decide⟩)
    exact List.forall_mem_append.mpr ⟨List.forall_mem_append.mpr ⟨hword.isVisible, by decide⟩, hparams⟩
  · have hread : ofKind (Node.function (.str word) (words.map .str) body).kind
        (word ++ "(" ++ Text.join ", " words ++ ")") [body.shown] =
        .function (.str (readHeading (word ++ "(" ++ Text.join ", " words ++ ")")).1)
          ((readHeading (word ++ "(" ++ Text.join ", " words ++ ")")).2.map .str) body.shown := rfl
    rw [readHeading_eq hword hwords] at hread
    exact hread

variable {L : Value → Prop}

theorem IsExpression.exists_label (h : IsExpression L node) : ∃ label, IsLegible label node := by
  cases h with
  | number hnumber _ => exact isLegible_number hnumber
  | string _ => exact isLegible_string _
  | ident hname =>
    obtain ⟨word, rfl, hword⟩ := hname.exists_word
    exact ⟨_, isLegible_carried rfl (hword.notMem (by decide)) rfl⟩
  | assign hname _ =>
    obtain ⟨word, rfl, hword⟩ := hname.exists_word
    exact ⟨_, isLegible_carried rfl (hword.notMem (by decide)) rfl⟩
  | arith op _ _ =>
    refine ⟨_, isLegible_carried rfl ?_ ?_⟩
    · cases op <;> decide
    · cases op <;> rfl
  | call hname _ =>
    obtain ⟨word, rfl, hword⟩ := hname.exists_word
    refine ⟨_, isLegible_carried rfl (hword.notMem (by decide)) ?_⟩
    rw [shown, shownAll_eq_map]
    rfl

theorem IsCondition.exists_label (h : IsCondition L node) : ∃ label, IsLegible label node := by
  cases h with
  | comparison op _ _ =>
    refine ⟨_, isLegible_carried rfl ?_ ?_⟩
    · cases op <;> decide
    · cases op <;> rfl

theorem IsStatement.exists_label (h : IsStatement L node) : ∃ label, IsLegible label node := by
  cases h with
  | expression _ | print _ | ret _ | whileLoop _ _ => exact ⟨_, isLegible_kind rfl rfl⟩
  | declare hname _ =>
    obtain ⟨word, rfl, hword⟩ := hname.exists_word
    exact ⟨_, isLegible_carried rfl (hword.notMem (by decide)) rfl⟩
  | function hname hparams _ => exact isLegible_function hname hparams _
  | ifThen hcondition _ | ifElse hcondition _ _ =>
    -- A condition is there, so only the branch at the end may be missing.
    obtain ⟨op, _, _⟩ := hcondition
    exact ⟨_, isLegible_kind rfl rfl⟩

/-- **In a program every label is one line and tells its node.** -/
theorem IsPart.exists_label (h : IsPart L node) : ∃ label, IsLegible label node := by
  cases h with
  | program h | block h =>
    obtain ⟨statements, rfl, -⟩ := h
    refine ⟨_, isLegible_kind rfl ?_⟩
    rw [shown, shownAll_eq_map]
    rfl
  | statement h => exact h.exists_label
  | expression h => exact h.exists_label
  | condition h => exact h.exists_label
  | absent => exact ⟨_, isLegible_kind rfl rfl⟩

end Node

end LineaLang
