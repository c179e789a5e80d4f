import LineaLang.Proofs.Tree.WellFormed
import LineaLang.Tree.Listing
import LineaLang.Tree.Outline
import LineaLang.Tree.Record

/-!
# `LineaLang.Proofs.Tree.Views` — every view of a well-formed tree is there

A listing stops at a node that is no expression or no statement where one is wanted, and at a body without
statements. An outline stops at a parameter that is no text. A well-formed tree has none of these, so what is left is
that a tree may be too deep to be walked at all.

## Contents

* `Succeeds` — a view that is there, and views put together.
* `Node.IsExpression.succeeds_listing`, `Node.IsStatement.succeeds_listing` — listings of parts.
* `Node.succeeds_outline` — outlines of all trees whose names are texts.
* `Node.Viewable`, `Node.IsProgram.viewable` — every view of a program.
-/

namespace LineaLang

/-! ## Views put together -/

/-- **A view that is there.** -/
def Succeeds {ε α : Type} (view : Except ε α) : Prop := ∃ a, view = .ok a

namespace Succeeds

variable {ε α β : Type}

theorem ok (a : α) : Succeeds (.ok a : Except ε α) := ⟨a, rfl⟩

theorem bind {view : Except ε α} {f : α → Except ε β} (h : Succeeds view) (hf : ∀ a, Succeeds (f a)) :
    Succeeds (view >>= f) := by
  obtain ⟨a, rfl⟩ := h
  exact hf a

theorem map {view : Except ε α} (h : Succeeds view) (f : α → β) : Succeeds (view.map f) := by
  obtain ⟨a, rfl⟩ := h
  exact ⟨f a, rfl⟩

/-- A view of a tree that is not too deep is there if it is there once it has been started. -/
theorem walk {node : Node} {view : Node → Except TreeFault α} (hdepth : node.depth ≤ Node.maxDepth)
    (h : Succeeds (view node)) : Succeeds (node.walk view) := by
  unfold Node.walk
  rw [if_pos hdepth]
  exact h

/-- Instructions one after the other. -/
theorem followedBy {first second : Listing} (h : Succeeds first) (h' : Succeeds second) :
    Succeeds (first.followedBy second) :=
  h.bind fun _ => h'.bind fun _ => ok _

/-- Lines one after the other. -/
theorem linesThen {first second : Except TreeFault (List Text)} (h : Succeeds first) (h' : Succeeds second) :
    Succeeds (Node.linesThen first second) :=
  h.bind fun _ => h'.bind fun _ => ok _

theorem withLabel {node : Node} {level : Int} {below : Except TreeFault (List Text)} (h : Succeeds node.label)
    (h' : Succeeds below) : Succeeds (node.withLabel level below) :=
  h.bind fun _ => h'.bind fun _ => ok _

theorem unlessAbsent {lines : Except TreeFault (List Text)} (node : Node) (h : Succeeds lines) :
    Succeeds (node.unlessAbsent lines) := by
  unfold Node.unlessAbsent
  split
  · exact ok _
  · exact h

end Succeeds

namespace Node

variable {L : Value → Prop}

/-! ## Listings -/

theorem succeeds_argumentListing {args : List Node} (h : ∀ arg ∈ args, Succeeds arg.expressionListing) :
    Succeeds (argumentListing args) := by
  induction args with
  | nil => exact .ok _
  | cons arg rest ih =>
    rw [List.forall_mem_cons] at h
    rw [argumentListing]
    exact h.1.followedBy (ih h.2)

/-- **An expression is listed.** -/
theorem IsExpression.succeeds_listing {expr : Node} (h : IsExpression L expr) : Succeeds expr.expressionListing := by
  induction h with
  | number _ _ | string _ | ident _ =>
    rw [expressionListing]
    exact .ok _
  | assign _ _ ih =>
    rw [expressionListing]
    exact ih.followedBy (.ok _)
  | arith op _ _ ih ih' =>
    rw [expressionListing]
    exact ih.followedBy (ih'.followedBy (.ok _))
  | call _ _ ih =>
    rw [expressionListing]
    exact (succeeds_argumentListing ih).followedBy (.ok _)

theorem IsCondition.succeeds_listing {condition : Node} (h : IsCondition L condition) :
    Succeeds condition.expressionListing := by
  cases h with
  | comparison op hleft hright =>
    rw [expressionListing]
    exact hleft.succeeds_listing.followedBy (hright.succeeds_listing.followedBy (.ok _))

theorem succeeds_statementListings {statements : List Node}
    (h : ∀ statement ∈ statements, Succeeds statement.statementListing) :
    Succeeds (statementListings statements) := by
  induction statements with
  | nil => exact .ok _
  | cons statement rest ih =>
    rw [List.forall_mem_cons] at h
    rw [statementListings]
    exact h.1.followedBy (ih h.2)

theorem succeeds_blockListing {statements : List Node}
    (h : ∀ statement ∈ statements, Succeeds statement.statementListing) :
    Succeeds (Node.block statements).statementListing := by
  rw [statementListing]
  exact succeeds_statementListings h

/-- **A statement is listed.** -/
theorem IsStatement.succeeds_listing {statement : Node} (h : IsStatement L statement) :
    Succeeds statement.statementListing := by
  induction h with
  | expression h =>
    rw [statementListing]
    exact h.succeeds_listing
  | print h | ret h =>
    rw [statementListing]
    exact h.succeeds_listing.followedBy (.ok _)
  | declare _ h =>
    rw [statementListing]
    exact h.succeeds_listing.followedBy (.ok _)
  | function _ _ _ ih =>
    rw [statementListing]
    exact Succeeds.followedBy (.ok _) ((succeeds_blockListing ih).followedBy (.ok _))
  | ifThen hcondition _ ih =>
    rw [statementListing]
    exact hcondition.succeeds_listing.followedBy
      (Succeeds.followedBy (.ok _) ((succeeds_blockListing ih).followedBy (.ok _)))
  | ifElse hcondition _ _ ih ih' =>
    rw [statementListing]
    exact hcondition.succeeds_listing.followedBy (Succeeds.followedBy (.ok _) ((succeeds_blockListing ih).followedBy
      (Succeeds.followedBy (.ok _) ((succeeds_blockListing ih').followedBy (.ok _)))))
  | whileLoop hcondition _ ih =>
    rw [statementListing]
    exact Succeeds.followedBy (.ok _) (hcondition.succeeds_listing.followedBy
      (Succeeds.followedBy (.ok _) ((succeeds_blockListing ih).followedBy (.ok _))))

/-! ## Outlines -/

theorem textsFrom_map_str (index : Nat) (texts : List Text) : Value.textsFrom index (texts.map .str) = .ok texts := by
  induction texts generalizing index with
  | nil => rfl
  | cons text rest ih =>
    rw [List.map_cons, Value.textsFrom, ih]
    rfl

/-- Texts are joined. -/
theorem joinTexts_map_str (separator : Text) (texts : List Text) :
    Value.joinTexts separator (texts.map .str) = .ok (Text.join separator texts) := by
  rw [Value.joinTexts, textsFrom_map_str]
  rfl

theorem Grammatical.succeeds_label {node : Node} (h : node.Grammatical) : Succeeds node.label := by
  cases node with
  | function name params body =>
    obtain ⟨words, rfl, -⟩ := Value.exists_words h.2
    rw [label, joinTexts_map_str]
    exact .ok _
  | _ => exact .ok _

mutual

/-- **A tree has an outline** if the names in it are texts. -/
theorem succeeds_outline (level : Int) (node : Node) (h : node.All Grammatical) : Succeeds (node.outline level) := by
  have hlabel := h.self.succeeds_label
  cases node with
  | absent | ident _ | number _ | string _ =>
    rw [outline]
    exact hlabel.withLabel (.ok _)
  | program statements | block statements =>
    rw [outline]
    exact hlabel.withLabel (succeeds_outlines (level + 1) statements h.2)
  | ifElse condition thenBlock elseBlock =>
    rw [outline]
    have hcondition := succeeds_outline (level + 1) condition h.2.1
    have hthen := succeeds_outline (level + 1) thenBlock h.2.2.1
    have helse := succeeds_outline (level + 1) elseBlock h.2.2.2
    exact hlabel.withLabel ((hcondition.unlessAbsent _).linesThen
      ((hthen.unlessAbsent _).linesThen (helse.unlessAbsent _)))
  | whileLoop left right | comparison _ left right | arith _ left right =>
    rw [outline]
    have hleft := succeeds_outline (level + 1) left h.2.1
    exact hlabel.withLabel (hleft.linesThen (succeeds_outline (level + 1) right h.2.2))
  | declare _ child | function _ _ child | ret child | print child | expression child | assign _ child =>
    rw [outline]
    exact hlabel.withLabel (succeeds_outline (level + 1) child h.2)
  | call _ args =>
    rw [outline]
    exact hlabel.withLabel (succeeds_outlines (level + 1) args h.2)

theorem succeeds_outlines (level : Int) (nodes : List Node) (h : AllOf Grammatical nodes) :
    Succeeds (outlines level nodes) := by
  cases nodes with
  | nil => exact .ok _
  | cons node rest =>
    rw [outlines]
    exact (succeeds_outline level node h.1).linesThen (succeeds_outlines level rest h.2)

end

/-! ## Programs -/

/-- **Every view of a tree is there**: its listing, as instructions and as lines, its record, and its outline from
    any level on. -/
structure Viewable (node : Node) : Prop where
  listing : Succeeds node.listing
  listingLines : Succeeds node.listingLines
  record : Succeeds node.record
  render : ∀ indent, Succeeds (node.render indent)

/-- **A program has every view**, unless it is too deep. -/
theorem IsProgram.viewable {program : Node} (h : IsProgram L program) (hdepth : program.depth ≤ maxDepth) :
    program.Viewable := by
  have hgrammatical := h.all_grammatical
  obtain ⟨statements, rfl, h⟩ := h
  have hlisting : Succeeds (Node.program statements).listing := by
    have hstatements := succeeds_statementListings fun s hmem => (h s hmem).succeeds_listing
    exact @Succeeds.walk _ _ (fun _ => statementListings statements) hdepth hstatements
  exact {
    listing := hlisting
    listingLines := hlisting.map _
    record := Succeeds.walk hdepth (.ok _)
    render := fun indent => Succeeds.walk hdepth ((succeeds_outline indent _ hgrammatical).map _) }

end Node

end LineaLang
