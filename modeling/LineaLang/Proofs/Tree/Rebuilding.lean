import LineaLang.Proofs.Parsing.Trees
import LineaLang.Proofs.Tree.Labels

/-!
# `LineaLang.Proofs.Tree.Rebuilding` — a tree is rebuilt from its outline

An outline says where the children of a node end by indentation only. It is read from its last line to its first.
What has been read are trees side by side, each with its level, that wait for the node above them. A line takes those
in front that stand deeper than it does, and these are its children: whatever comes after them in the outline stands
no deeper than the line itself.

So the view of a program determines the program but for the numbers, of which it has the text.

## Contents

* `Outline.readLine`, `Outline.graft`, `Outline.rebuild` — reading an outline.
* `Node.foldr_preorder` — the lines of a tree are read as the tree.
* `Node.render_faithful` — the view of a program has a line for each node and determines the program.
-/

namespace LineaLang

/-! ## Lines of a text -/

theorem Text.join_eq_intercalate (separator : Text) (pieces : List Text) :
    Text.join separator pieces = separator.intercalate pieces := by
  induction pieces with
  | nil => rfl
  | cons piece rest ih =>
    cases rest with
    | nil => simp [Text.join]
    | cons next rest => rw [Text.join, ih, List.intercalate_cons_cons]

/-- Lines without breaks are found again in their text. -/
theorem Text.splitOn_join {lines : List Text} (hne : lines ≠ []) (h : ∀ line ∈ lines, newline ∉ line) :
    (Text.join "\n" lines).splitOn newline = lines := by
  rw [join_eq_intercalate]
  exact List.splitOn_intercalate newline h hne

namespace Outline

/-! ## Reading an outline -/

/-- The level that a line stands at, and its label. -/
def readLine (line : Text) : Int × Text :=
  (((line.takeWhile fun c => c = blank).length / 2 : Nat), line.dropWhile fun c => c = blank)

/-- **Puts a line in front of the trees that have been read**: those that stand deeper are below it. -/
def graft (line : Int × Text) (trees : List (Int × Node)) : List (Int × Node) :=
  let below := trees.takeWhile fun tree => line.1 < tree.1
  (line.1, ofLabel line.2 (below.map Prod.snd)) :: trees.dropWhile fun tree => line.1 < tree.1

/-- **The tree of an outline**, which is the first one when all lines have been read. -/
def rebuild (text : Text) : Node :=
  match ((text.splitOn Text.newline).map readLine).foldr graft [] with
  | (_, node) :: _ => node
  | [] => .absent

theorem repeated_blanks (count : Nat) : Text.repeated count "  " = List.replicate (count * 2) blank := by
  have hpair : Text.ofString "  " = List.replicate 2 blank := by decide
  rw [Text.repeated, hpair, List.flatten_replicate_replicate]

/-- **The level and the label of a line** are read back. -/
theorem readLine_indented {level : Int} (hlevel : 0 ≤ level) {label : Text} (hhead : label.head? ≠ some blank) :
    readLine (Node.indented level label) = (level, label) := by
  have hblanks : ∀ c ∈ List.replicate (level.toNat * 2) blank, decide (c = blank) = true := fun c hc =>
    decide_eq_true (List.eq_of_mem_replicate hc)
  have htake : label.takeWhile (fun c => c = blank) = [] := by
    cases label with
    | nil => rfl
    | cons c rest => exact List.takeWhile_cons_of_neg fun h => hhead (congrArg some (of_decide_eq_true h))
  have hdrop : label.dropWhile (fun c => c = blank) = label := by
    have hparts := @List.takeWhile_append_dropWhile _ (fun c => decide (c = blank)) label
    rwa [htake, List.nil_append] at hparts
  rw [Node.indented, repeated_blanks, readLine, List.takeWhile_append_of_pos hblanks,
    List.dropWhile_append_of_pos hblanks, htake, hdrop, List.append_nil, List.length_replicate,
    Nat.mul_div_cancel _ (by decide), Int.toNat_of_nonneg hlevel]

variable {level : Int} {trees : List (Int × Node)}

/-- **A line takes the trees that stand deeper.** -/
theorem graft_append {label : Text} {children : List Node} (htrees : ∀ tree ∈ trees.head?, tree.1 ≤ level) :
    graft (level, label) (children.map (fun node => (level + 1, node)) ++ trees) =
      (level, ofLabel label children) :: trees := by
  have hchildren : ∀ tree ∈ children.map (fun node => (level + 1, node)), decide (level < tree.1) = true := by
    intro tree htree
    obtain ⟨node, -, rfl⟩ := List.mem_map.mp htree
    exact decide_eq_true (Int.lt_succ level)
  have hend : trees.takeWhile (fun tree => decide (level < tree.1)) = [] ∧
      trees.dropWhile (fun tree => decide (level < tree.1)) = trees := by
    cases trees with
    | nil => exact ⟨rfl, rfl⟩
    | cons tree rest =>
      have hnot : ¬ decide (level < tree.1) = true := by
        have hle := htrees tree rfl
        simp only [decide_eq_true_eq]
        omega
      exact ⟨List.takeWhile_cons_of_neg hnot, List.dropWhile_cons_of_neg hnot⟩
  simp only [graft, List.takeWhile_append_of_pos hchildren, List.dropWhile_append_of_pos hchildren, hend.1, hend.2,
    List.append_nil, List.map_map, Function.comp_def, List.map_id']

end Outline

namespace Node

open Outline

/-! ## The lines of a program -/

variable {L : Value → Prop} {level : Int} {node : Node}

/-- The label of a node that has one. -/
def legend (node : Node) : Text :=
  match node.label with
  | .ok label => label
  | .error _ => []

theorem IsPart.isLegible_legend (h : IsPart L node) : IsLegible node.legend node := by
  obtain ⟨label, hlabel⟩ := h.exists_label
  have hlegend : node.legend = label := by rw [legend, hlabel.isLabel]
  rwa [hlegend]

theorem IsPart.preorder (h : IsPart L node) : ∀ entry ∈ node.preorder level, level ≤ entry.1 ∧ IsPart L entry.2 :=
  forall_mem_preorder (fun _ h child hchild => h.isPart_parts child (mem_parts_of_mem_children hchild)) h

/-- The lines of trees side by side are read as these trees. -/
theorem foldr_siblings {nodes : List Node}
    (h : ∀ node ∈ nodes, ∀ trees : List (Int × Node), (∀ tree ∈ trees.head?, tree.1 ≤ level) →
      ((node.preorder level).map fun entry => (entry.1, entry.2.legend)).foldr graft trees =
        (level, node.shown) :: trees)
    {trees : List (Int × Node)} (htrees : ∀ tree ∈ trees.head?, tree.1 ≤ level) :
    ((nodes.flatMap (preorder level)).map fun entry => (entry.1, entry.2.legend)).foldr graft trees =
      (nodes.map shown).map (fun node => (level, node)) ++ trees := by
  induction nodes with
  | nil => rfl
  | cons node rest ih =>
    rw [List.forall_mem_cons] at h
    rw [List.flatMap_cons, List.map_append, List.foldr_append, ih h.2, h.1, List.map_cons, List.map_cons,
      List.cons_append]
    cases rest with
    | nil => exact htrees
    | cons next rest => rintro tree ⟨⟩; exact Int.le_refl level

/-- **The lines of a tree are read as the tree**, in front of trees that stand no deeper. -/
theorem foldr_preorder (h : IsPart L node) {trees : List (Int × Node)}
    (htrees : ∀ tree ∈ trees.head?, tree.1 ≤ level) :
    ((node.preorder level).map fun entry => (entry.1, entry.2.legend)).foldr graft trees =
      (level, node.shown) :: trees := by
  induction node using children_induction generalizing level trees with
  | step node ih =>
    have hbelow : ∀ tree ∈ trees.head?, tree.1 ≤ level + 1 := fun tree htree => by
      have hle := htrees tree htree
      omega
    have hchildren := foldr_siblings (fun child hchild trees =>
      @ih child hchild (level + 1) (h.isPart_parts child (mem_parts_of_mem_children hchild)) trees) hbelow
    rw [preorder_eq, List.map_cons, List.foldr_cons, hchildren, graft_append htrees, h.isLegible_legend.read]

/-! ## The view of a program -/

theorem mapM_line {entries : List (Int × Node)} (h : ∀ entry ∈ entries, IsPart L entry.2) :
    entries.mapM line = .ok (entries.map fun entry => indented entry.1 entry.2.legend) := by
  induction entries with
  | nil => rfl
  | cons entry rest ih =>
    rw [List.forall_mem_cons] at h
    rw [List.mapM_cons, ih h.2, line, h.1.isLegible_legend.isLabel]
    rfl

theorem outline_eq_of_render {text : Text} (h : node.render level = .ok text) :
    ∃ lines, node.outline level = .ok lines ∧ text = Text.join "\n" lines := by
  have hjoined : (node.outline level).map (Text.join "\n") = .ok text := by
    unfold render walk at h
    split at h
    · exact h
    · cases h
  cases hlines : node.outline level with
  | error fault =>
    rw [hlines] at hjoined
    cases hjoined
  | ok lines =>
    rw [hlines] at hjoined
    cases hjoined
    exact ⟨lines, rfl, rfl⟩

theorem IsLegible.newline_notMem_indented {label : Text} (h : IsLegible label node) (level : Int) :
    Text.newline ∉ indented level label := by
  rw [indented, repeated_blanks]
  refine List.not_mem_append (fun hmem => ?_) h.oneLine
  exact absurd (List.eq_of_mem_replicate hmem) (by decide)

/-- **The view has one line for each node**, and no node has more. -/
theorem IsPart.splitOn_render {text : Text} (h : IsPart L node) (htext : node.render level = .ok text) :
    text.splitOn Text.newline = (node.preorder level).map fun entry => indented entry.1 entry.2.legend := by
  have hparts : ∀ entry ∈ node.preorder level, IsPart L entry.2 := fun entry hentry => (h.preorder entry hentry).2
  obtain ⟨lines, hlines, rfl⟩ := outline_eq_of_render htext
  rw [outline_eq_mapM, mapM_line hparts] at hlines
  cases hlines
  refine Text.splitOn_join ?_ ?_
  · rw [preorder_eq]
    exact List.cons_ne_nil _ _
  · rintro _ hline
    obtain ⟨entry, hentry, rfl⟩ := List.mem_map.mp hline
    exact (hparts entry hentry).isLegible_legend.newline_notMem_indented entry.1

/-- **The tree is rebuilt from its view.** -/
theorem IsPart.rebuild_render {text : Text} (h : IsPart L node) (hlevel : 0 ≤ level)
    (htext : node.render level = .ok text) : Outline.rebuild text = node.shown := by
  have hread : ((node.preorder level).map fun entry => indented entry.1 entry.2.legend).map readLine =
      (node.preorder level).map fun entry => (entry.1, entry.2.legend) := by
    rw [List.map_map]
    refine List.map_congr_left fun entry hentry => ?_
    obtain ⟨hle, hpart⟩ := h.preorder entry hentry
    exact readLine_indented (Int.le_trans hlevel hle) hpart.isLegible_legend.head
  rw [Outline.rebuild, h.splitOn_render htext, hread, foldr_preorder h (by simp)]

/-- **The view of a program is faithful.** Split at line feeds it has one line for each node, in the order of a walk
    from the top, with two blanks for each level. The program is rebuilt from the labels and the indentation of these
    lines, its numbers as they are shown. So programs have the same view exactly if they are the same but for numbers
    that are shown alike. -/
theorem render_faithful [CharacterNames] {source : Text} {program : Node} {indent : Int} {text : Text}
    (hsource : Node.ofSource source = .ok program) (hindent : 0 ≤ indent) (htext : program.render indent = .ok text) :
    (program.preorder indent).mapM line = .ok (text.splitOn Text.newline) ∧
      Outline.rebuild text = program.shown ∧
        ∀ source' program', Node.ofSource source' = .ok program' →
          (program'.render indent = .ok text ↔ program'.shown = program.shown) := by
  have hpart : ∀ {source program}, Node.ofSource source = .ok program → IsPart Value.Any program := by
    intro source program h
    obtain ⟨tokens, hscan, hread⟩ := tokens_of_source h
    exact .program (isProgram_of_tokens (Token.wellSpelled_of_scan hscan) hread)
  have hrebuilt := (hpart hsource).rebuild_render hindent htext
  refine ⟨?_, hrebuilt, fun source' program' hsource' => ⟨fun htext' => ?_, fun hshown => ?_⟩⟩
  · rw [(hpart hsource).splitOn_render htext]
    exact mapM_line fun entry hentry => ((hpart hsource).preorder entry hentry).2
  · exact ((hpart hsource').rebuild_render hindent htext').symm.trans hrebuilt
  · rw [← render_shown, hshown, render_shown]
    exact htext

-- No character is called by its name from here on.
attribute [local instance] CharacterNames.unnamed

/-- The view of `print("\n");`: the line break of the string does not break its line. -/
theorem render_faithful_lineBreak :
    Node.ofSource "print(\"\\n\");" = .ok (.program [.print (.string (.str "\n"))]) ∧
      ∃ text, (Node.program [.print (.string (.str "\n"))]).render 0 = .ok text ∧
        text.splitOn Text.newline = ["Program", "  PrintStatement", "    StringLiteral '\\n'"] ∧
        ((Node.program [.print (.string (.str "\n"))]).preorder 0).mapM line = .ok (text.splitOn Text.newline) ∧
        Outline.rebuild text = .program [.print (.string (.str "\n"))] := by
  have hscan : Token.scan "print(\"\\n\");" = .ok [⟨.printWord, "print", ⟨1, 1, 0⟩⟩, ⟨.lparen, "(", ⟨1, 6, 5⟩⟩,
      ⟨.string, "\"\\n\"", ⟨1, 7, 6⟩⟩, ⟨.rparen, ")", ⟨1, 11, 10⟩⟩, ⟨.semi, ";", ⟨1, 12, 11⟩⟩] := rfl
  have hsource : Node.ofSource "print(\"\\n\");" = .ok (.program [.print (.string (.str "\n"))]) := by
    rw [ofSource_of_scan hscan]
    rfl
  have htext : (Node.program [.print (.string (.str "\n"))]).render 0 =
      .ok (Text.join "\n" ["Program", "  PrintStatement", "    StringLiteral '\\n'"]) := rfl
  obtain ⟨hlines, hrebuilt, -⟩ := render_faithful hsource (Int.le_refl 0) htext
  exact ⟨hsource, _, htext, by decide, hlines, hrebuilt⟩

end Node

end LineaLang
