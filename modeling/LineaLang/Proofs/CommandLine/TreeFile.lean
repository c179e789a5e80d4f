import LineaLang.CommandLine.Perform
import LineaLang.Proofs.CommandLine.Path
import LineaLang.Proofs.Parsing.Trees
import LineaLang.Proofs.Text.Utf8
import LineaLang.Proofs.Tree.Record

/-!
# `LineaLang.Proofs.CommandLine.TreeFile` — a program runs from its file as from its source

The tree of a source is written as a record, the record as a text and the text as octets, and each of these is
undone when the file is read. What the grammar puts in a tree meets the conditions of all of them: names are
words, number literals are numerals that can be read, and strings are texts. Only a string with a surrogate,
which no file takes, and a tree that is nested too deep for the reader are beyond this.

## Contents

* `Node.ownValues_storable`, `Node.ownValues_surrogateFree` — what a file takes of the nodes of a source.
* `programOfFile_write` — the file of a program holds the program.
* `Lookup.after` — the entries once the files of an outcome have been written.
* `treeFile_runs_as_source` — a run of the file of a program is a run of its source.
-/

namespace LineaLang

/-! ## Records of sources -/

namespace Node

variable {node : Node}

theorem storable_of_isName {v : Value} (h : v.IsName) : v.Storable := by
  cases v with
  | str _ => trivial
  | none | bool _ | int _ | float _ | list _ | dict _ => cases h

theorem surrogateFree_of_isName {v : Value} (h : v.IsName) : ∀ text ∈ v.texts, text.SurrogateFree := by
  cases v with
  | str word => exact List.forall_mem_singleton.mpr (surrogateFree_of_wordLexeme h)
  | none | bool _ | int _ | float _ | list _ | dict _ => cases h

theorem storable_of_isLiteralNumber {v : Value} (h : v.IsLiteralNumber) : v.Storable := by
  cases v with
  | int _ => exact h
  | float _ => trivial
  | none | bool _ | str _ | list _ | dict _ => cases h

theorem isName_ownNames (h : node.Grammatical) : ∀ v ∈ node.ownNames, v.IsName := by
  cases node with
  | declare name _ | assign name _ | ident name | call name _ => exact List.forall_mem_singleton.mpr h
  | function name params _ => exact List.forall_mem_cons.mpr h
  | _ => exact List.forall_mem_nil _

/-- The values of a node that the grammar yields are read back. -/
theorem ownValues_storable (h : node.Grammatical) : node.OwnValues Value.Storable := by
  refine ⟨?_, ?_⟩
  · intro v hv
    exact storable_of_isName (isName_ownNames h v hv)
  cases node with
  | number value => exact List.forall_mem_singleton.mpr (storable_of_isLiteralNumber h)
  | string value =>
    cases value with
    | str text => exact List.forall_mem_singleton.mpr trivial
    | none | bool _ | int _ | float _ | list _ | dict _ => cases h
  | _ => exact List.forall_mem_nil _

/-- Files take the texts of a node that the grammar yields, if they take its string. -/
theorem ownValues_surrogateFree (h : node.Grammatical) (hs : node.SurrogateFree) :
    node.OwnValues fun v => ∀ text ∈ v.texts, text.SurrogateFree := by
  refine ⟨?_, ?_⟩
  · intro v hv
    exact surrogateFree_of_isName (isName_ownNames h v hv)
  cases node with
  | number value =>
    refine List.forall_mem_singleton.mpr ?_
    cases value with
    | int _ | float _ => exact List.forall_mem_nil _
    | none | bool _ | str _ | list _ | dict _ => cases h
  | string value =>
    refine List.forall_mem_singleton.mpr ?_
    cases value with
    | str text => exact List.forall_mem_singleton.mpr hs
    | none | bool _ | int _ | float _ | list _ | dict _ => cases h
  | _ => exact List.forall_mem_nil _

end Node

namespace CommandLine

section Written

variable {program : Node} (hg : program.All Node.Grammatical) (hs : program.All Node.SurrogateFree)
include hg hs

/-- The record of such a tree holds nothing that is not read back -/
theorem storable_record : program.toRecord.Storable :=
  Node.inherited_storable.toRecord program (Node.All.imp (fun _ h _ => Node.ownValues_storable h) program hg hs)

theorem surrogateFree_write : Text.SurrogateFree (Json.write program.toRecord) := by
  have hplain : ∀ text : Text, (∀ c ∈ text, c.isPlain = true) → text.SurrogateFree := by
    intro text h c hc
    exact isSurrogate_of_isPlain (h c hc)
  have htexts := (Node.inherited_texts hplain).toRecord program
    (Node.All.imp (fun _ => Node.ownValues_surrogateFree) program hg hs)
  intro c hc
  rcases Json.made_write program.toRecord c hc with h | ⟨-, text, htext, h⟩
  · exact isSurrogate_of_isPlain h
  · exact htexts text htext c h

end Written

/-- A written value has no carriage return. -/
theorem not_mem_write (v : Value) : CodePoint.ofChar '\r' ∉ Json.write v := by
  intro hmem
  rcases Json.made_write v _ hmem with h | ⟨h, -⟩
  · exact absurd h (by decide)
  · exact absurd h (by decide)

/-- **The text of a written value is read from its octets.** -/
theorem textOf_write {v : Value} (h : Text.SurrogateFree (Json.write v)) :
    textOf (Utf8.encode (Json.write v)) = .ok (Json.write v) := by
  rw [textOf, Utf8.decode_encode h]
  show Except.ok (Json.write v).unifyLines = _
  rw [Text.unifyLines_eq_self (not_mem_write v)]

/-- **The file of a program holds the program**, whatever nodes stand in its places, if its names and literals are as
    the grammar yields them. -/
theorem programOfFile_record {statements : List Node} (hg : (Node.program statements).All Node.Grammatical)
    (hs : (Node.program statements).All Node.SurrogateFree)
    (hnesting : (Node.program statements).toRecord.nesting ≤ Json.maxNesting) :
    programOfFile (Utf8.encode (Json.write (Node.program statements).toRecord)) = .ok (.program statements) := by
  -- The layers are taken off from the outside: octets, text, record.
  rw [programOfFile, textOf_write (surrogateFree_write hg hs)]
  have hread := Json.read_write (storable_record hg hs) hnesting
  have hrecord : Node.programOfRecord (Node.program statements).toRecord = .ok (.program statements) := by
    rw [Node.programOfRecord, Node.ofRecord_toRecord]
    rfl
  show ((Json.read (Json.write (Node.program statements).toRecord)).mapError TreeFileError.json >>=
    fun value => (Node.programOfRecord value).mapError .record) = .ok (.program statements)
  rw [hread]
  show (Node.programOfRecord (Node.program statements).toRecord).mapError TreeFileError.record = _
  rw [hrecord]
  rfl

/-- The file of a source's program holds the program. -/
theorem programOfFile_write [CharacterNames] {source : Text} {program : Node} (h : Node.ofSource source = .ok program)
    (hs : program.All Node.SurrogateFree) (hnesting : program.toRecord.nesting ≤ Json.maxNesting) :
    programOfFile (Utf8.encode (Json.write program.toRecord)) = .ok program := by
  obtain ⟨⟨statements, rfl⟩, hg⟩ := Node.all_grammatical_of_source h
  exact programOfFile_record hg hs hnesting

/-! ## Running from the file -/

/-- **The entries after an outcome**, with the files that were written. -/
def Lookup.after (find : Lookup) (o : Outcome) : Lookup := fun path =>
  match o.written.find? fun file => file.1 = path with
  | some file => .file (Utf8.encode file.2)
  | none => find path

section Entries

variable {find : Lookup} {o : Outcome} {path text : Text} (h : o.written = [(path, text)])
include h

/-- The one file that was written is there. -/
theorem Lookup.after_self : find.after o path = .file (Utf8.encode text) := by
  rw [after, h]
  simp only [List.find?_cons, decide_true]

/-- The other entries are as before. -/
theorem Lookup.after_of_ne {other : Text} (hne : path ≠ other) : find.after o other = find other := by
  rw [after, h]
  simp only [List.find?_cons, decide_eq_false hne, List.find?_nil]

end Entries

/-- The log is no tree file. -/
theorem withEnding_ne_logPath (path : Text) : Path.withEnding path treeEnding ≠ logPath := by
  intro heq
  have hlast := congrArg List.getLast? heq
  have hending : treeEnding.getLast? = some (CodePoint.ofChar 'n') := by decide
  rw [Path.withEnding, List.getLast?_append, hending, Option.some_or] at hlast
  exact absurd hlast (by decide)

/-- A run looks at no entry but that of the log. -/
theorem runTree_congr {find find' : Lookup} (h : find' logPath = find logPath) (console : Console) (verbosity : Nat)
    (program : Node) : runTree find' console verbosity program = runTree find console verbosity program := by
  simp only [runTree, withTarget, h]

section Files

variable [CharacterNames] {source : Text} {program : Node} {find : Lookup} {path : Text} {octets : List UInt8}

theorem withTree_eq (h : Node.ofSource source = .ok program) (hfile : find (Path.plain path) = .file octets)
    (htext : textOf octets = .ok source) (next : Node → Outcome) : withTree find path next = next program := by
  simp only [withTree, withText, withOctets, hfile, htext, h]

/-- **What the file of a program gets** is all that is written for its record. The console is for the path of the file
    only. -/
theorem performEmit_eq (h : Node.ofSource source = .ok program) (hs : program.All Node.SurrogateFree)
    (hnesting : program.toRecord.nesting ≤ Json.maxNesting) (hfile : find (Path.plain path) = .file octets)
    (htext : textOf octets = .ok source)
    (htarget : ∀ fault, find (Path.withEnding path treeEnding) ≠ .faulty fault) (console : Console) :
    performEmit find console path = { Outcome.lines console [Path.withEnding path treeEnding] with
      written := [(Path.withEnding path treeEnding, Json.write program.toRecord)] } := by
  have hg := (Node.all_grammatical_of_source h).2
  -- What can be read back can be walked, so the record is written at all.
  have hdepth : program.depth ≤ Node.maxDepth := by
    have hdeep := program.depth_le_nesting
    have hroom : Json.maxNesting + 1 ≤ Node.maxDepth := by decide
    omega
  have hpieces : Utf8.takePieces (Json.pieces program.toRecord) = (Json.write program.toRecord, none) :=
    Utf8.takePieces_eq (surrogateFree_write hg hs)
  rw [performEmit, withTree_eq h hfile htext, Node.record, Node.walk, if_pos hdepth]
  simp only [Outcome.ofWalk, emitRecord, hpieces]
  rw [withTarget]
  split
  · rename_i fault hfault
    exact absurd hfault (htarget fault)
  · rfl

/-- **A program runs from its file as from its source.** What is written for the tree of a source is read as
    just that tree, if files take its strings and it is not nested too deep to be read. So once it has been
    written to a file beside the source, a run of that file comes to the same outcome as a run of the source, whatever
    the console takes: the same output and errors, the same log, and the same end. -/
theorem treeFile_runs_as_source (h : Node.ofSource source = .ok program) (hs : program.All Node.SurrogateFree)
    (hnesting : program.toRecord.nesting ≤ Json.maxNesting) :
    programOfFile (Utf8.encode (Json.write program.toRecord)) = .ok program ∧
    ∀ (find : Lookup) (path : Text) (octets : List UInt8), find (Path.plain path) = .file octets →
      textOf octets = .ok source →
      (∀ fault, find (Path.withEnding path treeEnding) ≠ .faulty fault) →
      ∀ console noise verbosity,
        Request.perform find console ⟨noise, some .emitTree, path⟩ =
          { Outcome.lines console [Path.withEnding path treeEnding] with
            written := [(Path.withEnding path treeEnding, Json.write program.toRecord)] } ∧
        Request.perform (find.after (Request.perform find console ⟨noise, some .emitTree, path⟩)) console
            ⟨verbosity, some .runTree, Path.withEnding path treeEnding⟩ =
          Request.perform find console ⟨verbosity, none, path⟩ := by
  have hread := programOfFile_write h hs hnesting
  refine ⟨hread, ?_⟩
  intro find path octets hfile htext htarget console noise verbosity
  have hemit := performEmit_eq h hs hnesting hfile htext htarget console
  have hplain : Path.plain (Path.withEnding path treeEnding) = Path.withEnding path treeEnding :=
    Path.plain_withEnding path (by decide) (by decide)
  refine ⟨hemit, ?_⟩
  show performTree (find.after (performEmit find console path)) console verbosity (Path.withEnding path treeEnding) =
    performRun find console verbosity path
  -- Of the entries that a run looks at, writing has changed the tree file and nothing else.
  have hwritten : (performEmit find console path).written =
      [(Path.withEnding path treeEnding, Json.write program.toRecord)] := by
    rw [hemit]
  have hlog : find.after (performEmit find console path) logPath = find logPath :=
    Lookup.after_of_ne hwritten (withEnding_ne_logPath path)
  rw [performTree, withOctets, hplain, Lookup.after_self hwritten]
  simp only [hread]
  rw [performRun, withTree_eq h hfile htext, runTree_congr hlog]

end Files

-- No character is called by its name from here on.
attribute [local instance] CharacterNames.unnamed

/-- A program that prints a carriage return, which no tree file has as it is. -/
def carriage : Text := "print(\"\\r\");"

/-- The file of a source, and no other entry. -/
def onlyCarriage : Lookup := fun path => if path = "carriage.linea" then .file (Utf8.encode carriage) else .absent

/-- **A carriage return is printed from the file** of a program as from its source. -/
theorem carriage_runs_as_source :
    Request.perform (onlyCarriage.after (Request.perform onlyCarriage .octets ⟨0, some .emitTree, "carriage.linea"⟩))
        .octets ⟨0, some .runTree, "carriage.linea.ast.json"⟩ =
      Request.perform onlyCarriage .octets ⟨0, none, "carriage.linea"⟩ := by
  have hscan : Token.scan carriage = .ok [⟨.printWord, "print", ⟨1, 1, 0⟩⟩, ⟨.lparen, "(", ⟨1, 6, 5⟩⟩,
      ⟨.string, "\"\\r\"", ⟨1, 7, 6⟩⟩, ⟨.rparen, ")", ⟨1, 11, 10⟩⟩, ⟨.semi, ";", ⟨1, 12, 11⟩⟩] := rfl
  have hsource : Node.ofSource carriage = .ok (.program [.print (.string (.str [CodePoint.ofChar '\r']))]) := by
    rw [Node.ofSource, hscan]
    rfl
  have hs : Node.All Node.SurrogateFree (.program [.print (.string (.str [CodePoint.ofChar '\r']))]) := by
    simp only [Node.All, Node.AllOf, Node.SurrogateFree, Text.SurrogateFree]
    decide
  have htext : textOf (Utf8.encode carriage) = .ok carriage := by rfl
  have htarget : ∀ fault, onlyCarriage (Path.withEnding "carriage.linea" treeEnding) ≠ .faulty fault := by
    intro fault h
    cases h
  exact ((treeFile_runs_as_source hsource hs (by decide)).2 onlyCarriage "carriage.linea" _ rfl htext htarget
    .octets 0 0).2

end CommandLine

end LineaLang
