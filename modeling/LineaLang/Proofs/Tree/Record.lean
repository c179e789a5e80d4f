import LineaLang.Tree.Record
import LineaLang.Proofs.Json.CodePoints
import LineaLang.Proofs.Tree.All

/-!
# `LineaLang.Proofs.Tree.Record` — the record of a tree is read as the tree

Every node is written as a record of its own type with a field for each part, so the record of any tree is
read as that tree, also of trees that no source has. The other way round a value need not be the record of
the tree read from it: fields that no node has are passed over, a missing branch is the absent node, and a text
or a dictionary may stand for a list. Writing the tree again puts the value into a normal form, once and for
all. The rest of the module says what the record of a tree looks like as a value: how deep it is nested, and
which properties of the values in a tree carry over to it.

## Contents

* `Node.ofRecord_toRecord` — the round trip.
* `Node.ofRecord_wantedEntries` — the entries of a dictionary that make no difference.
* `Node.normalized`, `Node.normalized_eq_self_iff` — normal forms, which are the records of trees.
* `Node.records_read_back` — reading and writing, in both orders.
* `Node.depth_le_nesting` — the depth of a tree and the nesting of its record.
* `Node.Inherited`, `Node.Inherited.toRecord` — properties that a record has if the values of a tree have them.
-/

namespace LineaLang.Node

/-! ## Reading back -/

mutual

/-- **The record of a tree is read as the tree.** -/
theorem ofRecord_toRecord (node : Node) : ofRecord node.toRecord = .ok node := by
  cases node with
  | absent => rfl
  | program statements | block statements =>
    have h := ofItems_toRecords statements
    simp only [toRecord, recordOf, ofRecord, fieldsOf, ofMembers, h]
    rfl
  | ifElse condition thenBlock elseBlock =>
    have hcondition := ofRecord_toRecord condition
    have hthen := ofRecord_toRecord thenBlock
    have helse := ofRecord_toRecord elseBlock
    simp only [toRecord, recordOf, ofRecord, fieldsOf, hcondition, hthen, helse]
    rfl
  | whileLoop condition body =>
    have hcondition := ofRecord_toRecord condition
    have hbody := ofRecord_toRecord body
    simp only [toRecord, recordOf, ofRecord, fieldsOf, hcondition, hbody]
    rfl
  | declare name expr | assign name expr =>
    have h := ofRecord_toRecord expr
    simp only [toRecord, recordOf, ofRecord, fieldsOf, h]
    rfl
  | ret expr | print expr | expression expr =>
    have h := ofRecord_toRecord expr
    simp only [toRecord, recordOf, ofRecord, fieldsOf, h]
    rfl
  | function name params body =>
    have h := ofRecord_toRecord body
    simp only [toRecord, recordOf, ofRecord, fieldsOf, h]
    rfl
  | comparison op left right =>
    have hleft := ofRecord_toRecord left
    have hright := ofRecord_toRecord right
    simp only [toRecord, recordOf, ofRecord, fieldsOf, hleft, hright]
    cases op <;> rfl
  | arith op left right =>
    have hleft := ofRecord_toRecord left
    have hright := ofRecord_toRecord right
    simp only [toRecord, recordOf, ofRecord, fieldsOf, hleft, hright]
    cases op <;> rfl
  | ident name => rfl
  | number value => rfl
  | string value => rfl
  | call callee args =>
    have h := ofItems_toRecords args
    simp only [toRecord, recordOf, ofRecord, fieldsOf, ofMembers, h]
    rfl

theorem ofItems_toRecords (nodes : List Node) : ofItems (toRecords nodes) = .ok nodes := by
  cases nodes with
  | nil => rfl
  | cons node rest =>
    rw [toRecords, ofItems, ofRecord_toRecord node, ofItems_toRecords rest]
    rfl

end

/-! ## Leniency -/

/-- The names of the fields that nodes have. -/
def fieldNames : List Text :=
  ["type", "statements", "condition", "then_block", "else_block", "body", "name", "init", "params", "expr",
    "target", "op", "left", "right", "value", "callee", "args"]

/-- The entries of a dictionary that some node has a field for. -/
def wantedEntries (entries : List (Text × Value)) : List (Text × Value) :=
  entries.filter fun entry => fieldNames.contains entry.1

/-- A field that nodes have is found among the wanted entries where it is found among all. -/
theorem find_wantedEntries {name : Text} (h : name ∈ fieldNames) (entries : List (Text × Value)) :
    RecordField.find (fieldsOf (wantedEntries entries)) name = RecordField.find (fieldsOf entries) name := by
  induction entries with
  | nil => rfl
  | cons entry rest ih =>
    obtain ⟨key, v⟩ := entry
    unfold RecordField.find wantedEntries at ih ⊢
    by_cases hkey : key ∈ fieldNames
    · by_cases hname : key = name
      · subst hname
        simp [fieldsOf, hkey]
      · simpa [fieldsOf, hkey, hname] using ih
    · have hne : key ≠ name := fun heq => hkey (heq ▸ h)
      simpa [fieldsOf, hkey, hne] using ih

/-- **Fields that no node has are passed over.** -/
theorem ofRecord_wantedEntries (entries : List (Text × Value)) :
    ofRecord (.dict (wantedEntries entries)) = ofRecord (.dict entries) := by
  have hfind : ∀ name ∈ fieldNames, RecordField.find (fieldsOf (wantedEntries entries)) name =
      RecordField.find (fieldsOf entries) name := fun _ h => find_wantedEntries h entries
  simp only [fieldNames, List.forall_mem_cons] at hfind
  simp only [ofRecord, ofFields, hfind]

/-! ## Normal forms -/

/-- The walk that writes a tree yields its record, and only the depth of the tree can stop it. -/
theorem record_eq_ok_iff {node : Node} {r : Value} :
    node.record = .ok r ↔ node.depth ≤ maxDepth ∧ node.toRecord = r := by
  rw [record, walk]
  split
  · next h => rw [Except.ok.injEq, and_iff_right h]
  · next h => simp [h]

/-- **What becomes of a value** when its tree is read and written again. -/
def normalized (v : Value) : Except RecordFault Value :=
  (ofRecord v).map toRecord

@[simp] theorem normalized_toRecord (node : Node) : normalized node.toRecord = .ok node.toRecord := by
  rw [normalized, ofRecord_toRecord]
  rfl

/-- Reading a value yields the tree that its normal form is the record of. -/
theorem normalized_eq_ok_iff {v r : Value} :
    normalized v = .ok r ↔ ∃ node, ofRecord v = .ok node ∧ node.toRecord = r := by
  rw [normalized]
  cases ofRecord v with
  | error fault => simp [Except.map]
  | ok node => simp [Except.map]

/-- **The values that are normal forms are the records of trees.** -/
theorem normalized_eq_self_iff {v : Value} : normalized v = .ok v ↔ ∃ node : Node, node.toRecord = v := by
  constructor
  · intro h
    obtain ⟨node, -, hwritten⟩ := normalized_eq_ok_iff.mp h
    exact ⟨node, hwritten⟩
  · rintro ⟨node, rfl⟩
    exact normalized_toRecord node

/-- **A normal form stays as it is**, and a value without one is refused for the same reason. -/
theorem normalized_bind_normalized (v : Value) : (normalized v).bind normalized = normalized v := by
  cases h : normalized v with
  | error fault => rfl
  | ok r =>
    obtain ⟨node, -, rfl⟩ := normalized_eq_ok_iff.mp h
    exact normalized_toRecord node

/-- Reading the normal form of a value is reading the value. -/
theorem normalized_bind_ofRecord (v : Value) : (normalized v).bind ofRecord = ofRecord v := by
  rw [normalized]
  cases ofRecord v with
  | error fault => rfl
  | ok node => exact ofRecord_toRecord node

/-- **Values are read alike just if they have one normal form**, or are refused for one reason. -/
theorem normalized_eq_iff {v w : Value} : normalized v = normalized w ↔ ofRecord v = ofRecord w := by
  refine ⟨fun h => ?_, fun h => by rw [normalized, normalized, h]⟩
  rw [← normalized_bind_ofRecord v, ← normalized_bind_ofRecord w, h]

/-- A text stands for the list of its code points, the branch that is missing is absent in the normal form, and a
    field that no node has is gone from it. -/
example :
    normalized (.dict [("type", .str "FunctionDeclaration"), ("line", .int 1), ("name", .str "f"),
      ("params", .str "ab"), ("body", .dict [("then_block", .none), ("condition", .none), ("type", .str "If")])]) =
    .ok (.dict [("type", .str "FunctionDeclaration"), ("name", .str "f"),
      ("params", .list [.str "a", .str "b"]), ("body", .dict [("type", .str "If"), ("condition", .none),
        ("then_block", .none), ("else_block", .none)])]) := by
  rfl

/-! ## The shape of records -/

theorem nesting_recordOf (kind : Text) (fields : List (Text × Value)) :
    (recordOf kind fields).nesting = Value.nestingOfEntries fields + 1 := by
  have hkind : (Value.str kind).nesting = 0 := rfl
  rw [recordOf, Value.nesting, Value.nestingOfEntries, hkind, Nat.zero_max]

mutual

/-- **A tree is no deeper than its record is nested**, but for a node without a record. -/
theorem depth_le_nesting (node : Node) : node.depth ≤ node.toRecord.nesting + 1 := by
  cases node with
  | absent => exact Nat.le_refl 1
  | program statements | block statements =>
    have h := maxDepthOf_le_nesting statements
    simp only [depth, toRecord, nesting_recordOf, Value.nestingOfEntries, Value.nesting]
    omega
  | ifElse condition thenBlock elseBlock =>
    have hcondition := depth_le_nesting condition
    have hthen := depth_le_nesting thenBlock
    have helse := depth_le_nesting elseBlock
    simp only [depth, toRecord, nesting_recordOf, Value.nestingOfEntries]
    omega
  | whileLoop left right | comparison _ left right | arith _ left right =>
    have hleft := depth_le_nesting left
    have hright := depth_le_nesting right
    simp only [depth, toRecord, nesting_recordOf, Value.nestingOfEntries]
    omega
  | declare _ expr | assign _ expr | function _ _ expr | ret expr | print expr | expression expr =>
    have h := depth_le_nesting expr
    simp only [depth, toRecord, nesting_recordOf, Value.nestingOfEntries]
    omega
  | ident _ | number _ | string _ =>
    exact Nat.le_add_left 1 _
  | call _ args =>
    have h := maxDepthOf_le_nesting args
    simp only [depth, toRecord, nesting_recordOf, Value.nestingOfEntries, Value.nesting]
    omega

theorem maxDepthOf_le_nesting (nodes : List Node) :
    maxDepthOf nodes ≤ Value.nestingOfItems (toRecords nodes) + 1 := by
  cases nodes with
  | nil => exact Nat.zero_le 1
  | cons node rest =>
    have hfirst := depth_le_nesting node
    have hmore := maxDepthOf_le_nesting rest
    simp only [maxDepthOf, toRecords, Value.nestingOfItems]
    omega

end

/-- **A property that records have if the values in a tree have it.** The names in a record and the kinds of
    nodes and operators are plain texts, and no name comes twice. -/
structure Inherited (p : Value → Prop) : Prop where
  none : p .none
  plain : ∀ text : Text, (∀ c ∈ text, c.isPlain = true) → p (.str text)
  list : ∀ {items}, (∀ v ∈ items, p v) → p (.list items)
  dict : ∀ {entries : List (Text × Value)}, (entries.map Prod.fst).Nodup →
    (∀ name ∈ entries.map Prod.fst, ∀ c ∈ name, c.isPlain = true) → (∀ v ∈ entries.map Prod.snd, p v) →
    p (.dict entries)

section Inheritance

variable {p : Value → Prop}

theorem Inherited.recordOf (hp : Inherited p) {kind : Text} {fields : List (Text × Value)} (names : List Text)
    (hnodup : (Text.ofString "type" :: names).Nodup)
    (hplain : ∀ text ∈ kind :: Text.ofString "type" :: names, ∀ c ∈ text, c.isPlain = true)
    (hnames : fields.map Prod.fst = names) (h : ∀ v ∈ fields.map Prod.snd, p v) :
    p (Node.recordOf kind fields) := by
  -- The type of a record is one more field, with a plain name and a plain text.
  subst hnames
  rw [List.forall_mem_cons] at hplain
  exact hp.dict hnodup hplain.2 (List.forall_mem_cons.mpr ⟨hp.plain kind hplain.1, h⟩)

mutual

theorem Inherited.toRecord (hp : Inherited p) (node : Node) (h : node.All (OwnValues p)) : p node.toRecord := by
  cases node with
  | absent => exact hp.none
  | program statements | block statements =>
    have hstatements := hp.list (Inherited.toRecords hp statements h.2)
    exact hp.recordOf ["statements"] (by decide) (by decide) rfl (by simp [hstatements])
  | ifElse condition thenBlock elseBlock =>
    have hcondition := Inherited.toRecord hp condition h.2.1
    have hthen := Inherited.toRecord hp thenBlock h.2.2.1
    have helse := Inherited.toRecord hp elseBlock h.2.2.2
    exact hp.recordOf ["condition", "then_block", "else_block"] (by decide) (by decide) rfl
      (by simp [hcondition, hthen, helse])
  | whileLoop condition body =>
    have hcondition := Inherited.toRecord hp condition h.2.1
    have hbody := Inherited.toRecord hp body h.2.2
    exact hp.recordOf ["condition", "body"] (by decide) (by decide) rfl (by simp [hcondition, hbody])
  | declare name init =>
    have hname := h.1.1 name List.mem_cons_self
    have hinit := Inherited.toRecord hp init h.2
    exact hp.recordOf ["name", "init"] (by decide) (by decide) rfl (by simp [hname, hinit])
  | function name params body =>
    obtain ⟨hname, hparams⟩ := List.forall_mem_cons.mp h.1.1
    have hlist := hp.list hparams
    have hbody := Inherited.toRecord hp body h.2
    exact hp.recordOf ["name", "params", "body"] (by decide) (by decide) rfl (by simp [hname, hlist, hbody])
  | ret expr | print expr | expression expr =>
    have hexpr := Inherited.toRecord hp expr h.2
    exact hp.recordOf ["expr"] (by decide) (by decide) rfl (by simp [hexpr])
  | assign target expr =>
    have htarget := h.1.1 target List.mem_cons_self
    have hexpr := Inherited.toRecord hp expr h.2
    exact hp.recordOf ["target", "expr"] (by decide) (by decide) rfl (by simp [htarget, hexpr])
  | comparison op left right | arith op left right =>
    have hop := hp.plain op.code (by cases op <;> decide)
    have hleft := Inherited.toRecord hp left h.2.1
    have hright := Inherited.toRecord hp right h.2.2
    exact hp.recordOf ["op", "left", "right"] (by decide) (by decide) rfl (by simp [hop, hleft, hright])
  | ident name =>
    have hname := h.1.1 name List.mem_cons_self
    exact hp.recordOf ["name"] (by decide) (by decide) rfl (by simp [hname])
  | number value | string value =>
    have hvalue := h.1.2 value List.mem_cons_self
    exact hp.recordOf ["value"] (by decide) (by decide) rfl (by simp [hvalue])
  | call callee args =>
    have hcallee := h.1.1 callee List.mem_cons_self
    have hargs := hp.list (Inherited.toRecords hp args h.2)
    exact hp.recordOf ["callee", "args"] (by decide) (by decide) rfl (by simp [hcallee, hargs])

theorem Inherited.toRecords (hp : Inherited p) (nodes : List Node) (h : AllOf (OwnValues p) nodes) :
    ∀ v ∈ toRecords nodes, p v := by
  cases nodes with
  | nil => exact List.forall_mem_nil _
  | cons node rest =>
    exact List.forall_mem_cons.mpr ⟨Inherited.toRecord hp node h.1, Inherited.toRecords hp rest h.2⟩

end

end Inheritance

theorem storableItems_iff {items : List Value} : Value.StorableItems items ↔ ∀ v ∈ items, v.Storable := by
  induction items with
  | nil => simp [Value.StorableItems]
  | cons v rest ih => rw [Value.StorableItems, ih, List.forall_mem_cons]

theorem storableEntries_iff {entries : List (Text × Value)} :
    Value.StorableEntries entries ↔ ∀ v ∈ entries.map Prod.snd, v.Storable := by
  induction entries with
  | nil => simp [Value.StorableEntries]
  | cons entry rest ih => rw [Value.StorableEntries, ih, List.map_cons, List.forall_mem_cons]

/-- **A record is read back if the values in the tree are.** -/
theorem inherited_storable : Inherited Value.Storable where
  none := trivial
  plain _ _ := trivial
  list h := storableItems_iff.mpr h
  dict hnodup _ h := ⟨hnodup, storableEntries_iff.mpr h⟩

theorem mem_textsOfItems {items : List Value} {text : Text} :
    text ∈ Value.textsOfItems items ↔ ∃ v ∈ items, text ∈ v.texts := by
  induction items with
  | nil => simp [Value.textsOfItems]
  | cons v rest ih => simp [Value.textsOfItems, ih]

theorem mem_textsOfEntries {entries : List (Text × Value)} {text : Text} :
    text ∈ Value.textsOfEntries entries ↔
      text ∈ entries.map Prod.fst ∨ ∃ v ∈ entries.map Prod.snd, text ∈ v.texts := by
  induction entries with
  | nil => simp [Value.textsOfEntries]
  | cons entry rest ih =>
    rw [Value.textsOfEntries, List.mem_cons, List.mem_append, ih]
    simp only [List.map_cons, List.mem_cons, exists_eq_or_imp]
    grind

/-- **The texts in a record** have a property of plain texts if those in the tree have it. -/
theorem inherited_texts {q : Text → Prop} (hq : ∀ text : Text, (∀ c ∈ text, c.isPlain = true) → q text) :
    Inherited fun v => ∀ text ∈ v.texts, q text where
  none := List.forall_mem_nil _
  plain text h := List.forall_mem_singleton.mpr (hq text h)
  list h text htext := by
    obtain ⟨v, hv, htext⟩ := mem_textsOfItems.mp htext
    exact h v hv text htext
  dict _ hnames h text htext := by
    rcases mem_textsOfEntries.mp htext with hname | ⟨v, hv, htext⟩
    · exact hq text (hnames text hname)
    · exact h v hv text htext

end LineaLang.Node
