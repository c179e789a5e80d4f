import LineaLang.Proofs.Json.Scalar

/-!
# `LineaLang.Proofs.Json.RoundTrip` — a value is read back from its text

What is written for a value is read as that value, whatever follows it, as long as that does not go on with
a number. A list is a loop over its items and a dictionary one over its members; `Loop` says what the two have
in common, and that is all that reading parts between brackets needs. Indentation is blanks, which reading
passes over, and a value starts with no blank and no closing bracket, so the reader sees where parts begin.

Integers beyond the limit of digits and names that come twice are written but not read back, which
`Value.Storable` rules out; and nesting must leave room for all that is open at once.

## Contents

* `Value.nesting`, `Value.Storable` — how deep a value is, and when it is read back.
* `Json.Reads` — a reader takes a text for something.
* `Json.Loop` — loops over parts between brackets.
* `Json.reads_value`, `Json.read_write` — the round trip.
-/

namespace LineaLang

namespace Value

mutual

/-- **How many lists and dictionaries are open at once** in a value, at most. -/
def nesting : Value → Nat
  | .list items => nestingOfItems items + 1
  | .dict entries => nestingOfEntries entries + 1
  | _ => 0

def nestingOfItems : List Value → Nat
  | [] => 0
  | v :: rest => max v.nesting (nestingOfItems rest)

def nestingOfEntries : List (Text × Value) → Nat
  | [] => 0
  | (_, v) :: rest => max v.nesting (nestingOfEntries rest)

end

mutual

/-- **A value that is read back as it was written**: its integers are short enough, and no name comes twice
    in a dictionary. -/
def Storable : Value → Prop
  | .int n => (Numeral.ofNat n.natAbs).length ≤ Numeral.limit
  | .list items => StorableItems items
  | .dict entries => (entries.map Prod.fst).Nodup ∧ StorableEntries entries
  | _ => True

def StorableItems : List Value → Prop
  | [] => True
  | v :: rest => v.Storable ∧ StorableItems rest

def StorableEntries : List (Text × Value) → Prop
  | [] => True
  | (_, v) :: rest => v.Storable ∧ StorableEntries rest

end

theorem putEntry_append {name : Text} {v : Value} {entries : List (Text × Value)}
    (h : name ∉ entries.map Prod.fst) : putEntry name v entries = entries ++ [(name, v)] := by
  induction entries with
  | nil => rfl
  | cons entry rest ih =>
    rw [List.map_cons, List.mem_cons, not_or] at h
    rw [putEntry, if_neg (Ne.symm h.1), ih h.2, List.cons_append]

/-- **Entries without repeated names** make up the dictionary that has them. -/
theorem ofEntries_eq {entries : List (Text × Value)} (h : (entries.map Prod.fst).Nodup) :
    ofEntries entries = .dict entries := by
  -- The fold adds to what is there already, so the induction is over every start.
  have hfold : ∀ before : List (Text × Value), ((before ++ entries).map Prod.fst).Nodup →
      entries.foldl (fun acc entry => putEntry entry.1 entry.2 acc) before = before ++ entries := by
    clear h
    induction entries with
    | nil =>
      intro before _
      exact (List.append_nil before).symm
    | cons entry rest ih =>
      intro before hnodup
      have hnew : entry.1 ∉ before.map Prod.fst := by
        rw [List.map_append, List.map_cons, List.nodup_append] at hnodup
        intro hmem
        exact hnodup.2.2 _ hmem _ List.mem_cons_self rfl
      have hbefore : before ++ entry :: rest = (before ++ [entry]) ++ rest := by simp
      rw [List.foldl_cons, putEntry_append hnew, ih _ (hbefore ▸ hnodup), hbefore]
  rw [ofEntries, hfold [] h, List.nil_append]

end Value

namespace Json

/-! ## Blanks -/

theorem skipBlanks_cons {c : CodePoint} (h : isBlank c = false) (rest : Text) :
    skipBlanks (c :: rest) = c :: rest := by
  rw [skipBlanks, List.dropWhile_cons_of_neg (by simp [h])]

theorem skipBlanks_lineBreak (level : Nat) (text : Text) :
    skipBlanks (lineBreak level ++ text) = skipBlanks text := by
  have hblank : ∀ c ∈ lineBreak level, isBlank c = true := by
    intro c hc
    simp only [lineBreak, List.mem_cons, Text.repeated, List.mem_flatten, List.mem_replicate] at hc
    rcases hc with rfl | ⟨_, ⟨-, rfl⟩, hc⟩
    · decide
    · have hspaces : ∀ c ∈ Text.ofString "  ", isBlank c = true := by decide
      exact hspaces c hc
  rw [skipBlanks, skipBlanks, List.dropWhile_append_of_pos hblank]

/-! ## First code points -/

/-- A value that is no string and has no parts starts with a digit, a letter or a minus. -/
def startsScalar (c : CodePoint) : Bool := c.isAsciiDigit || c.isLetter || c = CodePoint.ofChar '-'

/-- **What a value starts with.** -/
def startsValue (c : CodePoint) : Bool :=
  startsScalar c || c = CodePoint.ofChar '"' || c = CodePoint.ofChar '[' || c = CodePoint.ofChar '\x7b'

theorem startsValue_of_startsScalar {c : CodePoint} (h : startsScalar c = true) : startsValue c = true := by
  rw [startsValue, h]
  rfl

/-- Two code points differ if a test tells them apart. -/
theorem ne_of_test {test : CodePoint → Bool} {c other : CodePoint} (h : test c = true)
    (ho : test other = false) : c ≠ other := by
  rintro rfl
  rw [h] at ho
  cases ho

theorem isBlank_of_startsValue {c : CodePoint} (h : startsValue c = true) : isBlank c = false := by
  have hval : ∀ n, startsValue (CodePoint.ofNat n) = false → c.val ≠ n := by
    rintro _ hn rfl
    exact ne_of_test h hn (CodePoint.ofNat_val c).symm
  simp [isBlank, hval 0x20 (by decide), hval 0x09 (by decide), hval 0x0A (by decide), hval 0x0D (by decide)]

/-! ## Readers and texts -/

/-- **May a text stand after a value?** -/
def EndsValue (rest : Text) : Prop := ∀ c ∈ rest.head?, c = CodePoint.ofChar ',' ∨ c = Text.newline

theorem EndsValue.endsNumber {rest : Text} (h : EndsValue rest) : EndsNumber rest := by
  intro c hc
  rcases h c hc with rfl | rfl <;> decide

/-- **A reader takes a text for something**, whatever may stand after it. -/
structure Reads {α : Type} (reader : Reader α) (text : Text) (a : α) : Prop where
  takes : ∀ {rest}, EndsValue rest → reader (text ++ rest) = .ok (a, rest)
  head : ∃ c ∈ text.head?, startsValue c = true

theorem Reads.exists_cons {α : Type} {reader : Reader α} {text : Text} {a : α} (h : Reads reader text a) :
    ∃ c rest, text = c :: rest ∧ startsValue c = true := by
  obtain ⟨c, hc, hstart⟩ := h.head
  obtain ⟨rest, htext⟩ := List.head?_eq_some_iff.mp hc
  exact ⟨c, rest, htext, hstart⟩

theorem Reads.skipBlanks {α : Type} {reader : Reader α} {text : Text} {a : α} (h : Reads reader text a)
    (rest : Text) : skipBlanks (text ++ rest) = text ++ rest := by
  obtain ⟨c, more, rfl, hstart⟩ := h.exists_cons
  exact skipBlanks_cons (isBlank_of_startsValue hstart) (more ++ rest)

theorem Reads.ne_nil {α : Type} {reader : Reader α} {text : Text} {a : α} (h : Reads reader text a) : text ≠ [] := by
  obtain ⟨c, rest, rfl, -⟩ := h.exists_cons
  exact List.cons_ne_nil c rest

/-- The pieces of parts with a separator between them, as one text. -/
theorem flatten_intercalate (separator : Text) (parts : List (List Text)) :
    (List.intercalate [separator] parts).flatten = Text.join separator (parts.map List.flatten) := by
  induction parts with
  | nil => rfl
  | cons part rest ih =>
    cases rest with
    | nil => simp [List.intercalate, Text.join]
    | cons next rest =>
      have hstep : List.intercalate [separator] (part :: next :: rest) =
          part ++ ([separator] ++ List.intercalate [separator] (next :: rest)) := by
        simp [List.intercalate, List.intersperse]
      rw [hstep, List.flatten_append, List.flatten_append, ih]
      simp [Text.join]

theorem exists_join_cons (separator first : Text) (more : List Text) :
    ∃ rest, Text.join separator (first :: more) = first ++ rest := by
  cases more with
  | nil => exact ⟨[], (List.append_nil first).symm⟩
  | cons next more => exact ⟨separator ++ Text.join separator (next :: more), by rw [Text.join, List.append_assoc]⟩

/-- Joined parts start as the first of them does. -/
theorem Reads.skipBlanks_join {α : Type} {reader : Reader α} {text : Text} {a : α} (h : Reads reader text a)
    (separator : Text) (texts : List Text) (rest : Text) :
    Json.skipBlanks (Text.join separator (text :: texts) ++ rest) = Text.join separator (text :: texts) ++ rest := by
  obtain ⟨more, hmore⟩ := exists_join_cons separator text texts
  rw [hmore, List.append_assoc, h.skipBlanks]

/-- **A loop over parts** with commas between them, up to a closing mark. -/
structure Loop {α : Type} (item : Reader α) (loop : Text → Reader (List α)) (closing : CodePoint) : Prop where
  last : ∀ {b bound text a rest more}, item text = .ok (a, rest) → Json.skipBlanks rest = closing :: more →
    loop (b :: bound) text = .ok ([a], more)
  next : ∀ {b bound text a rest more as left}, item text = .ok (a, rest) →
    Json.skipBlanks rest = CodePoint.ofChar ',' :: more → loop bound (Json.skipBlanks more) = .ok (as, left) →
    loop (b :: bound) text = .ok (a :: as, left)

section Loops

variable {α : Type} {item : Reader α} {loop : Text → Reader (List α)} {closing : CodePoint}

/-- **Parts on lines of their own are all taken**, and then the closing mark. -/
theorem Loop.takes (h : Loop item loop closing) (hclosing : isBlank closing = false) {text : α → Text}
    {items : List α} (hall : ∀ a ∈ items, Reads item (text a) a) (hne : items ≠ []) (bound : Text)
    (hbound : items.length ≤ bound.length) (level outer : Nat) (rest : Text) :
    loop bound (Text.join (Text.ofString "," ++ lineBreak level) (items.map text)
      ++ (lineBreak outer ++ closing :: rest)) = .ok (items, rest) := by
  induction items generalizing bound with
  | nil => exact absurd rfl hne
  | cons a items ih =>
    -- Each part uses up one code point of the bound.
    obtain ⟨b, bound, rfl⟩ := List.exists_cons_of_length_pos (Nat.lt_of_lt_of_le (Nat.succ_pos _) hbound)
    rw [List.forall_mem_cons] at hall
    cases items with
    | nil =>
      refine h.last (hall.1.takes fun c hc => .inr (Option.some.inj hc).symm) ?_
      rw [skipBlanks_lineBreak, skipBlanks_cons hclosing]
    | cons a' items =>
      have hmore := ih hall.2 (List.cons_ne_nil a' items) bound (Nat.le_of_succ_le_succ hbound)
      have hjoin : Text.join (Text.ofString "," ++ lineBreak level) ((a :: a' :: items).map text)
          ++ (lineBreak outer ++ closing :: rest) = text a ++ (CodePoint.ofChar ',' :: (lineBreak level ++
            (Text.join (Text.ofString "," ++ lineBreak level) ((a' :: items).map text)
              ++ (lineBreak outer ++ closing :: rest)))) := by
        have hcomma : Text.ofString "," = [CodePoint.ofChar ','] := by decide
        simp [Text.join, hcomma]
      have hfirst := hall.2 a' List.mem_cons_self
      rw [hjoin]
      refine h.next (hall.1.takes fun c hc => .inl (Option.some.inj hc).symm) (skipBlanks_cons (by decide) _) ?_
      rw [skipBlanks_lineBreak, List.map_cons, hfirst.skipBlanks_join]
      exact hmore

/-- There are no more parts than code points in them. -/
theorem length_le_join {text : α → Text} {items : List α} (h : ∀ a ∈ items, text a ≠ []) (separator : Text) :
    items.length ≤ (Text.join separator (items.map text)).length := by
  induction items with
  | nil => exact Nat.zero_le _
  | cons a items ih =>
    rw [List.forall_mem_cons] at h
    have hfirst := List.length_pos_iff.mpr h.1
    have hmore := ih h.2
    cases items with
    | nil => exact hfirst
    | cons a' items =>
      simp only [List.map_cons, Text.join, List.length_append, List.length_cons] at hmore ⊢
      omega

/-- **What stands between brackets is read by a loop**, and does not look like the closing one. -/
theorem Loop.body (h : Loop item loop closing) (hclosing : isBlank closing = false) {text : α → Text}
    {items : List α} (hall : ∀ a ∈ items, Reads item (text a) a) (hne : items ≠ []) (level outer : Nat)
    (rest : Text) :
    ∃ c more, startsValue c = true ∧
      skipBlanks (lineBreak level ++ (Text.join (Text.ofString "," ++ lineBreak level) (items.map text)
        ++ (lineBreak outer ++ closing :: rest))) = c :: more ∧
      loop (c :: more) (c :: more) = .ok (items, rest) := by
  obtain ⟨first, others, rfl⟩ := List.exists_cons_of_ne_nil hne
  have hfirst := hall first List.mem_cons_self
  obtain ⟨c, front, htext, hstart⟩ := hfirst.exists_cons
  have hlength := length_le_join (fun a ha => (hall a ha).ne_nil) (Text.ofString "," ++ lineBreak level)
  obtain ⟨tail, htail⟩ := exists_join_cons (Text.ofString "," ++ lineBreak level) (text first) (others.map text)
  have hjoin : Text.join (Text.ofString "," ++ lineBreak level) ((first :: others).map text) =
      c :: (front ++ tail) := by
    rw [List.map_cons, htail, htext, List.cons_append]
  refine ⟨c, front ++ tail ++ (lineBreak outer ++ closing :: rest), hstart, ?_, ?_⟩
  · rw [skipBlanks_lineBreak, List.map_cons, hfirst.skipBlanks_join, ← List.map_cons, hjoin, List.cons_append]
  -- The bound is the text itself, which is no shorter than the number of its parts.
  · have htakes := fun hbound => h.takes hclosing hall hne
      (c :: (front ++ tail ++ (lineBreak outer ++ closing :: rest))) hbound level outer rest
    rw [hjoin] at htakes hlength
    refine htakes (Nat.le_trans hlength ?_)
    simp only [List.length_cons, List.length_append]
    omega

end Loops

theorem loop_items (value : Reader Value) : Loop value (itemsFrom value) (CodePoint.ofChar ']') where
  last hitem hrest := by
    rw [itemsFrom]
    simp only [hitem, bind, Except.bind, hrest, if_true]
    rfl
  next hitem hrest hmore := by
    rw [itemsFrom]
    simp only [hitem, bind, Except.bind, hrest, hmore, if_true]
    rfl

theorem loop_members (value : Reader Value) :
    Loop (memberAt value) (membersFrom value) (CodePoint.ofChar '\x7d') where
  last hitem hrest := by
    rw [membersFrom]
    simp only [hitem, bind, Except.bind, hrest, if_true]
    rfl
  next hitem hrest hmore := by
    rw [membersFrom]
    simp only [hitem, bind, Except.bind, hrest, hmore, if_true]
    rfl

/-! ## Values -/

/-- **The text of a value** inside `level` arrays and objects. -/
def textAt (level : Nat) (v : Value) : Text := (piecesAt level v).flatten

/-- The text of a member. -/
def memberTextAt (level : Nat) (member : Text × Value) : Text :=
  writeString member.1 ++ (": " ++ textAt level member.2)

theorem itemPieces_eq (level : Nat) (items : List Value) :
    (itemPieces level items).map List.flatten = items.map (textAt level) := by
  induction items with
  | nil => rfl
  | cons v rest ih => rw [itemPieces, List.map_cons, List.map_cons, ih, textAt]

theorem memberPieces_eq (level : Nat) (entries : List (Text × Value)) :
    (memberPieces level entries).map List.flatten = entries.map (memberTextAt level) := by
  induction entries with
  | nil => rfl
  | cons entry rest ih => rw [memberPieces, List.map_cons, List.map_cons, ih, memberTextAt, textAt]; rfl

/-- **Parts between brackets**, as one text. -/
theorem flatten_enclose {opening closing : Text} {level : Nat} {parts : List (List Text)} :
    (enclose opening closing level parts).flatten =
      if parts = [] then opening ++ closing
      else opening ++ (lineBreak (level + 1) ++
        (Text.join (Text.ofString "," ++ lineBreak (level + 1)) (parts.map List.flatten) ++
          (lineBreak level ++ closing))) := by
  rw [enclose]
  by_cases h : parts = []
  · simp [h]
  · simp [h, flatten_intercalate]

theorem textAt_list (level : Nat) (items : List Value) :
    textAt level (.list items) = (if items = [] then [CodePoint.ofChar '[', CodePoint.ofChar ']']
      else CodePoint.ofChar '[' :: (lineBreak (level + 1) ++
        (Text.join (Text.ofString "," ++ lineBreak (level + 1)) (items.map (textAt (level + 1))) ++
          (lineBreak level ++ [CodePoint.ofChar ']'])))) := by
  have hnil : itemPieces (level + 1) items = [] ↔ items = [] := by cases items <;> simp [itemPieces]
  rw [textAt, piecesAt, flatten_enclose, itemPieces_eq]
  simp only [hnil]
  rfl

theorem textAt_dict (level : Nat) (entries : List (Text × Value)) :
    textAt level (.dict entries) = (if entries = [] then [CodePoint.ofChar '\x7b', CodePoint.ofChar '\x7d']
      else CodePoint.ofChar '\x7b' :: (lineBreak (level + 1) ++
        (Text.join (Text.ofString "," ++ lineBreak (level + 1)) (entries.map (memberTextAt (level + 1))) ++
          (lineBreak level ++ [CodePoint.ofChar '\x7d'])))) := by
  have hnil : memberPieces (level + 1) entries = [] ↔ entries = [] := by cases entries <;> simp [memberPieces]
  rw [textAt, piecesAt, flatten_enclose, memberPieces_eq]
  simp only [hnil]
  rfl

/-- **What starts like a scalar is read as one**, however much room is left. -/
theorem reads_scalar {room : Nat} {text : Text} {v : Value} (hhead : ∃ c ∈ text.head?, startsScalar c = true)
    (hread : ∀ {rest}, EndsValue rest → scalar (text ++ rest) = .ok (v, rest)) :
    Reads (valueAt room) text v := by
  obtain ⟨c, hc, hstart⟩ := hhead
  obtain ⟨more, rfl⟩ := List.head?_eq_some_iff.mp hc
  have hne : ∀ other, startsScalar other = false → c ≠ other := fun _ => ne_of_test hstart
  refine ⟨fun hr => ?_, c, rfl, startsValue_of_startsScalar hstart⟩
  -- Room is asked for by brackets only, so it makes no difference here.
  rw [← hread hr]
  cases room <;>
    simp [valueAt, valueWith, hne (CodePoint.ofChar '"') (by decide), hne (CodePoint.ofChar '[') (by decide),
      hne (CodePoint.ofChar '\x7b') (by decide)]

theorem reads_string {room : Nat} (text : Text) : Reads (valueAt room) (writeString text) (.str text) := by
  refine ⟨fun {rest} hr => ?_, CodePoint.ofChar '"', rfl, by decide⟩
  have hstring := fun opening => stringFrom_flatMap_escaped opening text rest
  cases room <;> simp [valueAt, valueWith, writeString, hstring, Except.map]

theorem reads_list {room level : Nat} {items : List Value}
    (h : ∀ v ∈ items, Reads (valueAt room) (textAt (level + 1) v) v) :
    Reads (valueAt (room + 1)) (textAt level (.list items)) (.list items) := by
  rw [textAt_list]
  have hopening : ∀ rest, valueAt (room + 1) (CodePoint.ofChar '[' :: rest) = listBody (valueAt room) rest := by
    intro rest
    rw [valueAt, valueWith, if_neg (by decide), if_pos (.inr rfl)]
    rfl
  by_cases hnil : items = []
  · rw [if_pos hnil]
    refine ⟨fun {rest} _ => ?_, CodePoint.ofChar '[', rfl, by decide⟩
    subst hnil
    rw [List.cons_append, hopening]
    rfl
  · rw [if_neg hnil]
    refine ⟨fun {rest} _ => ?_, CodePoint.ofChar '[', rfl, by decide⟩
    obtain ⟨c, more, hstart, hskip, hloop⟩ :=
      (loop_items (valueAt room)).body (by decide) h hnil (level + 1) level rest
    simp only [List.cons_append, List.append_assoc, List.nil_append, hopening, listBody, hskip,
      if_neg (ne_of_test hstart (by decide) : c ≠ CodePoint.ofChar ']'), hloop, Except.map]

theorem reads_member {room level : Nat} {name : Text} {v : Value} (h : Reads (valueAt room) (textAt level v) v) :
    Reads (memberAt (valueAt room)) (memberTextAt level (name, v)) (name, v) := by
  refine ⟨fun {rest} hr => ?_, CodePoint.ofChar '"', rfl, by decide⟩
  have hcolon : Text.ofString ": " = [CodePoint.ofChar ':', CodePoint.ofChar ' '] := by decide
  have hstring := fun opening => stringFrom_flatMap_escaped opening name
    (CodePoint.ofChar ':' :: CodePoint.ofChar ' ' :: (textAt level v ++ rest))
  have hspace : skipBlanks (CodePoint.ofChar ' ' :: (textAt level v ++ rest)) = textAt level v ++ rest := by
    have hstep : skipBlanks (CodePoint.ofChar ' ' :: (textAt level v ++ rest)) =
        skipBlanks (textAt level v ++ rest) := rfl
    rw [hstep, h.skipBlanks]
  have hmark : ∀ more, skipBlanks (CodePoint.ofChar ':' :: more) = CodePoint.ofChar ':' :: more :=
    skipBlanks_cons (by decide)
  simp only [memberTextAt, writeString, hcolon, List.cons_append, List.append_assoc, List.nil_append, memberAt,
    if_true, hstring, bind, Except.bind, hmark, hspace, h.takes hr]
  rfl

theorem reads_dict {room level : Nat} {entries : List (Text × Value)} (hnodup : (entries.map Prod.fst).Nodup)
    (h : ∀ entry ∈ entries, Reads (valueAt room) (textAt (level + 1) entry.2) entry.2) :
    Reads (valueAt (room + 1)) (textAt level (.dict entries)) (.dict entries) := by
  rw [textAt_dict]
  have hopening : ∀ rest, valueAt (room + 1) (CodePoint.ofChar '\x7b' :: rest) = objectBody (valueAt room) rest := by
    intro rest
    rw [valueAt, valueWith, if_neg (by decide), if_pos (.inl rfl)]
    rfl
  by_cases hnil : entries = []
  · rw [if_pos hnil]
    refine ⟨fun {rest} _ => ?_, CodePoint.ofChar '\x7b', rfl, by decide⟩
    subst hnil
    rw [List.cons_append, hopening]
    rfl
  · rw [if_neg hnil]
    refine ⟨fun {rest} _ => ?_, CodePoint.ofChar '\x7b', rfl, by decide⟩
    have hmembers : ∀ entry ∈ entries, Reads (memberAt (valueAt room)) (memberTextAt (level + 1) entry) entry :=
      fun entry hentry => reads_member (h entry hentry)
    obtain ⟨c, more, hstart, hskip, hloop⟩ :=
      (loop_members (valueAt room)).body (by decide) hmembers hnil (level + 1) level rest
    simp only [List.cons_append, List.append_assoc, List.nil_append, hopening, objectBody, hskip,
      if_neg (ne_of_test hstart (by decide) : c ≠ CodePoint.ofChar '\x7d'), hloop, Except.map,
      Value.ofEntries_eq hnodup]

theorem startsScalar_of_isAsciiDigit {c : CodePoint} (h : c.isAsciiDigit = true) : startsScalar c = true := by
  rw [startsScalar, h]
  rfl

theorem head_ofInt (n : Int) : ∃ c ∈ (Numeral.ofInt n).head?, startsScalar c = true := by
  cases n with
  | ofNat n =>
    obtain ⟨c, rest, hc⟩ := List.exists_cons_of_ne_nil (Numeral.isRun_ofNat n).1
    have hdigit : c.isAsciiDigit = true := (Numeral.isRun_ofNat n).2 c (by simp [hc])
    exact ⟨c, by simp [Numeral.ofInt, hc], startsScalar_of_isAsciiDigit hdigit⟩
  | negSucc n => exact ⟨CodePoint.ofChar '-', rfl, rfl⟩

theorem head_writeDouble (x : Binary64) : ∃ c ∈ (writeDouble x).head?, startsScalar c = true := by
  rcases x with _ | (_ | _) | ⟨negative, units, h⟩
  · exact ⟨'N', rfl, rfl⟩
  · exact ⟨'I', rfl, rfl⟩
  · exact ⟨CodePoint.ofChar '-', rfl, rfl⟩
  · obtain ⟨s, htext, -⟩ := Binary64.exists_spelling h
    obtain ⟨c, rest, hc⟩ := List.exists_cons_of_ne_nil s.whole_isRun.1
    have hdigit : c.isAsciiDigit = true := s.whole_isRun.2 c (by simp [hc])
    cases negative with
    | true => exact ⟨CodePoint.ofChar '-', rfl, rfl⟩
    | false =>
      refine ⟨c, ?_, startsScalar_of_isAsciiDigit hdigit⟩
      have hrepr : writeDouble (.finite false units h) = s.text := htext.symm
      simp [hrepr, Decimal.Spelling.text, hc]

mutual

/-- **A value is read from its text**, if there is room for its parts. -/
theorem reads_value (v : Value) (hv : v.Storable) {room : Nat} (hroom : v.nesting ≤ room) (level : Nat) :
    Reads (valueAt room) (textAt level v) v := by
  cases v with
  | none => exact reads_scalar ⟨'n', rfl, rfl⟩ fun _ => scalar_word rfl
  | bool b =>
    cases b with
    | true => exact reads_scalar ⟨'t', rfl, rfl⟩ fun _ => scalar_word rfl
    | false => exact reads_scalar ⟨'f', rfl, rfl⟩ fun _ => scalar_word rfl
  | int n =>
    rw [textAt, piecesAt, List.flatten_singleton]
    exact reads_scalar (head_ofInt n) fun hr => scalar_int hr.endsNumber hv
  | float x =>
    rw [textAt, piecesAt, List.flatten_singleton]
    exact reads_scalar (head_writeDouble x) fun hr => scalar_double hr.endsNumber
  | str text =>
    rw [textAt, piecesAt, List.flatten_singleton]
    exact reads_string text
  -- A list or a dictionary takes one of the levels that are left, and leaves the others to its parts.
  | list items =>
    obtain ⟨room, rfl⟩ := Nat.exists_eq_add_of_le' (Nat.le_trans (Nat.le_add_left 1 _) hroom)
    exact reads_list (reads_items items hv (Nat.le_of_succ_le_succ hroom) (level + 1))
  | dict entries =>
    obtain ⟨room, rfl⟩ := Nat.exists_eq_add_of_le' (Nat.le_trans (Nat.le_add_left 1 _) hroom)
    exact reads_dict hv.1 (reads_entries entries hv.2 (Nat.le_of_succ_le_succ hroom) (level + 1))

theorem reads_items (items : List Value) (hv : Value.StorableItems items) {room : Nat}
    (hroom : Value.nestingOfItems items ≤ room) (level : Nat) :
    ∀ v ∈ items, Reads (valueAt room) (textAt level v) v := by
  cases items with
  | nil => exact List.forall_mem_nil _
  | cons v rest =>
    rw [Value.nestingOfItems, Nat.max_le] at hroom
    exact List.forall_mem_cons.mpr ⟨reads_value v hv.1 hroom.1 level, reads_items rest hv.2 hroom.2 level⟩

theorem reads_entries (entries : List (Text × Value)) (hv : Value.StorableEntries entries) {room : Nat}
    (hroom : Value.nestingOfEntries entries ≤ room) (level : Nat) :
    ∀ entry ∈ entries, Reads (valueAt room) (textAt level entry.2) entry.2 := by
  cases entries with
  | nil => exact List.forall_mem_nil _
  | cons entry rest =>
    obtain ⟨name, v⟩ := entry
    rw [Value.nestingOfEntries, Nat.max_le] at hroom
    exact List.forall_mem_cons.mpr ⟨reads_value v hv.1 hroom.1 level, reads_entries rest hv.2 hroom.2 level⟩

end

/-- **Writing and reading a value gives the value**, unless it is nested too deep to be read. -/
theorem read_write {v : Value} (hv : v.Storable) (hnesting : v.nesting ≤ maxNesting) : read (write v) = .ok v := by
  have hreads := reads_value v hv hnesting 0
  have htext : textAt 0 v = write v := rfl
  rw [htext] at hreads
  obtain ⟨c, rest, hc, hstart⟩ := hreads.exists_cons
  -- What a value starts with is no mark of byte order, and no blank.
  have hmark : ¬ (write v).head?.any (fun c => c.val = 0xFEFF) = true := by
    have hne : c.val ≠ 0xFEFF := by
      intro hval
      exact ne_of_test hstart (by decide : startsValue (CodePoint.ofNat 0xFEFF) = false)
        (CodePoint.ext_val hval)
    simp [hc, hne]
  have hskip : skipBlanks (write v) = write v := by
    have h := hreads.skipBlanks []
    rwa [List.append_nil] at h
  have htakes : valueAt maxNesting (write v) = .ok (v, []) := by
    have hend : EndsValue [] := by simp [EndsValue]
    have h := hreads.takes hend
    rwa [List.append_nil] at h
  rw [read, readWhole, if_neg hmark, hskip, htakes]
  rfl

end Json

end LineaLang
