import LineaLang.Proofs.Machine.Coupling
import LineaLang.Proofs.Machine.Regime
import LineaLang.Proofs.Text.Plain

/-!
# `LineaLang.Proofs.Machine.Discipline` — runs that keep to a discipline

A run of a tree may stop for reasons that are no rule of the language: a node in the wrong place, a value that is no
name, a note that the log does not take. Whether it can is a matter of what is known of the tree, and this is kept
open here. A `Discipline` says what is known of expressions, statements, names and values; it is `Lawful` if the parts
of what it allows are allowed again, and its names, errors and notes do no harm.

Under a lawful discipline a machine stays in order, expressions and calls give values that the discipline knows, and
runs stop for errors of the language or for want of levels. So a discipline makes a regime, with the same invariant
everywhere in a run. What notes may do is kept apart: they do no harm at the verbosity for which a discipline is lawful,
but the rest of its laws serves at any verbosity.

## Contents

* `RuntimeError.Presentable`, `RuntimeError.Arises` — errors that files take, and the errors that runs come to.
* `Discipline`, `Discipline.Lawful`, `Discipline.Holds` — what is known, and the invariant.
* `Discipline.TakesNotes`, `Discipline.takesAnyNotes` — what notes do.
* `Discipline.regime`, `Discipline.Lawful.lawful_regime` — the regime of a discipline.
* `Discipline.Lawful.run` — the run of a program.
-/

namespace LineaLang

/-! ## Tables -/

namespace Table

variable {α : Type} {p : α → Prop}

/-- **A property of all that a table holds.** -/
def All (p : α → Prop) (t : Table α) : Prop := ∀ entry ∈ t.entries, p entry.2

theorem All.empty : All p (empty : Table α) := List.forall_mem_nil _

theorem All.insert {t : Table α} (h : t.All p) (key : Key) {a : α} (ha : p a) : (t.insert key a).All p := by
  obtain ⟨entries⟩ := t
  show ∀ entry ∈ insertIn key a entries, p entry.2
  replace h : ∀ entry ∈ entries, p entry.2 := h
  induction entries with
  | nil => exact List.forall_mem_singleton.mpr ha
  | cons entry rest ih =>
    rw [List.forall_mem_cons] at h
    unfold insertIn
    by_cases hkey : entry.1 = key
    · rw [if_pos hkey, List.forall_mem_cons]
      exact ⟨ha, h.2⟩
    · rw [if_neg hkey, List.forall_mem_cons]
      exact ⟨h.1, ih h.2⟩

theorem All.find? {t : Table α} (h : t.All p) {key : Key} {a : α} (hfind : t.find? key = some a) : p a := by
  obtain ⟨entries⟩ := t
  replace hfind : findIn key entries = some a := hfind
  replace h : ∀ entry ∈ entries, p entry.2 := h
  induction entries with
  | nil => cases hfind
  | cons entry rest ih =>
    rw [List.forall_mem_cons] at h
    unfold findIn at hfind
    by_cases hkey : entry.1 = key
    · rw [if_pos hkey] at hfind
      exact Option.some.inj hfind ▸ h.1
    · rw [if_neg hkey] at hfind
      exact ih hfind h.2

theorem All.ofPairs {pairs : List (Key × α)} (h : ∀ pair ∈ pairs, p pair.2) : (ofPairs pairs).All p := by
  have hfold : ∀ {t : Table α}, t.All p →
      (pairs.foldl (fun t entry => t.insert entry.1 entry.2) t).All p := by
    induction pairs with
    | nil => exact id
    | cons pair rest ih =>
      rw [List.forall_mem_cons] at h
      intro t ht
      exact ih h.2 (ht.insert pair.1 h.1)
  exact hfold All.empty

end Table

/-! ## Errors -/

theorem Value.surrogateFree_kind (v : Value) : v.kind.SurrogateFree := by
  cases v <;> exact .ofString

theorem ArithOp.surrogateFree_code (op : ArithOp) : op.code.SurrogateFree := by
  cases op <;> exact .ofString

theorem CompareOp.surrogateFree_code (op : CompareOp) : op.code.SurrogateFree := by
  cases op <;> exact .ofString

theorem Numeral.surrogateFree_ofNat (n : Nat) : (Numeral.ofNat n).SurrogateFree :=
  .of_isVisible (Numeral.isVisible_ofNat n)

namespace RuntimeError

/-- **An error whose report a file takes.** -/
def Presentable (e : RuntimeError) : Prop := e.message.SurrogateFree

theorem presentable_of_detail {e : RuntimeError} (h : e.detail.SurrogateFree) : e.Presentable := by
  have hcategory : e.category.SurrogateFree := by
    cases e <;> exact .ofString
  exact (hcategory.append .ofString).append h

/-- **The errors that runs come to**, if their names are as `names` says. -/
inductive Arises (names : Value → Prop) : RuntimeError → Prop where
  | arith {op : ArithOp} {a b : Value} {e : RuntimeError} (h : Calculation.arith op a b = .error e) : Arises names e
  | compare {op : CompareOp} {a b : Value} {e : RuntimeError} (h : Calculation.compare op a b = .error e) :
      Arises names e
  | undefinedVariable {name : Value} (h : names name) : Arises names (undefinedVariable name)
  | undefinedFunction {name : Value} (h : names name) : Arises names (undefinedFunction name)
  | arityMismatch {name : Value} (h : names name) (expected actual : Nat) :
      Arises names (arityMismatch name expected actual)
  | callDepth {name : Value} (h : names name) (limit : Nat) : Arises names (callDepth name limit)
  | iterationLimit (limit : Nat) : Arises names (iterationLimit limit)

theorem presentable_numericOverflow (op : ArithOp) : (numericOverflow op).Presentable :=
  presentable_of_detail (.append (.append .ofString op.surrogateFree_code) .ofString)

theorem presentable_operandKinds (op : ArithOp) (a b : Value) : (operandKinds op a.kind b.kind).Presentable :=
  presentable_of_detail (.append (.append (.append (.append (.append .ofString op.surrogateFree_code) .ofString)
    a.surrogateFree_kind) .ofString) b.surrogateFree_kind)

theorem presentable_unorderedKinds (op : CompareOp) (a b : Value) : (unorderedKinds op a.kind b.kind).Presentable :=
  presentable_of_detail (.append (.append (.append (.append (.append .ofString a.surrogateFree_kind) .ofString)
    b.surrogateFree_kind) .ofString) op.surrogateFree_code)

end RuntimeError

theorem Calculation.presentable_of_arith {op : ArithOp} {a b : Value} {e : RuntimeError}
    (h : Calculation.arith op a b = .error e) : e.Presentable := by
  unfold arith at h
  split at h
  · cases h
  · split at h
    · split at h
      · cases h
        exact RuntimeError.presentable_of_detail .ofString
      · split at h
        · split at h
          · cases h
          · cases h
            exact RuntimeError.presentable_numericOverflow op
        · cases h
          exact RuntimeError.presentable_numericOverflow op
    · cases h
      exact RuntimeError.presentable_operandKinds op a b

theorem Calculation.presentable_of_compare {op : CompareOp} {a b : Value} {e : RuntimeError}
    (h : Calculation.compare op a b = .error e) : e.Presentable := by
  have horder : ∀ {answer : Option Bool}, Calculation.compare.order op a b answer = .error e → e.Presentable := by
    intro answer h
    cases answer with
    | none =>
      cases h
      exact RuntimeError.presentable_unorderedKinds op a b
    | some answer => cases h
  cases op with
  | eq | neq => cases h
  | lt | le | gt | ge => exact horder h

/-- **Files take the errors that runs come to**, if they take the names. -/
theorem RuntimeError.Arises.presentable {names : Value → Prop} {e : RuntimeError} (h : e.Arises names)
    (hnames : ∀ name, names name → name.plain.SurrogateFree) : e.Presentable := by
  cases h with
  | arith h => exact Calculation.presentable_of_arith h
  | compare h => exact Calculation.presentable_of_compare h
  | undefinedVariable h | undefinedFunction h =>
    exact presentable_of_detail (.append (.append .ofString (hnames _ h)) .ofString)
  | arityMismatch h expected actual =>
    exact presentable_of_detail (.append (.append (.append (.append (.append .ofString (hnames _ h)) .ofString)
      (Numeral.surrogateFree_ofNat expected)) .ofString) (Numeral.surrogateFree_ofNat actual))
  | callDepth h limit =>
    exact presentable_of_detail (.append (.append (.append (.append .ofString (Numeral.surrogateFree_ofNat limit))
      .ofString) (hnames _ h)) .ofString)
  | iterationLimit limit =>
    exact presentable_of_detail (.append (.append .ofString (Numeral.surrogateFree_ofNat limit)) .ofString)

/-! ## Disciplines -/

/-- **What is known of trees, values and errors** in a run. -/
structure Discipline where
  /-- The values that are bound, given and printed. -/
  value : Value → Prop
  /-- The values of conditions. -/
  answer : Value → Prop
  name : Value → Prop
  expression : Node → Prop
  condition : Node → Prop
  /-- What is executed: statements, and the bodies and branches inside them. -/
  statement : Node → Prop
  /-- The declarations of functions that can be called. -/
  function : Node → Prop
  error : RuntimeError → Prop

/-- **A note that does no harm** at a verbosity: it is not taken, or files take its line. -/
def Note.Passes (verbosity : Nat) (n : Note) : Prop := verbosity < n.level ∨ n.line.SurrogateFree

theorem textsFrom_texts {params : List Value} (h : ∀ param ∈ params, ∃ text, param = .str text ∧ text.SurrogateFree)
    (index : Nat) : ∃ texts, Value.textsFrom index params = .ok texts ∧ ∀ text ∈ texts, Text.SurrogateFree text := by
  induction params generalizing index with
  | nil => exact ⟨[], rfl, List.forall_mem_nil _⟩
  | cons param rest ih =>
    rw [List.forall_mem_cons] at h
    obtain ⟨word, rfl, hword⟩ := h.1
    obtain ⟨texts, htexts, hfree⟩ := ih h.2 (index + 1)
    refine ⟨word :: texts, ?_, List.forall_mem_cons.mpr ⟨hword, hfree⟩⟩
    rw [Value.textsFrom, htexts]
    rfl

/-- **The note on a function** whose name and parameters are texts that files take. -/
theorem Note.exists_defined {name : Value} {params : List Value} (hname : name.plain.SurrogateFree)
    (hparams : ∀ param ∈ params, ∃ text, param = .str text ∧ text.SurrogateFree) :
    ∃ joined, Value.joinTexts ", " params = .ok joined ∧ (Note.defined name joined).line.SurrogateFree := by
  obtain ⟨texts, htexts, hfree⟩ := textsFrom_texts hparams 0
  refine ⟨Text.join ", " texts, ?_, ?_⟩
  · rw [Value.joinTexts, htexts]
    rfl
  · exact .append (.append (.append (.append .ofString hname) .ofString) (.join .ofString hfree)) .ofString

/-- **A line without surrogates can be written** wherever the notes of a machine go. -/
theorem Machine.unwritable?_eq_none (m : Machine) {n : Note} (hline : n.line.SurrogateFree) :
    m.unwritable? n = none := by
  have hencodable := Utf8.unencodable?_eq_none_iff.mpr hline
  have hconsole : m.console.unwritable? n.line = none := by
    cases m.console
    · rfl
    · exact hencodable
  unfold Machine.unwritable?
  rw [hencodable, hconsole]
  exact ite_self _

namespace Discipline

section

variable (D : Discipline)

/-- **An expression by its parts.** -/
def Evaluable : Node → Prop
  | .number v => D.value v
  | .string v => D.value v
  | .ident name => D.name name
  | .assign target expr => D.name target ∧ D.expression expr
  | .arith _ left right => D.expression left ∧ D.expression right
  | .comparison _ left right => D.expression left ∧ D.expression right ∧ ∀ b, D.value (.bool b)
  | .call callee args => D.name callee ∧ ∀ arg ∈ args, D.expression arg
  | _ => False

/-- **A condition by its parts**: a comparison, or an expression that answers. -/
def Decides : Node → Prop
  | .comparison _ left right => D.expression left ∧ D.expression right ∧ ∀ b, D.answer (.bool b)
  | node => D.expression node ∧ ∀ v, D.value v → D.answer v

/-- **A statement by its parts.** -/
def Executable : Node → Prop
  | .expression expr => D.expression expr
  | .print expr => D.expression expr
  | .ret expr => D.expression expr
  | .declare name init => D.name name ∧ D.expression init
  | .function name _ _ => D.name name
  | .block statements => ∀ statement ∈ statements, D.statement statement
  | .ifElse condition thenBlock elseBlock =>
    D.condition condition ∧ D.statement thenBlock ∧ (elseBlock = .absent ∨ D.statement elseBlock)
  | .whileLoop condition body => D.condition condition ∧ D.statement body
  | _ => False

/-- **A function that can be called.** -/
def Callable : Node → Prop
  | .function _ params body => (∀ param ∈ params, ∃ key, Scope.key param = .ok key) ∧ D.statement body
  | _ => False

/-- **The notes on what is known**, apart from those on functions. -/
inductive Notes : Note → Prop where
  | declared {name v : Value} (hname : D.name name) (hv : D.value v) : Notes (.declared name v)
  | called {name : Value} {args : List Value} (hname : D.name name) (hargs : ∀ v ∈ args, D.value v) :
      Notes (.called name args)
  | branched {v : Value} (h : D.answer v) : Notes (.branched v)
  | stopped {e : RuntimeError} (h : D.error e) : Notes (.stopped e)

variable {D} in
/-- **Files take the notes on what is known**, if they take the names, the values and the errors. -/
theorem Notes.surrogateFree {n : Note} (h : D.Notes n) (hname : ∀ name, D.name name → name.plain.SurrogateFree)
    (hvalue : ∀ v, D.value v → v.display.SurrogateFree) (hanswer : ∀ v, D.answer v → v.display.SurrogateFree)
    (herror : ∀ e, D.error e → e.Presentable) : n.line.SurrogateFree := by
  cases h with
  | @declared name v hn hv =>
    refine .append (.append (.append (.append (.append .ofString (hname _ hn)) .ofString) ?_) .ofString) (hvalue v hv)
    exact v.surrogateFree_kind
  | called hn hargs =>
    have hshown : ∀ piece ∈ _, Text.SurrogateFree piece := List.forall_mem_map.mpr fun v hv => hvalue v (hargs v hv)
    exact .append (.append (.append (.append .ofString (hname _ hn)) .ofString) (.join .ofString hshown)) .ofString
  | branched hv => exact .append .ofString (hanswer _ hv)
  | stopped he => exact .append .ofString (herror _ he)

variable {D} in
/-- **Below verbosity two no values are noted**, so only the reports on errors matter. -/
theorem Notes.passes_of_quiet {n : Note} (h : D.Notes n) {verbosity : Nat} (hquiet : verbosity < 2)
    (herror : ∀ e, D.error e → verbosity < 1 ∨ e.Presentable) : n.Passes verbosity := by
  cases h with
  | declared _ _ | called _ _ => exact .inl hquiet
  | branched _ => exact .inl (Nat.lt_succ_of_lt hquiet)
  | stopped he => exact (herror _ he).imp_right (.append .ofString)

/-- **A lawful discipline**: what is known is known of the parts, and does no harm at a verbosity. -/
structure Lawful (verbosity : Nat) : Prop where
  none : D.value .none
  arith : ∀ {op a b v}, D.value a → D.value b → Calculation.arith op a b = .ok v → D.value v
  key : ∀ {name}, D.name name → ∃ key, Scope.key name = .ok key
  error : ∀ {e : RuntimeError}, e.Arises D.name → D.error e
  expression : ∀ {node}, D.expression node → D.Evaluable node
  condition : ∀ {node}, D.condition node → D.Decides node
  statement : ∀ {node}, D.statement node → D.Executable node
  defines : ∀ {name params body}, D.statement (.function name params body) → D.function (.function name params body)
  function : ∀ {node}, D.function node → D.Callable node
  note : ∀ {n}, D.Notes n → n.Passes verbosity
  /-- The names of parameters can be joined, if they are noted at all. -/
  noteDefined : ∀ {name params body}, D.statement (.function name params body) →
    verbosity < (Note.defined name []).level ∨
      ∃ joined, Value.joinTexts ", " params = .ok joined ∧ (Note.defined name joined).line.SurrogateFree

/-! ## The invariant -/

/-- **A scope in order**: what is bound is known, and so are the functions. -/
structure ScopeHolds (s : Scope) : Prop where
  globals : s.globals.All D.value
  functions : s.functions.All D.function
  frames : ∀ frame ∈ s.frames, frame.All D.value

/-- **A machine in order**, whose verbosity stays what it is, and whose console takes any text. -/
structure Holds (verbosity : Nat) (m : Machine) : Prop where
  scope : D.ScopeHolds m.scope
  verbosity_eq : m.verbosity = verbosity
  console_eq : m.console = .anyText
  output : ∀ v, .value v ∈ m.emissions → D.value v

/-- **The reasons to stop**: an error of the language, or want of levels. -/
def Stops : RunFailure → Prop
  | .error e => D.error e
  | .fault cause => cause = .tooDeep
  | .unwritable _ => False

/-- **A run that keeps to the discipline.** -/
abbrev Keeps {α : Type} (verbosity : Nat) (r : Run α) (post : α → Prop) : Prop :=
  Ensures (D.Holds verbosity) r post D.Stops

end

variable {D : Discipline} {verbosity : Nat}

namespace ScopeHolds

variable {s : Scope} {key : Key} {v : Value}

theorem empty : D.ScopeHolds .empty := ⟨Table.All.empty, Table.All.empty, List.forall_mem_nil _⟩

theorem setGlobal (h : D.ScopeHolds s) (hv : D.value v) : D.ScopeHolds (s.setGlobal key v) :=
  { h with globals := h.globals.insert key hv }

theorem setLocal (h : D.ScopeHolds s) (hv : D.value v) : D.ScopeHolds (s.setLocal key v) := by
  obtain ⟨globals, functions, frames⟩ := s
  cases frames with
  | nil => exact h
  | cons frame outer =>
    obtain ⟨hframe, houter⟩ := List.forall_mem_cons.mp h.frames
    exact { h with frames := List.forall_mem_cons.mpr ⟨hframe.insert key hv, houter⟩ }

theorem assign (h : D.ScopeHolds s) (hv : D.value v) : D.ScopeHolds (s.assign key v) := by
  unfold Scope.assign
  split
  · exact h.setLocal hv
  · exact h.setGlobal hv

theorem declare (h : D.ScopeHolds s) (hv : D.value v) : D.ScopeHolds (s.declare key v) := by
  unfold Scope.declare
  split
  · exact h.setGlobal hv
  · exact h.setLocal hv

theorem define {function : Node} (h : D.ScopeHolds s) (hfunction : D.function function) :
    D.ScopeHolds (s.define key function) :=
  { h with functions := h.functions.insert key hfunction }

theorem enter {frame : Table Value} (h : D.ScopeHolds s) (hframe : frame.All D.value) : D.ScopeHolds (s.enter frame) :=
  { h with frames := List.forall_mem_cons.mpr ⟨hframe, h.frames⟩ }

theorem leave (h : D.ScopeHolds s) : D.ScopeHolds s.leave :=
  { h with frames := fun frame hframe => h.frames frame (List.mem_of_mem_tail hframe) }

theorem lookup (h : D.ScopeHolds s) (hfind : s.lookup? key = some v) : D.value v := by
  unfold Scope.lookup? at hfind
  split at hfind
  · rename_i bound hbound
    obtain ⟨frame, hframe, hbound⟩ := Option.bind_eq_some_iff.mp hbound
    obtain rfl := Option.some.inj hfind
    exact (h.frames frame (List.mem_of_head? hframe)).find? hbound
  · exact h.globals.find? hfind

end ScopeHolds

theorem holds_start : D.Holds verbosity (.start verbosity) := ⟨.empty, rfl, rfl, nofun⟩

/-! ## Steps -/

open Run Meaning

theorem keeps_print {v : Value} (hv : D.value v) : D.Keeps verbosity (Run.print v) fun _ => True := by
  intro m hm
  unfold Run.print
  rw [hm.console_eq]
  refine .ok { hm with output := fun u hu => ?_ } trivial
  rcases List.mem_cons.mp hu with heq | hmem
  · cases heq
    exact hv
  · exact hm.output u hmem

theorem Holds.noted {m : Machine} (h : D.Holds verbosity m) (n : Note) : D.Holds verbosity (m.noted n) := by
  unfold Machine.noted
  split
  · exact { h with }
  · refine { h with output := fun v hv => h.output v ?_ }
    exact (List.mem_cons.mp hv).resolve_left nofun

/-- **A note that does no harm never fails.** -/
theorem ensures_note {n : Note} {allowed : RunFailure → Prop} (h : n.Passes verbosity) :
    Ensures (D.Holds verbosity) (Run.note n) (fun _ => True) allowed := by
  intro m hm
  unfold Run.note
  by_cases htaken : n.level ≤ m.verbosity
  · rw [if_pos htaken]
    have hline : n.line.SurrogateFree := by
      refine h.resolve_left fun hquiet => ?_
      rw [hm.verbosity_eq] at htaken
      exact absurd htaken (Nat.not_le.mpr hquiet)
    rw [m.unwritable?_eq_none hline]
    exact .ok (hm.noted n) trivial
  · rw [if_neg htaken]
    exact .ok hm trivial

/-- Any other may fail, but it leaves the machine in order. -/
theorem ensures_anyNote {allowed : RunFailure → Prop} (h : ∀ cause, allowed (.unwritable cause)) (n : Note) :
    Ensures (D.Holds verbosity) (Run.note n) (fun _ => True) allowed := by
  intro m hm
  unfold Run.note
  split
  · split
    · exact .ok (hm.noted n) trivial
    · exact .error hm (h _)
  · exact .ok hm trivial

namespace Lawful

section

-- What the verbosity is does not matter here: no note is taken.
variable {law : Nat} (h : D.Lawful law)

include h

theorem keeps_get {name : Value} (hname : D.name name) : D.Keeps verbosity (query (·.get name)) D.value := by
  intro m hm
  obtain ⟨key, hkey⟩ := h.key hname
  cases hfind : m.scope.lookup? key with
  | some v =>
    have hget : m.scope.get name = .ok v := by
      rw [Scope.get, hkey]
      simp only [Bind.bind, Except.bind, hfind]
      rfl
    simp only [query, hget]
    exact .ok hm (hm.scope.lookup hfind)
  | none =>
    have hget : m.scope.get name = .error (.error (.undefinedVariable name)) := by
      rw [Scope.get, hkey]
      simp only [Bind.bind, Except.bind, hfind]
      rfl
    simp only [query, hget]
    exact .error hm (h.error (.undefinedVariable hname))

theorem keeps_update {name : Value} (hname : D.name name) {change : Scope → Key → Scope}
    (hchange : ∀ s key, D.ScopeHolds s → D.ScopeHolds (change s key)) :
    D.Keeps verbosity (update fun s => do return change s (← Scope.key name)) fun _ => True := by
  intro m hm
  obtain ⟨key, hkey⟩ := h.key hname
  unfold update
  rw [hkey]
  exact .ok { hm with scope := hchange m.scope key hm.scope } trivial

theorem keeps_arith (op : ArithOp) {a b : Value} (ha : D.value a) (hb : D.value b) :
    D.Keeps verbosity (ofCalculation (Calculation.arith op a b)) D.value := by
  cases hresult : Calculation.arith op a b with
  | ok v => exact .pure (h.arith ha hb hresult)
  | error e => exact .throw (h.error (.arith hresult))

theorem keeps_compare (op : CompareOp) (a b : Value) :
    D.Keeps verbosity (ofCalculation (Calculation.compare op a b)) fun _ => True := by
  cases hresult : Calculation.compare op a b with
  | ok answer => exact .pure trivial
  | error e => exact .throw (h.error (.compare hresult))

/-- **The function that is called** has names for parameters and a statement for a body. -/
theorem keeps_callee {name : Value} (hname : D.name name) (count : Nat) :
    D.Keeps verbosity (callee name count) fun found =>
      (∀ param ∈ found.1, ∃ key, Scope.key param = .ok key) ∧ D.statement found.2 := by
  unfold callee
  have hfind : D.Keeps verbosity (query (·.callee name)) D.function := by
    intro m hm
    obtain ⟨key, hkey⟩ := h.key hname
    cases hfind : m.scope.functions.find? key with
    | some function =>
      have hcallee : m.scope.callee name = .ok function := by
        rw [Scope.callee, hkey]
        simp only [Bind.bind, Except.bind, hfind]
        rfl
      simp only [query, hcallee]
      exact .ok hm (hm.scope.functions.find? hfind)
    | none =>
      have hcallee : m.scope.callee name = .error (.error (.undefinedFunction name)) := by
        rw [Scope.callee, hkey]
        simp only [Bind.bind, Except.bind, hfind]
        rfl
      simp only [query, hcallee]
      exact .error hm (h.error (.undefinedFunction hname))
  refine hfind.bind fun node hnode => ?_
  have hcallable := h.function hnode
  cases node with
  | function _ params body =>
    show D.Keeps verbosity (if count = params.length then _ else _) _
    split
    · exact .pure hcallable
    · exact .throw (h.error (.arityMismatch hname _ _))
  | _ => exact hcallable.elim

theorem keeps_checkCalls {name : Value} (hname : D.name name) :
    D.Keeps verbosity (checkCalls name) fun _ => True := by
  intro m hm
  rw [checkCalls_eq]
  split
  · exact .error hm (h.error (.callDepth hname _))
  · exact .ok hm trivial

omit h in
theorem keeps_frameOf {params args : List Value} (hparams : ∀ param ∈ params, ∃ key, Scope.key param = .ok key)
    (hargs : ∀ v ∈ args, D.value v) : D.Keeps verbosity (query fun _ => frameOf params args) (·.All D.value) := by
  have hkeys : ∃ keys, parameterKeys params = .ok keys := by
    induction params with
    | nil => exact ⟨[], rfl⟩
    | cons param rest ih =>
      rw [List.forall_mem_cons] at hparams
      obtain ⟨key, hkey⟩ := hparams.1
      obtain ⟨keys, hkeys⟩ := ih hparams.2
      refine ⟨key :: keys, ?_⟩
      rw [parameterKeys, hkey, hkeys]
      rfl
  obtain ⟨keys, hkeys⟩ := hkeys
  intro m hm
  unfold query frameOf
  rw [hkeys]
  refine .ok hm (Table.All.ofPairs fun pair hpair => ?_)
  exact hargs pair.2 (List.of_mem_zip hpair).2

end

/-- The note of a declaration does no harm. -/
theorem keeps_noteDefined (h : D.Lawful verbosity) {name : Value} {params : List Value} {body : Node}
    (hstatement : D.statement (.function name params body)) :
    D.Keeps verbosity (Meaning.noteDefined name params) fun _ => True := by
  intro m hm
  rw [noteDefined_eq]
  split
  · rename_i htaken
    rw [hm.verbosity_eq] at htaken
    obtain ⟨joined, hjoined, hline⟩ := (h.noteDefined hstatement).resolve_left (Nat.not_lt.mpr htaken)
    rw [hjoined]
    exact ensures_note (.inr hline) m hm
  · exact .ok hm trivial

end Lawful

/-! ## Trees -/

/-- **What notes do** in runs that keep to a discipline: a machine in order stays so, and a run that a note ends does
    so for an allowed reason. -/
structure TakesNotes (D : Discipline) (verbosity : Nat) (allowed : RunFailure → Prop) : Prop where
  note : ∀ {n}, D.Notes n → Ensures (D.Holds verbosity) (Run.note n) (fun _ => True) allowed
  iterated : ∀ count, Ensures (D.Holds verbosity) (Run.note (.iterated count)) (fun _ => True) allowed
  noteDefined : ∀ {name params body}, D.statement (.function name params body) →
    Ensures (D.Holds verbosity) (Meaning.noteDefined name params) (fun _ => True) allowed

/-- **Notes at any verbosity**, where it is allowed that they are not written. The names of parameters must be such as
    can be joined. -/
theorem takesAnyNotes {allowed : RunFailure → Prop} (hunwritable : ∀ cause, allowed (.unwritable cause))
    (hjoin : ∀ {name params body}, D.statement (.function name params body) →
      ∃ joined, Value.joinTexts ", " params = .ok joined) : D.TakesNotes verbosity allowed where
  note _ := ensures_anyNote hunwritable _
  iterated _ := ensures_anyNote hunwritable _
  noteDefined hstatement := by
    intro m hm
    obtain ⟨joined, hjoined⟩ := hjoin hstatement
    rw [noteDefined_eq]
    split
    · rw [hjoined]
      exact ensures_anyNote hunwritable _ m hm
    · exact .ok hm trivial

/-- **The regime of a discipline**: the same holds everywhere in a run, apart from what notes may do. -/
def regime (D : Discipline) (verbosity : Nat) (allowed : RunFailure → Prop) : Regime Unit where
  inv _ := D.Holds verbosity
  allowed := allowed
  value := D.value
  answer := D.answer
  name := D.name
  expression _ := D.expression
  condition _ := D.condition
  statement _ := D.statement
  inside := id

namespace Lawful

variable {law : Nat} {allowed : RunFailure → Prop} (h : D.Lawful law) (hstops : ∀ e, D.Stops e → allowed e)

/-- Under a lawful discipline no note does any harm at its verbosity. -/
theorem takesNotes (h : D.Lawful verbosity) : D.TakesNotes verbosity D.Stops where
  note hn := ensures_note (h.note hn)
  iterated _ := ensures_note (.inr (.append .ofString (Numeral.surrogateFree_ofNat _)))
  noteDefined := h.keeps_noteDefined

include hstops

/-- More reasons to stop may be allowed than a discipline has. -/
theorem regime_keeps {α : Type} {r : Run α} {post : α → Prop} (hr : D.Keeps verbosity r post) :
    (D.regime verbosity allowed).Keeps () r post := hr.mono (fun _ => Iff.rfl) hstops

include h

/-- A comparison gives a truth value. -/
theorem evaluates_comparison {op : CompareOp} {left right : Node} {post : Value → Prop} (hleft : D.expression left)
    (hright : D.expression right) (hpost : ∀ b, post (.bool b)) :
    (D.regime verbosity allowed).Evaluates () post (.comparison op left right) :=
  ⟨hleft, hright, fun a b _ _ => (regime_keeps hstops (h.keeps_compare op a b)).imp fun answer _ => hpost answer⟩

/-- **An expression** comes down to steps that keep to the discipline. -/
theorem evaluates {expr : Node} (hexpr : D.expression expr) :
    (D.regime verbosity allowed).Evaluates () D.value expr := by
  have hparts := h.expression hexpr
  cases expr with
  | number v | string v => exact hparts
  | ident name => exact regime_keeps hstops (h.keeps_get hparts)
  | assign target value =>
    exact ⟨hparts.2, fun v hv =>
      ⟨hv, regime_keeps hstops (h.keeps_update hparts.1 fun s key hs => hs.assign hv)⟩⟩
  | arith op left right =>
    exact ⟨hparts.1, hparts.2, fun a b ha hb => regime_keeps hstops (h.keeps_arith op ha hb)⟩
  | comparison op left right => exact h.evaluates_comparison hstops hparts.1 hparts.2.1 hparts.2.2
  | call callee args => exact ⟨hparts.1, hparts.2, fun v hv => hv⟩
  | _ => exact hparts.elim

/-- **A condition**: a comparison, or an expression whose value answers. -/
theorem evaluates_condition {condition : Node} (hcondition : D.condition condition) :
    (D.regime verbosity allowed).Evaluates () D.answer condition := by
  have hparts := h.condition hcondition
  cases condition with
  | comparison op left right => exact h.evaluates_comparison hstops hparts.1 hparts.2.1 hparts.2.2
  | _ => exact (h.evaluates hstops hparts.1).imp hparts.2

/-- **A statement.** -/
theorem executes (hnotes : D.TakesNotes verbosity allowed) {statement : Node} (hstatement : D.statement statement) :
    (D.regime verbosity allowed).Executes () statement := by
  have hparts := h.statement hstatement
  cases statement with
  | expression expr | ret expr => exact hparts
  | print expr => exact ⟨hparts, fun v hv => regime_keeps hstops (keeps_print hv)⟩
  | declare name init =>
    exact ⟨hparts.2, fun v hv => ⟨regime_keeps hstops (h.keeps_update hparts.1 fun s key hs => hs.declare hv),
      hnotes.note (.declared hparts.1 hv)⟩⟩
  | function name params body =>
    exact ⟨regime_keeps hstops (h.keeps_update hparts fun s key hs => hs.define (h.defines hstatement)),
      hnotes.noteDefined hstatement⟩
  | block statements => exact hparts
  | ifElse condition thenBlock elseBlock =>
    refine ⟨hparts.1, fun v hv => hnotes.note (.branched hv), hparts.2.1, hparts.2.2.imp_left ?_⟩
    rintro rfl
    rfl
  | whileLoop condition body => exact hparts
  | _ => exact hparts.elim

/-- **A call**: the arguments are bound in its frame. -/
theorem calls (hnotes : D.TakesNotes verbosity allowed) {name : Value} {args : List Value} (hname : D.name name)
    (hargs : ∀ v ∈ args, D.value v) : (D.regime verbosity allowed).Calls () name args where
  callee := by
    refine (regime_keeps hstops (h.keeps_callee hname args.length)).imp fun found hfound => ⟨hfound.2, ?_⟩
    refine (regime_keeps hstops (keeps_frameOf hfound.1 hargs)).imp fun frame hframe m hm => ?_
    exact { hm with scope := hm.scope.enter hframe }
  checkCalls := regime_keeps hstops (h.keeps_checkCalls hname)
  note := hnotes.note (.called hname hargs)

/-- **The regime of a lawful discipline is lawful.** -/
theorem lawful_regime (hnotes : D.TakesNotes verbosity allowed) : (D.regime verbosity allowed).Lawful where
  none := h.none
  tooDeep := hstops _ rfl
  iterationLimit := hstops _ (h.error (.iterationLimit _))
  iterated _ := hnotes.iterated
  expression := h.evaluates hstops
  condition := h.evaluates_condition hstops
  statement := h.executes hstops hnotes
  calls := h.calls hstops hnotes
  leave hm := { hm with scope := hm.scope.leave }

end Lawful

/-! ## Programs -/

namespace Lawful

variable (h : D.Lawful verbosity)

include h

theorem runAll {statements : List Node} (hstatements : ∀ statement ∈ statements, D.statement statement) :
    Ensures (D.Holds verbosity) (Machine.runAll statements) D.value fun failure => ∃ e, failure = .error e := by
  have hregime := h.lawful_regime (fun _ => id) h.takesNotes
  refine hregime.runAll (c := ()) hstatements (ensures_note (.inr .ofString))
    (fun e he => ⟨ensures_note (h.note (.stopped he)), e, rfl⟩) ⟨ensures_note (.inr .ofString), _, rfl⟩ ?_
  intro failure hfailure herror hdeep
  cases failure with
  | error e => exact absurd rfl (herror e)
  | fault cause => exact absurd (congrArg RunFailure.fault hfailure) hdeep
  | unwritable cause => exact hfailure.elim

/-- **The run of a program** under a discipline gives a value or ends in an error of the language. Want of levels is
    one here. -/
theorem run {statements : List Node} (hstatements : ∀ statement ∈ statements, D.statement statement) :
    Ensures (D.Holds verbosity) (Machine.run (.program statements)) D.value fun failure => ∃ e, failure = .error e := by
  have hstarted : (Note.started statements.length).line.SurrogateFree :=
    .append (.append .ofString (Numeral.surrogateFree_ofNat _)) .ofString
  refine (ensures_note (.inr hstarted)).bind fun _ _ => ?_
  exact (h.runAll hstatements).closingLog fun _ hm => { hm with }

end Lawful

end Discipline

end LineaLang
