import LineaLang.Proofs.Machine.Discipline
import LineaLang.Proofs.Tree.WellFormed

/-!
# `LineaLang.Proofs.Machine.Safety` — runs of well-formed trees

The discipline of the trees that the grammar yields. Names are words, conditions give truth values, and what has to be
known of the values is a property `V` that holds of the literals of the tree, of the absent value, and of what
arithmetic makes of values with the property (`ValueRules`). A machine is orderly if all that it has bound and printed
has the property, and its functions have well-formed declarations. The discipline is lawful, so a run of a well-formed
program leaves an orderly machine orderly, and stops with an error of the language if at all.

## Contents

* `ValueRules`, `Machine.Orderly` — the invariant.
* `Discipline.wellFormed`, `Discipline.lawful_wellFormed` — the discipline.
* `Machine.endsWell_run` — the run of a program.
-/

namespace LineaLang

/-! ## The invariant -/

/-- **What is known of all values** in a run: `L` is known of the literals of a tree, and `V` of what they and the
    absent value make by arithmetic. -/
structure ValueRules (L V : Value → Prop) : Prop where
  none : V .none
  number : ∀ {v}, v.IsLiteralNumber → L v → V v
  string : ∀ {text}, L (.str text) → V (.str text)
  arith : ∀ {op a b v}, V a → V b → Calculation.arith op a b = .ok v → V v

/-- **What a log takes of a run**: no values are noted, or none shows a surrogate. -/
def Value.Loggable (V : Value → Prop) (verbosity : Nat) : Prop := verbosity < 2 ∨ ∀ v, V v → v.display.SurrogateFree

section

variable (L V : Value → Prop)

/-- **An orderly scope**: what is bound are values with the property, and functions have well-formed
    declarations. -/
structure Scope.Orderly (s : Scope) : Prop where
  globals : s.globals.All V
  functions : s.functions.All fun node =>
    node.IsStatement L ∧ ∃ name params body, node = .function name params body
  frames : ∀ frame ∈ s.frames, frame.All V

/-- **An orderly machine**, whose verbosity stays what it is, and whose console takes any text. -/
structure Machine.Orderly (verbosity : Nat) (m : Machine) : Prop where
  scope : m.scope.Orderly L V
  verbosity_eq : m.verbosity = verbosity
  console_eq : m.console = .anyText
  output : ∀ v, .value v ∈ m.emissions → V v

/-! ## The discipline -/

/-- **The discipline of well-formed trees.** -/
def Discipline.wellFormed : Discipline where
  value := V
  answer v := ∃ b, v = .bool b
  name := Value.IsName
  expression := Node.IsExpression L
  condition := Node.IsCondition L
  statement node := node.IsStatement L ∨ node.IsBlock L
  function node := node.IsStatement L ∧ ∃ name params body, node = .function name params body
  error := RuntimeError.Presentable

end

variable {L V : Value → Prop} {verbosity : Nat}

theorem Value.IsName.key_eq {name : Value} (h : name.IsName) : ∃ key, Scope.key name = .ok key := by
  obtain ⟨word, rfl, -⟩ := h.exists_word
  exact ⟨.str word, rfl⟩

theorem Value.IsName.surrogateFree_plain {name : Value} (h : name.IsName) : name.plain.SurrogateFree := by
  obtain ⟨word, rfl, hword⟩ := h.exists_word
  exact surrogateFree_of_wordLexeme hword

theorem Value.IsName.exists_text {name : Value} (h : name.IsName) : ∃ text, name = .str text ∧ text.SurrogateFree := by
  obtain ⟨word, rfl, hword⟩ := h.exists_word
  exact ⟨word, rfl, surrogateFree_of_wordLexeme hword⟩

namespace Discipline

/-- The notes on a well-formed tree do no harm. -/
theorem passes_wellFormed (hlog : Value.Loggable V verbosity) {n : Note} (h : (wellFormed L V).Notes n) :
    n.Passes verbosity := by
  rcases hlog with hquiet | hdisplay
  · exact h.passes_of_quiet hquiet fun _ => .inr
  · refine .inr (h.surrogateFree (fun _ hname => hname.surrogateFree_plain) hdisplay ?_ fun _ => id)
    rintro _ ⟨b, rfl⟩
    cases b <;> exact .ofString

/-- **The discipline of well-formed trees is lawful.** -/
theorem lawful_wellFormed (hrules : ValueRules L V) (hlog : Value.Loggable V verbosity) :
    (wellFormed L V).Lawful verbosity where
  none := hrules.none
  arith := hrules.arith
  key hname := hname.key_eq
  error he := he.presentable fun _ hname => hname.surrogateFree_plain
  expression hexpr := by
    cases hexpr with
    | number hnumber hL => exact hrules.number hnumber hL
    | string hL => exact hrules.string hL
    | ident hname => exact hname
    | assign htarget hexpr => exact ⟨htarget, hexpr⟩
    | arith op hleft hright => exact ⟨hleft, hright⟩
    | call hcallee hargs => exact ⟨hcallee, hargs⟩
  condition hcondition := by
    cases hcondition with
    | comparison op hleft hright => exact ⟨hleft, hright, fun b => ⟨b, rfl⟩⟩
  statement hstatement := by
    have hblock : ∀ {statements : List Node}, (∀ statement ∈ statements, statement.IsStatement L) →
        (wellFormed L V).statement (.block statements) := fun h => .inr ⟨_, rfl, h⟩
    rcases hstatement with hstatement | ⟨statements, rfl, hstatements⟩
    · cases hstatement with
      | expression hexpr | print hexpr | ret hexpr => exact hexpr
      | declare hname hinit => exact ⟨hname, hinit⟩
      | function hname _ _ => exact hname
      | ifThen hcondition hthens => exact ⟨hcondition, hblock hthens, .inl rfl⟩
      | ifElse hcondition hthens helses => exact ⟨hcondition, hblock hthens, .inr (hblock helses)⟩
      | whileLoop hcondition hbody => exact ⟨hcondition, hblock hbody⟩
    · exact fun statement hmem => .inl (hstatements statement hmem)
  defines hstatement := by
    rcases hstatement with hstatement | ⟨_, heq, -⟩
    · exact ⟨hstatement, _, _, _, rfl⟩
    · cases heq
  function hfunction := by
    obtain ⟨hstatement, name, params, body, rfl⟩ := hfunction
    cases hstatement with
    | function _ hparams hbody => exact ⟨fun param hmem => (hparams param hmem).key_eq, .inr ⟨_, rfl, hbody⟩⟩
  note := passes_wellFormed hlog
  noteDefined {name params body} hstatement := by
    rcases hstatement with hstatement | ⟨_, heq, -⟩
    · cases hstatement with
      | function hname hparams _ =>
        exact .inr (Note.exists_defined hname.surrogateFree_plain fun param hmem => (hparams param hmem).exists_text)
    · cases heq

end Discipline

/-! ## Trees -/

/-- A machine is orderly if it is in order. -/
theorem Machine.orderly_iff {m : Machine} :
    m.Orderly L V verbosity ↔ (Discipline.wellFormed L V).Holds verbosity m :=
  ⟨fun h => ⟨⟨h.scope.globals, h.scope.functions, h.scope.frames⟩, h.verbosity_eq, h.console_eq, h.output⟩,
    fun h => ⟨⟨h.scope.globals, h.scope.functions, h.scope.frames⟩, h.verbosity_eq, h.console_eq, h.output⟩⟩

/-! ## Programs -/

namespace Machine

theorem orderly_start : (Machine.start verbosity).Orderly L V verbosity := orderly_iff.mpr Discipline.holds_start

/-- **The end of a program's run**: a value with the property, or an error of the language. Want of levels is an error
    of the language here. -/
abbrev EndsWell (L V : Value → Prop) (verbosity : Nat) (r : Run Value) : Prop :=
  Ensures (Machine.Orderly L V verbosity) r V fun failure => ∃ e, failure = .error e

/-- **The run of a program ends well** on every orderly machine. -/
theorem endsWell_run (hrules : ValueRules L V) (hlog : Value.Loggable V verbosity) {program : Node}
    (h : program.IsProgram L) : EndsWell L V verbosity (Machine.run program) := by
  obtain ⟨statements, rfl, hstatements⟩ := h
  have hrun := (Discipline.lawful_wellFormed (L := L) hrules hlog).run fun statement hmem =>
    .inl (hstatements statement hmem)
  exact hrun.mono (fun _ => orderly_iff) fun _ => id

end Machine

end LineaLang
