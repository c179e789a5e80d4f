import LineaLang.Proofs.Programs

/-!
# `LineaLang.Proofs.Machine.Executable` — trees in which every place holds what is run there

A tree from a file may be odder than any that the grammar yields and still be run without harm: a comparison may be
printed, a body may be a single statement, a name may be a number and a literal any data at all. What does harm is a
node where a run expects one of another sort, a list or a dictionary for a name, and what cannot be noted, where it is:
names from verbosity one on, values from two on. A tree without these is *executable*, and its discipline is lawful.

## Contents

* `Value.Names`, `Value.NamesParameter` — the values that can be names.
* `Node.IsEvaluable`, `Node.IsExecutable` — the trees.
* `Discipline.executable`, `Discipline.lawful_executable` — their discipline.
* `Machine.run_executable` — the run of an executable program.
-/

namespace LineaLang

/-! ## Names -/

/-- **A value that can be a name**: it is no list and no dictionary, and it can be noted, if anything is. The note on an
    error may hold a name. -/
def Value.Names (verbosity : Nat) (name : Value) : Prop :=
  (∃ key, name.key? = .ok key) ∧ name.plain.IsLoggable 1 verbosity

/-- **A value that can be a parameter**: a name, which is a text if declarations of functions are noted. -/
def Value.NamesParameter (verbosity : Nat) (param : Value) : Prop :=
  param.Names verbosity ∧ (verbosity < 2 ∨ param.isText = true)

/-! ## Trees -/

namespace Node

section

variable (verbosity : Nat)

/-- **A node that is evaluated.** Literals may be any values that can be noted, if values are. -/
inductive IsEvaluable : Node → Prop where
  | number {v : Value} (h : v.display.IsLoggable 2 verbosity) : IsEvaluable (.number v)
  | string {v : Value} (h : v.display.IsLoggable 2 verbosity) : IsEvaluable (.string v)
  | ident {name : Value} (hname : name.Names verbosity) : IsEvaluable (.ident name)
  | assign {target : Value} {expr : Node} (htarget : target.Names verbosity) (hexpr : IsEvaluable expr) :
      IsEvaluable (.assign target expr)
  | arith (op : ArithOp) {left right : Node} (hleft : IsEvaluable left) (hright : IsEvaluable right) :
      IsEvaluable (.arith op left right)
  | comparison (op : CompareOp) {left right : Node} (hleft : IsEvaluable left) (hright : IsEvaluable right) :
      IsEvaluable (.comparison op left right)
  | call {callee : Value} {args : List Node} (hcallee : callee.Names verbosity)
      (hargs : ∀ arg ∈ args, IsEvaluable arg) : IsEvaluable (.call callee args)

/-- **A node that is executed.** Bodies and branches need not be blocks. -/
inductive IsExecutable : Node → Prop where
  | expression {expr : Node} (hexpr : IsEvaluable verbosity expr) : IsExecutable (.expression expr)
  | print {expr : Node} (hexpr : IsEvaluable verbosity expr) : IsExecutable (.print expr)
  | ret {expr : Node} (hexpr : IsEvaluable verbosity expr) : IsExecutable (.ret expr)
  | declare {name : Value} {init : Node} (hname : name.Names verbosity) (hinit : IsEvaluable verbosity init) :
      IsExecutable (.declare name init)
  | function {name : Value} {params : List Value} {body : Node} (hname : name.Names verbosity)
      (hparams : ∀ param ∈ params, param.NamesParameter verbosity) (hbody : IsExecutable body) :
      IsExecutable (.function name params body)
  | block {statements : List Node} (hstatements : ∀ statement ∈ statements, IsExecutable statement) :
      IsExecutable (.block statements)
  | ifThen {condition thenBlock : Node} (hcondition : IsEvaluable verbosity condition)
      (hthen : IsExecutable thenBlock) : IsExecutable (.ifElse condition thenBlock .absent)
  | ifElse {condition thenBlock elseBlock : Node} (hcondition : IsEvaluable verbosity condition)
      (hthen : IsExecutable thenBlock) (helse : IsExecutable elseBlock) :
      IsExecutable (.ifElse condition thenBlock elseBlock)
  | whileLoop {condition body : Node} (hcondition : IsEvaluable verbosity condition) (hbody : IsExecutable body) :
      IsExecutable (.whileLoop condition body)

end

end Node

/-! ## The discipline -/

/-- **What arithmetic gives can be noted** if its operands can. -/
theorem Calculation.isLoggable_display_arith {verbosity : Nat} {op : ArithOp} {a b v : Value}
    (ha : a.display.IsLoggable 2 verbosity) (hb : b.display.IsLoggable 2 verbosity)
    (h : Calculation.arith op a b = .ok v) : v.display.IsLoggable 2 verbosity := by
  unfold Calculation.arith at h
  split at h
  · cases h
    exact ha.append hb
  · split at h
    · split at h
      · cases h
      · split at h
        · rename_i r _
          split at h
          · cases h
            cases r with
            | int n => exact .inr (.of_isVisible (Numeral.isVisible_ofInt n))
            | float x => exact .inr (.of_isVisible x.isVisible_display)
          · cases h
        · cases h
    · cases h

namespace Discipline

/-- **The discipline of executable trees.** Values and names are any that can be noted, where they are noted. -/
def executable (verbosity : Nat) : Discipline where
  value v := v.display.IsLoggable 2 verbosity
  answer v := v.display.IsLoggable 2 verbosity
  name := Value.Names verbosity
  expression := Node.IsEvaluable verbosity
  condition := Node.IsEvaluable verbosity
  statement := Node.IsExecutable verbosity
  function node := node.IsExecutable verbosity ∧ ∃ name params body, node = .function name params body
  error e := verbosity < 1 ∨ e.Presentable

variable {verbosity : Nat}

theorem display_bool (b : Bool) : (Value.bool b).display.IsLoggable 2 verbosity := by
  cases b <;> exact .inr .ofString

theorem passes_executable {n : Note} (h : (executable verbosity).Notes n) : n.Passes verbosity := by
  by_cases hquiet : verbosity < 2
  · exact h.passes_of_quiet hquiet fun _ => id
  · have hlow : ¬ verbosity < 1 := by omega
    exact .inr (h.surrogateFree (fun _ hname => hname.2.resolve_left hlow) (fun _ hv => hv.resolve_left hquiet)
      (fun _ hv => hv.resolve_left hquiet) fun _ he => he.resolve_left hlow)

/-- **The discipline of executable trees is lawful.** -/
theorem lawful_executable (verbosity : Nat) : (executable verbosity).Lawful verbosity where
  none := .inr .ofString
  arith := Calculation.isLoggable_display_arith
  key hname := by
    obtain ⟨key, hkey⟩ := hname.1
    exact ⟨key, by rw [Scope.key, hkey]; rfl⟩
  error he := by
    by_cases hlow : verbosity < 1
    · exact .inl hlow
    · exact .inr (he.presentable fun _ hname => hname.2.resolve_left hlow)
  expression hexpr := by
    cases hexpr with
    | number h | string h => exact h
    | ident hname => exact hname
    | assign htarget hexpr => exact ⟨htarget, hexpr⟩
    | arith op hleft hright => exact ⟨hleft, hright⟩
    | comparison op hleft hright => exact ⟨hleft, hright, display_bool⟩
    | call hcallee hargs => exact ⟨hcallee, hargs⟩
  condition hcondition := by
    have hexpr := hcondition
    cases hcondition with
    | comparison op hleft hright => exact ⟨hleft, hright, display_bool⟩
    | _ => exact ⟨hexpr, fun _ => id⟩
  statement hstatement := by
    cases hstatement with
    | expression hexpr | print hexpr | ret hexpr => exact hexpr
    | declare hname hinit => exact ⟨hname, hinit⟩
    | function hname _ _ => exact hname
    | block hstatements => exact hstatements
    | ifThen hcondition hthen => exact ⟨hcondition, hthen, .inl rfl⟩
    | ifElse hcondition hthen helse => exact ⟨hcondition, hthen, .inr helse⟩
    | whileLoop hcondition hbody => exact ⟨hcondition, hbody⟩
  defines hstatement := ⟨hstatement, _, _, _, rfl⟩
  function hfunction := by
    obtain ⟨hstatement, name, params, body, rfl⟩ := hfunction
    cases hstatement with
    | function _ hparams hbody =>
      refine ⟨fun param hmem => ?_, hbody⟩
      obtain ⟨key, hkey⟩ := (hparams param hmem).1.1
      exact ⟨key, by rw [Scope.key, hkey]; rfl⟩
  note := passes_executable
  noteDefined {name params body} hstatement := by
    cases hstatement with
    | function hname hparams _ =>
      by_cases hquiet : verbosity < 2
      · exact .inl hquiet
      · have hlow : ¬ verbosity < 1 := by omega
        refine .inr (Note.exists_defined (hname.2.resolve_left hlow) fun param hmem => ?_)
        obtain ⟨⟨-, hfree⟩, htext⟩ := hparams param hmem
        cases param with
        | str text => exact ⟨text, rfl, hfree.resolve_left hlow⟩
        | none | bool _ | int _ | float _ | list _ | dict _ => exact absurd htext (by simp [hquiet, Value.isText])

end Discipline

/-- **The run of an executable program** gives a value or ends in an error of the language. -/
theorem Machine.run_executable {verbosity : Nat} {statements : List Node}
    (h : ∀ statement ∈ statements, statement.IsExecutable verbosity) :
    (∃ v m, Machine.run (.program statements) (.start verbosity) = .ok v m) ∨
      ∃ e m, Machine.run (.program statements) (.start verbosity) = .error (.error e) m := by
  have hrun := (Discipline.lawful_executable verbosity).run h _ Discipline.holds_start
  generalize Machine.run (.program statements) (.start verbosity) = outcome at hrun ⊢
  cases hrun with
  | @ok v m _ _ => exact .inl ⟨v, m, rfl⟩
  | @error failure m _ he =>
    obtain ⟨e, rfl⟩ := he
    exact .inr ⟨e, m, rfl⟩

end LineaLang
