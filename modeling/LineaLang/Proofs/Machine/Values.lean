import LineaLang.Proofs.Machine.Events
import LineaLang.Proofs.Machine.Safety
import LineaLang.Proofs.Number.Range
import LineaLang.Proofs.Parsing.Trees
import LineaLang.Proofs.Tree.Within

/-!
# `LineaLang.Proofs.Machine.Values` — the values of a run

A program computes with numbers, strings and the absent value. Truth values are those of conditions only, and nothing
binds, passes on, prints or returns them. A number is a literal of the program or was calculated, and what is calculated
is in range. So if the literals are finite and in range all numbers are: no infinity comes about, and nothing that is no
number.

This is known of the whole run and not only of its end: of all machines on the way, of all arguments, and of the value
of every expression. The discipline of well-formed trees gives the invariant. A log that does not take a note may end
the run, but it changes no value.

## Contents

* `Machine.Holding`, `Event.Fits`, `Machine.RunsOn` — runs all of whose values have a property.
* `Discipline.regimeOfValues` — what literals and arithmetic make sure of, at any verbosity.
* `Machine.runsOn_of_rules` — the run of a program, if they make sure of a property.
* `Value.IsLiteralOrInRange`, `values_in_domain_and_range` — the domain and the range of values.
-/

namespace LineaLang

open Run Meaning

/-! ## Values of a run -/

/-- **A machine that holds only values with a property**, in its globals, its frames and its output. -/
structure Machine.Holding (V : Value → Prop) (m : Machine) : Prop where
  globals : m.scope.globals.All V
  frames : ∀ frame ∈ m.scope.frames, frame.All V
  output : ∀ v ∈ m.output, V v

/-- **An event in which all values have a property**, but for those of conditions, which are truth values. -/
def Event.Fits (V : Value → Prop) : Event → Prop
  | .reached m => m.Holding V
  | .evaluated (.comparison ..) v => ∃ b, v = .bool b
  | .evaluated _ v => V v
  | .passed args => ∀ v ∈ args, V v
  | .gave v => V v
  | .signalled signal => V signal.value

/-- **The run of a program on a new machine in which all values have a property**: in all events that it meets, in the
    machine that it leaves, and in what it gives. -/
structure Machine.RunsOn (V : Value → Prop) (verbosity : Nat) (program : Node) : Prop where
  met : ∀ {statements started e}, program.statements? = some statements →
    Run.note (.started statements.length) (.start verbosity) = .ok () started →
    Meets statements started e → e.Fits V
  left : ((Machine.run program).left (.start verbosity)).Holding V
  delivered : ∀ {v m}, Machine.run program (.start verbosity) = .ok v m → V v

/-- A literal number is a value of the language proper. -/
theorem Value.IsLiteralNumber.inDomain {v : Value} (h : v.IsLiteralNumber) : v.InDomain := by
  cases v with
  | int _ | float _ => trivial
  | none | bool _ | str _ | list _ | dict _ => cases h

/-- It is bounded if it is finite and in range. -/
theorem Value.IsLiteralNumber.bounded {v : Value} (h : v.IsLiteralNumber)
    (hfinite : ∀ x, Calculation.Number.ofValue? v = some x → x.IsFinite ∧ x.inRange = true) : v.Bounded := by
  cases v with
  | int n => exact Value.bounded_toValue (hfinite _ rfl).1 (hfinite _ rfl).2
  | float d => exact Value.bounded_toValue (hfinite _ rfl).1 (hfinite _ rfl).2
  | none | bool _ | str _ | list _ | dict _ => cases h

section

variable {L V : Value → Prop} {verbosity : Nat}

/-- A machine in order holds only values that are known. -/
theorem Discipline.Holds.holding {D : Discipline} {m : Machine} (h : D.Holds verbosity m) : m.Holding D.value where
  globals := h.scope.globals
  frames := h.scope.frames
  output v hv := by
    obtain ⟨emission, hmem, hvalue⟩ := List.mem_filterMap.mp hv
    cases emission with
    | value v' =>
      cases hvalue
      exact h.output _ (List.mem_reverse.mp hmem)
    | note n => cases hvalue

/-! ## Runs -/

/-- **The regime of well-formed trees at any verbosity**: a run may also end at a note that is not written. -/
def Discipline.regimeOfValues (L V : Value → Prop) (verbosity : Nat) : Regime Unit :=
  (wellFormed L V).regime verbosity fun e => (wellFormed L V).Stops e ∨ ∃ cause, e = .unwritable cause

theorem Discipline.lawful_regimeOfValues (hrules : ValueRules L V) : (regimeOfValues L V verbosity).Lawful := by
  -- At verbosity zero no value is noted, so nothing has to be known of strings.
  have hlaw : (wellFormed L V).Lawful 0 := lawful_wellFormed hrules (.inl Nat.two_pos)
  refine hlaw.lawful_regime (fun _ => .inl) (takesAnyNotes (fun cause => .inr ⟨cause, rfl⟩) ?_)
  intro name params body hstatement
  rcases hstatement with hstatement | ⟨_, heq, -⟩
  · cases hstatement with
    | function hname hparams _ =>
      obtain ⟨joined, hjoined, -⟩ :=
        Note.exists_defined hname.surrogateFree_plain fun param hmem => (hparams param hmem).exists_text
      exact ⟨joined, hjoined⟩
  · cases heq

/-- In well-formed trees only comparisons are conditions. -/
theorem Discipline.admits_fits : (regimeOfValues L V verbosity).Admits (Event.Fits V) where
  reached hm := hm.holding
  expression hexpr hv := by
    cases hexpr <;> exact hv
  condition hcondition hv := by
    cases hcondition
    exact hv
  passed := id
  gave := id
  signalled := id

/-- **What literals and arithmetic make sure of** holds of all values of a program's run. -/
theorem Machine.runsOn_of_rules (hrules : ValueRules L V) {program : Node} (hprogram : program.IsProgram L)
    (verbosity : Nat) : Machine.RunsOn V verbosity program := by
  obtain ⟨statements, rfl, hstatements⟩ := hprogram
  have hregime : (Discipline.regimeOfValues L V verbosity).Lawful := Discipline.lawful_regimeOfValues hrules
  have hall : ∀ statement ∈ statements, (Discipline.wellFormed L V).statement statement :=
    fun statement hmem => .inl (hstatements statement hmem)
  have hnote : ∀ n, Ensures ((Discipline.wellFormed L V).Holds verbosity) (Run.note n) (fun _ => True) fun _ => True :=
    fun n => Discipline.ensures_anyNote (fun _ => trivial) n
  have hrun : Ensures ((Discipline.wellFormed L V).Holds verbosity) (Machine.run (.program statements)) V
      fun _ => True := by
    refine (hnote _).bind fun _ _ => Ensures.closingLog ?_ fun _ hm => { hm with }
    exact hregime.runAll (c := ()) hall (hnote _) (fun _ _ => ⟨hnote _, trivial⟩) ⟨hnote _, trivial⟩
      fun _ _ _ _ => trivial
  have hend := hrun _ Discipline.holds_start
  refine ⟨?_, ?_, ?_⟩
  · intro _ started e hstatements' hstarted he
    cases hstatements'
    have hin : (Discipline.wellFormed L V).Holds verbosity started := by
      have hfirst := hnote (.started statements.length) _ Discipline.holds_start
      rw [hstarted] at hfirst
      cases hfirst with
      | ok hm _ => exact hm
    have halarm : ¬ (Discipline.regimeOfValues L V verbosity).allowed (.fault .notAProgram) := by
      rintro (hstops | ⟨cause, heq⟩)
      · cases hstops
      · cases heq
    exact hregime.of_meets (c := ()) Discipline.admits_fits halarm hin hall he
  · unfold Run.left
    generalize Machine.run (.program statements) (.start verbosity) = outcome at hend ⊢
    cases hend with
    | ok hm _ => exact hm.holding
    | error hm _ => exact hm.holding
  · intro v m heq
    rw [heq] at hend
    cases hend with
    | ok _ hv => exact hv

end

/-! ## Domain and range -/

/-- **What is known of all values** of a program: they are of the language proper, and a number is a literal of the
    program or in range. -/
def Value.IsLiteralOrInRange (program : Node) (v : Value) : Prop :=
  v.InDomain ∧ (v.isNumber = true → Node.Within Node.parts (.number v) program ∨ v.inRange? = .ok true)

/-- **Domain and range of values, all along a run.** Whatever is bound, passed on, printed, returned or delivered is a
    number, a string or the absent value, and a number is a literal of the program or in range; only conditions have
    truth values. If the literals are finite and in range, all numbers are finite and bounded by the greatest double. -/
theorem values_in_domain_and_range [CharacterNames] {tokens : List Token} {program : Node}
    (hspelled : ∀ t ∈ tokens, t.WellSpelled) (h : Node.ofTokens tokens = .ok program) (verbosity : Nat) :
    Machine.RunsOn (Value.IsLiteralOrInRange program) verbosity program ∧
    ((∀ v x, Node.Within Node.parts (.number v) program → Calculation.Number.ofValue? v = some x →
        x.IsFinite ∧ x.inRange = true) →
      Machine.RunsOn Value.Bounded verbosity program) := by
  have hprogram := Node.isProgram_of_tokens hspelled h
  constructor
  · have hliterals := hprogram.and (Node.allLiterals_of_within hprogram.all_grammatical
      (Q := Value.IsLiteralOrInRange program) (fun v hv hwithin => ⟨hv.inDomain, fun _ => .inl hwithin⟩)
      fun _ _ => ⟨trivial, nofun⟩)
    refine Machine.runsOn_of_rules ⟨⟨trivial, nofun⟩, fun _ h => h.2, fun h => h.2, ?_⟩ hliterals verbosity
    exact fun _ _ h => ⟨Value.inDomain_arith h, fun hnumber => .inr (Value.inRange_arith h hnumber)⟩
  · intro hfinite
    have hliterals := hprogram.and (Node.allLiterals_of_within hprogram.all_grammatical (Q := Value.Bounded)
      (fun v hv hwithin => hv.bounded (hfinite v · hwithin)) fun _ _ => trivial)
    exact Machine.runsOn_of_rules ⟨trivial, fun _ h => h.2, fun h => h.2, Value.bounded_arith⟩ hliterals verbosity

-- No character is called by its name from here on.
attribute [local instance] CharacterNames.unnamed

/-- The tokens of `print(2 * 3);`. -/
def printedProduct : List Token :=
  [⟨.printWord, "print", ⟨1, 1, 0⟩⟩, ⟨.lparen, "(", ⟨1, 6, 5⟩⟩, ⟨.number, "2", ⟨1, 7, 6⟩⟩, ⟨.times, "*", ⟨1, 9, 8⟩⟩,
    ⟨.number, "3", ⟨1, 11, 10⟩⟩, ⟨.rparen, ")", ⟨1, 12, 11⟩⟩, ⟨.semi, ";", ⟨1, 13, 12⟩⟩]

/-- **A product that is printed**: it is bounded, also in the machine that the run meets at its end. -/
theorem printedProduct_bounded : ∃ (program : Node) (m : Machine), Node.ofTokens printedProduct = .ok program ∧
    Machine.RunsOn (Value.IsLiteralOrInRange program) 0 program ∧ m.consoleLines = [("6" : Text)] ∧
    m.Holding Value.Bounded := by
  have hscan : Token.scan "print(2 * 3);" = .ok printedProduct := rfl
  have hread : Node.ofTokens printedProduct =
      .ok (.program [.print (.arith .mul (.number (.int 2)) (.number (.int 3)))]) := rfl
  have hvalues := values_in_domain_and_range (Token.wellSpelled_of_scan hscan) hread 0
  have hbounded := hvalues.2 <| by
    have hliterals : Node.AllLiterals (fun v => v = .int 2 ∨ v = .int 3)
        (.program [.print (.arith .mul (.number (.int 2)) (.number (.int 3)))]) := by
      simp [Node.AllLiterals, Node.All, Node.AllOf, Node.ownLiteral]
    intro v x hwithin hx
    rcases Node.all_iff_within.mp hliterals _ hwithin v (List.mem_singleton_self _) with rfl | rfl
    · cases hx
      exact ⟨trivial, by decide +kernel⟩
    · cases hx
      exact ⟨trivial, by decide +kernel⟩
  have hlines : ((Machine.executeAll [.print (.arith .mul (.number (.int 2)) (.number (.int 3)))]).left
      (.start 0)).consoleLines = [("6" : Text)] := by decide +kernel
  exact ⟨_, _, hread, hvalues.1, hlines, hbounded.met rfl rfl (Machine.meets_left _ _)⟩

end LineaLang
