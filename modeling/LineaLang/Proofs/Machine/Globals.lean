import LineaLang.Proofs.Machine.Discipline
import LineaLang.Proofs.Machine.Frames
import LineaLang.Proofs.Tree.Within

/-!
# `LineaLang.Proofs.Machine.Globals` — globals change only through assignment

A parameter or a variable declared in a function lives in the frame of its call and dies with it. So what a run can
do to a global is seen from the trees alone: it must be the target of an assignment, in the tree that is run or in the
body of a function, or else a declaration that is executed while no call is open.

The difficulty is that a call executes a body that is no part of the tree at hand, and that declarations add bodies
as the run goes on. The invariant is therefore on the whole table of functions (`Machine.Spared`), and it keeps the
number of open calls, which tells a declaration of a local from that of a global. A body is executed in a frame, so of
a body only its assignments matter.

## Contents

* `Node.NeverAssigns`, `Node.NeverDeclares` — trees that do not assign to a key, or do not declare it.
* `Node.Spares` — trees that leave the global at a key alone, by the number of calls that are open.
* `Machine.Spared` — the invariant.
* `Regime.sparing`, `Regime.sparing_lawful` — the regime under which a global is spared.
* `Run.KeepsGlobal`, `globals_change_by_assignment` — what becomes of a global.
-/

namespace LineaLang

open Run Meaning

/-! ## Trees -/

namespace Node

/-- **An assignment to a key.** -/
def AssignsTo (key : Key) : Node → Prop
  | .assign target _ => Scope.key target = .ok key
  | _ => False

/-- **The declaration of a variable with a key.** -/
def DeclaresAt (key : Key) : Node → Prop
  | .declare name _ => Scope.key name = .ok key
  | _ => False

/-- **No assignment in a tree goes to a key**, neither outside nor inside the functions that it declares. -/
def NeverAssigns (key : Key) (node : Node) : Prop := ∀ n, Within parts n node → ¬ n.AssignsTo key

/-- **No variable with a key is declared in a tree** outside the functions that it declares. -/
def NeverDeclares (key : Key) (node : Node) : Prop := ∀ n, Within outerParts n node → ¬ n.DeclaresAt key

/-- **A function whose body does not assign to a key**, or no function at all. -/
def BodyNeverAssigns (key : Key) : Node → Prop
  | .function _ _ body => body.NeverAssigns key
  | _ => True

/-- **A tree that leaves a global alone** where `depth` calls are open. Inside a call declarations make locals. -/
structure Spares (key : Key) (depth : Nat) (node : Node) : Prop where
  assigns : node.NeverAssigns key
  declares : depth = 0 → node.NeverDeclares key

variable {key : Key} {depth : Nat}

theorem NeverAssigns.part {part node : Node} (h : node.NeverAssigns key) (hpart : part ∈ node.parts) :
    part.NeverAssigns key := (forall_within.mp h).2 part hpart

/-- What is executed along with a tree leaves alone what the tree does. -/
theorem Spares.part {part node : Node} (h : node.Spares key depth) (hpart : part ∈ node.parts)
    (houter : part ∈ node.outerParts) : part.Spares key depth :=
  ⟨h.assigns.part hpart, fun hdepth => (forall_within.mp (h.declares hdepth)).2 part houter⟩

/-- **The body of a function** is executed inside a call. -/
theorem NeverAssigns.spares {node : Node} (h : node.NeverAssigns key) : node.Spares key (depth + 1) :=
  ⟨h, fun hdepth => absurd hdepth depth.succ_ne_zero⟩

end Node

/-! ## The invariant -/

/-- **A machine with a global that is spared**: it is bound to what it was, or unbound if it was; as many calls are
    open; and no function that can be called assigns to it. -/
structure Machine.Spared (key : Key) (held : Option Value) (depth : Nat) (m : Machine) : Prop where
  global : m.scope.globals.find? key = held
  depth_eq : m.scope.depth = depth
  functions : m.scope.functions.All (Node.BodyNeverAssigns key)

variable {key : Key} {held : Option Value} {depth : Nat}

namespace Machine.Spared

variable {m : Machine}

/-- Whatever leaves the scope alone leaves the global alone. -/
theorem of_scope_eq {m' : Machine} (h : m.Spared key held depth) (hscope : m'.scope = m.scope) :
    m'.Spared key held depth := by
  obtain ⟨hglobal, hdepth, hfunctions⟩ := h
  rw [← hscope] at hglobal hdepth hfunctions
  exact ⟨hglobal, hdepth, hfunctions⟩

theorem setGlobal (h : m.Spared key held depth) {other : Key} (hother : other ≠ key) (v : Value) :
    ({ m with scope := m.scope.setGlobal other v } : Machine).Spared key held depth where
  global := (Table.find?_insert_of_ne hother.symm _ _).trans h.global
  depth_eq := h.depth_eq
  functions := h.functions

theorem setLocal (h : m.Spared key held depth) (other : Key) (v : Value) :
    ({ m with scope := m.scope.setLocal other v } : Machine).Spared key held depth where
  global := by
    rw [← h.global]
    unfold Scope.setLocal
    split <;> rfl
  depth_eq := (m.scope.keeps_setLocal other v).depth.trans h.depth_eq
  functions := by
    have hsame : (m.scope.setLocal other v).functions = m.scope.functions := by
      unfold Scope.setLocal
      split <;> rfl
    rw [hsame]
    exact h.functions

/-- **An assignment to another key**, of a local or of a global. -/
theorem assign (h : m.Spared key held depth) {other : Key} (hother : other ≠ key) (v : Value) :
    ({ m with scope := m.scope.assign other v } : Machine).Spared key held depth := by
  unfold Scope.assign
  split
  · exact h.setLocal other v
  · exact h.setGlobal hother v

/-- **A declaration**: where a call is open it makes a local, whatever the key. -/
theorem declare (h : m.Spared key held depth) {other : Key} (hother : depth = 0 → other ≠ key) (v : Value) :
    ({ m with scope := m.scope.declare other v } : Machine).Spared key held depth := by
  unfold Scope.declare
  split
  · rename_i hnone
    have hdepth : depth = 0 := h.depth_eq.symm.trans (List.length_eq_zero_iff.mpr (List.isEmpty_iff.mp hnone))
    exact h.setGlobal (hother hdepth) v
  · exact h.setLocal other v

theorem define (h : m.Spared key held depth) (other : Key) {function : Node}
    (hfunction : function.BodyNeverAssigns key) :
    ({ m with scope := m.scope.define other function } : Machine).Spared key held depth :=
  { h with functions := h.functions.insert other hfunction }

theorem enter (h : m.Spared key held depth) (frame : Table Value) :
    ({ m with scope := m.scope.enter frame } : Machine).Spared key held (depth + 1) :=
  { h with depth_eq := congrArg Nat.succ h.depth_eq }

theorem leave (h : m.Spared key held (depth + 1)) :
    ({ m with scope := m.scope.leave } : Machine).Spared key held depth where
  global := h.global
  depth_eq := by
    show m.scope.frames.tail.length = depth
    rw [List.length_tail]
    exact Nat.sub_eq_of_eq_add h.depth_eq
  functions := h.functions

end Machine.Spared

/-! ## Steps -/

/-- **A run that leaves a global alone**, however it ends. -/
abbrev Run.Spares {α : Type} (key : Key) (held : Option Value) (depth : Nat) (r : Run α) : Prop :=
  Ensures (Machine.Spared key held depth) r (fun _ => True) fun _ => True

namespace Run.Spares

variable {α β : Type}

theorem pure (a : α) : Spares key held depth (pure a) := Ensures.pure trivial

theorem throw (e : RunFailure) : Spares (α := α) key held depth (throw e) := Ensures.throw trivial

theorem bind {r : Run α} {f : α → Run β} (hr : Spares key held depth r) (hf : ∀ a, Spares key held depth (f a)) :
    Spares key held depth (r >>= f) := Ensures.bind hr fun a _ => hf a

/-- What leaves the scope alone leaves globals alone. -/
theorem of_scope {r : Run α} (h : ∀ m, (r.left m).scope = m.scope) : Spares key held depth r := by
  intro m hm
  have hscope := h m
  unfold Run.left at hscope
  generalize r m = outcome at hscope ⊢
  cases outcome with
  | ok a m' => exact .ok (hm.of_scope_eq hscope) trivial
  | error e m' => exact .error (hm.of_scope_eq hscope) trivial

theorem note (n : Note) : Spares key held depth (note n) := of_scope (scope_left_note n)

theorem print (v : Value) : Spares key held depth (Run.print v) := of_scope (scope_left_print v)

theorem query (read : Scope → Except RunFailure α) : Spares key held depth (Run.query read) := by
  refine of_scope fun m => ?_
  unfold Run.left Run.query
  cases read m.scope <;> rfl

theorem noteDefined (name : Value) (params : List Value) : Spares key held depth (Meaning.noteDefined name params) :=
  of_scope fun m => ScopeInvariant.preserves_noteDefined (· = m.scope) name params m rfl

theorem checkCalls (name : Value) : Spares key held depth (Meaning.checkCalls name) :=
  of_scope fun m => ScopeInvariant.preserves_checkCalls (· = m.scope) name m rfl

theorem ofCalculation (calculated : Except RuntimeError α) :
    Spares key held depth (Meaning.ofCalculation calculated) := by
  cases calculated with
  | ok a => exact .pure a
  | error e => exact .throw _

/-- **A change of the scope at the key of a name**, if the change at that key does no harm. -/
theorem update {name : Value} {change : Scope → Key → Scope}
    (h : ∀ other (m : Machine), Scope.key name = .ok other → m.Spared key held depth →
      Machine.Spared key held depth { m with scope := change m.scope other }) :
    Spares key held depth (Run.update fun s => do return change s (← Scope.key name)) := by
  intro m hm
  unfold Run.update
  cases hkey : Scope.key name with
  | error e => exact .error hm trivial
  | ok other => exact .ok (h other m hkey hm) trivial

/-- **The function that is called** does not assign to the global either. -/
theorem callee (name : Value) (count : Nat) :
    Ensures (Machine.Spared key held depth) (Meaning.callee name count)
      (fun found => found.2.NeverAssigns key) fun _ => True := by
  unfold Meaning.callee
  have hfind : Ensures (Machine.Spared key held depth) (Run.query (·.callee name))
      (Node.BodyNeverAssigns key) fun _ => True := by
    intro m hm
    unfold Run.query Scope.callee
    cases hkey : Scope.key name with
    | error e => exact .error hm trivial
    | ok other =>
      simp only [Bind.bind, Except.bind]
      cases hfind : m.scope.functions.find? other with
      | none => exact .error hm trivial
      | some function => exact .ok hm (hm.functions.find? hfind)
  refine hfind.bind fun function hfunction => ?_
  cases function with
  | function _ params body =>
    show Ensures _ (if count = params.length then _ else _) _ _
    split
    · exact .pure hfunction
    · exact .throw trivial
  | _ => exact .throw trivial

end Run.Spares

/-! ## The regime -/

/-- **The regime under which a global is spared**, by the number of calls that are open. Any values may come by, and any
    reason to stop is allowed. -/
def Regime.sparing (key : Key) (held : Option Value) : Regime Nat where
  inv := Machine.Spared key held
  allowed _ := True
  value _ := True
  answer _ := True
  name _ := True
  expression := Node.Spares key
  condition := Node.Spares key
  statement := Node.Spares key
  inside := Nat.succ

namespace Regime

/-- The parts of a tree that are executed where it is. -/
theorem spares_parts {node : Node} (h : node.Spares key depth) (houter : node.outerParts = node.parts) :
    ∀ part ∈ node.parts, part.Spares key depth := fun _ hpart => h.part hpart (houter ▸ hpart)

theorem sparing_evaluates {expr : Node} (h : expr.Spares key depth) :
    (sparing key held).Evaluates depth (fun _ => True) expr := by
  have hparts := spares_parts h
  cases expr with
  | number v | string v => trivial
  | ident name => exact Run.Spares.query (·.get name)
  | assign target value =>
    have htarget : ¬ (Node.assign target value).AssignsTo key := h.assigns _ .self
    refine ⟨hparts rfl _ (List.mem_singleton_self _), fun v _ => ⟨trivial, ?_⟩⟩
    exact Run.Spares.update fun other m hother hm => hm.assign (fun heq => htarget (heq ▸ hother)) v
  | arith op left right =>
    obtain ⟨hleft, hright⟩ := List.forall_mem_cons.mp (hparts rfl)
    exact ⟨hleft, List.forall_mem_singleton.mp hright, fun _ _ _ _ => Run.Spares.ofCalculation _⟩
  | comparison op left right =>
    obtain ⟨hleft, hright⟩ := List.forall_mem_cons.mp (hparts rfl)
    exact ⟨hleft, List.forall_mem_singleton.mp hright, fun _ _ _ _ => Run.Spares.ofCalculation _⟩
  | call callee args => exact ⟨trivial, hparts rfl, fun _ => id⟩
  | _ => trivial

theorem sparing_executes {statement : Node} (h : statement.Spares key depth) :
    (sparing key held).Executes depth statement := by
  have hparts := spares_parts h
  cases statement with
  | expression expr | ret expr => exact hparts rfl _ (List.mem_singleton_self _)
  | print expr => exact ⟨hparts rfl _ (List.mem_singleton_self _), fun v _ => Run.Spares.print v⟩
  | declare name init =>
    have hname : depth = 0 → ¬ (Node.declare name init).DeclaresAt key := fun hdepth => h.declares hdepth _ .self
    refine ⟨hparts rfl _ (List.mem_singleton_self _), fun v _ => ⟨?_, Run.Spares.note _⟩⟩
    exact Run.Spares.update fun other m hother hm => hm.declare (fun hdepth heq => hname hdepth (heq ▸ hother)) v
  | function name params body =>
    have hbody : body.NeverAssigns key := h.assigns.part (List.mem_singleton_self body)
    exact ⟨Run.Spares.update fun other m _ hm => hm.define other hbody, Run.Spares.noteDefined name params⟩
  | block statements => exact hparts rfl
  | ifElse condition thenBlock elseBlock =>
    obtain ⟨hcondition, hbranches⟩ := List.forall_mem_cons.mp (hparts rfl)
    obtain ⟨hthen, helse⟩ := List.forall_mem_cons.mp hbranches
    exact ⟨hcondition, fun _ _ => Run.Spares.note _, hthen, .inr (List.forall_mem_singleton.mp helse)⟩
  | whileLoop condition body =>
    obtain ⟨hcondition, hbody⟩ := List.forall_mem_cons.mp (hparts rfl)
    exact ⟨hcondition, List.forall_mem_singleton.mp hbody⟩
  | _ => trivial

/-- **The regime is lawful.** In a call the body is executed in a frame of its own, where declarations do no harm. -/
theorem sparing_lawful (key : Key) (held : Option Value) : (sparing key held).Lawful where
  none := trivial
  tooDeep := trivial
  iterationLimit := trivial
  iterated _ _ := Run.Spares.note _
  expression := sparing_evaluates
  condition := sparing_evaluates
  statement := sparing_executes
  calls {_ name args} _ _ :=
    { callee := (Run.Spares.callee name args.length).imp fun _ hbody =>
        ⟨hbody.spares, (Run.Spares.query _).imp fun frame _ _ hm => hm.enter frame⟩
      checkCalls := Run.Spares.checkCalls name
      note := Run.Spares.note _ }
  leave hm := hm.leave

end Regime

/-! ## Programs -/

/-- The run of a program leaves alone what its statements do. -/
theorem spares_run {program : Node} (h : program.Spares key depth) :
    Run.Spares key held depth (Machine.run program) := by
  have hstatements : ∀ statements, program.statements? = some statements →
      ∀ statement ∈ statements, statement.Spares key depth := by
    intro statements heq statement hmem
    cases program with
    | program _ | block _ =>
      cases heq
      exact h.part hmem hmem
    | _ => cases heq
  unfold Machine.run
  cases hprogram : program.statements? with
  | none => exact .throw _
  | some statements =>
    refine (Run.Spares.note _).bind fun _ => Ensures.closingLog ?_ fun _ hm => hm.of_scope_eq rfl
    exact (Regime.sparing_lawful key held).runAll (hstatements statements hprogram) (Run.Spares.note _)
      (fun _ _ => ⟨Run.Spares.note _, trivial⟩) ⟨Run.Spares.note _, trivial⟩ fun _ _ _ _ => trivial

/-! ## What becomes of a global -/

/-- **A run that keeps a global**: however the run ends, the key is bound in the globals to what it was, and unbound if
    it was. -/
def Run.KeepsGlobal {α : Type} (key : Key) (m : Machine) (r : Run α) : Prop :=
  (r.left m).scope.globals.find? key = m.scope.globals.find? key

theorem Run.keepsGlobal {α : Type} {r : Run α} {m : Machine} {post : α → Prop}
    (h : (Regime.sparing key (m.scope.globals.find? key)).Keeps m.scope.depth r post)
    (hfunctions : m.scope.functions.All (Node.BodyNeverAssigns key)) : r.KeepsGlobal key m := by
  have hend := h m ⟨rfl, rfl, hfunctions⟩
  unfold Run.KeepsGlobal Run.left
  generalize r m = outcome at hend ⊢
  cases hend with
  | ok hm' _ => exact hm'.global
  | error hm' _ => exact hm'.global

/-- **Globals change only through assignment.** Where no function assigns to a key, the global at that key survives
    every call, and every tree that does not assign to it either and, if no call is open, does not declare it outside
    the functions that it declares. -/
theorem globals_change_by_assignment {key : Key} {m : Machine}
    (hfunctions : m.scope.functions.All (Node.BodyNeverAssigns key)) :
    (∀ node, node.Spares key m.scope.depth →
      (∀ levels, ((withLevels levels).evaluate node).KeepsGlobal key m) ∧
      (∀ levels, ((withLevels levels).execute node).KeepsGlobal key m) ∧ (Machine.run node).KeepsGlobal key m) ∧
    (∀ nodes, (∀ node ∈ nodes, node.Spares key m.scope.depth) → ∀ levels,
      ((withLevels levels).evaluateAll nodes).KeepsGlobal key m ∧
      ((withLevels levels).executeAll nodes).KeepsGlobal key m) ∧
    (∀ condition body, condition.Spares key m.scope.depth → body.Spares key m.scope.depth →
      ∀ levels, ((withLevels levels).loop condition body).KeepsGlobal key m) ∧
    (∀ name args levels, ((withLevels levels).call name args).KeepsGlobal key m) := by
  have hmeaning := (Regime.sparing_lawful key (m.scope.globals.find? key)).governs_withLevels
  refine ⟨fun node h => ⟨fun levels => ?_, fun levels => ?_, ?_⟩, fun nodes h levels => ⟨?_, ?_⟩,
    fun condition body hcondition hbody levels => ?_, fun name args levels => ?_⟩
  · exact Run.keepsGlobal ((hmeaning levels).evaluate h) hfunctions
  · exact Run.keepsGlobal ((hmeaning levels).execute h) hfunctions
  · exact Run.keepsGlobal (spares_run h) hfunctions
  · exact Run.keepsGlobal ((hmeaning levels).evaluateAll h) hfunctions
  · exact Run.keepsGlobal ((hmeaning levels).executeAll h) hfunctions
  · exact Run.keepsGlobal ((hmeaning levels).loop hcondition hbody) hfunctions
  · exact Run.keepsGlobal ((hmeaning levels).call trivial fun _ _ => trivial) hfunctions

/-- `func f(x) { let x = 1; y = x / 0; }` -/
def shadowingBody : Node :=
  .block [.declare (.str "x") (.number (.int 1)),
    .expression (.assign (.str "y") (.arith .div (.ident (.str "x")) (.number (.int 0))))]

/-- A machine with a global `x` and a function that has a parameter and a variable of that name. -/
def shadowing : Machine :=
  { Machine.start 0 with
    scope :=
      { globals := Table.empty.insert (.str "x") (.int 5)
        functions := Table.empty.insert (.str "f") (.function (.str "f") [.str "x"] shadowingBody)
        frames := [] } }

/-- **A call that fails** behind the declaration of a local: the global of the same name is still there. -/
theorem shadowing_keepsGlobal :
    ((Machine.run (.program [.expression (.call (.str "f") [.number (.int 2)])])).left shadowing).scope.globals.find?
      (.str "x") = some (.int 5) := by
  have hbody : shadowingBody.NeverAssigns (.str "x") := by
    have hname : Scope.key (.str "y") ≠ .ok (.str "x") := nofun
    refine Node.all_iff_within.mp ?_
    simp [shadowingBody, Node.All, Node.AllOf, Node.AssignsTo, hname]
  have hprogram : (Node.program [.expression (.call (.str "f") [.number (.int 2)])]).Spares (.str "x") 0 := by
    refine ⟨Node.all_iff_within.mp ?_, fun _ => ?_⟩
    · simp [Node.All, Node.AllOf, Node.AssignsTo]
    · have hone : ∀ {node part : Node}, ¬ node.DeclaresAt (.str "x") → node.outerParts = [part] →
          part.NeverDeclares (.str "x") → node.NeverDeclares (.str "x") := by
        intro node part hnode hparts hpart
        refine Node.forall_within.mpr ⟨hnode, ?_⟩
        rw [hparts]
        exact List.forall_mem_singleton.mpr hpart
      have hnumber : (Node.number (.int 2)).NeverDeclares (.str "x") :=
        Node.forall_within.mpr ⟨id, List.forall_mem_nil _⟩
      exact hone id rfl (hone id rfl (hone id rfl hnumber))
  exact ((globals_change_by_assignment (m := shadowing) (List.forall_mem_singleton.mpr hbody)).1 _ hprogram).2.2

end LineaLang
