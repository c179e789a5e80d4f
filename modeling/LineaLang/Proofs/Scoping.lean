import LineaLang.Scope

/-!
# `LineaLang.Proofs.Scoping` — which binding a write reaches

A scope has two levels: the frame of the innermost call and the globals. An assignment goes to the frame if that binds
the name and to the globals otherwise, so where it goes depends on everything that has been done before. What can be
said of a history of operations is therefore said of its moments: a binding is as it was at the start, unless at some
moment of the history it was the one that a write went to, and then it is what a write made of it.

One operation has one of six effects (`Effect`), and each law of histories is an induction in which the effect of the
first operation is taken apart.

## Contents

* `Scope.Operation`, `Scope.after`, `Scope.afterAll` — histories; an operation that is refused changes nothing.
* `Scope.BindsInnermost`, `Scope.BindsGlobal` — where a write goes.
* `Scope.effect_after` — all that one operation can do.
* `Scope.Occurs` — what is so at some moment of a history.
* `Scope.FramesKept`, `Scope.framesKept_of_closes` — frames behind a history that closes what it opens.
* `Scope.global_afterAll` — globals behind any history.
* `Scope.two_levels` — the laws of single writes and of histories together.
-/

namespace LineaLang.Scope

variable {s s' : Scope} {key : Key} {name v : Value} {op : Operation} {ops : List Operation}

/-! ## Single writes -/

/-- **A name has been written**: its variable has the value, and every other variable is as it was, undefined if it
    was. -/
structure Binds (s : Scope) (name v : Value) (s' : Scope) : Prop where
  found : s'.get name = .ok v
  others : ∀ other, Scope.key other ≠ Scope.key name → s'.get other = s.get other

/-- **Nothing but the innermost frame is changed**, and there a key is bound to a value. -/
def ChangesInnermost (s : Scope) (key : Key) (v : Value) (s' : Scope) : Prop :=
  ∃ frame outer, s.frames = frame :: outer ∧ s' = { s with frames := frame.insert key v :: outer }

/-- **Nothing but the globals is changed**, and there a key is bound to a value. -/
def ChangesGlobal (s : Scope) (key : Key) (v : Value) (s' : Scope) : Prop :=
  s' = { s with globals := s.globals.insert key v }

theorem get_of_key (hname : Scope.key name = .ok key) (hlookup : s.lookup? key = some v) : s.get name = .ok v := by
  unfold get
  rw [hname]
  simp only [Bind.bind, Except.bind, hlookup]
  rfl

/-- What a name gives depends only on what its key finds. -/
theorem get_congr (h : ∀ key, Scope.key name = .ok key → s'.lookup? key = s.lookup? key) :
    s'.get name = s.get name := by
  unfold get
  cases hname : Scope.key name with
  | error e => rfl
  | ok key =>
    simp only [Bind.bind, Except.bind]
    rw [h key hname]

theorem Binds.of_lookup (hname : Scope.key name = .ok key) (hself : s'.lookup? key = some v)
    (hothers : ∀ other, other ≠ key → s'.lookup? other = s.lookup? other) : s.Binds name v s' where
  found := get_of_key hname hself
  others := by
    intro other hne
    refine get_congr fun otherKey hother => hothers otherKey ?_
    rintro rfl
    exact hne (hother.trans hname.symm)

/-- A frame hides the globals. -/
theorem ChangesInnermost.binds (hname : Scope.key name = .ok key) (h : s.ChangesInnermost key v s') :
    s.Binds name v s' := by
  obtain ⟨frame, outer, hframes, rfl⟩ := h
  refine Binds.of_lookup hname ?_ fun other hne => ?_
  · simp [lookup?, local?]
  · simp [lookup?, local?, hframes, Table.find?_insert_of_ne hne]

/-- The innermost frame comes first, and then the globals. -/
theorem lookup?_eq_or (s : Scope) (key : Key) :
    s.lookup? key = (s.local?.bind (·.find? key)).or (s.globals.find? key) := by
  unfold lookup?
  cases s.local?.bind (·.find? key) <;> rfl

/-- A global is seen where the innermost frame does not bind its key. -/
theorem ChangesGlobal.binds (hname : Scope.key name = .ok key) (hfree : s.isLocal key = false)
    (h : s.ChangesGlobal key v s') : s.Binds name v s' := by
  subst h
  have hlocal : s.local?.bind (·.find? key) = none := by
    obtain ⟨globals, functions, frames⟩ := s
    cases frames with
    | nil => rfl
    | cons frame outer => simpa [isLocal, Table.contains, local?] using hfree
  refine Binds.of_lookup hname ?_ fun other hne => ?_
  · rw [lookup?_eq_or]
    show (s.local?.bind (·.find? key)).or _ = some v
    rw [hlocal, Option.none_or, Table.find?_insert_self]
  · rw [lookup?_eq_or, lookup?_eq_or, Table.find?_insert_of_ne hne]
    rfl

theorem frames_ne_nil_of_isLocal (h : s.isLocal key = true) : s.frames ≠ [] := by
  intro hnil
  simp [isLocal, hnil] at h

theorem isLocal_of_frames_nil (h : s.frames = []) (key : Key) : s.isLocal key = false := by
  simp [isLocal, h]

theorem changesInnermost_setLocal (h : s.frames ≠ []) (key : Key) (v : Value) :
    s.ChangesInnermost key v (s.setLocal key v) := by
  obtain ⟨frame, outer, hframes⟩ := List.exists_cons_of_ne_nil h
  exact ⟨frame, outer, hframes, by simp [setLocal, hframes]⟩

theorem changesInnermost_assign (h : s.isLocal key = true) (v : Value) :
    s.ChangesInnermost key v (s.assign key v) := by
  unfold assign
  rw [if_pos h]
  exact changesInnermost_setLocal (frames_ne_nil_of_isLocal h) key v

theorem changesGlobal_assign (h : s.isLocal key = false) (v : Value) :
    s.ChangesGlobal key v (s.assign key v) := by
  unfold assign
  rw [h]
  rfl

theorem changesInnermost_declare (h : s.frames ≠ []) (key : Key) (v : Value) :
    s.ChangesInnermost key v (s.declare key v) := by
  unfold declare
  rw [if_neg (by simpa using h)]
  exact changesInnermost_setLocal h key v

theorem changesGlobal_declare (h : s.frames = []) (key : Key) (v : Value) :
    s.ChangesGlobal key v (s.declare key v) := by
  unfold declare
  rw [h]
  rfl

theorem set_of_key (hname : Scope.key name = .ok key) : s.set name v = .ok (s.assign key v) := by
  unfold set
  rw [hname]
  rfl

theorem declareName_of_key (hname : Scope.key name = .ok key) : s.declareName name v = .ok (s.declare key v) := by
  unfold declareName
  rw [hname]
  rfl

/-- An assignment binds its name, wherever it goes. -/
theorem binds_assign (hname : Scope.key name = .ok key) : s.Binds name v (s.assign key v) := by
  cases hlocal : s.isLocal key with
  | true => exact (changesInnermost_assign hlocal v).binds hname
  | false => exact (changesGlobal_assign hlocal v).binds hname hlocal

/-- A declaration binds its name, in a call and outside. -/
theorem binds_declare (hname : Scope.key name = .ok key) : s.Binds name v (s.declare key v) := by
  by_cases hframes : s.frames = []
  · exact (changesGlobal_declare hframes key v).binds hname (isLocal_of_frames_nil hframes key)
  · exact (changesInnermost_declare hframes key v).binds hname

/-! ## Operations -/

/-- **What can be done to a scope.** -/
inductive Operation where
  | set (name v : Value)
  | declare (name v : Value)
  | define (name : Value) (function : Node)
  | push (frame : Table Value)
  | pop

/-- The scope that an operation gives, unless it is refused because of its name or because no frame is open. -/
def Operation.perform? (s : Scope) : Operation → Option Scope
  | .set name v => (s.set name v).toOption
  | .declare name v => (s.declareName name v).toOption
  | .define name function => (s.defineName name function).toOption
  | .push frame => some (s.enter frame)
  | .pop => s.leave?.toOption

/-- **The scope after an operation**; one that is refused changes nothing. -/
def after (s : Scope) (op : Operation) : Scope := (op.perform? s).getD s

/-- **The scope after a history.** -/
def afterAll (s : Scope) (ops : List Operation) : Scope := ops.foldl after s

theorem afterAll_cons (s : Scope) (op : Operation) (ops : List Operation) :
    s.afterAll (op :: ops) = (s.after op).afterAll ops := rfl

/-- **A write to the innermost frame**: an assignment to what the frame binds, or a declaration in a call. -/
inductive BindsInnermost (s : Scope) (key : Key) (v : Value) : Operation → Prop where
  | set {name : Value} (hname : Scope.key name = .ok key) (hbound : s.isLocal key = true) :
      BindsInnermost s key v (.set name v)
  | declare {name : Value} (hname : Scope.key name = .ok key) (hopen : s.frames ≠ []) :
      BindsInnermost s key v (.declare name v)

/-- **A write to the globals**: an assignment to what the innermost frame does not bind, or a declaration while no
    frame is open. -/
inductive BindsGlobal (s : Scope) (key : Key) (v : Value) : Operation → Prop where
  | set {name : Value} (hname : Scope.key name = .ok key) (hfree : s.isLocal key = false) :
      BindsGlobal s key v (.set name v)
  | declare {name : Value} (hname : Scope.key name = .ok key) (hclosed : s.frames = []) :
      BindsGlobal s key v (.declare name v)

/-- **All that an operation can do.** -/
inductive Effect (s : Scope) : Operation → Scope → Prop where
  | innermost {op : Operation} {key : Key} {v : Value} {s' : Scope} (hop : s.BindsInnermost key v op)
      (h : s.ChangesInnermost key v s') : Effect s op s'
  | global {op : Operation} {key : Key} {v : Value} {s' : Scope} (hop : s.BindsGlobal key v op)
      (h : s.ChangesGlobal key v s') : Effect s op s'
  | defined (name : Value) (key : Key) (function : Node) : Effect s (.define name function) (s.define key function)
  | opened (frame : Table Value) : Effect s (.push frame) (s.enter frame)
  | closed {frame : Table Value} {outer : List (Table Value)} (hframes : s.frames = frame :: outer) :
      Effect s .pop { s with frames := outer }
  | refused {op : Operation} (hop : op.perform? s = none) : Effect s op s

/-- **Every operation has one of the effects.** -/
theorem effect_after (s : Scope) (op : Operation) : s.Effect op (s.after op) := by
  unfold after
  cases hop : op.perform? s with
  | none => exact .refused hop
  | some s' =>
    show s.Effect op s'
    cases op with
    | set name v =>
      cases hname : Scope.key name with
      | error e => simp [Operation.perform?, Scope.set, hname, Bind.bind, Except.bind, Except.toOption] at hop
      | ok key =>
        rw [Operation.perform?, set_of_key hname] at hop
        obtain rfl := Option.some.inj hop
        cases hlocal : s.isLocal key with
        | true => exact .innermost (.set hname hlocal) (changesInnermost_assign hlocal v)
        | false => exact .global (.set hname hlocal) (changesGlobal_assign hlocal v)
    | declare name v =>
      cases hname : Scope.key name with
      | error e => simp [Operation.perform?, declareName, hname, Bind.bind, Except.bind, Except.toOption] at hop
      | ok key =>
        rw [Operation.perform?, declareName_of_key hname] at hop
        obtain rfl := Option.some.inj hop
        by_cases hframes : s.frames = []
        · exact .global (.declare hname hframes) (changesGlobal_declare hframes key v)
        · exact .innermost (.declare hname hframes) (changesInnermost_declare hframes key v)
    | define name function =>
      cases hname : Scope.key name with
      | error e => simp [Operation.perform?, defineName, hname, Bind.bind, Except.bind, Except.toOption] at hop
      | ok key =>
        simp only [Operation.perform?, defineName, hname, Bind.bind, Except.bind] at hop
        obtain rfl := Option.some.inj hop
        exact .defined name key function
    | push frame =>
      obtain rfl := Option.some.inj hop
      exact .opened frame
    | pop =>
      cases hframes : s.frames with
      | nil => simp [Operation.perform?, leave?, hframes, Except.toOption] at hop
      | cons frame outer =>
        simp only [Operation.perform?, leave?, hframes, List.isEmpty_cons, Bool.false_eq_true, if_false,
          Except.toOption, Option.some.injEq] at hop
        obtain rfl := hop
        have hleave : s.leave = { s with frames := outer } := by simp [leave, hframes]
        rw [hleave]
        exact .closed hframes

/-! ## Histories -/

/-- **At some moment of a history** an operation is next that has a property on the scope as it is then. -/
inductive Occurs (P : Scope → Operation → Prop) : Scope → List Operation → Prop where
  | now {s : Scope} {op : Operation} {ops : List Operation} (h : P s op) : Occurs P s (op :: ops)
  | later {s : Scope} {op : Operation} {ops : List Operation} (h : Occurs P (s.after op) ops) : Occurs P s (op :: ops)

theorem occurs_nil {P : Scope → Operation → Prop} : ¬ Occurs P s [] := nofun

theorem occurs_cons {P : Scope → Operation → Prop} :
    Occurs P s (op :: ops) ↔ P s op ∨ Occurs P (s.after op) ops := by
  constructor
  · intro h
    cases h with
    | now h => exact .inl h
    | later h => exact .inr h
  · intro h
    exact h.elim .now .later

/-- **A look-up after a history**: it gives what it gave before, or a value that has been written. -/
def KeptUnless (written : Value → Prop) (before after : Option Value) : Prop :=
  after = before ∨ ∃ v, after = some v ∧ written v

/-- One operation and those behind it. -/
theorem KeptUnless.cons {P : Value → Scope → Operation → Prop} {before mid after : Option Value}
    (hstep : KeptUnless (fun v => P v s op) before mid)
    (hrest : KeptUnless (fun v => Occurs (P v) (s.after op) ops) mid after) :
    KeptUnless (fun v => Occurs (P v) s (op :: ops)) before after := by
  rcases hrest with hsame | ⟨v, hv, hoccurs⟩
  · rcases hstep with hsame' | ⟨v, hv, hnow⟩
    · exact .inl (hsame.trans hsame')
    · exact .inr ⟨v, hsame.trans hv, .now hnow⟩
  · exact .inr ⟨v, hv, .later hoccurs⟩

/-! ## Globals -/

/-- **A global changes only where it is written.** -/
theorem global_after (s : Scope) (op : Operation) (key : Key) :
    KeptUnless (fun v => s.BindsGlobal key v op) (s.globals.find? key) ((s.after op).globals.find? key) := by
  have heffect := effect_after s op
  generalize s.after op = s' at heffect ⊢
  cases heffect with
  | innermost hop h =>
    obtain ⟨frame, outer, -, rfl⟩ := h
    exact .inl rfl
  | @global _ other v _ hop h =>
    subst h
    by_cases hkey : key = other
    · subst hkey
      exact .inr ⟨v, Table.find?_insert_self _ _ _, hop⟩
    · exact .inl (Table.find?_insert_of_ne hkey _ _)
  | defined name key function => exact .inl rfl
  | opened frame => exact .inl rfl
  | closed hframes => exact .inl rfl
  | refused hop => exact .inl rfl

/-- **Globals behind a history**, whatever it opens and closes. -/
theorem global_afterAll (s : Scope) (ops : List Operation) (key : Key) :
    KeptUnless (fun v => Occurs (fun m op => m.BindsGlobal key v op) s ops) (s.globals.find? key)
      ((s.afterAll ops).globals.find? key) := by
  induction ops generalizing s with
  | nil => exact .inl rfl
  | cons op ops ih => exact (global_after s op key).cons (ih (s.after op))

/-! ## Frames -/

/-- **A history that closes what it opens**, and `opened` frames that were opened before it; it closes no others. -/
def Operation.closes : (opened : Nat) → List Operation → Bool
  | opened, [] => opened = 0
  | opened, op :: ops =>
    match op with
    | .push _ => closes (opened + 1) ops
    | .pop => 0 < opened && closes (opened - 1) ops
    | _ => closes opened ops

/-- **Frames that are kept**, save for what has been written to the innermost. -/
structure FramesKept (written : Key → Value → Prop) (before after : List (Table Value)) : Prop where
  length : after.length = before.length
  outer : after.tail = before.tail
  innermost : ∀ key,
    KeptUnless (written key) (before.head?.bind (·.find? key)) (after.head?.bind (·.find? key))

theorem FramesKept.refl (written : Key → Value → Prop) (frames : List (Table Value)) :
    FramesKept written frames frames := ⟨rfl, rfl, fun _ => .inl rfl⟩

theorem FramesKept.cons {P : Key → Value → Scope → Operation → Prop} {before mid after : List (Table Value)}
    (hstep : FramesKept (fun key v => P key v s op) before mid)
    (hrest : FramesKept (fun key v => Occurs (P key v) (s.after op) ops) mid after) :
    FramesKept (fun key v => Occurs (P key v) s (op :: ops)) before after where
  length := hrest.length.trans hstep.length
  outer := hrest.outer.trans hstep.outer
  innermost key := (hstep.innermost key).cons (hrest.innermost key)

/-- A write to the first of some frames. -/
theorem framesKept_insert {written : Key → Value → Prop} (hwritten : written key v) (frame : Table Value)
    (outer : List (Table Value)) : FramesKept written (frame :: outer) (frame.insert key v :: outer) where
  length := rfl
  outer := rfl
  innermost other := by
    by_cases hkey : other = key
    · subst hkey
      exact .inr ⟨v, Table.find?_insert_self _ _ _, hwritten⟩
    · exact .inl (Table.find?_insert_of_ne hkey _ _)

/-- A write neither opens a frame nor closes one. -/
theorem BindsInnermost.closes (h : s.BindsInnermost key v op) (opened : Nat) (ops : List Operation) :
    Operation.closes opened (op :: ops) = Operation.closes opened ops := by
  cases h <;> rfl

theorem BindsGlobal.closes (h : s.BindsGlobal key v op) (opened : Nat) (ops : List Operation) :
    Operation.closes opened (op :: ops) = Operation.closes opened ops := by
  cases h <;> rfl

/-- An operation that is refused opens no frame and closes none: where a frame is open it can be closed. -/
theorem closes_of_refused (hop : op.perform? s = none) {opened : Nat} (hopened : opened ≤ s.frames.length)
    (h : Operation.closes opened (op :: ops) = true) : Operation.closes opened ops = true := by
  cases op with
  | push frame => cases hop
  | pop =>
    simp only [Operation.closes, Bool.and_eq_true, decide_eq_true_eq] at h
    have hempty : s.frames.isEmpty = false := by
      rw [List.isEmpty_eq_false_iff]
      intro hnil
      rw [hnil] at hopened
      exact absurd h.1 (Nat.not_lt.mpr hopened)
    simp [Operation.perform?, leave?, hempty, Except.toOption] at hop
  | _ => exact h

/-- **Frames behind a history that closes what it opens.** Below the frames that the history has opened are those of
    the start, and the first of these is written to only while none is above them. -/
theorem framesKept_of_closes {depth : Nat} {inner base : List (Table Value)} (hframes : s.frames = inner ++ base)
    (hdepth : base.length = depth) (hcloses : Operation.closes inner.length ops = true) :
    FramesKept (fun key v => Occurs (fun m op => m.depth = depth ∧ m.BindsInnermost key v op) s ops) base
      (s.afterAll ops).frames := by
  induction ops generalizing s inner base with
  | nil =>
    obtain rfl : inner = [] := by simpa [Operation.closes] using hcloses
    show FramesKept _ base s.frames
    rw [hframes]
    exact .refl _ _
  | cons op ops ih =>
    rw [afterAll_cons]
    -- The frames of the start play no part in an operation on the frames above them.
    have hspared : ∀ inner', (s.after op).frames = inner' ++ base → Operation.closes inner'.length ops = true →
        FramesKept (fun key v => Occurs (fun m op => m.depth = depth ∧ m.BindsInnermost key v op) s (op :: ops)) base
          ((s.after op).afterAll ops).frames :=
      fun inner' hframes' hcloses' => (FramesKept.refl _ base).cons (ih hframes' hdepth hcloses')
    obtain ⟨s', hafter⟩ : ∃ s', s.after op = s' := ⟨_, rfl⟩
    have heffect : s.Effect op s' := hafter ▸ effect_after s op
    have hframes' : (s.after op).frames = s'.frames := congrArg frames hafter
    cases heffect with
    | @innermost _ key v _ hop h =>
      obtain ⟨frame, outer, hcons, rfl⟩ := h
      rw [hop.closes] at hcloses
      rw [hcons] at hframes
      cases inner with
      | nil =>
        obtain rfl : frame :: outer = base := hframes
        have hnow : s.depth = depth ∧ s.BindsInnermost key v op := ⟨(congrArg List.length hcons).trans hdepth, hop⟩
        have hnone : (s.after op).frames = [] ++ (frame.insert key v :: outer) := hframes'
        exact (framesKept_insert hnow frame outer).cons (ih hnone hdepth hcloses)
      | cons top inner =>
        obtain ⟨rfl, rfl⟩ := List.cons.inj hframes
        exact hspared (frame.insert key v :: inner) hframes' hcloses
    | global hop h =>
      subst h
      rw [hop.closes] at hcloses
      exact hspared inner (hframes'.trans hframes) hcloses
    | defined name key function => exact hspared inner (hframes'.trans hframes) hcloses
    | opened frame => exact hspared (frame :: inner) (hframes'.trans (congrArg (frame :: ·) hframes)) hcloses
    | @closed frame outer hcons =>
      simp only [Operation.closes, Bool.and_eq_true, decide_eq_true_eq] at hcloses
      rw [hcons] at hframes
      cases inner with
      | nil => exact absurd hcloses.1 (Nat.lt_irrefl 0)
      | cons top inner =>
        obtain ⟨-, rfl⟩ := List.cons.inj hframes
        exact hspared inner hframes' hcloses.2
    | refused hop =>
      have hopened : inner.length ≤ s.frames.length := by
        rw [hframes, List.length_append]
        exact Nat.le_add_right _ _
      exact hspared inner (hframes'.trans hframes) (closes_of_refused hop hopened hcloses)

/-! ## Both levels -/

/-- **A scope has two levels.** A write binds its name and no other; an assignment goes to the innermost frame if that
    binds the name, and otherwise to the globals, a declaration goes to the innermost frame if one is open. A history
    that closes what it opens keeps the frames, save for what it writes to the innermost while no other is on it, and
    any history keeps a global, save for assignments that find it free in the innermost frame and for declarations
    outside of calls. -/
theorem two_levels (s : Scope) :
    (∀ name key v, Scope.key name = .ok key →
      (∃ s', s.set name v = .ok s' ∧ s.Binds name v s' ∧
        (s.isLocal key = true → s.ChangesInnermost key v s') ∧
        (s.isLocal key = false → s.ChangesGlobal key v s')) ∧
      (∃ s', s.declareName name v = .ok s' ∧ s.Binds name v s' ∧
        (s.frames ≠ [] → s.ChangesInnermost key v s') ∧
        (s.frames = [] → s.ChangesGlobal key v s'))) ∧
    (∀ ops, Operation.closes 0 ops = true →
      FramesKept (fun key v => Occurs (fun m op => m.depth = s.depth ∧ m.BindsInnermost key v op) s ops) s.frames
        (s.afterAll ops).frames) ∧
    (∀ ops key, KeptUnless (fun v => Occurs (fun m op => m.BindsGlobal key v op) s ops) (s.globals.find? key)
      ((s.afterAll ops).globals.find? key)) := by
  refine ⟨fun name key v hname => ⟨?_, ?_⟩, fun ops hcloses => ?_, s.global_afterAll⟩
  · exact ⟨s.assign key v, set_of_key hname, binds_assign hname, fun h => changesInnermost_assign h v,
      fun h => changesGlobal_assign h v⟩
  · exact ⟨s.declare key v, declareName_of_key hname, binds_declare hname,
      fun h => changesInnermost_declare h key v, fun h => changesGlobal_declare h key v⟩
  · have hnone : s.frames = [] ++ s.frames := rfl
    exact framesKept_of_closes hnone rfl hcloses

/-- Inside a call that has a local `x`, where `x` and `y` are globals. -/
def insideCall : Scope where
  globals := .ofPairs [(.str "x", .int 1), (.str "y", .int 2)]
  functions := .empty
  frames := [.ofPairs [(.str "x", .int 3)]]

/-- `x = 4`, and then a call with a parameter `y` in which `x` and `y` are assigned to. -/
def shadowingCall : List Operation :=
  [.set (.str "x") (.int 4), .push (.ofPairs [(.str "y", .int 5)]), .set (.str "x") (.int 6),
    .set (.str "y") (.int 7), .pop]

/-- **A call inside a call.** The inner one takes `x` for the global, since it does not see the local of the outer, and
    hides the global `y`. -/
theorem shadowingCall_keeps :
    Operation.closes 0 shadowingCall = true ∧
    (insideCall.afterAll shadowingCall).frames.length = 1 ∧
    (insideCall.afterAll shadowingCall).globals.find? (.str "y") = some (.int 2) ∧
    ∃ s', insideCall.set (.str "x") (.int 4) = .ok s' ∧ s'.get (.str "x") = .ok (.int 4) ∧
      s'.get (.str "y") = .ok (.int 2) := by
  obtain ⟨hwrites, hframes, hglobals⟩ := two_levels insideCall
  refine ⟨rfl, (hframes shadowingCall rfl).length, (hglobals shadowingCall (.str "y")).resolve_right ?_, ?_⟩
  · rintro ⟨v, -, hwritten⟩
    have hx : Scope.key (.str "x") ≠ .ok (.str "y") := nofun
    have hbound : (insideCall.afterAll (shadowingCall.take 3)).isLocal (.str "y") = true := rfl
    simp only [shadowingCall, occurs_cons, occurs_nil, or_false] at hwritten
    rcases hwritten with hfirst | hpush | hsecond | hthird | hpop
    · cases hfirst with
      | set hname _ => exact hx hname
    · cases hpush
    · cases hsecond with
      | set hname _ => exact hx hname
    -- The one assignment to `y` finds it bound in the frame.
    · cases hthird with
      | set _ hfree => exact Bool.false_ne_true (hfree.symm.trans hbound)
    · cases hpop
  · obtain ⟨s', hset, hbinds, -⟩ := (hwrites (.str "x") (.str "x") (.int 4) rfl).1
    exact ⟨s', hset, hbinds.found, hbinds.others (.str "y") nofun⟩

end LineaLang.Scope
