import LineaLang.Tree.Listing
import Mathlib.Data.List.Forall2

/-!
# `LineaLang.Proofs.Tree.Segments` — jumps and labels that are nested

The labels of a listing are named for their construct only, so the name of a label does not say which one of them a
jump goes to. What says it is nesting: the code of a construct is a bracket with the code of its parts inside, and
a jump goes to a label of its own bracket. A `Segment` is a piece of code between whose jumps and labels this has been
made out, and segments side by side make up a listing.

No segment begins as the rest of a bracket does. So code can be divided into segments in one way only, and there is
nothing else that its jumps could go to.

## Contents

* `Mark`, `Instruction.mark?` — the jumps and the labels among the instructions.
* `Construct`, `Mark.occurrences` — what writes them, and how often each of them is there.
* `Segment`, `Segment.code` — pieces of nested code.
* `Segment.codeOf_injective` — code is divided in one way only.
* `Segment.targets`, `Segment.resolves` — where jumps go, and that a label of the wanted name is there.
-/

namespace LineaLang

/-! ## Marks -/

/-- **A jump or a label.** -/
inductive Mark where
  | jump (target : Label)
  | jumpIfFalse (target : Label)
  | label (target : Label)
deriving DecidableEq

namespace Instruction

/-- The jump or the label that an instruction is; most are neither. -/
def mark? : Instruction → Option Mark
  | .jump target => some (.jump target)
  | .jumpIfFalse target => some (.jumpIfFalse target)
  | .label target => some (.label target)
  | _ => none

/-- The label that an instruction may jump to. -/
def target? : Instruction → Option Label
  | .jump target => some target
  | .jumpIfFalse target => some target
  | _ => none

theorem target?_of_mark? {i : Instruction} (h : i.mark? = none) : i.target? = none := by
  cases i with
  | jump _ | jumpIfFalse _ => cases h
  | _ => rfl

end Instruction

/-- The jumps and labels of some code, in order. -/
def marksOf (code : List Instruction) : List Mark := code.filterMap Instruction.mark?

theorem marksOf_straight {code : List Instruction} (h : ∀ i ∈ code, i.mark? = none) : marksOf code = [] :=
  List.filterMap_eq_nil_iff.mpr h

@[simp] theorem marksOf_append (a b : List Instruction) : marksOf (a ++ b) = marksOf a ++ marksOf b :=
  List.filterMap_append

@[simp] theorem marksOf_nil : marksOf [] = [] := rfl

@[simp] theorem marksOf_jump (target : Label) (rest : List Instruction) :
    marksOf (.jump target :: rest) = .jump target :: marksOf rest := rfl

@[simp] theorem marksOf_jumpIfFalse (target : Label) (rest : List Instruction) :
    marksOf (.jumpIfFalse target :: rest) = .jumpIfFalse target :: marksOf rest := rfl

@[simp] theorem marksOf_label (target : Label) (rest : List Instruction) :
    marksOf (.label target :: rest) = .label target :: marksOf rest := rfl

/-- **An instruction that is neither a jump nor a label.** -/
abbrev Straight := { i : Instruction // i.mark? = none }

namespace Straight

/-- The instructions of some code that are neither jumps nor labels. -/
def ofCode (code : List Instruction) : List Straight :=
  code.filterMap fun i => if h : i.mark? = none then some ⟨i, h⟩ else none

/-- Code without jumps and labels is kept as a whole. -/
theorem map_ofCode {code : List Instruction} (h : ∀ i ∈ code, i.mark? = none) :
    (ofCode code).map Subtype.val = code := by
  induction code with
  | nil => rfl
  | cons i rest ih =>
    rw [List.forall_mem_cons] at h
    rw [ofCode, List.filterMap_cons, dif_pos h.1, ← ofCode, List.map_cons, ih h.2]

end Straight

/-! ## Constructs -/

/-- **The constructs that write jumps and labels**: conditionals without and with a branch for the other case, and
    loops. -/
inductive Construct where
  | ifThen
  | ifElse
  | loop
deriving DecidableEq

/-- The jumps and labels of a construct, but for those inside it. -/
def Construct.marks : Construct → List Mark
  | .ifThen => [.jumpIfFalse .endIf, .label .endIf]
  | .ifElse => [.jumpIfFalse .elseBranch, .jump .endIf, .label .elseBranch, .label .endIf]
  | .loop => [.label .loopStart, .jumpIfFalse .loopEnd, .jump .loopStart, .label .loopEnd]

/-- **How often a mark occurs**, given how often each construct does. -/
def Mark.occurrences (times : Construct → Nat) : Mark → Nat
  | .jumpIfFalse .endIf => times .ifThen
  | .jumpIfFalse .elseBranch => times .ifElse
  | .jump .endIf => times .ifElse
  | .label .elseBranch => times .ifElse
  | .label .endIf => times .ifThen + times .ifElse
  | .label .loopStart => times .loop
  | .jumpIfFalse .loopEnd => times .loop
  | .jump .loopStart => times .loop
  | .label .loopEnd => times .loop
  | .jump .elseBranch => 0
  | .jump .loopEnd => 0
  | .jumpIfFalse .loopStart => 0

/-- The table says how often each mark occurs among those of constructs. -/
theorem count_flatMap_marks (constructs : List Construct) (mark : Mark) :
    (constructs.flatMap Construct.marks).count mark = mark.occurrences constructs.count := by
  induction constructs with
  | nil => cases mark with | jump target | jumpIfFalse target | label target => cases target <;> rfl
  | cons construct rest ih =>
    rw [List.flatMap_cons, List.count_append, ih]
    -- What is left compares two tables, for every mark and every construct that could come first.
    cases mark with
    | jump target | jumpIfFalse target | label target =>
      cases target <;> cases construct <;> simp [Mark.occurrences, Construct.marks] <;> omega

/-! ## Segments -/

/-- **A piece of nested code**: an instruction that is neither a jump nor a label, or the code of a construct with
    segments inside. The condition of a loop stands inside as well, in front of the jump that leaves the loop. -/
inductive Segment where
  | plain (i : Straight)
  | ifThen (body : List Segment)
  | ifElse (thens elses : List Segment)
  | loop (condition : List Straight) (body : List Segment)

namespace Segment

mutual

/-- **The code of a segment.** -/
def code : Segment → List Instruction
  | .plain i => [i.1]
  | .ifThen body => .jumpIfFalse .endIf :: (codeOf body ++ [.label .endIf])
  | .ifElse thens elses =>
    .jumpIfFalse .elseBranch ::
      (codeOf thens ++ .jump .endIf :: .label .elseBranch :: (codeOf elses ++ [.label .endIf]))
  | .loop condition body =>
    .label .loopStart ::
      (condition.map Subtype.val ++ .jumpIfFalse .loopEnd :: (codeOf body ++ [.jump .loopStart, .label .loopEnd]))

/-- The code of segments side by side. -/
def codeOf : List Segment → List Instruction
  | [] => []
  | s :: rest => s.code ++ codeOf rest

end

@[simp] theorem codeOf_append (a b : List Segment) : codeOf (a ++ b) = codeOf a ++ codeOf b := by
  induction a with
  | nil => rfl
  | cons s rest ih => rw [List.cons_append, codeOf, codeOf, ih, List.append_assoc]

/-- The segments of code that has no jumps and no labels. -/
def plains (code : List Instruction) : List Segment := (Straight.ofCode code).map .plain

theorem codeOf_plains {code : List Instruction} (h : ∀ i ∈ code, i.mark? = none) : codeOf (plains code) = code := by
  have hone : ∀ is : List Straight, codeOf (is.map .plain) = is.map Subtype.val := by
    intro is
    induction is with
    | nil => rfl
    | cons i rest ih => rw [List.map_cons, codeOf, Segment.code, ih, List.map_cons, List.singleton_append]
  rw [plains, hone, Straight.map_ofCode h]

/-! ## Division into segments -/

/-- The mark that a segment begins with. -/
def opening : Segment → Option Mark
  | .plain _ => none
  | .ifThen _ => some (.jumpIfFalse .endIf)
  | .ifElse _ _ => some (.jumpIfFalse .elseBranch)
  | .loop _ _ => some (.label .loopStart)

theorem exists_code_eq (s : Segment) : ∃ i rest, s.code = i :: rest ∧ i.mark? = s.opening := by
  cases s with
  | plain i => exact ⟨_, _, rfl, i.2⟩
  | ifThen _ | ifElse _ _ | loop _ _ =>
    rw [code]
    exact ⟨_, _, rfl, rfl⟩

/-- Segments that begin alike begin with one mark. -/
theorem opening_eq_of_append {s s' : Segment} {r r' : List Instruction} (h : s.code ++ r = s'.code ++ r') :
    s.opening = s'.opening := by
  obtain ⟨i, rest, hcode, hi⟩ := s.exists_code_eq
  obtain ⟨i', rest', hcode', hi'⟩ := s'.exists_code_eq
  rw [hcode, hcode'] at h
  rw [← hi, ← hi', (List.cons.inj h).1]

/-- **What may follow the segments inside a bracket**: the rest of the bracket, which begins with a mark that no
    segment begins with; or nothing. -/
def Closes (rest : List Instruction) : Prop :=
  ∀ i ∈ rest.head?, i.mark? ∈ [some (.label .endIf), some (.jump .endIf), some (.jump .loopStart)]

theorem closes_nil : Closes [] := nofun

theorem closes_cons {i : Instruction} {rest : List Instruction}
    (h : i.mark? ∈ [some (.label .endIf), some (.jump .endIf), some (.jump .loopStart)]) : Closes (i :: rest) := by
  intro j hj
  cases hj
  exact h

/-- No segment begins as the rest of a bracket does. -/
theorem not_closes_code (s : Segment) (rest : List Instruction) : ¬ Closes (s.code ++ rest) := by
  intro h
  obtain ⟨i, more, hcode, hi⟩ := s.exists_code_eq
  rw [hcode] at h
  have hopening := h i rfl
  rw [hi] at hopening
  cases s with
  | plain _ | ifThen _ | ifElse _ _ | loop _ _ => exact absurd hopening (by rw [opening]; decide)

/-- Instructions that are no marks end at the first mark. -/
theorem straight_append_inj {a b : List Straight} {x y : Instruction} {r r' : List Instruction} (hx : x.mark? ≠ none)
    (hy : y.mark? ≠ none) (h : a.map Subtype.val ++ x :: r = b.map Subtype.val ++ y :: r') :
    a = b ∧ x = y ∧ r = r' := by
  induction a generalizing b with
  | nil =>
    cases b with
    | nil =>
      obtain ⟨hhead, htail⟩ := List.cons.inj h
      exact ⟨rfl, hhead, htail⟩
    | cons j b => exact absurd ((congrArg Instruction.mark? (List.cons.inj h).1).trans j.2) hx
  | cons i a ih =>
    cases b with
    | nil => exact absurd ((congrArg Instruction.mark? (List.cons.inj h).1).symm.trans i.2) hy
    | cons j b =>
      obtain ⟨hhead, htail⟩ := List.cons.inj h
      obtain ⟨rfl, hmarks⟩ := ih htail
      exact ⟨congrArg (· :: a) (Subtype.ext hhead), hmarks⟩

mutual

/-- **A segment ends where it ends**, whatever comes after it. -/
theorem code_append_inj (s : Segment) {s' : Segment} {r r' : List Instruction} (h : s.code ++ r = s'.code ++ r') :
    s = s' ∧ r = r' := by
  have hopening := opening_eq_of_append h
  cases s with
  | plain i =>
    cases s' with
    | plain j =>
      obtain ⟨hhead, htail⟩ := List.cons.inj h
      exact ⟨congrArg plain (Subtype.ext hhead), htail⟩
    | ifThen _ | ifElse _ _ | loop _ _ => cases hopening
  | ifThen body =>
    cases s' with
    | ifThen body' =>
      simp only [code, List.cons_append, List.append_assoc, List.cons.injEq, true_and] at h
      obtain ⟨rfl, hend⟩ := codeOf_append_inj body (closes_cons (by decide)) (closes_cons (by decide)) h
      exact ⟨rfl, (List.cons.inj hend).2⟩
    | plain _ | ifElse _ _ | loop _ _ => cases hopening
  | ifElse thens elses =>
    cases s' with
    | ifElse thens' elses' =>
      simp only [code, List.cons_append, List.append_assoc, List.cons.injEq, true_and] at h
      obtain ⟨rfl, hmiddle⟩ := codeOf_append_inj thens (closes_cons (by decide)) (closes_cons (by decide)) h
      simp only [List.cons.injEq, true_and] at hmiddle
      obtain ⟨rfl, hend⟩ := codeOf_append_inj elses (closes_cons (by decide)) (closes_cons (by decide)) hmiddle
      exact ⟨rfl, (List.cons.inj hend).2⟩
    | plain _ | ifThen _ | loop _ _ => cases hopening
  | loop condition body =>
    cases s' with
    | loop condition' body' =>
      simp only [code, List.cons_append, List.append_assoc, List.cons.injEq, true_and] at h
      -- The condition holds no marks, so it ends at the first one in both.
      obtain ⟨rfl, -, hbody⟩ := straight_append_inj (by decide) (by decide) h
      obtain ⟨rfl, hend⟩ := codeOf_append_inj body (closes_cons (by decide)) (closes_cons (by decide)) hbody
      simp only [List.cons.injEq, true_and] at hend
      exact ⟨rfl, hend⟩
    | plain _ | ifThen _ | ifElse _ _ => cases hopening

/-- **Segments side by side end where a bracket closes.** -/
theorem codeOf_append_inj (ss : List Segment) {ss' : List Segment} {r r' : List Instruction} (hr : Closes r)
    (hr' : Closes r') (h : codeOf ss ++ r = codeOf ss' ++ r') : ss = ss' ∧ r = r' := by
  cases ss with
  | nil =>
    cases ss' with
    | nil => exact ⟨rfl, h⟩
    -- If only one of them ends here, what closes the bracket there is the beginning of a segment here.
    | cons s' rest' =>
      rw [codeOf, codeOf, List.nil_append, List.append_assoc] at h
      exact absurd (h ▸ hr) (not_closes_code s' _)
  | cons s rest =>
    cases ss' with
    | nil =>
      rw [codeOf, codeOf, List.nil_append, List.append_assoc] at h
      exact absurd (h ▸ hr') (not_closes_code s _)
    | cons s' rest' =>
      rw [codeOf, codeOf, List.append_assoc, List.append_assoc] at h
      obtain ⟨rfl, hrest⟩ := code_append_inj s h
      obtain ⟨rfl, hend⟩ := codeOf_append_inj rest hr hr' hrest
      exact ⟨rfl, hend⟩

end

/-- **Code is divided into segments in one way only.** -/
theorem codeOf_injective : Function.Injective codeOf := by
  intro ss ss' h
  have hends : codeOf ss ++ [] = codeOf ss' ++ [] := by rw [h]
  exact (codeOf_append_inj ss closes_nil closes_nil hends).1

/-! ## Where jumps go -/

mutual

/-- **Where the jumps of a segment go**: for each instruction of a segment that begins at an offset, the offset of the
    label that its own construct has for it, if it is a jump. -/
def targets (start : Nat) : Segment → List (Option Nat)
  | .plain _ => [none]
  | .ifThen body =>
    let endAt := start + 1 + (codeOf body).length
    some endAt :: (targetsOf (start + 1) body ++ [none])
  | .ifElse thens elses =>
    let elseAt := start + 1 + (codeOf thens).length + 1
    let endAt := elseAt + 1 + (codeOf elses).length
    some elseAt :: (targetsOf (start + 1) thens ++ some endAt :: none :: (targetsOf (elseAt + 1) elses ++ [none]))
  | .loop condition body =>
    let bodyAt := start + 1 + condition.length + 1
    let endAt := bodyAt + (codeOf body).length + 1
    none :: (condition.map (fun _ => none) ++ some endAt :: (targetsOf bodyAt body ++ [some start, none]))

/-- Where the jumps of segments side by side go. -/
def targetsOf (start : Nat) : List Segment → List (Option Nat)
  | [] => []
  | s :: rest => s.targets start ++ targetsOf (start + s.code.length) rest

end

/-- **A jump goes to a label of the name that it wants**, and only jumps go anywhere. -/
def Resolves (whole : List Instruction) (i : Instruction) (target : Option Nat) : Prop :=
  match i.target? with
  | some name => ∃ place, target = some place ∧ whole[place]? = some (.label name)
  | none => target = none

section Resolution

variable {whole : List Instruction} {name : Label} {place : Nat}

theorem resolves_jump (h : whole[place]? = some (.label name)) : Resolves whole (.jump name) (some place) :=
  ⟨_, rfl, h⟩

theorem resolves_jumpIfFalse (h : whole[place]? = some (.label name)) :
    Resolves whole (.jumpIfFalse name) (some place) :=
  ⟨_, rfl, h⟩

theorem resolves_label : Resolves whole (.label name) none := rfl

theorem resolves_straight (is : List Straight) :
    List.Forall₂ (Resolves whole) (is.map Subtype.val) (is.map fun _ => none) := by
  induction is with
  | nil => exact .nil
  | cons i rest ih =>
    have hi : Resolves whole i.1 none := by rw [Resolves, Instruction.target?_of_mark? i.2]
    exact .cons hi ih

/-- The instruction behind some others. -/
theorem getElem?_of_eq {before after : List Instruction} {i : Instruction} (h : whole = before ++ i :: after)
    (hplace : place = before.length) : whole[place]? = some i := by
  subst h hplace
  simp

mutual

/-- **The jumps of a segment go to labels of the names that they want**, wherever the segment stands. -/
theorem resolves (s : Segment) {start : Nat} {before after : List Instruction} (hstart : start = before.length)
    (h : whole = before ++ (s.code ++ after)) : List.Forall₂ (Resolves whole) s.code (s.targets start) := by
  cases s with
  | plain i => exact resolves_straight [i]
  | ifThen body =>
    have hinside : whole = before ++ [.jumpIfFalse .endIf] ++ (codeOf body ++ .label .endIf :: after) := by
      simp [h, code]
    have hend : whole = before ++ .jumpIfFalse .endIf :: codeOf body ++ .label .endIf :: after := by simp [h, code]
    have hbody : List.Forall₂ (Resolves whole) (codeOf body) (targetsOf (start + 1) body) :=
      resolvesAll body (by simp [hstart]) hinside
    have hlabel : whole[start + 1 + (codeOf body).length]? = some (.label .endIf) :=
      getElem?_of_eq hend (by simp [hstart]; omega)
    rw [code, targets]
    exact .cons (resolves_jumpIfFalse hlabel) (List.rel_append hbody (.cons resolves_label .nil))
  | ifElse thens elses =>
    -- The whole code, cut in front of either branch and of either label.
    have hfirst : whole = before ++ [.jumpIfFalse .elseBranch] ++
        (codeOf thens ++ .jump .endIf :: .label .elseBranch :: (codeOf elses ++ .label .endIf :: after)) := by
      simp [h, code]
    have helse : whole = before ++ .jumpIfFalse .elseBranch :: (codeOf thens ++ [.jump .endIf]) ++
        .label .elseBranch :: (codeOf elses ++ .label .endIf :: after) := by simp [h, code]
    have hsecond : whole = before ++ .jumpIfFalse .elseBranch :: (codeOf thens ++ [.jump .endIf, .label .elseBranch]) ++
        (codeOf elses ++ .label .endIf :: after) := by simp [h, code]
    have hend : whole = before ++ .jumpIfFalse .elseBranch ::
        (codeOf thens ++ .jump .endIf :: .label .elseBranch :: codeOf elses) ++ .label .endIf :: after := by
      simp [h, code]
    have hthens : List.Forall₂ (Resolves whole) (codeOf thens) (targetsOf (start + 1) thens) :=
      resolvesAll thens (by simp [hstart]) hfirst
    have helses : List.Forall₂ (Resolves whole) (codeOf elses)
        (targetsOf (start + 1 + (codeOf thens).length + 1 + 1) elses) :=
      resolvesAll elses (by simp [hstart]; omega) hsecond
    have helseLabel : whole[start + 1 + (codeOf thens).length + 1]? = some (.label .elseBranch) :=
      getElem?_of_eq helse (by simp [hstart]; omega)
    have hendLabel : whole[start + 1 + (codeOf thens).length + 1 + 1 + (codeOf elses).length]? =
        some (.label .endIf) := getElem?_of_eq hend (by simp [hstart]; omega)
    rw [code, targets]
    refine .cons (resolves_jumpIfFalse helseLabel) (List.rel_append hthens ?_)
    exact .cons (resolves_jump hendLabel) (.cons resolves_label (List.rel_append helses (.cons resolves_label .nil)))
  | loop condition body =>
    have hstartLabel : whole[start]? = some (.label .loopStart) := getElem?_of_eq (h.trans (by rw [code]; rfl)) hstart
    have hinside : whole = before ++ .label .loopStart :: (condition.map Subtype.val ++ [.jumpIfFalse .loopEnd]) ++
        (codeOf body ++ .jump .loopStart :: .label .loopEnd :: after) := by simp [h, code]
    have hend : whole = before ++ .label .loopStart :: (condition.map Subtype.val ++
        .jumpIfFalse .loopEnd :: (codeOf body ++ [.jump .loopStart])) ++ .label .loopEnd :: after := by simp [h, code]
    have hbody : List.Forall₂ (Resolves whole) (codeOf body) (targetsOf (start + 1 + condition.length + 1) body) :=
      resolvesAll body (by simp [hstart]; omega) hinside
    have hendLabel : whole[start + 1 + condition.length + 1 + (codeOf body).length + 1]? = some (.label .loopEnd) :=
      getElem?_of_eq hend (by simp [hstart]; omega)
    rw [code, targets]
    refine .cons resolves_label (List.rel_append (resolves_straight condition) ?_)
    refine .cons (resolves_jumpIfFalse hendLabel) (List.rel_append hbody ?_)
    exact .cons (resolves_jump hstartLabel) (.cons resolves_label .nil)

theorem resolvesAll (ss : List Segment) {start : Nat} {before after : List Instruction}
    (hstart : start = before.length) (h : whole = before ++ (codeOf ss ++ after)) :
    List.Forall₂ (Resolves whole) (codeOf ss) (targetsOf start ss) := by
  cases ss with
  | nil => exact .nil
  | cons s rest =>
    rw [codeOf, List.append_assoc] at h
    have hrest : whole = before ++ s.code ++ (codeOf rest ++ after) := by rw [h, List.append_assoc]
    rw [codeOf, targetsOf]
    exact List.rel_append (resolves s hstart h) (resolvesAll rest (by simp [hstart]) hrest)

end

end Resolution

/-- **The jumps of code that stands alone** go to labels of the names that they want. -/
theorem resolves_codeOf (ss : List Segment) :
    List.Forall₂ (Resolves (codeOf ss)) (codeOf ss) (targetsOf 0 ss) := by
  have halone : codeOf ss = [] ++ (codeOf ss ++ []) := by rw [List.nil_append, List.append_nil]
  exact resolvesAll ss rfl halone

end Segment

end LineaLang
