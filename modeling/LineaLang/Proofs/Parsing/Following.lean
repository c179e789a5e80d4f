import LineaLang.Proofs.Parsing.Stepwise
import LineaLang.Proofs.Parsing.Statement

/-!
# `LineaLang.Proofs.Parsing.Following` — step by step the same is read

A reading step by step follows a reading in one go: from every trail that stands among the tokens, with no more levels
open than may be, both end alike, and the trail that the steps leave stands where the other reading says. On the way the
cursor never goes back, never leaves the tokens, and never has fewer levels open than at the start or more than may be
(`Trail.Onward`). Opening a level and closing it is the one step that changes the levels, and what is read inside has
all it opened closed again, so the level that is closed is the one that was opened (`Follows.nested`).

Loops are the one place where the steps could fail to end. Every item of a loop takes a token, so there are fewer rounds
than tokens are left and one more (`Follows.repeatUntil`).

## Contents

* `Trail.Stands`, `Trail.Onward` — where a trail stands, and how it goes on.
* `Tracks`, `Follows` — two readings that end alike.
* `Follows.bind`, `Follows.nested`, `Follows.repeatUntil` — the rules.
* `follows_primary` … `follows_expressionWithin` — expressions.
* `follows_block` … `follows_request` — statements, and all that can be asked of a cursor.
-/

namespace LineaLang

open Grammar (maxLevels Starts)

variable {α β : Type} {tokens : List Token} {depth low : Nat} {t t' t'' : Trail} {c : Cursor}

/-! ## Trails -/

/-- **A place between two others**, with at least `low` levels open and not more than may be. -/
structure Cursor.Between (low : Nat) (start finish c : Cursor) : Prop where
  tokens_eq : c.tokens = start.tokens
  behind : start.position ≤ c.position
  before : c.position ≤ finish.position
  low_le : low ≤ c.depth
  depth_le : c.depth ≤ maxLevels

namespace Trail

/-- **A trail stands** among some tokens, with so many levels open, and they are not too many. -/
structure Stands (tokens : List Token) (depth : Nat) (t : Trail) : Prop where
  tokens_eq : t.cursor.tokens = tokens
  depth_eq : t.cursor.depth = depth
  inside : t.cursor.position ≤ tokens.length
  depth_le : depth ≤ maxLevels

/-- **A trail goes on** from one place to another, and all places that it comes by are between them. -/
structure Onward (low : Nat) (t t' : Trail) : Prop where
  tokens_eq : t'.cursor.tokens = t.cursor.tokens
  forward : t.cursor.position ≤ t'.cursor.position
  passed : ∃ new, t'.passed = new ++ t.passed ∧ ∀ c ∈ new, Cursor.Between low t.cursor t'.cursor c

theorem Onward.refl (low : Nat) (t : Trail) : t.Onward low t :=
  ⟨rfl, Nat.le_refl _, [], rfl, fun _ h => absurd h List.not_mem_nil⟩

theorem Onward.trans (h : t.Onward low t') (h' : t'.Onward low t'') : t.Onward low t'' := by
  obtain ⟨new, hnew, hbetween⟩ := h.passed
  obtain ⟨new', hnew', hbetween'⟩ := h'.passed
  refine ⟨h'.tokens_eq.trans h.tokens_eq, Nat.le_trans h.forward h'.forward, new' ++ new, ?_, ?_⟩
  · rw [hnew', hnew, List.append_assoc]
  · intro c hc
    rcases List.mem_append.mp hc with hc | hc
    · have hlater := hbetween' c hc
      exact { hlater with
        tokens_eq := hlater.tokens_eq.trans h.tokens_eq
        behind := Nat.le_trans h.forward hlater.behind }
    · have hearlier := hbetween c hc
      exact { hearlier with before := Nat.le_trans hearlier.before h'.forward }

theorem Onward.mono {low' : Nat} (h : t.Onward low t') (hlow : low' ≤ low) : t.Onward low' t' := by
  obtain ⟨new, hnew, hbetween⟩ := h.passed
  refine ⟨h.tokens_eq, h.forward, new, hnew, fun c hc => ?_⟩
  exact { hbetween c hc with low_le := Nat.le_trans hlow (hbetween c hc).low_le }

/-- One step further. -/
theorem onward_moved (htokens : c.tokens = t.cursor.tokens) (hforward : t.cursor.position ≤ c.position)
    (hlow : low ≤ c.depth) (hdepth : c.depth ≤ maxLevels) : t.Onward low (t.moved c) := by
  refine ⟨htokens, hforward, [c], rfl, fun c' hc' => ?_⟩
  obtain rfl := List.mem_singleton.mp hc'
  exact ⟨htokens, hforward, Nat.le_refl _, hlow, hdepth⟩

end Trail

/-! ## Places -/

namespace Cursor

variable {token : Token} {more : List Token}

theorem peek?_zero (c : Cursor) : c.peek? 0 = c.rest.head? := by
  have hindex : ¬ (c.position : Int) < 0 := Int.not_lt.mpr (Int.natCast_nonneg _)
  unfold peek? rest
  rw [List.head?_drop, Int.add_zero]
  simp [hindex]

theorem lookingAt_eq (c : Cursor) (kinds : List TokenKind) : c.lookingAt kinds = decide (Starts kinds c.rest) := by
  unfold lookingAt
  cases c.rest <;> rfl

theorem position_lt_of_rest (h : c.rest = token :: more) : c.position < c.tokens.length := by
  have hlength := congrArg List.length h
  rw [rest, List.length_drop, List.length_cons] at hlength
  omega

theorem rest_advanced (h : c.rest = token :: more) :
    rest { c with position := c.position + 1 } = more := by
  have htail := congrArg List.tail h
  rwa [rest, List.tail_drop] at htail

/-- What is left tells the place. -/
theorem position_eq (h : c.position ≤ c.tokens.length) : c.tokens.length - c.rest.length = c.position := by
  rw [rest, List.length_drop]
  omega

end Cursor

/-! ## Readings that end alike -/

/-- **Two readings end alike** from where a trail stands: with the same result or for the same reason, and the trail
    goes on to where the tokens are that the other reading leaves. -/
inductive Tracks (tokens : List Token) (depth : Nat) (t : Trail) :
    EStateM.Result ReadingFault (List Token) α → EStateM.Result Halt Trail α → Prop where
  | ok {a : α} {t' : Trail} (hstands : t'.Stands tokens depth) (honward : t.Onward depth t') :
      Tracks tokens depth t (.ok a t'.cursor.rest) (.ok a t')
  | error {fault : ReadingFault} {t' : Trail} (hstands : t'.Stands tokens depth) (honward : t.Onward depth t') :
      Tracks tokens depth t (.error fault t'.cursor.rest) (.error (.failed (t'.cursor.failure fault)) t')

/-- **A reading step by step follows a reading in one go**, from wherever a trail stands. -/
def Follows (tokens : List Token) (depth : Nat) (r : Reading α) (w : Stepwise α) : Prop :=
  ∀ t : Trail, t.Stands tokens depth → Tracks tokens depth t (r t.cursor.rest) (w t)

variable {r : Reading α} {w : Stepwise α} {f : α → Reading β} {g : α → Stepwise β}

theorem Tracks.after {outcome : EStateM.Result ReadingFault (List Token) α} {outcome' : EStateM.Result Halt Trail α}
    (h : Tracks tokens depth t' outcome outcome') (honward : t.Onward depth t') :
    Tracks tokens depth t outcome outcome' := by
  cases h with
  | ok hstands h => exact .ok hstands (honward.trans h)
  | error hstands h => exact .error hstands (honward.trans h)

/-- What comes after a step goes on from where the step ended. -/
theorem Tracks.bind (h : Tracks tokens depth t (r t.cursor.rest) (w t))
    (hf : ∀ a t', t'.Stands tokens depth → r t.cursor.rest = .ok a t'.cursor.rest →
      Tracks tokens depth t' (f a t'.cursor.rest) (g a t')) :
    Tracks tokens depth t ((r >>= f) t.cursor.rest) ((w >>= g) t) := by
  simp only [Bind.bind, EStateM.bind]
  generalize hread : r t.cursor.rest = outcome at h ⊢
  generalize w t = outcome' at h ⊢
  cases h with
  | ok hstands honward => exact (hf _ _ hstands hread).after honward
  | error hstands honward => exact .error hstands honward

namespace Follows

theorem pure (a : α) : Follows tokens depth (pure a) (pure a) := fun t ht => .ok ht (.refl depth t)

theorem bind (h : Follows tokens depth r w) (hf : ∀ a, Follows tokens depth (f a) (g a)) :
    Follows tokens depth (r >>= f) (w >>= g) :=
  fun t ht => (h t ht).bind fun a t' ht' _ => hf a t' ht'

theorem ite {b : Bool} {r' : Reading α} {w' : Stepwise α} (h : Follows tokens depth r w)
    (h' : Follows tokens depth r' w') :
    Follows tokens depth (if b = true then r else r') (if b = true then w else w') := by
  cases b with
  | true => exact h
  | false => exact h'

end Follows

/-! ## Steps -/

open Stepwise

theorem follows_lookingAt (kinds : List TokenKind) :
    Follows tokens depth (Grammar.lookingAt kinds) (lookingAt kinds) := by
  intro t ht
  have hlooking : lookingAt kinds t = .ok (decide (Starts kinds t.cursor.rest)) t := by
    unfold lookingAt
    rw [Cursor.lookingAt_eq]
  rw [Grammar.lookingAt_eq, hlooking]
  exact .ok ht (.refl depth t)

theorem next?_bind (f : Option Token → Stepwise α) (t : Trail) : (next? >>= f) t = f t.cursor.rest.head? t := by
  rw [← Cursor.peek?_zero]
  rfl

theorem follows_atEnd : Follows tokens depth Grammar.atEnd atEnd := by
  intro t ht
  have hend : atEnd t = .ok t.cursor.rest.isEmpty t := by
    unfold atEnd
    rw [next?_bind]
    cases t.cursor.rest <;> rfl
  rw [hend]
  exact .ok ht (.refl depth t)

theorem follows_fail (fault : ReadingFault) :
    Follows tokens depth (Grammar.fail fault : Reading α) (fail fault) :=
  fun t ht => .error ht (.refl depth t)

theorem follows_refuse (kinds : List TokenKind) :
    Follows tokens depth (Grammar.refuse kinds : Reading α) (refuse kinds) := by
  intro t ht
  unfold refuse
  rw [next?_bind]
  exact .error ht (.refl depth t)

theorem follows_expect (kinds : List TokenKind) : Follows tokens depth (Grammar.expect kinds) (expect kinds) := by
  intro t ht
  have hrefuse := follows_refuse (α := Token) kinds t ht
  unfold expect
  rw [next?_bind]
  by_cases hs : Starts kinds t.cursor.rest
  · obtain ⟨token, more, hrest⟩ := List.exists_cons_of_ne_nil hs.ne_nil
    rw [hrest] at hs
    have hread : Grammar.expect kinds t.cursor.rest = .ok token more := Grammar.expect_eq_ok_iff.mpr ⟨hrest, hs⟩
    have hkind : token.kind ∈ kinds := hs
    rw [hread, ← Cursor.rest_advanced hrest]
    simp only [hrest, List.head?_cons, hkind, if_true]
    have hlt := Cursor.position_lt_of_rest hrest
    have hstands : (t.moved { t.cursor with position := t.cursor.position + 1 }).Stands tokens depth :=
      ⟨ht.tokens_eq, ht.depth_eq, ht.tokens_eq ▸ hlt, ht.depth_le⟩
    exact .ok hstands
      (t.onward_moved rfl (Nat.le_succ _) (Nat.le_of_eq ht.depth_eq.symm) (ht.depth_eq ▸ ht.depth_le))
  · have hread : Grammar.expect kinds t.cursor.rest = Grammar.refuse kinds t.cursor.rest :=
      Grammar.expect_eq_error_iff.mpr ⟨hs, rfl, rfl⟩
    rw [hread]
    cases hrest : t.cursor.rest with
    | nil =>
      rw [hrest] at hrefuse
      exact hrefuse
    | cons token more =>
      have hkind : token.kind ∉ kinds := by rwa [hrest] at hs
      rw [hrest] at hrefuse
      simp only [List.head?_cons, hkind, if_false]
      exact hrefuse

/-! ## Levels and loops -/

namespace Follows

/-- **One level further in.** The level that is closed is the one that was opened, since what is read inside leaves as
    many levels open as it finds. -/
theorem nested (hdepth : depth < maxLevels) (h : Follows tokens (depth + 1) r w) :
    Follows tokens depth r (Stepwise.nested w) := by
  intro t ht
  have hroom : t.cursor.depth < maxLevels := ht.depth_eq ▸ hdepth
  have hopened : t.cursor.opened = .ok { t.cursor with depth := t.cursor.depth + 1 } := if_pos hroom
  have hstands : (t.moved { t.cursor with depth := t.cursor.depth + 1 }).Stands tokens (depth + 1) :=
    ⟨ht.tokens_eq, congrArg (· + 1) ht.depth_eq, ht.inside, hdepth⟩
  have hopening : t.Onward depth (t.moved { t.cursor with depth := t.cursor.depth + 1 }) :=
    t.onward_moved rfl (Nat.le_refl _) (ht.depth_eq ▸ Nat.le_succ _) hroom
  -- Closing the level again after whatever was read inside.
  have hclosing : ∀ t' : Trail, t'.Stands tokens (depth + 1) →
      (t.moved { t.cursor with depth := t.cursor.depth + 1 }).Onward (depth + 1) t' →
      (t'.moved t'.cursor.closed).Stands tokens depth ∧ t.Onward depth (t'.moved t'.cursor.closed) := by
    intro t' ht' honward
    have hclosed : t'.cursor.closed.depth = depth := by
      show t'.cursor.depth - 1 = depth
      rw [ht'.depth_eq]
      rfl
    refine ⟨⟨ht'.tokens_eq, hclosed, ht'.inside, ht.depth_le⟩, ?_⟩
    refine (hopening.trans (honward.mono (Nat.le_succ _))).trans ?_
    exact t'.onward_moved rfl (Nat.le_refl _) (Nat.le_of_eq hclosed.symm) (hclosed ▸ ht.depth_le)
  have hbody := h _ hstands
  unfold Stepwise.nested
  simp only [hopened]
  change Tracks tokens (depth + 1) _ (r t.cursor.rest) _ at hbody
  generalize r t.cursor.rest = outcome at hbody ⊢
  generalize w _ = outcome' at hbody ⊢
  cases hbody with
  | @ok a t' ht' honward =>
    obtain ⟨hstands', honward'⟩ := hclosing t' ht' honward
    exact .ok hstands' honward'
  | @error fault t' ht' honward =>
    obtain ⟨hstands', honward'⟩ := hclosing t' ht' honward
    have hfailure : t'.cursor.failure fault = (t'.moved t'.cursor.closed).cursor.failure fault := by
      cases fault <;> rfl
    rw [hfailure]
    exact .error hstands' honward'

/-- Where no level is left, none is opened. -/
theorem refuseLevel (w : Stepwise α) : Follows tokens maxLevels Grammar.refuseLevel (Stepwise.nested w) := by
  intro t ht
  have hopened : t.cursor.opened = .error (t.cursor.failure (.refused (.tooNested t.cursor.rest.head?))) :=
    if_neg (by rw [ht.depth_eq]; exact Nat.lt_irrefl _)
  unfold Stepwise.nested
  simp only [hopened]
  exact .error ht (.refl _ t)

/-- **A loop** whose items take tokens ends before it is cut short. -/
theorem repeatUntil {done : Reading Bool} {done' : Stepwise Bool} (hasks : Grammar.Asks done)
    (htakes : Grammar.Takes r) (hdone : Follows tokens depth done done') (hitem : Follows tokens depth r w)
    {rounds : Nat} (hrounds : tokens.length < rounds) :
    Follows tokens depth (Grammar.repeatUntil done r) (Stepwise.repeatUntil done' w rounds) := by
  have hloop : ∀ rounds (t : Trail), t.Stands tokens depth → t.cursor.rest.length < rounds →
      Tracks tokens depth t (Grammar.repeatUntil done r t.cursor.rest) (Stepwise.repeatUntil done' w rounds t) := by
    intro rounds
    induction rounds with
    | zero =>
      intro t _ hlength
      exact absurd hlength (Nat.not_lt_zero _)
    | succ rounds ih =>
      intro t ht hlength
      rw [Grammar.repeatUntil_eq hasks htakes]
      refine (hdone t ht).bind fun b t₁ ht₁ hread => ?_
      have hsame := hasks.rest_eq hread
      cases b with
      | true => exact .ok ht₁ (.refl depth t₁)
      | false =>
        refine (hitem t₁ ht₁).bind fun a t₂ ht₂ hread₂ => ?_
        have hlt := htakes hread₂
        rw [hsame] at hlt
        exact (ih t₂ ht₂ (by omega)).bind fun as t₃ ht₃ _ => .ok ht₃ (.refl depth t₃)
  intro t ht
  refine hloop rounds t ht (Nat.lt_of_le_of_lt ?_ hrounds)
  rw [Cursor.rest, List.length_drop, ht.tokens_eq]
  exact Nat.sub_le _ _

end Follows

/-! ## Expressions -/

/-- A token that has been taken is of a kind that was wanted. -/
theorem follows_expect_bind {kinds : List TokenKind} {f : Token → Reading β} {g : Token → Stepwise β}
    (h : ∀ token, token.kind ∈ kinds → Follows tokens depth (f token) (g token)) :
    Follows tokens depth (Grammar.expect kinds >>= f) (expect kinds >>= g) :=
  fun t ht => (follows_expect kinds t ht).bind fun token t' ht' hread =>
    h token (Grammar.expect_eq_ok_iff.mp hread).2 t' ht'

variable [CharacterNames]

section Phrases

variable {n rounds : Nat} {stmt expr : Reading Node} {stmt' expr' : Stepwise Node}
  (hrounds : tokens.length < rounds)
  (hfinds : Grammar.Finds (s := .expression) n (Grammar.EndsBefore Grammar.expressionSigns) expr)
  (hexpr : Follows tokens depth expr expr')
  (htakes : Grammar.Takes stmt) (hstmt : Follows tokens depth stmt stmt')

include hrounds

omit [CharacterNames] in
theorem follows_repeatWhile (kinds : List TokenKind) (hr : Grammar.Takes r) (h : Follows tokens depth r w) :
    Follows tokens depth (Grammar.repeatWhile kinds r) (repeatWhile rounds kinds w) :=
  .repeatUntil (Grammar.asks_notLookingAt kinds) hr ((follows_lookingAt kinds).bind fun _ => .pure _) h hrounds

omit [CharacterNames] in
theorem follows_commaList (hr : Grammar.Takes r) (h : Follows tokens depth r w) :
    Follows tokens depth (Grammar.commaList r) (commaList rounds w) := by
  refine (follows_lookingAt _).bind fun _ => .ite (.pure _) ?_
  refine h.bind fun first => Follows.bind ?_ fun more => .pure _
  exact follows_repeatWhile hrounds _ (Grammar.takes_after_expect fun _ => hr)
    ((follows_expect _).bind fun _ => h)

include hfinds hexpr

theorem follows_callOf (name : Text) :
    Follows tokens depth (Grammar.callOf expr name) (callOf rounds expr' name) := by
  refine (follows_expect _).bind fun _ => ?_
  refine (follows_commaList hrounds (hfinds.takes rfl) hexpr).bind fun args => ?_
  exact (follows_expect _).bind fun _ => .pure _

theorem follows_primary : Follows tokens depth (Grammar.primary expr) (primary rounds expr') := by
  refine follows_expect_bind fun token hkind => ?_
  simp only [Grammar.primaryStart, List.mem_cons, List.not_mem_nil, or_false] at hkind
  rcases hkind with hk | hk | hk | hk <;> simp only [hk]
  · cases Grammar.numberValue token.lexeme with
    | ok value => exact .pure _
    | error fault => exact follows_fail _
  · cases Literal.read? token.lexeme with
    | some value => exact .pure _
    | none => exact follows_fail _
  · exact (follows_lookingAt _).bind fun _ => .ite (follows_callOf hrounds hfinds hexpr _) (.pure _)
  · exact hexpr.bind fun inner => (follows_expect _).bind fun _ => .pure _

theorem follows_unary : Follows tokens depth (Grammar.unary expr) (unary rounds expr') := by
  have hprimary := follows_primary hrounds hfinds hexpr
  refine (follows_lookingAt _).bind fun _ => .ite ?_ hprimary
  exact (follows_expect _).bind fun _ => hprimary.bind fun operand => .pure _

omit [CharacterNames] in
omit hfinds hexpr in
/-- Operands joined by operators. -/
theorem follows_chain (kinds : List TokenKind) {operand : Reading Node} {operand' : Stepwise Node}
    (hoperand : Grammar.Takes operand) (h : Follows tokens depth operand operand') :
    Follows tokens depth (Grammar.chain kinds operand) (chain rounds kinds operand') := by
  refine h.bind fun first => Follows.bind ?_ fun more => .pure _
  refine follows_repeatWhile hrounds kinds (Grammar.takes_after_expect fun _ => hoperand.map _) ?_
  exact (follows_expect _).bind fun _ => h.bind fun right => .pure _

theorem follows_multiplicative :
    Follows tokens depth (Grammar.multiplicative expr) (multiplicative rounds expr') :=
  follows_chain hrounds _ ((Grammar.finds_unary hfinds).takes rfl) (follows_unary hrounds hfinds hexpr)

theorem follows_additive : Follows tokens depth (Grammar.additive expr) (additive rounds expr') :=
  follows_chain hrounds _ ((Grammar.finds_multiplicative hfinds).takes rfl)
    (follows_multiplicative hrounds hfinds hexpr)

theorem follows_comparison : Follows tokens depth (Grammar.comparison expr) (comparison rounds expr') := by
  have hsum := follows_additive hrounds hfinds hexpr
  refine hsum.bind fun left => (follows_expect _).bind fun token => ?_
  exact hsum.bind fun right => .pure _

theorem follows_assignment : Follows tokens depth (Grammar.assignment expr) (assignment rounds expr') := by
  refine (follows_additive hrounds hfinds hexpr).bind fun left => ?_
  refine (follows_lookingAt _).bind fun _ => .ite ?_ (.pure _)
  refine (follows_expect _).bind fun token => ?_
  cases left with
  | ident name => exact hexpr.bind fun value => .pure _
  | _ => exact follows_fail _

omit hfinds hexpr in
/-- **Expressions**, with some levels open and the others left. -/
theorem follows_expressionWithin {levels calls : Nat} (hlevels : levels + depth = maxLevels) (hcalls : levels < calls) :
    Follows tokens depth (Grammar.expressionAt levels) (expressionWithin rounds calls) := by
  induction levels generalizing depth calls with
  | zero =>
    obtain ⟨calls, rfl⟩ := Nat.exists_eq_succ_of_ne_zero (Nat.ne_of_gt hcalls)
    obtain rfl : depth = maxLevels := (Nat.zero_add _).symm.trans hlevels
    exact .refuseLevel _
  | succ levels ih =>
    obtain ⟨calls, rfl⟩ := Nat.exists_eq_succ_of_ne_zero (Nat.ne_of_gt (Nat.zero_lt_of_lt hcalls))
    refine .nested (by omega) ?_
    exact follows_assignment hrounds (Grammar.finds_expressionAt levels)
      (ih (by omega) (Nat.lt_of_succ_lt_succ hcalls))

/-! ## Statements -/

omit [CharacterNames] in
omit hrounds hfinds hexpr in
theorem follows_blockClosed : Follows tokens depth Grammar.block.closed blockClosed := by
  refine (follows_lookingAt _).bind fun _ => .ite (.pure _) ?_
  exact follows_atEnd.bind fun _ => .ite (follows_refuse _) (.pure _)

omit [CharacterNames] in
omit hfinds hexpr in
include htakes hstmt in
theorem follows_block : Follows tokens depth (Grammar.block stmt) (block rounds stmt') := by
  refine (follows_lookingAt _).bind fun _ => .ite ?_ ?_
  · refine (follows_expect _).bind fun _ => ?_
    refine (Follows.repeatUntil Grammar.asks_closed htakes follows_blockClosed hstmt hrounds).bind fun statements => ?_
    exact (follows_expect _).bind fun _ => .pure _
  · exact hstmt.bind fun only => .pure _

include htakes hstmt in
theorem follows_ifStatement :
    Follows tokens depth (Grammar.ifStatement stmt expr) (ifStatement rounds stmt' expr') := by
  have hblock := follows_block hrounds htakes hstmt
  have helse : ∀ condition thenBlock, Follows tokens depth
      (do
        if ← Grammar.lookingAt [.elseWord] then
          let _ ← Grammar.expect [.elseWord]
          let elseBlock ← Grammar.block stmt
          return Node.ifElse condition thenBlock elseBlock
        else return Node.ifElse condition thenBlock .absent)
      (do
        if ← lookingAt [.elseWord] then
          let _ ← expect [.elseWord]
          let elseBlock ← block rounds stmt'
          return Node.ifElse condition thenBlock elseBlock
        else return Node.ifElse condition thenBlock .absent) := by
    intro condition thenBlock
    refine (follows_lookingAt _).bind fun _ => .ite ?_ (.pure _)
    exact (follows_expect _).bind fun _ => hblock.bind fun elseBlock => .pure _
  refine (follows_expect _).bind fun _ => (follows_comparison hrounds hfinds hexpr).bind fun condition => ?_
  refine (follows_lookingAt _).bind fun _ => .ite ?_ ?_
  · exact (follows_expect _).bind fun _ => hblock.bind fun thenBlock => helse condition thenBlock
  · exact hblock.bind fun thenBlock => helse condition thenBlock

include htakes hstmt in
theorem follows_whileStatement :
    Follows tokens depth (Grammar.whileStatement stmt expr) (whileStatement rounds stmt' expr') := by
  refine (follows_expect _).bind fun _ => (follows_comparison hrounds hfinds hexpr).bind fun condition => ?_
  exact (follows_expect _).bind fun _ => (follows_block hrounds htakes hstmt).bind fun body => .pure _

omit [CharacterNames] in
omit hrounds hfinds hexpr in
theorem follows_identifier : Follows tokens depth Grammar.identifier identifier :=
  (follows_expect _).bind fun _ => .pure _

omit [CharacterNames] in
omit hfinds hexpr in
include htakes hstmt in
theorem follows_functionDeclaration :
    Follows tokens depth (Grammar.functionDeclaration stmt) (functionDeclaration rounds stmt') := by
  refine (follows_expect _).bind fun _ => follows_identifier.bind fun name => (follows_expect _).bind fun _ => ?_
  refine (follows_commaList hrounds Grammar.takes_identifier follows_identifier).bind fun params => ?_
  exact (follows_expect _).bind fun _ => (follows_block hrounds htakes hstmt).bind fun body => .pure _

omit [CharacterNames] in
omit hrounds hfinds in
theorem follows_returnStatement : Follows tokens depth (Grammar.returnStatement expr) (returnStatement expr') :=
  (follows_expect _).bind fun _ => hexpr.bind fun _ => (follows_expect _).bind fun _ => .pure _

omit [CharacterNames] in
omit hrounds hfinds in
theorem follows_variableDeclaration :
    Follows tokens depth (Grammar.variableDeclaration expr) (variableDeclaration expr') := by
  refine (follows_expect _).bind fun _ => follows_identifier.bind fun name => (follows_expect _).bind fun _ => ?_
  exact hexpr.bind fun init => (follows_expect _).bind fun _ => .pure _

omit [CharacterNames] in
omit hrounds hfinds in
theorem follows_printStatement : Follows tokens depth (Grammar.printStatement expr) (printStatement expr') := by
  refine (follows_expect _).bind fun _ => (follows_expect _).bind fun _ => hexpr.bind fun value => ?_
  exact (follows_expect _).bind fun _ => (follows_expect _).bind fun _ => .pure _

omit [CharacterNames] in
omit hrounds hfinds in
theorem follows_expressionStatement :
    Follows tokens depth (Grammar.expressionStatement expr) (expressionStatement expr') :=
  hexpr.bind fun _ => (follows_expect _).bind fun _ => .pure _

omit hrounds hfinds hexpr in
/-- The first token of a statement tells which it is, whether it is looked up at once or compared with one word after
    the other. -/
theorem statement_eq (stmt expr : Reading Node) : Grammar.statement stmt expr = (do
    if ← Grammar.lookingAt [.ifWord] then Grammar.ifStatement stmt expr
    else if ← Grammar.lookingAt [.whileWord] then Grammar.whileStatement stmt expr
    else if ← Grammar.lookingAt [.funcWord] then Grammar.functionDeclaration stmt
    else if ← Grammar.lookingAt [.returnWord] then Grammar.returnStatement expr
    else if ← Grammar.lookingAt [.letWord] then Grammar.variableDeclaration expr
    else if ← Grammar.lookingAt [.printWord] then Grammar.printStatement expr
    else Grammar.expressionStatement expr) := by
  funext ts
  cases ts with
  | nil => rfl
  | cons token more =>
    obtain ⟨kind, lexeme, position⟩ := token
    cases kind <;> rfl

include htakes hstmt in
theorem follows_statement :
    Follows tokens depth (Grammar.statement stmt expr) (statement rounds stmt' expr') := by
  rw [statement_eq]
  refine (follows_lookingAt _).bind fun _ => .ite (follows_ifStatement hrounds hfinds hexpr htakes hstmt) ?_
  refine (follows_lookingAt _).bind fun _ => .ite (follows_whileStatement hrounds hfinds hexpr htakes hstmt) ?_
  refine (follows_lookingAt _).bind fun _ => .ite (follows_functionDeclaration hrounds htakes hstmt) ?_
  refine (follows_lookingAt _).bind fun _ => .ite (follows_returnStatement hexpr) ?_
  refine (follows_lookingAt _).bind fun _ => .ite (follows_variableDeclaration hexpr) ?_
  refine (follows_lookingAt _).bind fun _ => .ite (follows_printStatement hexpr) ?_
  exact follows_expressionStatement hexpr

omit hfinds hexpr in
/-- **Statements**, with some levels open and the others left. -/
theorem follows_statementWithin {levels calls : Nat} (hlevels : levels + depth = maxLevels) (hcalls : levels < calls) :
    Follows tokens depth (Grammar.statementAt levels) (statementWithin rounds calls) := by
  induction levels generalizing depth calls with
  | zero =>
    obtain ⟨calls, rfl⟩ := Nat.exists_eq_succ_of_ne_zero (Nat.ne_of_gt hcalls)
    obtain rfl : depth = maxLevels := (Nat.zero_add _).symm.trans hlevels
    exact .refuseLevel _
  | succ levels ih =>
    obtain ⟨calls, rfl⟩ := Nat.exists_eq_succ_of_ne_zero (Nat.ne_of_gt (Nat.zero_lt_of_lt hcalls))
    have hcalls' := Nat.lt_of_succ_lt_succ hcalls
    refine .nested (by omega) ?_
    exact follows_statement hrounds (Grammar.finds_expressionAt levels)
      (follows_expressionWithin hrounds (by omega) hcalls') ((Grammar.finds_statementAt levels).takes rfl)
      (ih (by omega) hcalls')

end Phrases

/-! ## Requests -/

/-- **Whatever is asked of a cursor**, the steps follow the reading. -/
theorem follows_request {bound : Nat} (hrounds : tokens.length < bound) (hcalls : maxLevels < bound)
    (request : Cursor.Request) {levels : Nat} (hlevels : levels + depth = maxLevels) :
    Follows tokens depth (request.reading levels) (request.steps bound) := by
  have hwithin : levels < bound := by omega
  have hfinds := Grammar.finds_expressionAt levels
  have htakes := (Grammar.finds_statementAt levels).takes rfl
  have hexpr : Follows tokens depth (Grammar.expressionAt levels) (expressionWithin bound bound) :=
    follows_expressionWithin hrounds hlevels hwithin
  have hstmt : Follows tokens depth (Grammar.statementAt levels) (statementWithin bound bound) :=
    follows_statementWithin hrounds hlevels hwithin
  cases request with
  | arguments name => exact follows_callOf hrounds hfinds hexpr name
  | phrase wanted =>
    cases wanted with
    | program =>
      exact (Follows.repeatUntil Grammar.asks_atEnd htakes follows_atEnd hstmt hrounds).bind fun _ => .pure _
    | statement => exact hstmt
    | block => exact follows_block hrounds htakes hstmt
    | ifStatement => exact follows_ifStatement hrounds hfinds hexpr htakes hstmt
    | whileStatement => exact follows_whileStatement hrounds hfinds hexpr htakes hstmt
    | functionDeclaration => exact follows_functionDeclaration hrounds htakes hstmt
    | returnStatement => exact follows_returnStatement hexpr
    | variableDeclaration => exact follows_variableDeclaration hexpr
    | printStatement => exact follows_printStatement hexpr
    | comparison => exact follows_comparison hrounds hfinds hexpr
    | expression => exact hexpr
    | assignment => exact follows_assignment hrounds hfinds hexpr
    | additive => exact follows_additive hrounds hfinds hexpr
    | multiplicative => exact follows_multiplicative hrounds hfinds hexpr
    | unary => exact follows_unary hrounds hfinds hexpr
    | primary => exact follows_primary hrounds hfinds hexpr
    | call => exact (follows_expect _).bind fun name => follows_callOf hrounds hfinds hexpr name.lexeme

end LineaLang
