import LineaLang.Proofs.Parsing.Derivation

/-!
# `LineaLang.Proofs.Parsing.Reading` — when a step of a reading succeeds

Each step of a reading as an equivalence: it gives a result and leaves some tokens exactly if the tokens were
of a certain form. A reading built from the steps is then opened by rewriting, in both directions at once.
Repetition is an inductive relation here (`Repeats`); the tokens along which `repeatAlong` counts do not show
in it, since every item takes a token (`repeatUntil_eq_ok_iff`).
-/

namespace LineaLang.Grammar

variable {α β : Type} {ts rest : List Token}

/-! ## Single steps -/

theorem bind_eq_ok_iff {r : Reading α} {f : α → Reading β} {b : β} :
    (r >>= f) ts = .ok b rest ↔ ∃ a mid, r ts = .ok a mid ∧ f a mid = .ok b rest := by
  simp only [bind, EStateM.bind]
  cases h : r ts with
  | ok a mid =>
    constructor
    · intro h'
      exact ⟨a, mid, rfl, h'⟩
    · rintro ⟨_, _, h1, h2⟩
      cases h1
      exact h2
  | error e mid => simp

/-- What comes after a step matters only where the step succeeds. -/
theorem bind_congr_of_ok {r : Reading α} {f g : α → Reading β}
    (h : ∀ a mid, r ts = .ok a mid → f a mid = g a mid) : (r >>= f) ts = (r >>= g) ts := by
  simp only [bind, EStateM.bind]
  cases hr : r ts with
  | error fault mid => rfl
  | ok a mid => exact h a mid hr

theorem bind_of_error {r : Reading α} {f : α → Reading β} {fault : ReadingFault} (h : r ts = .error fault rest) :
    (r >>= f) ts = .error fault rest := by
  simp only [bind, EStateM.bind, h]

theorem bind_of_ok {r : Reading α} {f : α → Reading β} {a : α} (h : r ts = .ok a rest) : (r >>= f) ts = f a rest := by
  simp only [bind, EStateM.bind, h]

theorem pure_eq_ok_iff {a b : α} : (pure a : Reading α) ts = .ok b rest ↔ a = b ∧ ts = rest := by
  simp [pure, EStateM.pure]

theorem expect_eq_ok_iff {kinds : List TokenKind} {t : Token} :
    expect kinds ts = .ok t rest ↔ ts = t :: rest ∧ t.kind ∈ kinds := by
  cases ts with
  | nil => simp [expect]
  | cons token more =>
    by_cases h : token.kind ∈ kinds
    · simp only [expect, h, if_true, EStateM.Result.ok.injEq, List.cons.injEq]
      exact ⟨fun ⟨ht, hm⟩ => ⟨⟨ht, hm⟩, ht ▸ h⟩, And.left⟩
    · simp only [expect, h, if_false, reduceCtorEq, List.cons.injEq, false_iff]
      rintro ⟨⟨rfl, _⟩, hk⟩
      exact h hk

theorem expect_eq_error_iff {kinds : List TokenKind} {fault : ReadingFault} :
    expect kinds ts = .error fault rest ↔
      ¬ Starts kinds ts ∧ fault = .refused (.unexpected kinds ts.head?) ∧ rest = ts := by
  cases ts with
  | nil => simp [expect, eq_comm]
  | cons t more =>
    by_cases hk : t.kind ∈ kinds <;> simp [expect, hk, eq_comm]

theorem lookingAt_eq (kinds : List TokenKind) (ts : List Token) :
    lookingAt kinds ts = .ok (decide (Starts kinds ts)) ts := by
  cases ts <;> rfl

/-- A reading that first looks at the next token goes on as that says. -/
theorem lookingAt_bind (kinds : List TokenKind) (f : Bool → Reading α) (ts : List Token) :
    (lookingAt kinds >>= f) ts = f (decide (Starts kinds ts)) ts := by
  simp [bind, EStateM.bind, lookingAt_eq]

/-- Only the next token plays a part in what starts. -/
theorem starts_congr {kinds : List TokenKind} {ts' : List Token} (h : ts'.head? = ts.head?) :
    Starts kinds ts' ↔ Starts kinds ts := by
  cases ts with
  | nil => rw [List.head?_eq_none_iff.mp h]
  | cons t more =>
    obtain ⟨more', rfl⟩ := List.head?_eq_some_iff.mp h
    exact Iff.rfl

theorem atEnd_eq (ts : List Token) : atEnd ts = .ok (decide (ts = [])) ts := by
  cases ts <;> rfl

theorem refuse_ne_ok {kinds : List TokenKind} {a : α} : refuse kinds ts ≠ .ok a rest := nofun

theorem fail_ne_ok {fault : ReadingFault} {a : α} : fail fault ts ≠ .ok a rest := nofun

theorem refuseLevel_ne_ok {a : α} : refuseLevel ts ≠ .ok a rest := nofun

/-! ## Repetition -/

/-- **Items one after the other, up to where `done` holds.** -/
inductive Repeats (done : Reading Bool) (item : Reading α) :
    List Token → List α → List Token → Prop where
  | stop {before after : List Token} (h : done before = .ok true after) :
      Repeats done item before [] after
  | step {before mid next after : List Token} {a : α} {as : List α} (hd : done before = .ok false mid)
      (hi : item mid = .ok a next) (h : Repeats done item next as after) :
      Repeats done item before (a :: as) after

theorem repeats_nil_iff {done : Reading Bool} {item : Reading α} :
    Repeats done item ts [] rest ↔ done ts = .ok true rest := by
  constructor
  · rintro ⟨h⟩
    exact h
  · exact .stop

theorem repeats_cons_iff {done : Reading Bool} {item : Reading α} {a : α} {as : List α} :
    Repeats done item ts (a :: as) rest ↔
      ∃ mid next, done ts = .ok false mid ∧ item mid = .ok a next ∧ Repeats done item next as rest := by
  constructor
  · intro h
    cases h with
    | step hd hi h => exact ⟨_, _, hd, hi, h⟩
  · rintro ⟨mid, next, hd, hi, h⟩
    exact .step hd hi h

/-- A reading that takes a token whenever it succeeds. -/
def Takes (item : Reading α) : Prop :=
  ∀ ⦃ts a rest⦄, item ts = .ok a rest → rest.length < ts.length

/-- A reading after a token takes tokens if it does so without. -/
theorem takes_after_expect {kinds : List TokenKind} {f : Token → Reading α} (h : ∀ t, Takes (f t)) :
    Takes (expect kinds >>= f) := by
  intro ts a rest hok
  obtain ⟨t, mid, ht, hf⟩ := bind_eq_ok_iff.mp hok
  obtain ⟨rfl, -⟩ := expect_eq_ok_iff.mp ht
  exact Nat.lt_succ_of_lt (h t hf)

theorem Takes.map {item : Reading α} (h : Takes item) (g : α → β) :
    Takes (do let a ← item; return g a) := by
  intro ts b rest hok
  obtain ⟨a, mid, ha, hb⟩ := bind_eq_ok_iff.mp hok
  obtain ⟨-, rfl⟩ := pure_eq_ok_iff.mp hb
  exact h ha

/-- A question about the tokens that takes none of them, and is not denied where none is left. -/
structure Asks (done : Reading Bool) : Prop where
  rest_eq : ∀ ⦃ts b rest⦄, done ts = .ok b rest → rest = ts
  nil_ne_false : ∀ rest, done [] ≠ .ok false rest

/-- Counting along enough tokens is no bound. -/
theorem repeatAlong_eq_ok_iff {done : Reading Bool} {item : Reading α} (hd : Asks done)
    (hi : Takes item) {bound : List Token} (hb : ts.length ≤ bound.length) {as : List α} :
    repeatAlong done item bound ts = .ok as rest ↔ Repeats done item ts as rest := by
  induction bound generalizing ts as with
  | nil =>
    have hts : ts = [] := List.length_eq_zero_iff.mp (Nat.le_zero.mp hb)
    subst hts
    simp only [repeatAlong, bind_eq_ok_iff, pure_eq_ok_iff]
    constructor
    · rintro ⟨b, mid, hmid, rfl, rfl⟩
      cases b with
      | true => exact .stop hmid
      | false => exact absurd hmid (hd.nil_ne_false _)
    · intro h
      cases h with
      | stop h => exact ⟨true, rest, h, rfl, rfl⟩
      | step hf _ _ => exact absurd hf (hd.nil_ne_false _)
  | cons token bound ih =>
    simp only [repeatAlong, bind_eq_ok_iff]
    constructor
    · rintro ⟨b, mid, hmid, h⟩
      cases b with
      | true =>
        obtain ⟨rfl, rfl⟩ := pure_eq_ok_iff.mp h
        exact .stop hmid
      | false =>
        simp only [Bool.false_eq_true, if_false, bind_eq_ok_iff, pure_eq_ok_iff] at h
        obtain ⟨a, mid', ha, as', rest', has, rfl, rfl⟩ := h
        have hlt := hi ha
        rw [hd.rest_eq hmid] at hlt
        exact .step hmid ha ((ih (by simp at hb; omega)).mp has)
    · intro h
      cases h with
      | stop h => exact ⟨true, rest, h, by simp [pure_eq_ok_iff]⟩
      | @step _ mid mid' _ a as' hf ha h =>
        have hlt := hi ha
        rw [hd.rest_eq hf] at hlt
        refine ⟨false, mid, hf, ?_⟩
        simp only [Bool.false_eq_true, if_false, bind_eq_ok_iff, pure_eq_ok_iff]
        exact ⟨a, mid', ha, as', rest, (ih (by simp at hb; omega)).mpr h, rfl, rfl⟩

/-- **What is read by repetition.** -/
theorem repeatUntil_eq_ok_iff {done : Reading Bool} {item : Reading α} (hd : Asks done)
    (hi : Takes item) {as : List α} :
    repeatUntil done item ts = .ok as rest ↔ Repeats done item ts as rest :=
  repeatAlong_eq_ok_iff hd hi (Nat.le_refl _)

/-- One round of counting along enough tokens. -/
theorem repeatAlong_eq {done : Reading Bool} {item : Reading α} (hd : Asks done) {bound : List Token}
    (hb : ts.length ≤ bound.length) :
    repeatAlong done item bound ts = (do
      if ← done then return []
      else
        let first ← item
        let more ← repeatAlong done item bound.tail
        return first :: more) ts := by
  cases bound with
  | nil =>
    obtain rfl := List.length_eq_zero_iff.mp (Nat.le_zero.mp hb)
    refine bind_congr_of_ok fun b mid hdone => ?_
    cases b with
    | true => rfl
    | false => exact absurd hdone (hd.nil_ne_false _)
  | cons token bound => rfl

/-- Counting along enough tokens is no bound. -/
theorem repeatAlong_congr {done : Reading Bool} {item : Reading α} (hd : Asks done) (hi : Takes item)
    {bound bound' : List Token} (hb : ts.length ≤ bound.length) (hb' : ts.length ≤ bound'.length) :
    repeatAlong done item bound ts = repeatAlong done item bound' ts := by
  generalize hlength : ts.length = length
  induction length using Nat.strongRecOn generalizing ts bound bound' with
  | ind length ih =>
    rw [repeatAlong_eq hd hb, repeatAlong_eq hd hb']
    refine bind_congr_of_ok fun b mid hdone => ?_
    cases b with
    | true => rfl
    | false =>
      obtain rfl := hd.rest_eq hdone
      refine bind_congr_of_ok fun a next hitem => ?_
      have hlt := hi hitem
      have hround : repeatAlong done item bound.tail next = repeatAlong done item bound'.tail next :=
        ih next.length (by omega) (by simp; omega) (by simp; omega) rfl
      simp only [bind, EStateM.bind, hround]

/-- **Repetition, round by round.** -/
theorem repeatUntil_eq {done : Reading Bool} {item : Reading α} (hd : Asks done) (hi : Takes item) :
    repeatUntil done item = do
      if ← done then return []
      else
        let first ← item
        let more ← repeatUntil done item
        return first :: more := by
  funext ts
  rw [repeatUntil, repeatAlong_eq hd (Nat.le_refl _)]
  refine bind_congr_of_ok fun b mid hdone => ?_
  cases b with
  | true => rfl
  | false =>
    obtain rfl := hd.rest_eq hdone
    refine bind_congr_of_ok fun a next hitem => ?_
    have hlt := hi hitem
    have hround : repeatAlong done item mid.tail next = repeatAlong done item next next :=
      repeatAlong_congr hd hi (by simp; omega) (Nat.le_refl _)
    simp only [bind, EStateM.bind, hround, repeatUntil]

/-- Does no token of these kinds come next? -/
def notLookingAt (kinds : List TokenKind) : Reading Bool := do return !(← lookingAt kinds)

theorem notLookingAt_eq (kinds : List TokenKind) (ts : List Token) :
    notLookingAt kinds ts = .ok (decide (¬ Starts kinds ts)) ts := by
  simp [notLookingAt, lookingAt_bind, pure, EStateM.pure]

theorem asks_notLookingAt (kinds : List TokenKind) : Asks (notLookingAt kinds) where
  rest_eq ts b rest h := by
    rw [notLookingAt_eq] at h
    injection h with _ h
    exact h.symm
  nil_ne_false rest := by simp [notLookingAt_eq]

theorem repeats_while_nil_iff {kinds : List TokenKind} {item : Reading α} :
    Repeats (notLookingAt kinds) item ts [] rest ↔ ¬ Starts kinds ts ∧ ts = rest := by
  simp [repeats_nil_iff, notLookingAt_eq]

theorem repeats_while_cons_iff {kinds : List TokenKind} {item : Reading α} {a : α} {as : List α} :
    Repeats (notLookingAt kinds) item ts (a :: as) rest ↔
      Starts kinds ts ∧ ∃ next, item ts = .ok a next ∧ Repeats (notLookingAt kinds) item next as rest := by
  simp [repeats_cons_iff, notLookingAt_eq, and_assoc]

theorem repeatWhile_eq_ok_iff {kinds : List TokenKind} {item : Reading α} (hi : Takes item)
    {as : List α} :
    repeatWhile kinds item ts = .ok as rest ↔ Repeats (notLookingAt kinds) item ts as rest :=
  repeatUntil_eq_ok_iff (asks_notLookingAt kinds) hi

/-- **What is read with commas between.** -/
theorem commaList_eq_ok_iff {item : Reading α} (hi : Takes item) {as : List α} :
    commaList item ts = .ok as rest ↔
      Starts [.rparen] ts ∧ as = [] ∧ ts = rest ∨
        ¬ Starts [.rparen] ts ∧ ∃ first mid more, item ts = .ok first mid ∧
          Repeats (notLookingAt [.comma]) (do let _ ← expect [.comma]; item) mid more rest ∧
          as = first :: more := by
  have hitem : Takes (do let _ ← expect [.comma]; item) := takes_after_expect fun _ => hi
  rw [commaList, lookingAt_bind]
  by_cases hs : Starts [.rparen] ts
  · simp only [hs, decide_true, if_true, pure_eq_ok_iff, true_and, not_true_eq_false, false_and, or_false,
      eq_comm]
  · simp only [hs, decide_false, Bool.false_eq_true, if_false, bind_eq_ok_iff, pure_eq_ok_iff,
      repeatWhile_eq_ok_iff hitem, false_and, false_or, not_false_eq_true, true_and]
    constructor
    · rintro ⟨first, mid, hfirst, more, _, hmore, rfl, rfl⟩
      exact ⟨first, mid, more, hfirst, hmore, rfl⟩
    · rintro ⟨first, mid, more, hfirst, hmore, rfl⟩
      exact ⟨first, mid, hfirst, more, rest, hmore, rfl, rfl⟩

end LineaLang.Grammar
