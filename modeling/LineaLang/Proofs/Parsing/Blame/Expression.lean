import LineaLang.Proofs.Parsing.Blame.Words

/-!
# `LineaLang.Proofs.Parsing.Blame.Expression` — which token an expression blames

Where every phrase is a sequence, `Reads` follows from the rules for its steps. Two phrases are more than that: a
primary expression looks into its literal after it has taken it, and an assignment refuses a target after it has taken
the sign. What is blamed by them is found by hand.

## Contents

* `Finds.reads` — what a reading takes is known, so only its refusals have to be looked at.
* `reads_primary`, …, `reads_assignment` — the phrases, given expressions of one level less.
* `reads_expressionAt` — expressions, by induction on the levels.
-/

namespace LineaLang.Grammar

open scoped Computability

variable {n N : Nat} {expr : Reading Node} {P : List Token → Prop} {ts rest : List Token} {kinds : List TokenKind}
  {found : Option Token}

/-! ## Derivations -/

variable [CharacterNames]

/-- **What a reading takes is a word**, and it would take it too if other tokens stood behind the next one. -/
theorem Finds.again {s : Symbol} {stops : Derivation s → List Token → Prop} {r : Reading s.Tree} (h : Finds n stops r)
    (hstops : ∀ d rest rest', rest'.head? = rest.head? → stops d rest → stops d rest') {a : s.Tree}
    (hok : r ts = .ok a rest) :
    ∃ d : Derivation s, d.Fits n ∧ stops d rest ∧ ts = d.tokens ++ rest ∧ a = d.tree ∧
      ∀ rest', rest'.head? = rest.head? → r (d.tokens ++ rest') = .ok d.tree rest' := by
  obtain ⟨d, hd, hends, rfl, rfl⟩ := h.mp hok
  exact ⟨d, hd, hends, rfl, rfl, fun rest' hrest' => h.mpr ⟨d, hd, hstops d rest rest' hrest' hends, rfl, rfl⟩⟩

omit [CharacterNames] in
theorem EndsBefore.congr {operators : List TokenKind} {s : Symbol} (d : Derivation s) (rest rest' : List Token)
    (h : rest'.head? = rest.head?) (hends : EndsBefore operators d rest) : EndsBefore operators d rest' := by
  unfold EndsBefore Ends at hends ⊢
  rwa [starts_congr h, starts_congr h]

omit [CharacterNames] in
theorem NoElseFor.congr {s : Symbol} (d : Derivation s) (rest rest' : List Token) (h : rest'.head? = rest.head?)
    (hends : NoElseFor d rest) : NoElseFor d rest' := by
  unfold NoElseFor at hends ⊢
  rwa [starts_congr h]

/-- A reading that finds derivations reads their words, if it blames tokens as it should. -/
theorem Finds.reads {s : Symbol} {stops : Derivation s → List Token → Prop} {r : Reading s.Tree} (h : Finds n stops r)
    (hstops : ∀ d rest rest', rest'.head? = rest.head? → stops d rest → stops d rest') (hle : n ≤ N)
    (hwords : ∃ word, word ∈ words s N)
    (hblames : ∀ ⦃ts kinds found rest⦄, r ts = .error (.refused (.unexpected kinds found)) rest →
      ∃ before left, ts = before ++ left ∧ Blames r (words s N) kinds found rest before left) :
    Reads P r (words s N) where
  inhabited := hwords
  takes _ _ _ _ hok := by
    obtain ⟨d, hd, -, rfl, rfl, hagain⟩ := h.again hstops hok
    exact ⟨d.tokens, ⟨d, hd.mono hle, rfl⟩, rfl, hagain⟩
  stops _ _ _ _ _ herror := hblames herror

/-! ## Expressions -/

section Expressions

variable (hfinds : Finds (s := .expression) n (EndsBefore expressionSigns) expr)
  (hexpr : Reads (fun _ => True) expr (words .expression N))

include hfinds hexpr in
/-- The parenthesis after a name, the arguments and the other parenthesis. -/
theorem reads_callOf (name : Text) : Reads P (callOf expr name)
    (terminals [.lparen] * (words .arguments N * terminals [.rparen])) :=
  (reads_expect (by decide)).bind fun _ =>
    ((Reads.commaList (hfinds.takes rfl) hexpr).le arguments_le).bind fun _ => (reads_expect (by decide)).map

include hexpr in
/-- Each token that starts an operand can be gone on with. -/
theorem begins_primary {t : Token} (hkind : t.kind ∈ primaryStart) (ht : t.Legible) :
    Begins (words .primary N) [t] := by
  simp only [primaryStart, List.mem_cons, List.not_mem_nil, or_false] at hkind
  rcases hkind with hk | hk | hk | hk
  · exact .of_mem ⟨.number ⟨t, List.mem_singleton.mpr hk⟩, ht, rfl⟩
  · exact .of_mem ⟨.string ⟨t, List.mem_singleton.mpr hk⟩, ht, rfl⟩
  · exact .of_mem ⟨.ident ⟨t, List.mem_singleton.mpr hk⟩, trivial, rfl⟩
  · obtain ⟨_, inner, hinner, rfl⟩ := hexpr.inhabited
    exact ⟨inner.tokens ++ [someClosing.1], .parenthesised ⟨t, List.mem_singleton.mpr hk⟩ inner someClosing, hinner,
      rfl⟩

/-- What follows the first token of a primary expression. -/
def afterFirst (expr : Reading Node) (token : Token) : Reading Node :=
  match token.kind with
  | .number =>
    match numberValue token.lexeme with
    | .ok value => return .number value
    | .error fault => fail (.numeral fault)
  | .string =>
    match Literal.read? token.lexeme with
    | some value => return .string value
    | none => fail (.refused (.unexpected [.string] (some token)))
  | .ident => do
    if ← lookingAt [.lparen] then callOf expr token.lexeme
    else return .ident (.str token.lexeme)
  | _ => do
    let inner ← expr
    let _ ← expect [.rparen]
    return inner

theorem primary_cons {t : Token} (hkind : t.kind ∈ primaryStart) (more : List Token) :
    primary expr (t :: more) = afterFirst expr t more := by
  show (expect primaryStart >>= afterFirst expr) (t :: more) = _
  simp only [bind, EStateM.bind, expect, hkind, if_true]

theorem primary_of_not_starts (expr : Reading Node) (hts : ¬ Starts primaryStart ts) :
    primary expr ts = .error (.refused (.unexpected primaryStart ts.head?)) ts := by
  show (expect primaryStart >>= afterFirst expr) ts = _
  simp only [bind, EStateM.bind, expect_eq_error_iff.mpr ⟨hts, rfl, rfl⟩]

/-- **A string token that is no string** is blamed as soon as it is taken. -/
theorem string_blames (expr : Reading Node) {t : Token} (hk : t.kind = .string)
    (hunread : Literal.read? t.lexeme = none)
    (hexpects : ∀ t : Token, t.kind ∈ primaryStart → t.Legible → Begins (words .primary N) ([] ++ [t]))
    (hbegins : Begins (words .primary N) []) :
    Blames (primary expr) (words .primary N) [.string] (some t) rest [] (t :: rest) := by
  have hillegible : ¬ t.Legible := fun hlegible => by
    obtain ⟨v, hv⟩ := hlegible.2 hk
    rw [hunread] at hv
    cases hv
  refine ⟨rfl, fun left' hleft' => ?_, hbegins, .literal rfl (List.mem_singleton.mpr hk) hillegible fun t' ht' =>
    hexpects t' ?_, by decide⟩
  · obtain ⟨more, rfl⟩ := List.head?_eq_some_iff.mp hleft'
    refine ⟨more, ?_⟩
    rw [List.nil_append, primary_cons (by rw [hk]; decide)]
    simp only [afterFirst, hk, hunread]
    rfl
  · rw [List.mem_singleton.mp ht']
    decide

include hfinds hexpr in
/-- **A primary expression** blames the first token, or what comes after it. -/
theorem primary_blames (herror : primary expr ts = .error (.refused (.unexpected kinds found)) rest) :
    ∃ before left, ts = before ++ left ∧ Blames (primary expr) (words .primary N) kinds found rest before left := by
  have hexpects : ∀ t : Token, t.kind ∈ primaryStart → t.Legible → Begins (words .primary N) ([] ++ [t]) :=
    fun t => begins_primary hexpr
  have hbegins : Begins (words .primary N) [] := ⟨[someName.1], .ident someName, trivial, rfl⟩
  by_cases hs : Starts primaryStart ts
  · obtain ⟨t, more, rfl⟩ := List.exists_cons_of_ne_nil hs.ne_nil
    rw [primary_cons hs] at herror
    -- What comes after the first token is blamed for the whole.
    have hlift : ∀ {L : Language Token}, (∀ q ∈ L, t :: q ∈ words .primary N) →
        Reads (fun _ => True) (afterFirst expr t) L →
        ∃ before left, t :: more = before ++ left ∧
          Blames (primary expr) (words .primary N) kinds found rest before left := by
      intro L hL hreads
      obtain ⟨before, left, rfl, hblames⟩ := hreads.stops trivial herror
      refine ⟨t :: before, left, rfl, hblames.lift [t] (fun q hq => .of_mem (hL q hq)) ?_⟩
      intro ts' _ fault rest' h
      rwa [List.singleton_append, primary_cons hs]
    have hkind := starts_cons.mp hs
    simp only [primaryStart, List.mem_cons, List.not_mem_nil, or_false] at hkind
    rcases hkind with hk | hk | hk | hk
    · simp only [afterFirst, hk] at herror
      cases hvalue : numberValue t.lexeme with
      | ok value | error fault =>
        rw [hvalue] at herror
        cases herror
    · simp only [afterFirst, hk] at herror
      cases hunread : Literal.read? t.lexeme with
      | some value =>
        rw [hunread] at herror
        cases herror
      | none =>
        rw [hunread] at herror
        cases herror
        exact ⟨[], t :: rest, rfl, string_blames expr hk hunread hexpects hbegins⟩
    · refine hlift (L := 1 + terminals [.lparen] * (words .arguments N * terminals [.rparen])) ?_ ?_
      · rintro _ (rfl | ⟨_, ⟨opening, rfl⟩, _, ⟨_, ⟨args, hargs, rfl⟩, _, ⟨closing, rfl⟩, rfl⟩, rfl⟩)
        · exact ⟨.ident ⟨t, List.mem_singleton.mpr hk⟩, trivial, rfl⟩
        · exact ⟨.ofCall (.call ⟨t, List.mem_singleton.mpr hk⟩ opening args closing), hargs, rfl⟩
      · simp only [afterFirst, hk]
        exact .lookingAt ((reads_callOf hfinds hexpr _).le le_add_self) ((Reads.pure _).le le_self_add)
    · refine hlift (L := words .expression N * terminals [.rparen]) ?_ ?_
      · rintro _ ⟨_, ⟨inner, hinner, rfl⟩, _, ⟨closing, rfl⟩, rfl⟩
        exact ⟨.parenthesised ⟨t, List.mem_singleton.mpr hk⟩ inner closing, hinner, rfl⟩
      · simp only [afterFirst, hk]
        exact hexpr.bind fun _ => (reads_expect (by decide)).map
  · rw [primary_of_not_starts expr hs] at herror
    cases herror
    refine ⟨[], ts, rfl, rfl, fun left' hleft' => ⟨left', ?_⟩, hbegins, .next rfl hs hexpects, by decide⟩
    rw [List.nil_append, primary_of_not_starts expr (by rwa [starts_congr hleft']), hleft']

include hfinds hexpr in
theorem reads_primary (hle : n ≤ N) : Reads P (primary expr) (words .primary N) :=
  (finds_primary hfinds).reads EndsBefore.congr hle ⟨_, .ident someName, trivial, rfl⟩ fun _ _ _ _ =>
    primary_blames hfinds hexpr

include hfinds hexpr in
theorem reads_unary (hle : n ≤ N) : Reads P (unary expr) (words .unary N) := by
  refine .lookingAt (Reads.le ?_ negative_le) ((reads_primary hfinds hexpr hle).le primary_le_unary)
  exact (reads_expect_next (by decide) fun _ => And.right).bind fun _ => (reads_primary hfinds hexpr hle).map

omit hfinds hexpr in
/-- Operands joined by operators, of which at least one is looked for before it is taken. -/
theorem reads_chain {operand : Reading Node} {L : Language Token} (hkinds : kinds ≠ []) (htakes : Takes operand)
    (h : Reads (fun _ => True) operand L) : Reads P (chain kinds operand) (L * (terminals kinds * L)∗) := by
  have hitem : Reads (Starts kinds) (signed kinds operand) (terminals kinds * L) :=
    (reads_expect_next hkinds fun _ h => h).bind fun _ => h.map
  exact h.of_true.bind fun _ => (Reads.repeatWhile (takes_after_expect fun _ => htakes.map _) hitem).map

include hfinds hexpr

theorem reads_multiplicative (hle : n ≤ N) : Reads P (multiplicative expr) (words .multiplicative N) :=
  (reads_chain (by decide) ((finds_unary hfinds).takes rfl) (reads_unary hfinds hexpr hle)).le multiplicative_le

theorem reads_additive (hle : n ≤ N) : Reads P (additive expr) (words .additive N) :=
  (reads_chain (by decide) ((finds_multiplicative hfinds).takes rfl) (reads_multiplicative hfinds hexpr hle)).le
    additive_le

theorem reads_comparison (hle : n ≤ N) : Reads P (comparison expr) (words .comparison N) := by
  refine Reads.le ?_ comparison_le
  exact (reads_additive hfinds hexpr hle).bind fun _ => (reads_expect (by decide)).bind fun _ =>
    (reads_additive hfinds hexpr hle).map

omit hfinds hexpr in
/-- What follows an equals sign. -/
def assigned (expr : Reading Node) (left : Node) (sign : Token) : Reading Node :=
  match left with
  | .ident name => do
    let value ← expr
    return .assign name value
  | _ => fail (.refused (.unexpected [.ident] (some sign)))

omit hfinds hexpr in
theorem assignment_eq (expr : Reading Node) : assignment expr = (do
    let left ← additive expr
    if ← lookingAt [.assign] then
      let sign ← expect [.assign]
      assigned expr left sign
    else return left) := rfl

omit hexpr in
/-- An assignment behind its equals sign. -/
theorem assignment_of_sign {d : Derivation .additive} (hd : d.Fits n) {sign : Token} (hsign : sign.kind = .assign)
    (after : List Token) : assignment expr (d.tokens ++ sign :: after) = assigned expr d.tree sign after := by
  have hs : Starts [.assign] (sign :: after) := List.mem_singleton.mpr hsign
  have hsum : additive expr (d.tokens ++ sign :: after) = .ok d.tree (sign :: after) :=
    (finds_additive hfinds).mpr ⟨d, hd, ends_of_starts hs (by decide), rfl, rfl⟩
  rw [assignment_eq, bind_of_ok hsum, lookingAt_bind, decide_eq_true hs, if_pos rfl,
    bind_of_ok (expect_eq_ok_iff.mpr ⟨rfl, hs⟩)]

omit [CharacterNames] in
omit hfinds hexpr in
theorem assigned_of_ne (expr : Reading Node) {left : Node} (h : ∀ name, left ≠ .ident name) (sign : Token)
    (after : List Token) :
    assigned expr left sign after = .error (.refused (.unexpected [.ident] (some sign))) after := by
  cases left with
  | ident name => exact absurd rfl (h name)
  | _ => rfl

/-- **An assignment** blames a token of its target or of its value, or the sign between them. -/
theorem assignment_blames (hle : n ≤ N)
    (herror : assignment expr ts = .error (.refused (.unexpected kinds found)) rest) :
    ∃ before left, ts = before ++ left ∧
      Blames (assignment expr) (words .assignment N) kinds found rest before left := by
  cases hsum : additive expr ts with
  | error fault mid =>
    rw [assignment_eq, bind_of_error hsum] at herror
    obtain ⟨rfl, rfl⟩ := EStateM.Result.error.inj herror
    obtain ⟨before, left, rfl, hblames⟩ := (reads_additive (P := fun _ => True) hfinds hexpr hle).stops trivial hsum
    exact ⟨before, left, rfl, hblames.lift [] (fun q hq => .of_mem (additive_le_assignment hq))
      fun _ _ _ _ h => bind_of_error h⟩
  | ok a mid =>
    obtain ⟨d, hd, hends, rfl, rfl⟩ := (finds_additive hfinds).mp hsum
    by_cases hs : Starts [.assign] mid
    · obtain ⟨sign, after, rfl⟩ := List.exists_cons_of_ne_nil hs.ne_nil
      have hsign := List.mem_singleton.mp hs
      have hwhole := assignment_of_sign hfinds hd hsign
      rw [hwhole] at herror
      by_cases hname : ∃ name, d.tree = .ident name
      · obtain ⟨name, hname⟩ := hname
        have hreads : Reads (fun _ => True) (assigned expr d.tree sign) (words .expression N) := by
          rw [hname]
          exact hexpr.map
        obtain ⟨before, left, rfl, hblames⟩ := hreads.stops trivial herror
        refine ⟨d.tokens ++ [sign] ++ before, left, by simp, hblames.lift _ ?_ fun ts' _ fault rest' h => ?_⟩
        · rintro _ ⟨value, hvalue, rfl⟩
          cases value with
          | expression value =>
            exact .of_mem ⟨.assign d ⟨sign, hs⟩ value, ⟨⟨name, hname⟩, hd.mono hle, hvalue⟩,
              by simp [Derivation.tokens]⟩
        · rw [List.append_assoc, List.singleton_append, hwhole, h]
      · have hrefused := fun after' => assigned_of_ne expr (not_exists.mp hname) sign after'
        rw [hrefused] at herror
        cases herror
        refine ⟨d.tokens, sign :: rest, rfl, rfl, fun left' hleft' => ?_, ?_, ?_, by decide⟩
        · obtain ⟨after', rfl⟩ := List.head?_eq_some_iff.mp hleft'
          exact ⟨after', by rw [hwhole, hrefused]⟩
        · exact .of_mem ⟨.sum d, hd.mono hle, rfl⟩
        · exact .target rfl hsign rfl ⟨d, List.suffix_refl _, not_exists.mp hname⟩
    · rw [assignment_eq, bind_of_ok hsum, lookingAt_bind, decide_eq_false hs, if_neg Bool.false_ne_true] at herror
      cases herror

theorem reads_assignment (hle : n ≤ N) : Reads P (assignment expr) (words .assignment N) :=
  (finds_assignment hfinds).reads EndsBefore.congr hle
    ((reads_additive (P := P) hfinds hexpr hle).inhabited.imp fun _ h => additive_le_assignment h)
    fun _ _ _ _ => assignment_blames hfinds hexpr hle

end Expressions

/-- **Expressions**, with a number of levels that may be opened. -/
theorem reads_expressionAt (n : Nat) : Reads P (expressionAt n) (words .expression (n + 1)) := by
  induction n generalizing P with
  | zero => exact .refuseLevel ⟨_, primary_le_expression ⟨.ident someName, trivial, rfl⟩⟩
  | succ n ih => exact (reads_assignment (finds_expressionAt n) ih (Nat.le_succ n)).le assignment_le_expression

end LineaLang.Grammar
