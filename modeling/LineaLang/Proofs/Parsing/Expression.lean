import LineaLang.Proofs.Parsing.Fits
import LineaLang.Proofs.Parsing.Reading

/-!
# `LineaLang.Proofs.Parsing.Expression` — reading expressions

A reading of an expression takes exactly the tokens of a derivation that fits, and stops where nothing in what
is left could go on with it: no operator of its strength, and no parenthesis after a name. Each reading is
shown to do so (`Finds`) from the readings that it is made of, up to `expressionAt`.

## Contents

* `Ends` — where a phrase of operands and operators is at its end.
* `Finds` — a reading gives the tree of a derivation, and gives it whenever there is one.
* `finds_primary` … `finds_assignment` — one lemma for each phrase, given one for the expressions inside it.
* `finds_expressionAt` — by induction on the levels that may be opened.
-/

namespace LineaLang

namespace Grammar

variable {operators more : List TokenKind} {ts rest taken : List Token} {n : Nat}

/-! ## The end of a phrase -/

/-- **Nothing in what is left goes on with what was taken**: no operator, and no arguments for a name. -/
def Ends (operators : List TokenKind) (taken rest : List Token) : Prop :=
  ¬ Starts operators rest ∧ (EndsInName taken → ¬ Starts [.lparen] rest)

/-- Only the last tokens decide what can go on with them. -/
theorem ends_append (before : List Token) (h : taken ≠ []) :
    Ends operators (before ++ taken) rest ↔ Ends operators taken rest := by
  simp only [Ends, endsInName_append h]

theorem ends_cons {token : Token} (h : taken ≠ []) :
    Ends operators (token :: taken) rest ↔ Ends operators taken rest :=
  ends_append [token] h

/-- A token that is neither an operator nor an opening parenthesis ends any phrase. -/
theorem ends_of_starts (h : Starts more rest) (hm : ∀ kind ∈ more, kind ∉ .lparen :: operators) :
    Ends operators taken rest :=
  ⟨h.not_of_disjoint fun kind hk ho => hm kind hk (List.mem_cons_of_mem _ ho),
    fun _ => h.not_of_disjoint fun kind hk ho => hm kind hk (List.mem_singleton.mp ho ▸ List.mem_cons_self)⟩

/-- After another token than a name nothing but an operator can go on. -/
theorem ends_of_last (before : List Token) {token : Token} (h : token.kind ≠ .ident) :
    Ends [] (before ++ [token]) rest := by
  refine ⟨not_starts_of_nil, fun hname => absurd ?_ h⟩
  rwa [endsInName_append (List.cons_ne_nil _ _), endsInName_singleton] at hname

theorem starts_append_left : Starts (operators ++ more) rest ↔ Starts operators rest ∨ Starts more rest := by
  cases rest <;> simp

/-- Nothing goes on with a tail of more operators and operands, which may be empty. -/
def TailEnds (operators signs : List TokenKind) (tail rest : List Token) : Prop :=
  ¬ Starts signs rest ∧ (tail ≠ [] → Ends operators tail rest)

theorem ends_append_signs {signs : List TokenKind} :
    Ends (operators ++ signs) taken rest ↔ Ends operators taken rest ∧ ¬ Starts signs rest := by
  simp only [Ends, starts_append_left, not_or]
  grind

/-- **The end of a phrase with a tail**: the tail, or the rest behind an empty tail, ends what is before. -/
theorem ends_append_tail {signs : List TokenKind} {tail : List Token} (ht : Starts signs tail ∨ tail = [])
    (hm : ∀ kind ∈ signs, kind ∉ .lparen :: operators) :
    Ends (operators ++ signs) (taken ++ tail) rest ↔
      Ends operators taken (tail ++ rest) ∧ TailEnds operators signs tail rest := by
  rw [ends_append_signs, TailEnds]
  rcases ht with ht | rfl
  · have hends : Ends operators taken (tail ++ rest) :=
      ends_of_starts (starts_append.mpr (.inl ht)) hm
    rw [ends_append _ ht.ne_nil]
    simp only [ht.ne_nil, hends, ne_eq, not_false_eq_true, true_implies, true_and, and_comm]
  · simp

/-- **The end of a tail**, operator by operator. -/
theorem tailEnds_cons {signs : List TokenKind} {sign : Token} {next tail : List Token} (hn : next ≠ [])
    (ht : Starts signs tail ∨ tail = []) (hm : ∀ kind ∈ signs, kind ∉ .lparen :: operators) :
    TailEnds operators signs (sign :: (next ++ tail)) rest ↔
      Ends operators next (tail ++ rest) ∧ TailEnds operators signs tail rest := by
  rw [← ends_append_tail ht hm, ends_append_signs, TailEnds, ends_cons (by simp [hn])]
  simp [and_comm]

/-! ## What a reading finds -/

variable [CharacterNames]

/-- **A reading gives the trees of the derivations that fit and stop before what is left**, and takes their
    tokens. -/
def Finds {s : Symbol} (n : Nat) (stops : Derivation s → List Token → Prop) (reading : Reading s.Tree) :
    Prop :=
  ∀ ⦃ts a rest⦄, reading ts = .ok a rest ↔
    ∃ d : Derivation s, d.Fits n ∧ stops d rest ∧ ts = d.tokens ++ rest ∧ a = d.tree

/-- A reading of a phrase that is never empty takes a token. -/
theorem Finds.takes {s : Symbol} {stops : Derivation s → List Token → Prop} {reading : Reading s.Tree}
    (h : Finds n stops reading) (hs : s.isNullable = false) : Takes reading := by
  intro ts a rest hok
  obtain ⟨d, -, -, rfl, -⟩ := h.mp hok
  have := List.length_pos_iff.mpr (d.tokens_ne_nil hs)
  rw [List.length_append]
  omega

/-- The derivation ends before what is left. -/
def EndsBefore (operators : List TokenKind) {s : Symbol} (d : Derivation s) (rest : List Token) : Prop :=
  Ends operators d.tokens rest

/-- What goes on with a product. -/
def productSigns : List TokenKind := [.times, .div]

/-- What goes on with a sum. -/
def sumSigns : List TokenKind := productSigns ++ [.plus, .minus]

/-- What goes on with an expression. -/
def expressionSigns : List TokenKind := sumSigns ++ [.assign]

/-! ## Arguments -/

variable {expr : Reading Node}

omit [CharacterNames] in
/-- After an argument comes a comma or the closing parenthesis. -/
theorem moreArguments_starts (more : Derivation .moreArguments) (hr : Starts [.rparen] rest) :
    Starts [.comma, .rparen] (more.tokens ++ rest) := by
  rcases more.starts_or_nil with hs | ⟨-, hnil⟩
  · exact starts_append.mpr (.inl (hs.mono (by decide)))
  · exact starts_append.mpr (.inr ⟨hnil, hr.mono (by decide)⟩)

/-- The arguments after the first, up to a closing parenthesis. -/
theorem repeats_moreArguments (h : Finds (s := .expression) n (EndsBefore expressionSigns) expr)
    (hr : Starts [.rparen] rest) {as : List Node} :
    Repeats (notLookingAt [.comma]) (do let _ ← expect [.comma]; expr) ts as rest ↔
      ∃ d : Derivation .moreArguments, d.Fits n ∧ ts = d.tokens ++ rest ∧ as = d.tree := by
  induction as generalizing ts with
  | nil =>
    rw [repeats_while_nil_iff]
    constructor
    · rintro ⟨-, rfl⟩
      exact ⟨.noMoreArguments, trivial, rfl, rfl⟩
    · rintro ⟨d, -, rfl, htree⟩
      cases d with
      | noMoreArguments => exact ⟨hr.not_of_disjoint (by simp), rfl⟩
      | moreArguments _ _ _ => simp [Derivation.tree] at htree
  | cons a as ih =>
    rw [repeats_while_cons_iff]
    constructor
    · rintro ⟨-, next, hitem, hreps⟩
      obtain ⟨more, hmore, rfl, rfl⟩ := ih.mp hreps
      obtain ⟨comma, _, hcomma, hexpr⟩ := bind_eq_ok_iff.mp hitem
      obtain ⟨rfl, hkind⟩ := expect_eq_ok_iff.mp hcomma
      obtain ⟨first, hfirst, -, rfl, rfl⟩ := h.mp hexpr
      exact ⟨.moreArguments ⟨comma, hkind⟩ first more, ⟨hfirst, hmore⟩, by simp [Derivation.tokens], rfl⟩
    · rintro ⟨d, hd, rfl, htree⟩
      cases d with
      | noMoreArguments => simp [Derivation.tree] at htree
      | moreArguments comma first more =>
        obtain ⟨rfl, rfl⟩ := List.cons.inj htree
        refine ⟨comma.2, more.tokens ++ rest, ?_, ih.mpr ⟨more, hd.2, rfl, rfl⟩⟩
        refine bind_eq_ok_iff.mpr ⟨comma.1, _, expect_eq_ok_iff.mpr ⟨rfl, comma.2⟩, ?_⟩
        exact h.mpr ⟨first, hd.1, ends_of_starts (moreArguments_starts more hr) (by decide), by simp, rfl⟩

/-- **The arguments of a call**, up to the closing parenthesis. -/
theorem commaList_expression (h : Finds (s := .expression) n (EndsBefore expressionSigns) expr)
    (hr : Starts [.rparen] rest) {as : List Node} :
    commaList expr ts = .ok as rest ↔
      ∃ d : Derivation .arguments, d.Fits n ∧ ts = d.tokens ++ rest ∧ as = d.tree := by
  rw [commaList_eq_ok_iff (h.takes rfl)]
  simp only [repeats_moreArguments h hr]
  constructor
  · rintro (⟨-, rfl, rfl⟩ | ⟨-, _, _, _, hfirst, ⟨more, hm, rfl, rfl⟩, rfl⟩)
    · exact ⟨.noArguments, trivial, rfl, rfl⟩
    · obtain ⟨first, hf, -, rfl, rfl⟩ := h.mp hfirst
      exact ⟨.arguments first more, ⟨hf, hm⟩, by simp [Derivation.tokens], rfl⟩
  · rintro ⟨d, hd, rfl, rfl⟩
    cases d with
    | noArguments => exact .inl ⟨hr, rfl, rfl⟩
    | arguments first more =>
      have hstart : Starts Symbol.operandStart (first.tokens ++ more.tokens ++ rest) :=
        starts_append.mpr (.inl (starts_append.mpr (.inl (first.starts rfl))))
      refine .inr ⟨hstart.not_of_disjoint (by decide), first.tree, more.tokens ++ rest, more.tree, ?_,
        ⟨more, hd.2, rfl, rfl⟩, rfl⟩
      exact h.mpr ⟨first, hd.1, ends_of_starts (moreArguments_starts more hr) (by decide),
        by simp [Derivation.tokens], rfl⟩

/-- **A call**, read after its name. -/
theorem callOf_eq_ok_iff (h : Finds (s := .expression) n (EndsBefore expressionSigns) expr)
    {name : Token} (hname : name.kind ∈ [TokenKind.ident]) {a : Node} :
    callOf expr name.lexeme ts = .ok a rest ↔
      ∃ d : Derivation .call, d.Fits n ∧ name :: ts = d.tokens ++ rest ∧ a = d.tree := by
  simp only [callOf, bind_eq_ok_iff, pure_eq_ok_iff, expect_eq_ok_iff]
  constructor
  · rintro ⟨opening, _, ⟨rfl, ho⟩, _, _, hargs, closing, _, ⟨rfl, hc⟩, rfl, rfl⟩
    obtain ⟨args, hfits, rfl, rfl⟩ := (commaList_expression h (starts_cons.mpr hc)).mp hargs
    exact ⟨.call ⟨name, hname⟩ ⟨opening, ho⟩ args ⟨closing, hc⟩, hfits, by simp [Derivation.tokens], rfl⟩
  · rintro ⟨d, hd, htokens, rfl⟩
    cases d with
    | call name' opening args closing =>
      obtain ⟨rfl, rfl⟩ := List.cons.inj htokens
      refine ⟨opening.1, _, ⟨rfl, opening.2⟩, args.tree, closing.1 :: rest, ?_, closing.1, rest,
        ⟨rfl, closing.2⟩, rfl, rfl⟩
      exact (commaList_expression h (starts_cons.mpr closing.2)).mpr ⟨args, hd, by simp, rfl⟩

/-! ## Operands -/

omit [CharacterNames] in
theorem call_ends (c : Derivation .call) : Ends [] c.tokens rest := by
  cases c with
  | call name opening args closing =>
    have hclosing := List.mem_singleton.mp closing.2
    exact ends_of_last (name.1 :: opening.1 :: args.tokens) (by simp [hclosing])

theorem primary_sound (h : Finds (s := .expression) n (EndsBefore expressionSigns) expr) {a : Node}
    (hok : primary expr ts = .ok a rest) :
    ∃ d : Derivation .primary, d.Fits n ∧ Ends [] d.tokens rest ∧ ts = d.tokens ++ rest ∧ a = d.tree := by
  simp only [primary, bind_eq_ok_iff, expect_eq_ok_iff] at hok
  obtain ⟨token, mid, ⟨rfl, hkind⟩, hok⟩ := hok
  simp only [primaryStart, List.mem_cons, List.not_mem_nil, or_false] at hkind
  rcases hkind with hk | hk | hk | hk <;> simp only [hk] at hok
  · cases hv : numberValue token.lexeme with
    | ok v =>
      rw [hv] at hok
      obtain ⟨rfl, rfl⟩ := pure_eq_ok_iff.mp hok
      have hlegible : token.Legible := ⟨fun _ => ⟨v, hv⟩, by simp [hk]⟩
      exact ⟨.number ⟨token, List.mem_singleton.mpr hk⟩, hlegible, ends_of_last [] (by simp [hk]),
        rfl, by simp [Derivation.tree, hv, Except.toOption]⟩
    | error fault =>
      rw [hv] at hok
      exact absurd hok fail_ne_ok
  · cases hv : Literal.read? token.lexeme with
    | some v =>
      rw [hv] at hok
      obtain ⟨rfl, rfl⟩ := pure_eq_ok_iff.mp hok
      have hlegible : token.Legible := ⟨by simp [hk], fun _ => ⟨v, hv⟩⟩
      exact ⟨.string ⟨token, List.mem_singleton.mpr hk⟩, hlegible, ends_of_last [] (by simp [hk]),
        rfl, by simp [Derivation.tree, hv]⟩
    | none =>
      rw [hv] at hok
      exact absurd hok fail_ne_ok
  -- A name is a call exactly if a parenthesis comes next.
  · have hname := List.mem_singleton.mpr hk
    rw [lookingAt_bind] at hok
    by_cases hs : Starts [.lparen] mid
    · simp only [hs, decide_true, if_true] at hok
      obtain ⟨c, hc, htokens, rfl⟩ := (callOf_eq_ok_iff h hname).mp hok
      exact ⟨.ofCall c, hc, call_ends c, htokens, rfl⟩
    · simp only [hs, decide_false, Bool.false_eq_true, if_false] at hok
      obtain ⟨rfl, rfl⟩ := pure_eq_ok_iff.mp hok
      exact ⟨.ident ⟨token, hname⟩, trivial, ⟨not_starts_of_nil, fun _ => hs⟩, rfl, rfl⟩
  · have hopening := List.mem_singleton.mpr hk
    simp only [bind_eq_ok_iff, pure_eq_ok_iff, expect_eq_ok_iff] at hok
    obtain ⟨_, _, hinner, closing, _, ⟨rfl, hc⟩, rfl, rfl⟩ := hok
    obtain ⟨inner, hfits, -, rfl, rfl⟩ := h.mp hinner
    have hclosing := List.mem_singleton.mp hc
    exact ⟨.parenthesised ⟨token, hopening⟩ inner ⟨closing, hc⟩, hfits,
      ends_of_last (token :: inner.tokens) (by simp [hclosing]), by simp [Derivation.tokens], rfl⟩

theorem primary_complete (h : Finds (s := .expression) n (EndsBefore expressionSigns) expr)
    {d : Derivation .primary} (hd : d.Fits n) (hends : Ends [] d.tokens rest) :
    primary expr (d.tokens ++ rest) = .ok d.tree rest := by
  simp only [primary, bind_eq_ok_iff, expect_eq_ok_iff]
  cases d with
  | number token =>
    have hk := List.mem_singleton.mp token.2
    obtain ⟨v, hv⟩ := hd.1 hk
    refine ⟨token.1, rest, ⟨rfl, by simp [hk, primaryStart]⟩, ?_⟩
    simp [hk, hv, pure_eq_ok_iff, Derivation.tree, Except.toOption]
  | string token =>
    have hk := List.mem_singleton.mp token.2
    obtain ⟨v, hv⟩ := hd.2 hk
    refine ⟨token.1, rest, ⟨rfl, by simp [hk, primaryStart]⟩, ?_⟩
    simp [hk, hv, pure_eq_ok_iff, Derivation.tree]
  | ident token =>
    have hk := List.mem_singleton.mp token.2
    have hs : ¬ Starts [.lparen] rest := hends.2 (by simp [Derivation.tokens, hk])
    refine ⟨token.1, rest, ⟨rfl, by simp [hk, primaryStart]⟩, ?_⟩
    simp [hk, hs, lookingAt_bind, pure_eq_ok_iff, Derivation.tree]
  | ofCall c =>
    cases c with
    | call name opening args closing =>
      have hk := List.mem_singleton.mp name.2
      have hs : Starts [.lparen] (opening.1 :: (args.tokens ++ [closing.1]) ++ rest) := opening.2
      refine ⟨name.1, opening.1 :: (args.tokens ++ [closing.1]) ++ rest,
        ⟨rfl, by simp [hk, primaryStart]⟩, ?_⟩
      simp only [hk, lookingAt_bind, hs, decide_true, if_true]
      exact (callOf_eq_ok_iff h name.2).mpr ⟨.call name opening args closing, hd, rfl, rfl⟩
  | parenthesised opening inner closing =>
    have hk := List.mem_singleton.mp opening.2
    refine ⟨opening.1, _, ⟨rfl, by simp [hk, primaryStart]⟩, ?_⟩
    simp only [hk, bind_eq_ok_iff, pure_eq_ok_iff, expect_eq_ok_iff]
    refine ⟨inner.tree, closing.1 :: rest, ?_, closing.1, rest, ⟨rfl, closing.2⟩, rfl, rfl⟩
    exact h.mpr ⟨inner, hd, ends_of_starts (starts_cons.mpr closing.2) (by decide), by simp, rfl⟩

/-- **Primary expressions.** -/
theorem finds_primary (h : Finds (s := .expression) n (EndsBefore expressionSigns) expr) :
    Finds (s := .primary) n (EndsBefore []) (primary expr) := by
  intro ts a rest
  constructor
  · exact primary_sound h
  · rintro ⟨d, hd, hends, rfl, rfl⟩
    exact primary_complete h hd hends

/-- **Operands with a sign or without.** -/
theorem finds_unary (h : Finds (s := .expression) n (EndsBefore expressionSigns) expr) :
    Finds (s := .unary) n (EndsBefore []) (unary expr) := by
  intro ts a rest
  rw [unary, lookingAt_bind]
  by_cases hs : Starts [.minus] ts
  · simp only [hs, decide_true, if_true, bind_eq_ok_iff, expect_eq_ok_iff, pure_eq_ok_iff]
    constructor
    · rintro ⟨sign, _, ⟨rfl, hsign⟩, _, _, hok, rfl, rfl⟩
      obtain ⟨operand, hfits, hends, rfl, rfl⟩ := (finds_primary h).mp hok
      exact ⟨.negative ⟨sign, hsign⟩ operand, hfits, (ends_cons (operand.tokens_ne_nil rfl)).mpr hends, rfl,
        rfl⟩
    · rintro ⟨d, hd, hends, rfl, rfl⟩
      cases d with
      | plain operand =>
        have hstart : ¬ Starts [.minus] operand.tokens := (operand.starts rfl).not_of_disjoint (by decide)
        simp [Derivation.tokens, hstart, operand.tokens_ne_nil rfl] at hs
      | negative sign operand =>
        have hends' := (ends_cons (operand.tokens_ne_nil rfl)).mp hends
        exact ⟨sign.1, _, ⟨rfl, sign.2⟩, operand.tree, rest,
          (finds_primary h).mpr ⟨operand, hd, hends', rfl, rfl⟩, rfl, rfl⟩
  · simp only [hs, decide_false, Bool.false_eq_true, if_false]
    rw [finds_primary h]
    constructor
    · rintro ⟨operand, hd, hends, rfl, rfl⟩
      exact ⟨.plain operand, hd, hends, rfl, rfl⟩
    · rintro ⟨d, hd, hends, rfl, rfl⟩
      cases d with
      | plain operand => exact ⟨operand, hd, hends, rfl, rfl⟩
      | negative sign operand => exact absurd sign.2 hs

/-! ## Operators -/

/-- The next operator of some kinds, with its right operand. -/
def signed (kinds : List TokenKind) (operand : Reading Node) : Reading (ArithOp × Node) := do
  let token ← expect kinds
  let right ← operand
  return (arithOf token.kind, right)

omit [CharacterNames] in
theorem chain_eq_ok_iff {kinds : List TokenKind} {operand : Reading Node} (h : Takes operand) {a : Node} :
    chain kinds operand ts = .ok a rest ↔ ∃ first mid more, operand ts = .ok first mid ∧
      Repeats (notLookingAt kinds) (signed kinds operand) mid more rest ∧
      a = more.foldl (fun left (op, right) => .arith op left right) first := by
  have htakes : Takes (signed kinds operand) := takes_after_expect fun t => h.map _
  simp only [chain, bind_eq_ok_iff, pure_eq_ok_iff]
  constructor
  · rintro ⟨first, mid, hfirst, more, _, hmore, rfl, rfl⟩
    exact ⟨first, mid, more, hfirst, (repeatWhile_eq_ok_iff htakes).mp hmore, rfl⟩
  · rintro ⟨first, mid, more, hfirst, hmore, rfl⟩
    exact ⟨first, mid, hfirst, more, rest, (repeatWhile_eq_ok_iff htakes).mpr hmore, rfl, rfl⟩

omit [CharacterNames] in
theorem signed_eq_ok_iff {kinds : List TokenKind} {operand : Reading Node} {a : ArithOp × Node} :
    signed kinds operand ts = .ok a rest ↔ ∃ sign : Terminal kinds, ∃ mid right,
      ts = sign.1 :: mid ∧ operand mid = .ok right rest ∧ a = (arithOf sign.1.kind, right) := by
  simp only [signed, bind_eq_ok_iff, pure_eq_ok_iff, expect_eq_ok_iff]
  constructor
  · rintro ⟨sign, mid, ⟨rfl, hsign⟩, right, _, hright, rfl, rfl⟩
    exact ⟨⟨sign, hsign⟩, mid, right, rfl, hright, rfl⟩
  · rintro ⟨sign, mid, right, rfl, hright, rfl⟩
    exact ⟨sign.1, mid, ⟨rfl, sign.2⟩, right, rest, hright, rfl, rfl⟩

omit [CharacterNames] in
theorem factors_starts (d : Derivation .factors) : Starts [.times, .div] d.tokens ∨ d.tokens = [] :=
  d.starts_or_nil.imp_right And.right

omit [CharacterNames] in
theorem addends_starts (d : Derivation .addends) : Starts [.plus, .minus] d.tokens ∨ d.tokens = [] :=
  d.starts_or_nil.imp_right And.right

/-- The factors after the first. -/
theorem repeats_factors {operand : Reading Node} (h : Finds (s := .unary) n (EndsBefore []) operand)
    {as : List (ArithOp × Node)} :
    Repeats (notLookingAt [.times, .div]) (signed [.times, .div] operand) ts as rest ↔
      ∃ d : Derivation .factors, d.Fits n ∧ TailEnds [] [.times, .div] d.tokens rest ∧
        ts = d.tokens ++ rest ∧ as = d.tree := by
  induction as generalizing ts with
  | nil =>
    rw [repeats_while_nil_iff]
    constructor
    · rintro ⟨hs, rfl⟩
      exact ⟨.noFactors, trivial, ⟨hs, absurd rfl⟩, rfl, rfl⟩
    · rintro ⟨d, -, hends, rfl, htree⟩
      cases d with
      | noFactors => exact ⟨hends.1, rfl⟩
      | factors _ _ _ => simp [Derivation.tree] at htree
  | cons a as ih =>
    rw [repeats_while_cons_iff]
    simp only [signed_eq_ok_iff]
    constructor
    · rintro ⟨-, _, ⟨sign, _, _, rfl, hright, rfl⟩, hreps⟩
      obtain ⟨more, hmore, hends, rfl, rfl⟩ := ih.mp hreps
      obtain ⟨next, hnext, hends', rfl, rfl⟩ := h.mp hright
      exact ⟨.factors sign next more, ⟨hnext, hmore⟩,
        (tailEnds_cons (next.tokens_ne_nil rfl) (factors_starts more) (by decide)).mpr ⟨hends', hends⟩,
        by simp [Derivation.tokens], rfl⟩
    · rintro ⟨d, hd, hends, rfl, htree⟩
      cases d with
      | noFactors => simp [Derivation.tree] at htree
      | factors sign next more =>
        obtain ⟨rfl, rfl⟩ := List.cons.inj htree
        obtain ⟨hnext, hmore⟩ :=
          (tailEnds_cons (next.tokens_ne_nil rfl) (factors_starts more) (by decide)).mp hends
        exact ⟨sign.2, more.tokens ++ rest,
          ⟨sign, _, next.tree, rfl, h.mpr ⟨next, hd.1, hnext, by simp, rfl⟩, rfl⟩,
          ih.mpr ⟨more, hd.2, hmore, rfl, rfl⟩⟩

/-- **Products and quotients.** -/
theorem finds_multiplicative (h : Finds (s := .expression) n (EndsBefore expressionSigns) expr) :
    Finds (s := .multiplicative) n (EndsBefore productSigns) (multiplicative expr) := by
  intro ts a rest
  rw [multiplicative, chain_eq_ok_iff ((finds_unary h).takes rfl)]
  simp only [repeats_factors (finds_unary h)]
  constructor
  · rintro ⟨_, _, _, hfirst, ⟨more, hmore, hends, rfl, rfl⟩, rfl⟩
    obtain ⟨first, hfits, hends', rfl, rfl⟩ := (finds_unary h).mp hfirst
    exact ⟨.multiplicative first more, ⟨hfits, hmore⟩,
      (ends_append_tail (factors_starts more) (by decide)).mpr ⟨hends', hends⟩, by simp [Derivation.tokens], rfl⟩
  · rintro ⟨d, hd, hends, rfl, rfl⟩
    cases d with
    | multiplicative first more =>
      obtain ⟨hfirst, hmore⟩ : Ends [] first.tokens (more.tokens ++ rest) ∧
          TailEnds [] [.times, .div] more.tokens rest :=
        (ends_append_tail (factors_starts more) (by decide)).mp hends
      exact ⟨first.tree, more.tokens ++ rest, more.tree,
        (finds_unary h).mpr ⟨first, hd.1, hfirst, by simp [Derivation.tokens], rfl⟩,
        ⟨more, hd.2, hmore, rfl, rfl⟩, rfl⟩

/-- The addends after the first. -/
theorem repeats_addends {operand : Reading Node}
    (h : Finds (s := .multiplicative) n (EndsBefore productSigns) operand) {as : List (ArithOp × Node)} :
    Repeats (notLookingAt [.plus, .minus]) (signed [.plus, .minus] operand) ts as rest ↔
      ∃ d : Derivation .addends, d.Fits n ∧ TailEnds productSigns [.plus, .minus] d.tokens rest ∧
        ts = d.tokens ++ rest ∧ as = d.tree := by
  induction as generalizing ts with
  | nil =>
    rw [repeats_while_nil_iff]
    constructor
    · rintro ⟨hs, rfl⟩
      exact ⟨.noAddends, trivial, ⟨hs, absurd rfl⟩, rfl, rfl⟩
    · rintro ⟨d, -, hends, rfl, htree⟩
      cases d with
      | noAddends => exact ⟨hends.1, rfl⟩
      | addends _ _ _ => simp [Derivation.tree] at htree
  | cons a as ih =>
    rw [repeats_while_cons_iff]
    simp only [signed_eq_ok_iff]
    constructor
    · rintro ⟨-, _, ⟨sign, _, _, rfl, hright, rfl⟩, hreps⟩
      obtain ⟨more, hmore, hends, rfl, rfl⟩ := ih.mp hreps
      obtain ⟨next, hnext, hends', rfl, rfl⟩ := h.mp hright
      exact ⟨.addends sign next more, ⟨hnext, hmore⟩,
        (tailEnds_cons (next.tokens_ne_nil rfl) (addends_starts more) (by decide)).mpr ⟨hends', hends⟩,
        by simp [Derivation.tokens], rfl⟩
    · rintro ⟨d, hd, hends, rfl, htree⟩
      cases d with
      | noAddends => simp [Derivation.tree] at htree
      | addends sign next more =>
        obtain ⟨rfl, rfl⟩ := List.cons.inj htree
        obtain ⟨hnext, hmore⟩ :=
          (tailEnds_cons (next.tokens_ne_nil rfl) (addends_starts more) (by decide)).mp hends
        exact ⟨sign.2, more.tokens ++ rest,
          ⟨sign, _, next.tree, rfl, h.mpr ⟨next, hd.1, hnext, by simp, rfl⟩, rfl⟩,
          ih.mpr ⟨more, hd.2, hmore, rfl, rfl⟩⟩

/-- **Sums and differences.** -/
theorem finds_additive (h : Finds (s := .expression) n (EndsBefore expressionSigns) expr) :
    Finds (s := .additive) n (EndsBefore sumSigns) (additive expr) := by
  intro ts a rest
  rw [additive, chain_eq_ok_iff ((finds_multiplicative h).takes rfl)]
  simp only [repeats_addends (finds_multiplicative h)]
  constructor
  · rintro ⟨_, _, _, hfirst, ⟨more, hmore, hends, rfl, rfl⟩, rfl⟩
    obtain ⟨first, hfits, hends', rfl, rfl⟩ := (finds_multiplicative h).mp hfirst
    exact ⟨.additive first more, ⟨hfits, hmore⟩,
      (ends_append_tail (addends_starts more) (by decide)).mpr ⟨hends', hends⟩, by simp [Derivation.tokens], rfl⟩
  · rintro ⟨d, hd, hends, rfl, rfl⟩
    cases d with
    | additive first more =>
      obtain ⟨hfirst, hmore⟩ := (ends_append_tail (addends_starts more) (by decide)).mp hends
      exact ⟨first.tree, more.tokens ++ rest, more.tree,
        (finds_multiplicative h).mpr ⟨first, hd.1, hfirst, by simp [Derivation.tokens], rfl⟩,
        ⟨more, hd.2, hmore, rfl, rfl⟩, rfl⟩

/-- **Comparisons.** -/
theorem finds_comparison (h : Finds (s := .expression) n (EndsBefore expressionSigns) expr) :
    Finds (s := .comparison) n (EndsBefore sumSigns) (comparison expr) := by
  intro ts a rest
  simp only [comparison, bind_eq_ok_iff, expect_eq_ok_iff, pure_eq_ok_iff]
  constructor
  · rintro ⟨_, _, hleft, sign, _, ⟨rfl, hsign⟩, _, _, hright, rfl, rfl⟩
    obtain ⟨left, hl, -, rfl, rfl⟩ := (finds_additive h).mp hleft
    obtain ⟨right, hr, hends, rfl, rfl⟩ := (finds_additive h).mp hright
    have hne : right.tokens ≠ [] := right.tokens_ne_nil rfl
    refine ⟨.comparison left ⟨sign, hsign⟩ right, ⟨hl, hr⟩, ?_, by simp [Derivation.tokens], rfl⟩
    exact (ends_append _ (List.cons_ne_nil _ _)).mpr ((ends_cons hne).mpr hends)
  · rintro ⟨d, hd, hends, rfl, rfl⟩
    cases d with
    | comparison left sign right =>
      have hne : right.tokens ≠ [] := right.tokens_ne_nil rfl
      have hright := (ends_cons hne).mp ((ends_append _ (List.cons_ne_nil _ _)).mp hends)
      refine ⟨left.tree, sign.1 :: (right.tokens ++ rest), ?_, sign.1, _, ⟨rfl, sign.2⟩, right.tree, rest, ?_,
        rfl, rfl⟩
      · exact (finds_additive h).mpr
          ⟨left, hd.1, ends_of_starts (starts_cons.mpr sign.2) (by decide), by simp [Derivation.tokens], rfl⟩
      · exact (finds_additive h).mpr ⟨right, hd.2, hright, rfl, rfl⟩

/-! ## Expressions -/

/-- What follows the sum that an expression starts with: nothing, or a value to assign to the name that it
    is. -/
theorem assignment_eq_ok_iff {a : Node} :
    assignment expr ts = .ok a rest ↔ ∃ left mid, additive expr ts = .ok left mid ∧
      (¬ Starts [.assign] mid ∧ left = a ∧ mid = rest ∨
        ∃ (sign : Terminal [.assign]) (name : Value) (after : List Token) (value : Node),
          mid = sign.1 :: after ∧ left = .ident name ∧ expr after = .ok value rest ∧
            a = .assign name value) := by
  rw [assignment, bind_eq_ok_iff]
  refine exists_congr fun left => exists_congr fun mid => and_congr_right fun _ => ?_
  rw [lookingAt_bind]
  by_cases hs : Starts [.assign] mid
  · simp only [hs, decide_true, if_true, not_true_eq_false, false_and, false_or, bind_eq_ok_iff,
      expect_eq_ok_iff]
    constructor
    · rintro ⟨sign, after, ⟨rfl, hsign⟩, hok⟩
      cases left with
      | ident name =>
        simp only [bind_eq_ok_iff, pure_eq_ok_iff] at hok
        obtain ⟨value, _, hvalue, rfl, rfl⟩ := hok
        exact ⟨⟨sign, hsign⟩, name, after, value, rfl, rfl, hvalue, rfl⟩
      | _ => exact absurd hok fail_ne_ok
    · rintro ⟨sign, name, after, value, rfl, rfl, hvalue, rfl⟩
      refine ⟨sign.1, after, ⟨rfl, sign.2⟩, ?_⟩
      simp only [bind_eq_ok_iff, pure_eq_ok_iff]
      exact ⟨value, rest, hvalue, rfl, rfl⟩
  · simp only [hs, decide_false, Bool.false_eq_true, if_false, pure_eq_ok_iff, not_false_eq_true, true_and]
    constructor
    · exact .inl
    · rintro (h | ⟨sign, _, _, _, rfl, _⟩)
      · exact h
      · exact absurd sign.2 hs

omit [CharacterNames] in
theorem ends_assign {target : List Token} {sign : Token} {value : Derivation .assignment} :
    Ends operators (target ++ sign :: value.tokens) rest ↔ Ends operators value.tokens rest := by
  rw [ends_append _ (List.cons_ne_nil _ _), ends_cons (value.tokens_ne_nil rfl)]

/-- **Sums and assignments.** -/
theorem finds_assignment (h : Finds (s := .expression) n (EndsBefore expressionSigns) expr) :
    Finds (s := .assignment) n (EndsBefore expressionSigns) (assignment expr) := by
  intro ts a rest
  rw [assignment_eq_ok_iff]
  constructor
  · rintro ⟨_, mid, hleft, hok⟩
    obtain ⟨left, hl, hends, rfl, rfl⟩ := (finds_additive h).mp hleft
    rcases hok with ⟨hs, rfl, rfl⟩ | ⟨sign, name, _, _, rfl, hname, hvalue, rfl⟩
    · exact ⟨.sum left, hl, ends_append_signs.mpr ⟨hends, hs⟩, rfl, rfl⟩
    · obtain ⟨d, hv, hends', rfl, rfl⟩ := h.mp hvalue
      cases d with
      | expression value =>
        exact ⟨.assign left sign value, ⟨⟨name, hname⟩, hl, hv⟩, ends_assign.mpr hends',
          by simp [Derivation.tokens], by simp [Derivation.tree, hname, Derivation.targetName]⟩
  · rintro ⟨d, hd, hends, rfl, rfl⟩
    cases d with
    | sum value =>
      obtain ⟨hvalue, hs⟩ := ends_append_signs.mp hends
      exact ⟨value.tree, rest, (finds_additive h).mpr ⟨value, hd, hvalue, rfl, rfl⟩, .inl ⟨hs, rfl, rfl⟩⟩
    | assign target sign value =>
      obtain ⟨⟨name, hname⟩, htarget, hvalue⟩ := hd
      have hs : Starts [.assign] (sign.1 :: (value.tokens ++ rest)) := sign.2
      refine ⟨target.tree, sign.1 :: (value.tokens ++ rest), ?_, .inr ⟨sign, name, _, value.tree, rfl, hname,
        ?_, by simp [Derivation.tree, hname, Derivation.targetName]⟩⟩
      · exact (finds_additive h).mpr
          ⟨target, htarget, ends_of_starts hs (by decide), by simp [Derivation.tokens], rfl⟩
      · exact h.mpr ⟨.expression value, hvalue, ends_assign.mp hends, rfl, rfl⟩

/-- **Expressions**, with a number of levels that may be opened. -/
theorem finds_expressionAt (n : Nat) :
    Finds (s := .expression) n (EndsBefore expressionSigns) (expressionAt n) := by
  induction n with
  | zero =>
    intro ts a rest
    constructor
    · intro hok
      exact absurd hok refuseLevel_ne_ok
    · rintro ⟨d, hd, -⟩
      cases d with
      | expression value => exact absurd hd.1 (Nat.lt_irrefl 0)
  | succ n ih =>
    intro ts a rest
    rw [expressionAt, finds_assignment ih]
    constructor
    · rintro ⟨d, hd, hends, rfl, rfl⟩
      exact ⟨.expression d, ⟨Nat.succ_pos n, hd⟩, hends, rfl, rfl⟩
    · rintro ⟨d, hd, hends, rfl, rfl⟩
      cases d with
      | expression value => exact ⟨value, hd.2, hends, rfl, rfl⟩

end Grammar

end LineaLang
