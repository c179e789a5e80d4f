import LineaLang.Proofs.Parsing.Expression

/-!
# `LineaLang.Proofs.Parsing.Statement` — reading statements and programs

The readings of statements find derivations as those of expressions do (`Finds`), up to `statementAt` and
`programReading`. What could go on with a statement is only an `else`, if a conditional is open at its end.

## Contents

* `NoElseFor` — what is left has no `else` for a conditional that is open.
* `finds_block` … `finds_statement` — one lemma for each phrase, given one for the statements inside it.
* `finds_programReading` — a program, with a number of levels that may be opened.
-/

namespace LineaLang.Grammar

variable {ts rest : List Token} {n : Nat} {stmt expr : Reading Node}

/-- **What is left does not start with an `else` for an open conditional.** -/
def NoElseFor {s : Symbol} (d : Derivation s) (rest : List Token) : Prop :=
  d.endsOpen = true → ¬ Starts [.elseWord] rest

/-! ## Lists of statements -/

/-- A question that says where a list of statements ends. -/
structure EndsList (done : Reading Bool) (stop : List Token → Prop) : Prop where
  true_iff : ∀ ⦃ts rest⦄, done ts = .ok true rest ↔ stop ts ∧ ts = rest
  rest_eq : ∀ ⦃ts rest⦄, done ts = .ok false rest → ts = rest
  goes_on : ∀ ⦃ts⦄, Starts Symbol.statementStart ts → done ts = .ok false ts
  no_else : ∀ ⦃ts⦄, stop ts → ¬ Starts [.elseWord] ts

/-- A list of statements is followed by what ends it. -/
theorem EndsList.stop_of_repeats {done : Reading Bool} {stop : List Token → Prop} (hdone : EndsList done stop)
    {as : List Node} (h : Repeats done stmt ts as rest) : stop rest := by
  induction h with
  | stop h =>
    obtain ⟨hstop, rfl⟩ := hdone.true_iff.mp h
    exact hstop
  | step _ _ _ ih => exact ih

theorem closed_eq (ts : List Token) :
    block.closed ts = if Starts [.rbrace] ts then .ok true ts
      else if ts = [] then refuse [.rbrace] ts else .ok false ts := by
  rw [block.closed, lookingAt_bind]
  by_cases hs : Starts [.rbrace] ts
  · simp [hs, pure, EStateM.pure]
  · cases ts with
    | nil => rfl
    | cons token more => simp [hs, bind, EStateM.bind, atEnd_eq, pure, EStateM.pure]

/-- A block ends at its brace. -/
theorem endsList_closed : EndsList block.closed (Starts [.rbrace]) where
  true_iff ts rest := by
    rw [closed_eq]
    by_cases hs : Starts [.rbrace] ts
    · simp [hs]
    · by_cases hn : ts = [] <;> simp [hs, hn, refuse_ne_ok]
  rest_eq ts rest h := by
    rw [closed_eq] at h
    by_cases hs : Starts [.rbrace] ts
    · simp [hs] at h
    · by_cases hn : ts = []
      · simp only [hn, ↓reduceIte] at h
        exact absurd h refuse_ne_ok
      · simpa [hs, hn] using h
  goes_on ts h := by
    rw [closed_eq, if_neg (h.not_of_disjoint (by decide)), if_neg h.ne_nil]
  no_else ts h := h.not_of_disjoint (by decide)

/-- A program ends with its tokens. -/
theorem endsList_atEnd : EndsList atEnd (· = []) where
  true_iff ts rest := by simp [atEnd_eq]
  rest_eq ts rest h := by
    rw [atEnd_eq] at h
    exact (EStateM.Result.ok.inj h).2
  goes_on ts h := by simp [atEnd_eq, h.ne_nil]
  no_else ts h := by simp [h]

variable [CharacterNames]

/-- **A list of statements**, up to where it ends. -/
theorem repeats_statements {done : Reading Bool} {stop : List Token → Prop} (hdone : EndsList done stop)
    (h : Finds (s := .statement) n NoElseFor stmt) (hr : stop rest) {as : List Node} :
    Repeats done stmt ts as rest ↔
      ∃ d : Derivation .statements, d.Fits n ∧ ts = d.tokens ++ rest ∧ as = d.tree := by
  induction as generalizing ts with
  | nil =>
    rw [repeats_nil_iff, hdone.true_iff]
    constructor
    · rintro ⟨-, rfl⟩
      exact ⟨.noStatements, trivial, rfl, rfl⟩
    · rintro ⟨d, -, rfl, htree⟩
      cases d with
      | noStatements => exact ⟨hr, rfl⟩
      | statements _ _ => simp [Derivation.tree] at htree
  | cons a as ih =>
    rw [repeats_cons_iff]
    constructor
    · rintro ⟨_, _, hgo, hfirst, hreps⟩
      obtain rfl := hdone.rest_eq hgo
      obtain ⟨more, hmore, rfl, rfl⟩ := ih.mp hreps
      obtain ⟨first, hf, -, rfl, rfl⟩ := h.mp hfirst
      exact ⟨.statements first more, ⟨hf, hmore⟩, by simp [Derivation.tokens], rfl⟩
    · rintro ⟨d, hd, rfl, htree⟩
      cases d with
      | noStatements => simp [Derivation.tree] at htree
      | statements first more =>
        obtain ⟨rfl, rfl⟩ := List.cons.inj htree
        have hstart : Starts Symbol.statementStart (first.tokens ++ more.tokens ++ rest) :=
          starts_append.mpr (.inl (starts_append.mpr (.inl (first.starts rfl))))
        -- No statement starts with `else`, and neither does what ends the list.
        have helse : ¬ Starts [.elseWord] (more.tokens ++ rest) := by
          rcases more.starts_or_nil with hs | ⟨-, hnil⟩
          · exact (starts_append.mpr (.inl hs)).not_of_disjoint (by decide)
          · rw [hnil]
            exact hdone.no_else hr
        exact ⟨_, more.tokens ++ rest, hdone.goes_on hstart,
          h.mpr ⟨first, hd.1, fun _ => helse, by simp [Derivation.tokens], rfl⟩, ih.mpr ⟨more, hd.2, rfl, rfl⟩⟩

/-! ## Blocks -/

omit [CharacterNames] in
theorem asks_closed : Asks block.closed where
  rest_eq ts b rest h := by
    cases b with
    | true => exact (endsList_closed.true_iff.mp h).2.symm
    | false => exact (endsList_closed.rest_eq h).symm
  nil_ne_false rest := by
    rw [closed_eq]
    exact refuse_ne_ok

omit [CharacterNames] in
theorem asks_atEnd : Asks atEnd where
  rest_eq ts b rest h := by
    rw [atEnd_eq] at h
    exact (EStateM.Result.ok.inj h).2.symm
  nil_ne_false rest := by simp [atEnd_eq]

/-- **Blocks.** -/
theorem finds_block (h : Finds (s := .statement) n NoElseFor stmt) :
    Finds (s := .block) n NoElseFor (block stmt) := by
  intro ts a rest
  rw [block, lookingAt_bind]
  -- No statement starts with a brace, so the next token tells the two productions apart.
  by_cases hs : Starts [.lbrace] ts
  · simp only [hs, decide_true, if_true, bind_eq_ok_iff, expect_eq_ok_iff, pure_eq_ok_iff,
      repeatUntil_eq_ok_iff asks_closed (h.takes rfl)]
    constructor
    · rintro ⟨opening, _, ⟨rfl, ho⟩, _, _, hbody, closing, _, ⟨rfl, hc⟩, rfl, rfl⟩
      obtain ⟨body, hb, rfl, rfl⟩ := (repeats_statements endsList_closed h (starts_cons.mpr hc)).mp hbody
      exact ⟨.braced ⟨opening, ho⟩ body ⟨closing, hc⟩, hb, nofun, by simp [Derivation.tokens], rfl⟩
    · rintro ⟨d, hd, -, rfl, rfl⟩
      cases d with
      | braced opening body closing =>
        refine ⟨opening.1, body.tokens ++ closing.1 :: rest, ⟨by simp [Derivation.tokens], opening.2⟩, body.tree,
          closing.1 :: rest, ?_, closing.1, rest, ⟨rfl, closing.2⟩, rfl, rfl⟩
        exact (repeats_statements endsList_closed h (starts_cons.mpr closing.2)).mpr ⟨body, hd, rfl, rfl⟩
      | bare only =>
        have hstart : ¬ Starts [.lbrace] only.tokens := (only.starts rfl).not_of_disjoint (by decide)
        simp [Derivation.tokens, hstart, only.tokens_ne_nil rfl] at hs
  · simp only [hs, decide_false, Bool.false_eq_true, if_false, bind_eq_ok_iff, pure_eq_ok_iff]
    constructor
    · rintro ⟨_, _, honly, rfl, rfl⟩
      obtain ⟨only, ho, helse, rfl, rfl⟩ := h.mp honly
      exact ⟨.bare only, ho, helse, rfl, rfl⟩
    · rintro ⟨d, hd, helse, rfl, rfl⟩
      cases d with
      | braced opening _ _ => exact absurd opening.2 hs
      | bare only => exact ⟨only.tree, rest, h.mpr ⟨only, hd, helse, rfl, rfl⟩, rfl, rfl⟩

/-! ## Conditionals and loops -/

/-- Takes `then` where it stands. -/
def skipThen : Reading Unit := do
  if ← lookingAt [.thenWord] then
    let _ ← expect [.thenWord]

/-- What stands after the block of a conditional: `else` and another block, or nothing. -/
def elseReading (stmt : Reading Node) : Reading Node := do
  if ← lookingAt [.elseWord] then
    let _ ← expect [.elseWord]
    block stmt
  else return .absent

/-- A conditional part by part. -/
theorem ifStatement_eq (stmt expr : Reading Node) :
    ifStatement stmt expr = do
      let _ ← expect [.ifWord]
      let condition ← comparison expr
      skipThen
      let thenBlock ← block stmt
      let elseBlock ← elseReading stmt
      return .ifElse condition thenBlock elseBlock := by
  funext ts
  simp only [ifStatement, skipThen, elseReading, bind_assoc]
  refine congrFun (bind_congr fun _ => bind_congr fun condition => bind_congr fun b => ?_) ts
  cases b <;> simp [apply_ite]

omit [CharacterNames] in
theorem skipThen_eq_ok_iff {u : Unit} :
    skipThen ts = .ok u rest ↔ ∃ thenWord : Option (Terminal [.thenWord]),
      ts = (thenWord.map Subtype.val).toList ++ rest ∧ (thenWord = none → ¬ Starts [.thenWord] rest) := by
  rw [skipThen, lookingAt_bind]
  by_cases hs : Starts [.thenWord] ts
  · simp only [hs, decide_true, if_true, bind_eq_ok_iff, expect_eq_ok_iff, pure_eq_ok_iff]
    constructor
    · rintro ⟨word, _, ⟨rfl, hword⟩, -, rfl⟩
      exact ⟨some ⟨word, hword⟩, rfl, nofun⟩
    · rintro ⟨_ | word, rfl, hnone⟩
      · exact absurd hs (hnone rfl)
      · exact ⟨word.1, rest, ⟨rfl, word.2⟩, trivial, rfl⟩
  · simp only [hs, decide_false, Bool.false_eq_true, if_false, pure_eq_ok_iff]
    constructor
    · rintro ⟨-, rfl⟩
      exact ⟨none, rfl, fun _ => hs⟩
    · rintro ⟨_ | word, rfl, -⟩
      · exact ⟨trivial, rfl⟩
      · exact absurd word.2 hs

/-- **An `else` part, or none.** -/
theorem finds_elseReading (h : Finds (s := .statement) n NoElseFor stmt) :
    Finds (s := .elsePart) n NoElseFor (elseReading stmt) := by
  intro ts a rest
  rw [elseReading, lookingAt_bind]
  by_cases hs : Starts [.elseWord] ts
  · simp only [hs, decide_true, if_true, bind_eq_ok_iff, expect_eq_ok_iff]
    constructor
    · rintro ⟨word, _, ⟨rfl, hword⟩, hok⟩
      obtain ⟨inner, hi, helse, rfl, rfl⟩ := (finds_block h).mp hok
      exact ⟨.elseBlock ⟨word, hword⟩ inner, hi, helse, rfl, rfl⟩
    · rintro ⟨d, hd, helse, rfl, rfl⟩
      cases d with
      | noElse => exact absurd hs (helse rfl)
      | elseBlock word inner => exact ⟨word.1, _, ⟨rfl, word.2⟩, (finds_block h).mpr ⟨inner, hd, helse, rfl, rfl⟩⟩
  · simp only [hs, decide_false, Bool.false_eq_true, if_false, pure_eq_ok_iff]
    constructor
    · rintro ⟨rfl, rfl⟩
      exact ⟨.noElse, trivial, fun _ => hs, rfl, rfl⟩
    · rintro ⟨d, hd, helse, rfl, rfl⟩
      cases d with
      | noElse => exact ⟨rfl, rfl⟩
      | elseBlock word inner => exact absurd word.2 hs

section

variable {word : Terminal [.ifWord]} {condition : Derivation .comparison}
  {thenWord : Option (Terminal [.thenWord])} {thenBlock : Derivation .block} {elsePart : Derivation .elsePart}

omit [CharacterNames] in
/-- **The condition ends where it should** exactly if the block stands apart from it. -/
theorem endsBefore_iff_thenApart :
    EndsBefore sumSigns condition ((thenWord.map Subtype.val).toList ++ (thenBlock.tokens ++ rest)) ↔
      (Derivation.ifStatement word condition thenWord thenBlock elsePart).ThenApart := by
  cases thenWord with
  | some thenWord =>
    have hthen : Starts [.thenWord] (thenWord.1 :: (thenBlock.tokens ++ rest)) := thenWord.2
    exact iff_of_true (ends_of_starts hthen (by decide)) trivial
  | none =>
    have hne : thenBlock.tokens ≠ [] := thenBlock.tokens_ne_nil rfl
    -- Of the signs that go on with a sum only a minus can start a block.
    have hminus : Starts sumSigns thenBlock.tokens ↔ Starts [.minus] thenBlock.tokens :=
      (thenBlock.starts rfl).congr (by decide)
    simp [EndsBefore, Ends, Derivation.ThenApart, hminus, hne]

omit [CharacterNames] in
/-- **An `else` goes with the nearest condition** exactly if it is none for the block before it. -/
theorem noElseFor_iff_elseNearest (hends : NoElseFor elsePart rest) :
    NoElseFor thenBlock (elsePart.tokens ++ rest) ↔
      (Derivation.ifStatement word condition thenWord thenBlock elsePart).ElseNearest := by
  cases elsePart with
  | noElse => exact iff_of_true (fun _ => hends rfl) trivial
  | elseBlock elseWord elseBlock =>
    simp [NoElseFor, Derivation.tokens, Derivation.ElseNearest, List.mem_singleton.mp elseWord.2]

end

/-- **Conditionals.** -/
theorem finds_ifStatement (h : Finds (s := .statement) n NoElseFor stmt)
    (he : Finds (s := .expression) n (EndsBefore expressionSigns) expr) :
    Finds (s := .ifStatement) n NoElseFor (ifStatement stmt expr) := by
  intro ts a rest
  simp only [ifStatement_eq, bind_eq_ok_iff, expect_eq_ok_iff, skipThen_eq_ok_iff, pure_eq_ok_iff]
  constructor
  · rintro ⟨word, _, ⟨rfl, hword⟩, _, _, hcondition, _, _, ⟨thenWord, rfl, hnone⟩, _, _, hblock, _, _, helse,
      rfl, rfl⟩
    obtain ⟨elsePart, hel, hends, rfl, rfl⟩ := (finds_elseReading h).mp helse
    obtain ⟨thenBlock, hb, hopen, rfl, rfl⟩ := (finds_block h).mp hblock
    obtain ⟨condition, hc, hapart, rfl, rfl⟩ := (finds_comparison he).mp hcondition
    exact ⟨.ifStatement ⟨word, hword⟩ condition thenWord thenBlock elsePart,
      ⟨(noElseFor_iff_elseNearest hends).mp hopen, endsBefore_iff_thenApart.mp hapart, hc, hb, hel⟩, hends,
      by simp [Derivation.tokens], rfl⟩
  · rintro ⟨d, hd, hends, rfl, rfl⟩
    cases d with
    | ifStatement word condition thenWord thenBlock elsePart =>
      obtain ⟨hnearest, hapart, hc, hb, hel⟩ := hd
      -- A block does not start with `then`, so where the word is left out none is taken.
      have hnone : thenWord = none → ¬ Starts [.thenWord] (thenBlock.tokens ++ (elsePart.tokens ++ rest)) :=
        fun _ => (starts_append.mpr (.inl (thenBlock.starts rfl))).not_of_disjoint (by decide)
      refine ⟨word.1, _, ⟨rfl, word.2⟩, condition.tree, _, ?_, (), _, ⟨thenWord, rfl, hnone⟩, thenBlock.tree, _,
        ?_, elsePart.tree, rest, (finds_elseReading h).mpr ⟨elsePart, hel, hends, rfl, rfl⟩, rfl, rfl⟩
      · exact (finds_comparison he).mpr
          ⟨condition, hc, endsBefore_iff_thenApart.mpr hapart, by simp, rfl⟩
      · exact (finds_block h).mpr ⟨thenBlock, hb, (noElseFor_iff_elseNearest hends).mpr hnearest, rfl, rfl⟩

/-- **Loops.** -/
theorem finds_whileStatement (h : Finds (s := .statement) n NoElseFor stmt)
    (he : Finds (s := .expression) n (EndsBefore expressionSigns) expr) :
    Finds (s := .whileStatement) n NoElseFor (whileStatement stmt expr) := by
  intro ts a rest
  simp only [whileStatement, bind_eq_ok_iff, expect_eq_ok_iff, pure_eq_ok_iff]
  constructor
  · rintro ⟨word, _, ⟨rfl, hword⟩, _, _, hcondition, doWord, _, ⟨rfl, hdo⟩, _, _, hbody, rfl, rfl⟩
    obtain ⟨body, hb, hopen, rfl, rfl⟩ := (finds_block h).mp hbody
    obtain ⟨condition, hc, -, rfl, rfl⟩ := (finds_comparison he).mp hcondition
    exact ⟨.whileStatement ⟨word, hword⟩ condition ⟨doWord, hdo⟩ body, ⟨hc, hb⟩, hopen,
      by simp [Derivation.tokens], rfl⟩
  · rintro ⟨d, hd, hopen, rfl, rfl⟩
    cases d with
    | whileStatement word condition doWord body =>
      have hdo : Starts [.doWord] (doWord.1 :: (body.tokens ++ rest)) := doWord.2
      refine ⟨word.1, _, ⟨rfl, word.2⟩, condition.tree, _, ?_, doWord.1, _, ⟨rfl, doWord.2⟩, body.tree, rest,
        (finds_block h).mpr ⟨body, hd.2, hopen, rfl, rfl⟩, rfl, rfl⟩
      exact (finds_comparison he).mpr
        ⟨condition, hd.1, ends_of_starts hdo (by decide), by simp, rfl⟩

/-! ## Functions -/

omit [CharacterNames] in
theorem identifier_eq_ok_iff {v : Value} :
    identifier ts = .ok v rest ↔ ∃ name : Terminal [.ident], ts = name.1 :: rest ∧ v = .str name.1.lexeme := by
  simp only [identifier, bind_eq_ok_iff, expect_eq_ok_iff, pure_eq_ok_iff]
  constructor
  · rintro ⟨name, _, ⟨rfl, hname⟩, rfl, rfl⟩
    exact ⟨⟨name, hname⟩, rfl, rfl⟩
  · rintro ⟨name, rfl, rfl⟩
    exact ⟨name.1, rest, ⟨rfl, name.2⟩, rfl, rfl⟩

omit [CharacterNames] in
theorem takes_identifier : Takes identifier := by
  intro ts v rest hok
  obtain ⟨name, rfl, -⟩ := identifier_eq_ok_iff.mp hok
  exact Nat.lt_succ_self _

/-- The parameters after the first, up to a closing parenthesis. -/
theorem repeats_moreParameters (hr : Starts [.rparen] rest) {as : List Value} :
    Repeats (notLookingAt [.comma]) (do let _ ← expect [.comma]; identifier) ts as rest ↔
      ∃ d : Derivation .moreParameters, d.Fits n ∧ ts = d.tokens ++ rest ∧ as = d.tree := by
  induction as generalizing ts with
  | nil =>
    rw [repeats_while_nil_iff]
    constructor
    · rintro ⟨-, rfl⟩
      exact ⟨.noMoreParameters, trivial, rfl, rfl⟩
    · rintro ⟨d, -, rfl, htree⟩
      cases d with
      | noMoreParameters => exact ⟨hr.not_of_disjoint (by simp), rfl⟩
      | moreParameters _ _ _ => simp [Derivation.tree] at htree
  | cons a as ih =>
    rw [repeats_while_cons_iff]
    simp only [bind_eq_ok_iff, expect_eq_ok_iff, identifier_eq_ok_iff]
    constructor
    · rintro ⟨-, _, ⟨comma, _, ⟨rfl, hcomma⟩, name, rfl, rfl⟩, hreps⟩
      obtain ⟨more, hmore, rfl, rfl⟩ := ih.mp hreps
      exact ⟨.moreParameters ⟨comma, hcomma⟩ name more, hmore, rfl, rfl⟩
    · rintro ⟨d, hd, rfl, htree⟩
      cases d with
      | noMoreParameters => simp [Derivation.tree] at htree
      | moreParameters comma next more =>
        obtain ⟨rfl, rfl⟩ := List.cons.inj htree
        exact ⟨comma.2, more.tokens ++ rest, ⟨comma.1, _, ⟨rfl, comma.2⟩, next, rfl, rfl⟩,
          ih.mpr ⟨more, hd, rfl, rfl⟩⟩

/-- **The parameters of a function**, up to the closing parenthesis. -/
theorem commaList_identifier (hr : Starts [.rparen] rest) {as : List Value} :
    commaList identifier ts = .ok as rest ↔
      ∃ d : Derivation .parameters, d.Fits n ∧ ts = d.tokens ++ rest ∧ as = d.tree := by
  rw [commaList_eq_ok_iff takes_identifier]
  simp only [repeats_moreParameters (n := n) hr, identifier_eq_ok_iff]
  constructor
  · rintro (⟨-, rfl, rfl⟩ | ⟨-, _, _, _, ⟨first, rfl, rfl⟩, ⟨more, hm, rfl, rfl⟩, rfl⟩)
    · exact ⟨.noParameters, trivial, rfl, rfl⟩
    · exact ⟨.parameters first more, hm, rfl, rfl⟩
  · rintro ⟨d, hd, rfl, rfl⟩
    cases d with
    | noParameters => exact .inl ⟨hr, rfl, rfl⟩
    | parameters first more =>
      have hstart : Starts [.ident] (first.1 :: (more.tokens ++ rest)) := first.2
      exact .inr ⟨hstart.not_of_disjoint (by decide), _, more.tokens ++ rest, more.tree, ⟨first, rfl, rfl⟩,
        ⟨more, hd, rfl, rfl⟩, rfl⟩

/-- **Function declarations.** -/
theorem finds_functionDeclaration (h : Finds (s := .statement) n NoElseFor stmt) :
    Finds (s := .functionDeclaration) n NoElseFor (functionDeclaration stmt) := by
  intro ts a rest
  simp only [functionDeclaration, bind_eq_ok_iff, expect_eq_ok_iff, identifier_eq_ok_iff, pure_eq_ok_iff]
  constructor
  · rintro ⟨word, _, ⟨rfl, hword⟩, _, _, ⟨name, rfl, rfl⟩, opening, _, ⟨rfl, ho⟩, _, _, hparams, closing, _,
      ⟨rfl, hc⟩, _, _, hbody, rfl, rfl⟩
    obtain ⟨body, hb, hopen, rfl, rfl⟩ := (finds_block h).mp hbody
    obtain ⟨params, hp, rfl, rfl⟩ := (commaList_identifier (n := n) (starts_cons.mpr hc)).mp hparams
    exact ⟨.functionDeclaration ⟨word, hword⟩ name ⟨opening, ho⟩ params ⟨closing, hc⟩ body, ⟨hp, hb⟩, hopen,
      by simp [Derivation.tokens], rfl⟩
  · rintro ⟨d, hd, hopen, rfl, rfl⟩
    cases d with
    | functionDeclaration word name opening params closing body =>
      refine ⟨word.1, _, ⟨rfl, word.2⟩, _, _, ⟨name, rfl, rfl⟩, opening.1, _, ⟨rfl, opening.2⟩, params.tree,
        closing.1 :: (body.tokens ++ rest), ?_, closing.1, _, ⟨rfl, closing.2⟩, body.tree, rest,
        (finds_block h).mpr ⟨body, hd.2, hopen, rfl, rfl⟩, rfl, rfl⟩
      exact (commaList_identifier (n := n) (starts_cons.mpr closing.2)).mpr ⟨params, hd.1, by simp, rfl⟩

/-! ## Statements without blocks -/

theorem finds_returnStatement (he : Finds (s := .expression) n (EndsBefore expressionSigns) expr) :
    Finds (s := .returnStatement) n (fun _ _ => True) (returnStatement expr) := by
  intro ts a rest
  simp only [returnStatement, bind_eq_ok_iff, expect_eq_ok_iff, pure_eq_ok_iff]
  constructor
  · rintro ⟨word, _, ⟨rfl, hword⟩, _, _, hvalue, semi, _, ⟨rfl, hsemi⟩, rfl, rfl⟩
    obtain ⟨value, hv, -, rfl, rfl⟩ := he.mp hvalue
    exact ⟨.returnStatement ⟨word, hword⟩ value ⟨semi, hsemi⟩, hv, trivial, by simp [Derivation.tokens], rfl⟩
  · rintro ⟨d, hd, -, rfl, rfl⟩
    cases d with
    | returnStatement word value semi =>
      have hsemi : Starts [.semi] (semi.1 :: rest) := semi.2
      refine ⟨word.1, _, ⟨rfl, word.2⟩, value.tree, _, ?_, semi.1, rest, ⟨rfl, semi.2⟩, rfl, rfl⟩
      exact he.mpr ⟨value, hd, ends_of_starts hsemi (by decide), by simp, rfl⟩

theorem finds_variableDeclaration (he : Finds (s := .expression) n (EndsBefore expressionSigns) expr) :
    Finds (s := .variableDeclaration) n (fun _ _ => True) (variableDeclaration expr) := by
  intro ts a rest
  simp only [variableDeclaration, bind_eq_ok_iff, expect_eq_ok_iff, identifier_eq_ok_iff, pure_eq_ok_iff]
  constructor
  · rintro ⟨word, _, ⟨rfl, hword⟩, _, _, ⟨name, rfl, rfl⟩, sign, _, ⟨rfl, hsign⟩, _, _, hinit, semi, _,
      ⟨rfl, hsemi⟩, rfl, rfl⟩
    obtain ⟨init, hi, -, rfl, rfl⟩ := he.mp hinit
    exact ⟨.variableDeclaration ⟨word, hword⟩ name ⟨sign, hsign⟩ init ⟨semi, hsemi⟩, hi, trivial,
      by simp [Derivation.tokens], rfl⟩
  · rintro ⟨d, hd, -, rfl, rfl⟩
    cases d with
    | variableDeclaration word name sign init semi =>
      have hsemi : Starts [.semi] (semi.1 :: rest) := semi.2
      refine ⟨word.1, _, ⟨rfl, word.2⟩, _, _, ⟨name, rfl, rfl⟩, sign.1, _, ⟨rfl, sign.2⟩, init.tree, _, ?_,
        semi.1, rest, ⟨rfl, semi.2⟩, rfl, rfl⟩
      exact he.mpr ⟨init, hd, ends_of_starts hsemi (by decide), by simp, rfl⟩

theorem finds_printStatement (he : Finds (s := .expression) n (EndsBefore expressionSigns) expr) :
    Finds (s := .printStatement) n (fun _ _ => True) (printStatement expr) := by
  intro ts a rest
  simp only [printStatement, bind_eq_ok_iff, expect_eq_ok_iff, pure_eq_ok_iff]
  constructor
  · rintro ⟨word, _, ⟨rfl, hword⟩, opening, _, ⟨rfl, ho⟩, _, _, hvalue, closing, _, ⟨rfl, hc⟩, semi, _,
      ⟨rfl, hsemi⟩, rfl, rfl⟩
    obtain ⟨value, hv, -, rfl, rfl⟩ := he.mp hvalue
    exact ⟨.printStatement ⟨word, hword⟩ ⟨opening, ho⟩ value ⟨closing, hc⟩ ⟨semi, hsemi⟩, hv, trivial,
      by simp [Derivation.tokens], rfl⟩
  · rintro ⟨d, hd, -, rfl, rfl⟩
    cases d with
    | printStatement word opening value closing semi =>
      have hclosing : Starts [.rparen] (closing.1 :: semi.1 :: rest) := closing.2
      refine ⟨word.1, _, ⟨rfl, word.2⟩, opening.1, _, ⟨rfl, opening.2⟩, value.tree, _, ?_, closing.1, _,
        ⟨rfl, closing.2⟩, semi.1, rest, ⟨rfl, semi.2⟩, rfl, rfl⟩
      exact he.mpr ⟨value, hd, ends_of_starts hclosing (by decide), by simp, rfl⟩

theorem finds_expressionStatement (he : Finds (s := .expression) n (EndsBefore expressionSigns) expr) :
    Finds (s := .expressionStatement) n (fun _ _ => True) (expressionStatement expr) := by
  intro ts a rest
  simp only [expressionStatement, bind_eq_ok_iff, expect_eq_ok_iff, pure_eq_ok_iff]
  constructor
  · rintro ⟨_, _, hvalue, semi, _, ⟨rfl, hsemi⟩, rfl, rfl⟩
    obtain ⟨value, hv, -, rfl, rfl⟩ := he.mp hvalue
    exact ⟨.expressionStatement value ⟨semi, hsemi⟩, hv, trivial, by simp [Derivation.tokens], rfl⟩
  · rintro ⟨d, hd, -, rfl, rfl⟩
    cases d with
    | expressionStatement value semi =>
      have hsemi : Starts [.semi] (semi.1 :: rest) := semi.2
      refine ⟨value.tree, _, ?_, semi.1, rest, ⟨rfl, semi.2⟩, rfl, rfl⟩
      exact he.mpr ⟨value, hd, ends_of_starts hsemi (by decide), by simp [Derivation.tokens], rfl⟩

/-! ## Statements -/

omit [CharacterNames] in
theorem head_kind_eq {kind : TokenKind} (h : Starts [kind] ts) : ts.head?.map Token.kind = some kind := by
  cases ts with
  | nil => exact absurd h starts_nil
  | cons token more => exact congrArg some (List.mem_singleton.mp h)

/-- What starts as an operand does is no statement with a word of its own. -/
theorem statement_of_operand (h : Starts Symbol.operandStart ts) :
    statement stmt expr ts = expressionStatement expr ts := by
  cases ts with
  | nil => exact absurd h starts_nil
  | cons token more =>
    simp only [Symbol.operandStart, primaryStart, starts_cons, List.mem_cons, List.not_mem_nil, or_false] at h
    rcases h with hk | hk | hk | hk | hk <;> simp [statement, hk]

/-- **Statements**: the first token tells which. -/
theorem finds_statement (h : Finds (s := .statement) n NoElseFor stmt)
    (he : Finds (s := .expression) n (EndsBefore expressionSigns) expr) :
    Finds (s := .statement) (n + 1) NoElseFor (statement stmt expr) := by
  intro ts a rest
  have hpos := Nat.succ_pos n
  constructor
  · intro hok
    unfold statement at hok
    split at hok
    · obtain ⟨s, hs, hopen, rfl, rfl⟩ := (finds_ifStatement h he).mp hok
      exact ⟨.ofIf s, ⟨hpos, hs⟩, hopen, rfl, rfl⟩
    · obtain ⟨s, hs, hopen, rfl, rfl⟩ := (finds_whileStatement h he).mp hok
      exact ⟨.ofWhile s, ⟨hpos, hs⟩, hopen, rfl, rfl⟩
    · obtain ⟨s, hs, hopen, rfl, rfl⟩ := (finds_functionDeclaration h).mp hok
      exact ⟨.ofFunction s, ⟨hpos, hs⟩, hopen, rfl, rfl⟩
    · obtain ⟨s, hs, -, rfl, rfl⟩ := (finds_returnStatement he).mp hok
      exact ⟨.ofReturn s, ⟨hpos, hs⟩, nofun, rfl, rfl⟩
    · obtain ⟨s, hs, -, rfl, rfl⟩ := (finds_variableDeclaration he).mp hok
      exact ⟨.ofVariable s, ⟨hpos, hs⟩, nofun, rfl, rfl⟩
    · obtain ⟨s, hs, -, rfl, rfl⟩ := (finds_printStatement he).mp hok
      exact ⟨.ofPrint s, ⟨hpos, hs⟩, nofun, rfl, rfl⟩
    · obtain ⟨s, hs, -, rfl, rfl⟩ := (finds_expressionStatement he).mp hok
      exact ⟨.ofExpression s, ⟨hpos, hs⟩, nofun, rfl, rfl⟩
  · rintro ⟨d, hd, hopen, rfl, rfl⟩
    have hhead : ∀ {kind : TokenKind}, Starts [kind] d.tokens →
        (d.tokens ++ rest).head?.map Token.kind = some kind :=
      fun hs => head_kind_eq (starts_append.mpr (.inl hs))
    cases d with
    | ofIf s =>
      rw [statement, hhead (s.starts rfl)]
      exact (finds_ifStatement h he).mpr ⟨s, hd.2, hopen, rfl, rfl⟩
    | ofWhile s =>
      rw [statement, hhead (s.starts rfl)]
      exact (finds_whileStatement h he).mpr ⟨s, hd.2, hopen, rfl, rfl⟩
    | ofFunction s =>
      rw [statement, hhead (s.starts rfl)]
      exact (finds_functionDeclaration h).mpr ⟨s, hd.2, hopen, rfl, rfl⟩
    | ofReturn s =>
      rw [statement, hhead (s.starts rfl)]
      exact (finds_returnStatement he).mpr ⟨s, hd.2, trivial, rfl, rfl⟩
    | ofVariable s =>
      rw [statement, hhead (s.starts rfl)]
      exact (finds_variableDeclaration he).mpr ⟨s, hd.2, trivial, rfl, rfl⟩
    | ofPrint s =>
      rw [statement, hhead (s.starts rfl)]
      exact (finds_printStatement he).mpr ⟨s, hd.2, trivial, rfl, rfl⟩
    | ofExpression s =>
      have hs : Starts Symbol.operandStart (s.tokens ++ rest) := starts_append.mpr (.inl (s.starts rfl))
      exact (statement_of_operand hs).trans ((finds_expressionStatement he).mpr ⟨s, hd.2, trivial, rfl, rfl⟩)

/-- **Statements**, with a number of levels that may be opened. -/
theorem finds_statementAt (n : Nat) : Finds (s := .statement) n NoElseFor (statementAt n) := by
  induction n with
  | zero =>
    intro ts a rest
    constructor
    · intro hok
      exact absurd hok refuseLevel_ne_ok
    -- Each production of a statement opens a level.
    · rintro ⟨d, hd, -⟩
      cases d <;> exact absurd hd.1 (Nat.lt_irrefl 0)
  | succ n ih => exact finds_statement ih (finds_expressionAt n)

/-- **Programs**, with a number of levels that may be opened. -/
theorem finds_programReading (n : Nat) :
    Finds (s := .program) n (fun _ rest => rest = []) (programReading (statementAt n)) := by
  intro ts a rest
  have h := finds_statementAt n
  simp only [programReading, bind_eq_ok_iff, pure_eq_ok_iff, repeatUntil_eq_ok_iff asks_atEnd (h.takes rfl)]
  constructor
  · rintro ⟨_, _, hbody, rfl, rfl⟩
    obtain rfl := endsList_atEnd.stop_of_repeats hbody
    obtain ⟨body, hb, rfl, rfl⟩ := (repeats_statements endsList_atEnd h rfl).mp hbody
    exact ⟨.program body, hb, rfl, rfl, rfl⟩
  · rintro ⟨d, hd, rfl, rfl, rfl⟩
    cases d with
    | program body =>
      exact ⟨body.tree, [], (repeats_statements endsList_atEnd h rfl).mpr ⟨body, hd, rfl, rfl⟩, rfl, rfl⟩

end LineaLang.Grammar
