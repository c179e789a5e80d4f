import LineaLang.Proofs.Parsing.Blame.Expression

/-!
# `LineaLang.Proofs.Parsing.Blame.Statement` — which token a statement blames

All statements but one are sequences. A conditional may leave out its `then`, and what stands behind the condition can
then go on with the condition as well as begin the block. The two are kept apart by what the condition did not take: a
block that has begun starts neither with a minus nor, after a name, with a parenthesis. A token that is only
*expected* behind the condition may be such a parenthesis; it then makes a call of the name.

## Contents

* `begins_ifStatement_of_apart`, `begins_ifStatement_of_name` — the two ways to go on behind a condition.
* `reads_ifStatement` — conditionals.
* `reads_statement`, `reads_statementAt` — statements, by induction on the levels.
-/

namespace LineaLang.Grammar

open scoped Computability

variable [CharacterNames] {n N : Nat} {stmt expr : Reading Node} {P : List Token → Prop} {ts rest before left : List Token}
  {kinds : List TokenKind} {found : Option Token}

/-! ## Phrases -/

section

variable (hstmtFinds : Finds (s := .statement) n NoElseFor stmt)
  (hstmt : Reads (fun _ => True) stmt (words .statement N))
  (hexprFinds : Finds (s := .expression) n (EndsBefore expressionSigns) expr)
  (hexpr : Reads (fun _ => True) expr (words .expression N)) (hle : n ≤ N)

include hstmtFinds hstmt in
theorem reads_block : Reads P (block stmt) (words .block N) := by
  refine .lookingAt (Reads.le ?_ braced_le) (hstmt.of_true.map.le statement_le_block)
  refine (reads_expect (by decide)).bind fun _ => ?_
  exact Reads.repeatUntil asks_closed (hstmtFinds.takes rfl) reads_closed hstmt.of_true fun _ =>
    (reads_expect (by decide)).map

include hstmtFinds hstmt in
theorem reads_elseReading : Reads P (elseReading stmt) (words .elsePart N) := by
  refine .lookingAt (Reads.le ?_ else_le) ((Reads.pure _).le noElse_le)
  exact (reads_expect (by decide)).bind fun _ => reads_block hstmtFinds hstmt

include hstmtFinds hstmt hexprFinds hexpr hle in
theorem reads_whileStatement : Reads P (whileStatement stmt expr) (words .whileStatement N) := by
  refine Reads.le ?_ while_le
  exact (reads_expect (by decide)).bind fun _ => (reads_comparison hexprFinds hexpr hle).bind fun _ =>
    (reads_expect (by decide)).bind fun _ => (reads_block hstmtFinds hstmt).map

theorem reads_identifier : Reads P identifier (terminals [.ident]) := (reads_expect (by decide)).map

include hstmtFinds hstmt in
theorem reads_functionDeclaration : Reads P (functionDeclaration stmt) (words .functionDeclaration N) := by
  refine Reads.le ?_ function_le
  exact (reads_expect (by decide)).bind fun _ => reads_identifier.bind fun _ => (reads_expect (by decide)).bind fun _ =>
    ((Reads.commaList takes_identifier reads_identifier).le parameters_le).bind fun _ =>
      (reads_expect (by decide)).bind fun _ => (reads_block hstmtFinds hstmt).map

include hexpr in
theorem reads_returnStatement : Reads P (returnStatement expr) (words .returnStatement N) := by
  refine Reads.le ?_ return_le
  exact (reads_expect (by decide)).bind fun _ => hexpr.bind fun _ => (reads_expect (by decide)).map

include hexpr in
theorem reads_variableDeclaration : Reads P (variableDeclaration expr) (words .variableDeclaration N) := by
  refine Reads.le ?_ variable_le
  exact (reads_expect (by decide)).bind fun _ => reads_identifier.bind fun _ => (reads_expect (by decide)).bind fun _ =>
    hexpr.bind fun _ => (reads_expect (by decide)).map

include hexpr in
theorem reads_printStatement : Reads P (printStatement expr) (words .printStatement N) := by
  refine Reads.le ?_ print_le
  exact (reads_expect (by decide)).bind fun _ => (reads_expect (by decide)).bind fun _ => hexpr.bind fun _ =>
    (reads_expect (by decide)).bind fun _ => (reads_expect (by decide)).map

include hexpr in
theorem reads_expressionStatement : Reads P (expressionStatement expr) (words .expressionStatement N) := by
  refine Reads.le ?_ expressionStatement_le
  exact hexpr.of_true.bind fun _ => (reads_expect (by decide)).map

/-! ## Conditionals -/

/-- The tokens of a conditional up to its block. -/
def conditionTokens (word : Terminal [.ifWord]) (condition : Derivation .comparison)
    (thenWord : Option (Terminal [.thenWord])) : List Token :=
  word.1 :: (condition.tokens ++ (thenWord.map Subtype.val).toList)

section Conditionals

variable {word : Terminal [.ifWord]} {condition : Derivation .comparison} {thenWord : Option (Terminal [.thenWord])}

/-- **The block of a conditional**, if it stands apart from the condition. -/
theorem begins_ifStatement_of_apart (word : Terminal [.ifWord]) {condition : Derivation .comparison}
    (thenWord : Option (Terminal [.thenWord])) {q : List Token} (hcondition : condition.Fits N)
    (hq : Begins (words .block N) q)
    (hapart : thenWord = none → ¬ Starts [.minus] q ∧ ¬ (EndsInName condition.tokens ∧ Starts [.lparen] q)) :
    Begins (words .ifStatement N) (conditionTokens word condition thenWord ++ q) := by
  cases q with
  | nil =>
    have hfits : (Derivation.ifStatement word condition thenWord emptyBlock .noElse).Fits N := by
      refine ⟨trivial, ?_, hcondition, trivial, trivial⟩
      cases thenWord with
      | some thenWord => trivial
      | none => exact ⟨by decide, fun h => absurd h.2 (by decide)⟩
    exact ⟨emptyBlock.tokens, _, hfits, by simp [conditionTokens, Derivation.tokens]⟩
  | cons t q =>
    obtain ⟨more, thenBlock, hblock, htokens⟩ := hq
    have hfits : (Derivation.ifStatement word condition thenWord thenBlock .noElse).Fits N := by
      refine ⟨trivial, ?_, hcondition, hblock, trivial⟩
      cases thenWord with
      | some thenWord => trivial
      | none =>
        show ¬ Starts [.minus] thenBlock.tokens ∧ ¬ (_ ∧ Starts [.lparen] thenBlock.tokens)
        rw [htokens]
        exact hapart rfl
    exact ⟨more, _, hfits, by simp [conditionTokens, Derivation.tokens, htokens]⟩

/-- **The condition of a conditional**: behind it there may always come an empty block. -/
theorem begins_ifStatement_of_condition (word : Terminal [.ifWord]) {condition : Derivation .comparison}
    (hcondition : condition.Fits N) : Begins (words .ifStatement N) (word.1 :: condition.tokens) := by
  have hempty : Begins (words .ifStatement N) (conditionTokens word condition none ++ []) :=
    begins_ifStatement_of_apart word none hcondition ⟨_, emptyBlock, trivial, rfl⟩ fun _ =>
      ⟨starts_nil, fun h => starts_nil h.2⟩
  simpa [conditionTokens] using hempty

/-- **A parenthesis after a name** makes a call of it, and the condition can be gone on with. -/
theorem begins_ifStatement_of_name {t : Token} (hcondition : condition.Fits N) (hname : EndsInName condition.tokens)
    (ht : t.kind = .lparen) : Begins (words .ifStatement N) (conditionTokens word condition none ++ [t]) := by
  obtain ⟨called, hcalled, htokens⟩ :=
    condition.callable_of_isOperand rfl ⟨t, List.mem_singleton.mpr ht⟩ someClosing hcondition hname
  obtain ⟨more, hmore⟩ := begins_ifStatement_of_condition word hcalled
  refine ⟨someClosing.1 :: more, ?_⟩
  simpa [conditionTokens, htokens] using hmore

include hexprFinds in
/-- A conditional behind its condition. -/
theorem ifStatement_of_condition (hcondition : condition.Fits n) {after : List Token}
    (hends : EndsBefore sumSigns condition ((thenWord.map Subtype.val).toList ++ after))
    (hthen : thenWord = none → ¬ Starts [.thenWord] after) :
    ifStatement stmt expr (conditionTokens word condition thenWord ++ after) = (do
      let thenBlock ← block stmt
      let elseBlock ← elseReading stmt
      return Node.ifElse condition.tree thenBlock elseBlock) after := by
  have hwhole : conditionTokens word condition thenWord ++ after =
      word.1 :: (condition.tokens ++ ((thenWord.map Subtype.val).toList ++ after)) := by
    simp [conditionTokens]
  rw [hwhole, ifStatement_eq, bind_of_ok (expect_eq_ok_iff.mpr ⟨rfl, word.2⟩),
    bind_of_ok ((finds_comparison hexprFinds).mpr ⟨condition, hcondition, hends, rfl, rfl⟩),
    bind_of_ok (skipThen_eq_ok_iff (u := ()) |>.mpr ⟨thenWord, rfl, hthen⟩)]

/-- **What is blamed in the block** of a conditional. -/
theorem blames_of_block (hcondition : condition.Fits n) (hle : n ≤ N)
    (hexprFinds : Finds (s := .expression) n (EndsBefore expressionSigns) expr)
    (hends : EndsBefore sumSigns condition ((thenWord.map Subtype.val).toList ++ (before ++ left)))
    (hthen : thenWord = none → ¬ Starts [.thenWord] (before ++ left))
    (h : Blames (block stmt) (words .block N) kinds found rest before left) :
    Blames (ifStatement stmt expr) (words .ifStatement N) kinds found rest
      (conditionTokens word condition thenWord ++ before) left := by
  have hfits := hcondition.mono hle
  -- If some of the block has been taken, it is known to stand apart.
  have hbegins : ∀ q, Begins (words .block N) (before ++ q) →
      (before = [] → thenWord = none → ¬ Starts [.minus] q ∧ ¬ (EndsInName condition.tokens ∧ Starts [.lparen] q)) →
      Begins (words .ifStatement N) (conditionTokens word condition thenWord ++ before ++ q) := by
    intro q hq hapart
    rw [List.append_assoc]
    refine begins_ifStatement_of_apart word thenWord hfits hq fun hnone => ?_
    cases before with
    | nil => exact hapart rfl hnone
    | cons t before =>
      subst hnone
      exact ⟨fun hs => hends.1 (Starts.mono (a := t :: (before ++ left)) hs (by decide)),
        fun h => hends.2 h.1 h.2⟩
  have hexpects : ∀ t : Token, t.kind ∈ kinds → Begins (words .block N) (before ++ [t]) →
      Begins (words .ifStatement N) (conditionTokens word condition thenWord ++ before ++ [t]) := by
    intro t hkind ht
    by_cases hcalled : before = [] ∧ thenWord = none ∧ EndsInName condition.tokens ∧ t.kind = .lparen
    · obtain ⟨rfl, rfl, hname, hparen⟩ := hcalled
      rw [List.append_nil]
      exact begins_ifStatement_of_name hfits hname hparen
    · refine hbegins [t] ht fun hnil hnone => ⟨fun hminus => ?_, fun hparen => ?_⟩
      · exact h.not_minus (List.mem_singleton.mp hminus ▸ hkind)
      · exact hcalled ⟨hnil, hnone, hparen.1, List.mem_singleton.mp hparen.2⟩
  refine ⟨h.found_eq, fun left' hleft' => ?_, ?_, ?_, h.not_minus⟩
  · obtain ⟨rest', hrest'⟩ := h.again left' hleft'
    have hhead := head?_append_congr before (hleft'.trans h.found_eq.symm)
    refine ⟨rest', ?_⟩
    rw [List.append_assoc, ifStatement_of_condition hexprFinds hcondition
      (EndsBefore.congr _ _ _ (head?_append_congr _ hhead) hends) fun hnone => ?_, bind_of_error hrest']
    rw [starts_congr hhead]
    exact hthen hnone
  · have hnone := hbegins [] (by rw [List.append_nil]; exact h.begins)
      fun _ _ => ⟨starts_nil, fun h => starts_nil h.2⟩
    rwa [List.append_nil] at hnone
  · cases h.cause with
    | next hrest hkind ht => exact .next hrest hkind fun t hk hlegible => hexpects t hk (ht t hk hlegible)
    | literal hrest hkind hillegible ht =>
      exact .literal hrest hkind hillegible fun t hk hlegible => hexpects t hk (ht t hk hlegible)
    | target hrest hkind hkinds hleft =>
      obtain ⟨d, hd, hname⟩ := hleft
      exact .target hrest hkind hkinds ⟨d, hd.trans (List.suffix_append _ _), hname⟩

omit [CharacterNames] in
theorem skipThen_total (ts : List Token) : ∃ (thenWord : Option (Terminal [.thenWord])) (after : List Token),
    ts = (thenWord.map Subtype.val).toList ++ after ∧ (thenWord = none → ¬ Starts [.thenWord] after) := by
  by_cases hs : Starts [.thenWord] ts
  · obtain ⟨t, after, rfl⟩ := List.exists_cons_of_ne_nil hs.ne_nil
    exact ⟨some ⟨t, hs⟩, after, rfl, nofun⟩
  · exact ⟨none, ts, rfl, fun _ => hs⟩

end Conditionals

include hstmtFinds hstmt hexprFinds in
/-- **What is blamed behind the condition** of a conditional. -/
theorem blames_after_condition (hle : n ≤ N) {word : Terminal [.ifWord]} {condition : Derivation .comparison}
    {thenWord : Option (Terminal [.thenWord])} {after : List Token} (hcondition : condition.Fits n)
    (hends : EndsBefore sumSigns condition ((thenWord.map Subtype.val).toList ++ after))
    (hthen : thenWord = none → ¬ Starts [.thenWord] after)
    (herror : ifStatement stmt expr (conditionTokens word condition thenWord ++ after) =
      .error (.refused (.unexpected kinds found)) rest) :
    ∃ before left, conditionTokens word condition thenWord ++ after = before ++ left ∧
      Blames (ifStatement stmt expr) (words .ifStatement N) kinds found rest before left := by
  rw [ifStatement_of_condition hexprFinds hcondition hends hthen] at herror
  cases hblock : block stmt after with
  | error fault mid =>
    rw [bind_of_error hblock] at herror
    obtain ⟨rfl, rfl⟩ := EStateM.Result.error.inj herror
    obtain ⟨before, left, rfl, hblames⟩ := (reads_block (P := fun _ => True) hstmtFinds hstmt).stops trivial hblock
    exact ⟨_, left, (List.append_assoc _ _ _).symm, blames_of_block hcondition hle hexprFinds hends hthen hblames⟩
  | ok a mid =>
    rw [bind_of_ok hblock] at herror
    obtain ⟨thenBlock, hthenBlock, hopen, rfl, rfl, hagain⟩ := (finds_block hstmtFinds).again NoElseFor.congr hblock
    -- Reading the second block can stop only where there is one.
    have helse : Starts [.elseWord] mid := by
      by_contra hno
      rw [elseReading, bind_assoc, lookingAt_bind, decide_eq_false hno] at herror
      cases herror
    have hclosed : thenBlock.endsOpen = false := Bool.eq_false_iff.mpr fun h => hopen h helse
    have helseReads : Reads (fun _ => True) (do
        let elseBlock ← elseReading stmt
        return Node.ifElse condition.tree thenBlock.tree elseBlock) (words .elsePart N) :=
      (reads_elseReading hstmtFinds hstmt).map
    obtain ⟨before, left, rfl, hblames⟩ := helseReads.stops trivial herror
    refine ⟨conditionTokens word condition thenWord ++ thenBlock.tokens ++ before, left, by simp,
      hblames.lift _ ?_ fun ts' hts' fault rest' h => ?_⟩
    · rintro _ ⟨elsePart, helsePart, rfl⟩
      have hnearest : (Derivation.ifStatement word condition thenWord thenBlock elsePart).ElseNearest := by
        cases elsePart with
        | noElse => trivial
        | elseBlock _ _ => exact hclosed
      refine .of_mem ⟨.ifStatement word condition thenWord thenBlock elsePart, ⟨hnearest, ?_, hcondition.mono hle,
        hthenBlock.mono hle, helsePart⟩, by simp [conditionTokens, Derivation.tokens]⟩
      exact endsBefore_iff_thenApart.mp hends
    · have hhead := head?_append_congr thenBlock.tokens hts'
      rw [List.append_assoc, ifStatement_of_condition hexprFinds hcondition
        (EndsBefore.congr _ _ _ (head?_append_congr _ hhead) hends) fun hnone => ?_, bind_of_ok (hagain _ hts')]
      · exact h
      · rw [starts_congr hhead]
        exact hthen hnone

include hstmtFinds hstmt hexprFinds hexpr hle in
/-- **A conditional** blames a token of its condition or one behind it. -/
theorem ifStatement_blames (herror : ifStatement stmt expr ts = .error (.refused (.unexpected kinds found)) rest) :
    ∃ before left, ts = before ++ left ∧
      Blames (ifStatement stmt expr) (words .ifStatement N) kinds found rest before left := by
  have hcompare := reads_comparison (P := fun _ => True) hexprFinds hexpr hle
  by_cases hs : Starts [.ifWord] ts
  · obtain ⟨word, after, rfl⟩ := List.exists_cons_of_ne_nil hs.ne_nil
    have hword : ∀ after', expect [.ifWord] (word :: after') = .ok word after' :=
      fun _ => expect_eq_ok_iff.mpr ⟨rfl, hs⟩
    cases hcondition : comparison expr after with
    | error fault mid =>
      rw [ifStatement_eq, bind_of_ok (hword _), bind_of_error hcondition] at herror
      obtain ⟨rfl, rfl⟩ := EStateM.Result.error.inj herror
      obtain ⟨before, left, rfl, hblames⟩ := hcompare.stops trivial hcondition
      refine ⟨word :: before, left, rfl, hblames.lift [word] ?_ fun ts' _ fault rest' h => ?_⟩
      · rintro _ ⟨condition, hfits, rfl⟩
        exact begins_ifStatement_of_condition ⟨word, hs⟩ hfits
      · rw [List.singleton_append, ifStatement_eq, bind_of_ok (hword _), bind_of_error h]
    | ok a mid =>
      obtain ⟨condition, hfits, hends, rfl, rfl⟩ := (finds_comparison hexprFinds).mp hcondition
      obtain ⟨thenWord, after, rfl, hthen⟩ := skipThen_total mid
      have htokens : word :: (condition.tokens ++ ((thenWord.map Subtype.val).toList ++ after)) =
          conditionTokens ⟨word, hs⟩ condition thenWord ++ after := by
        simp [conditionTokens]
      rw [htokens] at herror ⊢
      exact blames_after_condition hstmtFinds hstmt hexprFinds hle hfits hends hthen herror
  · have hexpect : expect [.ifWord] ts = .error (.refused (.unexpected [.ifWord] ts.head?)) ts :=
      expect_eq_error_iff.mpr ⟨hs, rfl, rfl⟩
    rw [ifStatement_eq, bind_of_error hexpect] at herror
    cases herror
    obtain ⟨before, left, hsplit, hblames⟩ := (reads_expect (P := fun _ => True) (by decide)).stops trivial hexpect
    refine ⟨before, left, hsplit, hblames.lift [] ?_ fun ts' _ fault rest' h => ?_⟩
    · rintro _ ⟨word, rfl⟩
      obtain ⟨_, condition, hfits, rfl⟩ := hcompare.inhabited
      have hcondition : Begins (words .ifStatement N) ([word.1] ++ condition.tokens) :=
        begins_ifStatement_of_condition word hfits
      exact hcondition.of_append
    · rw [List.nil_append, ifStatement_eq, bind_of_error h]

include hstmtFinds hstmt hexprFinds hexpr hle in
theorem reads_ifStatement : Reads P (ifStatement stmt expr) (words .ifStatement N) := by
  obtain ⟨_, condition, hcondition, rfl⟩ := (reads_comparison (P := P) hexprFinds hexpr hle).inhabited
  obtain ⟨more, hmore⟩ := begins_ifStatement_of_condition ⟨⟨.ifWord, "if", .start⟩, by decide⟩ hcondition
  exact (finds_ifStatement hstmtFinds hexprFinds).reads NoElseFor.congr hle ⟨_, hmore⟩ fun _ _ _ _ =>
    ifStatement_blames hstmtFinds hstmt hexprFinds hexpr hle

/-! ## Statements -/

/-- **The statement that starts** with a token of a kind. -/
def statementOf (stmt expr : Reading Node) : Option TokenKind → Reading Node
  | some .ifWord => ifStatement stmt expr
  | some .whileWord => whileStatement stmt expr
  | some .funcWord => functionDeclaration stmt
  | some .returnWord => returnStatement expr
  | some .letWord => variableDeclaration expr
  | some .printWord => printStatement expr
  | _ => expressionStatement expr

theorem statement_eq (ts : List Token) :
    statement stmt expr ts = statementOf stmt expr (ts.head?.map Token.kind) ts := by
  unfold statement statementOf
  cases ts.head?.map Token.kind with
  | none => rfl
  | some kind => cases kind <;> rfl

include hstmtFinds hstmt hexprFinds hexpr hle in
theorem reads_statementOf (kind : Option TokenKind) :
    Reads P (statementOf stmt expr kind) (words .statement (N + 1)) := by
  unfold statementOf
  split
  · exact (reads_ifStatement hstmtFinds hstmt hexprFinds hexpr hle).le
      (le_statement .ofIf (fun _ => rfl) fun _ => Iff.rfl)
  · exact (reads_whileStatement hstmtFinds hstmt hexprFinds hexpr hle).le
      (le_statement .ofWhile (fun _ => rfl) fun _ => Iff.rfl)
  · exact (reads_functionDeclaration hstmtFinds hstmt).le (le_statement .ofFunction (fun _ => rfl) fun _ => Iff.rfl)
  · exact (reads_returnStatement hexpr).le (le_statement .ofReturn (fun _ => rfl) fun _ => Iff.rfl)
  · exact (reads_variableDeclaration hexpr).le (le_statement .ofVariable (fun _ => rfl) fun _ => Iff.rfl)
  · exact (reads_printStatement hexpr).le (le_statement .ofPrint (fun _ => rfl) fun _ => Iff.rfl)
  · exact (reads_expressionStatement hexpr).le (le_statement .ofExpression (fun _ => rfl) fun _ => Iff.rfl)

include hstmtFinds hstmt hexprFinds hexpr hle in
theorem reads_statement : Reads P (statement stmt expr) (words .statement (N + 1)) := by
  have hpart := fun kind => reads_statementOf (P := P) hstmtFinds hstmt hexprFinds hexpr hle kind
  refine .of_forall (hpart none).inhabited fun ts hts => ?_
  refine .of_next ((hpart (ts.head?.map Token.kind)).mono (fun _ h => h ▸ hts) le_rfl) fun ts' hts' => ?_
  rw [statement_eq, hts']

end

/-- **Statements**, with a number of levels that may be opened. -/
theorem reads_statementAt (n : Nat) : Reads P (statementAt n) (words .statement (n + 1)) := by
  induction n generalizing P with
  | zero =>
    -- A declaration of a function that does nothing opens no level but its own.
    refine .refuseLevel ⟨_, le_statement .ofFunction (fun _ => rfl) (fun _ => Iff.rfl) ⟨?_, ?_, rfl⟩⟩
    · exact .functionDeclaration ⟨⟨.funcWord, "func", .start⟩, by decide⟩ someName someOpening .noParameters someClosing
        emptyBlock
    · exact ⟨trivial, trivial⟩
  | succ n ih =>
    exact reads_statement (finds_statementAt n) ih (finds_expressionAt n) (reads_expressionAt n) (Nat.le_succ n)

end LineaLang.Grammar
