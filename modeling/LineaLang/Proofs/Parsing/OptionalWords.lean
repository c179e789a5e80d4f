import LineaLang.Proofs.Parsing.Joints
import LineaLang.Proofs.Parsing.Program

/-!
# `LineaLang.Proofs.Parsing.OptionalWords` — conditionals with and without `then` and braces

A condition and a statement make a conditional in four ways: with `then` or without, and with braces around the
statement or without. With `then` or with braces the condition ends where it should, and these three ways make the same
tree, or none if the nesting is too deep. Without both the statement must not look like more of the condition. If it
starts with a minus, or with a parenthesis after a name, the condition takes what it can of it, and the tokens have no
tree at all: two operands would have to meet where the block starts, and inside a condition or an expression none do.

## Contents

* `GivesIf` — a reading that can only come to one end, with the rules for putting such readings together.
* `Derives`, `givesIf_comparison`, `givesIf_statement` — what is read on its own is read in place, if it fits.
* `givesIf_program` — a conditional as a whole program.
* `optional_words` — the four ways.
-/

namespace LineaLang

namespace Grammar

/-! ## Readings with one end -/

section

variable {α β : Type} {A B : Prop} {r : Reading α} {f : α → Reading β} {ts mid rest : List Token} {a : α} {b : β}

/-- **A reading can only come to one end**: it gives `a` and leaves `rest`, and does so exactly if `A` holds. -/
def GivesIf (A : Prop) (r : Reading α) (ts : List Token) (a : α) (rest : List Token) : Prop :=
  ∀ a' rest', r ts = .ok a' rest' ↔ A ∧ a' = a ∧ rest' = rest

theorem GivesIf.congr (h : GivesIf A r ts a rest) (hiff : A ↔ B) : GivesIf B r ts a rest := by
  intro a' rest'
  rw [← hiff]
  exact h a' rest'

theorem GivesIf.of_eq {r' : Reading α} {ts' : List Token} (h : GivesIf A r' ts' a rest) (heq : r ts = r' ts') :
    GivesIf A r ts a rest := by
  intro a' rest'
  rw [heq]
  exact h a' rest'

/-- **One reading after another.** -/
theorem GivesIf.bind (hr : GivesIf A r ts a mid) (hf : GivesIf B (f a) mid b rest) :
    GivesIf (A ∧ B) (r >>= f) ts b rest := by
  intro b' rest'
  rw [bind_eq_ok_iff]
  constructor
  · rintro ⟨a', mid', hfirst, hsecond⟩
    obtain ⟨hA, rfl, rfl⟩ := (hr _ _).mp hfirst
    obtain ⟨hB, rfl, rfl⟩ := (hf _ _).mp hsecond
    exact ⟨⟨hA, hB⟩, rfl, rfl⟩
  · rintro ⟨⟨hA, hB⟩, rfl, rfl⟩
    exact ⟨a, mid, (hr _ _).mpr ⟨hA, rfl, rfl⟩, (hf _ _).mpr ⟨hB, rfl, rfl⟩⟩

/-- A reading after a step that succeeds. -/
theorem GivesIf.after (hr : r ts = .ok a mid) (hf : GivesIf A (f a) mid b rest) : GivesIf A (r >>= f) ts b rest :=
  hf.of_eq (bind_of_ok hr)

/-- A step that succeeds after a reading. -/
theorem GivesIf.before (hr : GivesIf A r ts a mid) (hf : f a mid = .ok b rest) : GivesIf A (r >>= f) ts b rest := by
  have hstep : GivesIf True (f a) mid b rest := by
    intro b' rest'
    rw [hf]
    simp [eq_comm]
  exact (hr.bind hstep).congr (and_true _).to_iff

end

theorem expect_terminal {kinds : List TokenKind} (token : Terminal kinds) (rest : List Token) :
    expect kinds (token.1 :: rest) = .ok token.1 rest :=
  expect_eq_ok_iff.mpr ⟨rfl, token.2⟩

/-! ## Phrases in place -/

section

variable [CharacterNames]

/-- More levels do no harm. -/
theorem fits_mono {s : Symbol} {d : Derivation s} {n m : Nat} (h : d.Fits n) (hle : n ≤ m) : d.Fits m := by
  obtain ⟨helse, hthen, htarget, hlevels, hlegible⟩ := Derivation.fits_iff.mp h
  exact Derivation.fits_iff.mpr ⟨helse, hthen, htarget, hlevels.trans hle, hlegible⟩

/-- **Tokens are derived from a symbol**, within a number of levels. -/
def Derives (n : Nat) (s : Symbol) (tokens : List Token) : Prop := ∃ d : Derivation s, d.Fits n ∧ d.tokens = tokens

/-- **What is read with more levels can only be read the same with fewer**, since a reading has one outcome. -/
theorem Finds.givesIf {s : Symbol} {stops : Derivation s → List Token → Prop} {reading reading' : Reading s.Tree}
    {n m : Nat} (h : Finds n stops reading) (h' : Finds m stops reading') (hle : n ≤ m) {taken tail : List Token}
    {a : s.Tree} (hread : reading' (taken ++ tail) = .ok a tail)
    (hstops : ∀ d : Derivation s, d.tokens = taken → stops d tail) :
    GivesIf (Derives n s taken) reading (taken ++ tail) a tail := by
  intro a' rest'
  constructor
  · intro hok
    obtain ⟨d, hd, hend, htokens, rfl⟩ := h.mp hok
    have hsame := h'.mpr ⟨d, fits_mono hd hle, hend, htokens, rfl⟩
    rw [hread] at hsame
    obtain ⟨rfl, rfl⟩ := EStateM.Result.ok.inj hsame
    exact ⟨⟨d, hd, (List.append_cancel_right htokens).symm⟩, rfl, rfl⟩
  · rintro ⟨⟨d, hd, rfl⟩, rfl, rfl⟩
    have hsame := h'.mpr ⟨d, fits_mono hd hle, hstops d rfl, rfl, rfl⟩
    rw [hread] at hsame
    obtain ⟨rfl, -⟩ := EStateM.Result.ok.inj hsame
    exact h.mpr ⟨d, hd, hstops d rfl, rfl, rfl⟩

variable {n m : Nat} {C S B tail : List Token} {c s b : Node}

/-- **A condition in place**, if it ends there. -/
theorem givesIf_comparison (hC : comparison (expressionAt m) C = .ok c []) (hle : n ≤ m)
    (hends : Ends sumSigns C tail) :
    GivesIf (Derives n .comparison C) (comparison (expressionAt n)) (C ++ tail) c tail := by
  have hfinds := fun n => finds_comparison (finds_expressionAt n)
  refine Finds.givesIf (hfinds n) (hfinds m) hle ?_ ?_
  · obtain ⟨d, hd, -, rfl, rfl⟩ := (hfinds m).mp hC
    rw [List.append_nil] at hends
    exact (hfinds m).mpr ⟨d, hd, hends, by rw [List.append_nil], rfl⟩
  · rintro d rfl
    exact hends

/-- **A statement in place**, if no `else` follows. -/
theorem givesIf_statement (hS : statementAt m S = .ok s []) (hle : n ≤ m) (helse : ¬ Starts [.elseWord] tail) :
    GivesIf (Derives n .statement S) (statementAt n) (S ++ tail) s tail := by
  refine Finds.givesIf (finds_statementAt n) (finds_statementAt m) hle ?_ fun d _ _ => helse
  obtain ⟨d, hd, -, rfl, rfl⟩ := (finds_statementAt m).mp hS
  exact (finds_statementAt m).mpr ⟨d, hd, fun _ => helse, by rw [List.append_nil], rfl⟩

theorem starts_of_statementAt (hS : statementAt m S = .ok s []) : Starts Symbol.statementStart S := by
  obtain ⟨d, -, -, rfl, -⟩ := (finds_statementAt m).mp hS
  rw [List.append_nil]
  exact d.starts rfl

/-! ## Blocks -/

theorem givesIf_bare (hS : statementAt m S = .ok s []) (hle : n ≤ m) :
    GivesIf (Derives n .statement S) (block (statementAt n)) S (.block [s]) [] := by
  have hstart : ¬ Starts [.lbrace] S := (starts_of_statementAt hS).not_of_disjoint (by decide)
  have hstatement : GivesIf (Derives n .statement S) (statementAt n) (S ++ []) s [] :=
    givesIf_statement hS hle starts_nil
  rw [List.append_nil] at hstatement
  have hblock :
      GivesIf (Derives n .statement S) (do return .block [← statementAt n] : Reading Node) S (.block [s]) [] :=
    hstatement.before rfl
  refine hblock.of_eq ?_
  rw [block, lookingAt_bind]
  simp only [hstart, decide_false, Bool.false_eq_true, if_false]

theorem givesIf_braced (hS : statementAt m S = .ok s []) (hle : n ≤ m) (opening : Terminal [.lbrace])
    (closing : Terminal [.rbrace]) :
    GivesIf (Derives n .statement S) (block (statementAt n)) (opening.1 :: (S ++ [closing.1])) (.block [s]) [] := by
  have hopening : Starts [.lbrace] (opening.1 :: (S ++ [closing.1])) := opening.2
  have hclosing : Starts [.rbrace] [closing.1] := closing.2
  have hgoes : block.closed (S ++ [closing.1]) = .ok false (S ++ [closing.1]) :=
    endsList_closed.goes_on (starts_append.mpr (.inl (starts_of_statementAt hS)))
  have hstops : block.closed [closing.1] = .ok true [closing.1] := endsList_closed.true_iff.mpr ⟨hclosing, rfl⟩
  have hround := repeatUntil_eq asks_closed ((finds_statementAt n).takes rfl)
  have hlast : repeatUntil block.closed (statementAt n) [closing.1] = .ok [] [closing.1] := by
    rw [hround, bind_of_ok hstops]
    rfl
  have hstatement := givesIf_statement (n := n) hS hle (hclosing.not_of_disjoint (by decide))
  have hbody : GivesIf (Derives n .statement S) (repeatUntil block.closed (statementAt n)) (S ++ [closing.1]) [s]
      [closing.1] := by
    rw [hround]
    refine GivesIf.after hgoes (hstatement.before ?_)
    rw [bind_of_ok hlast]
    rfl
  have hblock : block (statementAt n) (opening.1 :: (S ++ [closing.1])) = (do
      let statements ← repeatUntil block.closed (statementAt n)
      let _ ← expect [.rbrace]
      return .block statements : Reading Node) (S ++ [closing.1]) := by
    rw [block, lookingAt_bind]
    simp only [hopening, decide_true, if_true]
    exact bind_of_ok (expect_terminal opening _)
  refine (hbody.before ?_).of_eq hblock
  rw [bind_of_ok (expect_terminal closing _)]
  rfl

/-! ## Conditionals -/

/-- **A conditional without `else`**, from its condition and its block. -/
theorem givesIf_ifStatement {A A' : Prop} (word : Terminal [.ifWord]) (thenWord : Option (Terminal [.thenWord]))
    (hcondition : GivesIf A (comparison (expressionAt n)) (C ++ ((thenWord.map Subtype.val).toList ++ B)) c
      ((thenWord.map Subtype.val).toList ++ B))
    (hthen : ¬ Starts [.thenWord] B) (hblock : GivesIf A' (block (statementAt n)) B b []) :
    GivesIf (A ∧ A') (ifStatement (statementAt n) (expressionAt n))
      (word.1 :: (C ++ ((thenWord.map Subtype.val).toList ++ B))) (.ifElse c b .absent) [] := by
  have hskip : skipThen ((thenWord.map Subtype.val).toList ++ B) = .ok () B :=
    skipThen_eq_ok_iff.mpr ⟨thenWord, rfl, fun _ => hthen⟩
  rw [ifStatement_eq]
  exact GivesIf.after (expect_terminal word _) (hcondition.bind (GivesIf.after hskip (hblock.before rfl)))

/-- **A statement as a whole program.** -/
theorem givesIf_program {A : Prop} {ts : List Token} (hts : ts ≠ []) (h : GivesIf A (statementAt n) ts s []) :
    GivesIf A (programReading (statementAt n)) ts (.program [s]) [] := by
  have hround := repeatUntil_eq asks_atEnd ((finds_statementAt n).takes rfl)
  have hgoes : atEnd ts = .ok false ts := by simp [atEnd_eq, hts]
  have hlast : repeatUntil atEnd (statementAt n) [] = .ok [] [] := rfl
  have hbody : GivesIf A (repeatUntil atEnd (statementAt n)) ts [s] [] := by
    rw [hround]
    refine GivesIf.after hgoes (h.before ?_)
    rw [bind_of_ok hlast]
    rfl
  exact hbody.before rfl

/-- **A conditional has a tree exactly if its parts can be read one level down.** -/
theorem ofTokens_ifStatement {A A' : Prop} (word : Terminal [.ifWord]) (thenWord : Option (Terminal [.thenWord]))
    (hcondition : GivesIf A (comparison (expressionAt (maxLevels - 1))) (C ++ ((thenWord.map Subtype.val).toList ++ B))
      c ((thenWord.map Subtype.val).toList ++ B))
    (hthen : ¬ Starts [.thenWord] B) (hblock : GivesIf A' (block (statementAt (maxLevels - 1))) B b [])
    (program : Node) :
    Node.ofTokens (word.1 :: (C ++ ((thenWord.map Subtype.val).toList ++ B))) = .ok program ↔
      (A ∧ A') ∧ program = .program [.ifElse c b .absent] := by
  have hstatement : GivesIf (A ∧ A') (statementAt maxLevels)
      (word.1 :: (C ++ ((thenWord.map Subtype.val).toList ++ B))) (.ifElse c b .absent) [] := by
    refine (givesIf_ifStatement word thenWord hcondition hthen hblock).of_eq ?_
    have hword : Starts [.ifWord] (word.1 :: (C ++ ((thenWord.map Subtype.val).toList ++ B))) := word.2
    show statement _ _ _ = _
    rw [statement, head_kind_eq hword]
    rfl
  have hprogram := givesIf_program (List.cons_ne_nil _ _) hstatement
  rw [Node.ofTokens, Cursor.phrase, read_eq_ok_iff]
  constructor
  · rintro ⟨rest, hok⟩
    obtain ⟨hparts, rfl, -⟩ := (hprogram _ _).mp hok
    exact ⟨hparts, rfl⟩
  · rintro ⟨hparts, rfl⟩
    exact ⟨[], (hprogram _ _).mpr ⟨hparts, rfl, rfl⟩⟩

/-! ## Statements that look like more of a condition -/

omit [CharacterNames] in
/-- A statement that starts as an operand does is an expression. -/
theorem expression_of_starts (d : Derivation .statement) (h : Starts Symbol.operandStart d.tokens) :
    ∃ (value : Derivation .expression) (semi : Terminal [.semi]), d.tokens = value.tokens ++ [semi.1] := by
  have hword : ∀ {s : Symbol} (d' : Derivation s), s.isNullable = false → d'.tokens = d.tokens →
      ¬ ∀ kind ∈ s.start, kind ∉ Symbol.operandStart :=
    fun d' hs heq hdisjoint => (d'.starts hs).not_of_disjoint hdisjoint (heq ▸ h)
  cases d with
  | ofIf s | ofWhile s | ofFunction s | ofReturn s | ofVariable s | ofPrint s =>
    exact absurd (by decide) (hword s rfl rfl)
  | ofExpression s =>
    cases s with
    | expressionStatement value semi => exact ⟨value, semi, rfl⟩

/-- A statement that starts with `if` is a conditional. -/
theorem ifStatement_of_starts {d : Derivation .statement} {k : Nat} (hd : d.Fits k) (h : Starts [.ifWord] d.tokens) :
    ∃ (n : Nat) (s : Derivation .ifStatement), s.Fits n ∧ d.tokens = s.tokens := by
  have hword : ∀ {s : Symbol} (d' : Derivation s), s.isNullable = false → d'.tokens = d.tokens →
      ¬ ∀ kind ∈ s.start, kind ∉ [TokenKind.ifWord] :=
    fun d' hs heq hdisjoint => (d'.starts hs).not_of_disjoint hdisjoint (heq ▸ h)
  cases d with
  | ofIf s => exact ⟨_, s, hd.2, rfl⟩
  | ofWhile s | ofFunction s | ofReturn s | ofVariable s | ofPrint s | ofExpression s =>
    exact absurd (by decide) (hword s rfl rfl)

omit [CharacterNames] in
/-- The first token of a kind that otherwise only stands last is the last. -/
theorem eq_of_append_last {a b tail : List Token} {t u : Token} (h : a ++ t :: tail = b ++ [u]) (ht : t ∉ b) :
    a = b := by
  obtain rfl | ⟨before, last, rfl⟩ := List.eq_nil_or_concat tail
  · exact (List.append_inj' h rfl).1
  · rw [List.concat_eq_append, ← List.cons_append, ← List.append_assoc] at h
    obtain ⟨rfl, -⟩ := List.append_inj' h rfl
    exact absurd (List.mem_append_right a List.mem_cons_self) ht

omit [CharacterNames] in
/-- **Where the block starts two operands meet**, if it stands apart from the condition. -/
theorem exists_meets {condition : Derivation .comparison} {value : Derivation .expression} {semi : Token}
    (hminus : ¬ Starts [.minus] (value.tokens ++ [semi]))
    (hparen : ¬ (EndsInName condition.tokens ∧ Starts [.lparen] (value.tokens ++ [semi]))) :
    ∃ t ∈ condition.tokens.getLast?, ∃ u ∈ value.tokens.head?, Meets t u := by
  have hstart := value.starts rfl
  obtain ⟨t, ht⟩ : ∃ t, t ∈ condition.tokens.getLast? :=
    ⟨_, List.getLast?_eq_some_getLast (condition.tokens_ne_nil rfl)⟩
  cases hvalue : value.tokens with
  | nil => exact absurd hvalue (value.tokens_ne_nil rfl)
  | cons u rest =>
    rw [hvalue] at hminus hparen hstart
    refine ⟨t, ht, u, rfl, (condition.joined rfl).last t ht, ?_, fun ⟨hname, hopening⟩ => ?_⟩
    · exact (List.mem_cons.mp hstart).resolve_left fun hu => hminus (List.mem_singleton.mpr hu)
    · exact hparen ⟨⟨t, ht, hname⟩, List.mem_singleton.mpr hopening⟩

omit [CharacterNames] in
/-- What looks like more of a condition does not meet its last operand. -/
theorem joined_of_looks {condition : Derivation .comparison} {value : Derivation .expression}
    (h : Starts [.minus] value.tokens ∨ EndsInName condition.tokens ∧ Starts [.lparen] value.tokens) :
    Joined (condition.tokens ++ value.tokens) := by
  refine (condition.joined rfl).append (value.joined rfl) fun t ht u hu hmeets => ?_
  cases hvalue : value.tokens with
  | nil => exact value.tokens_ne_nil rfl hvalue
  | cons first rest =>
    rw [hvalue] at hu h
    cases hu
    obtain hminus | ⟨⟨last, hlast, hname⟩, hopening⟩ := h
    · have hkind := List.mem_singleton.mp hminus
      have hstart := hmeets.2.1
      rw [hkind] at hstart
      exact absurd hstart (by decide)
    · cases Option.mem_unique ht hlast
      exact hmeets.2.2 ⟨hname, List.mem_singleton.mp hopening⟩

omit [CharacterNames] in
/-- A statement that has only the tokens of expressions and semicolons starts with an operand. -/
theorem starts_operand_of_kinds (d : Derivation .statement)
    (hkinds : ∀ t ∈ d.tokens, t.kind ∈ .semi :: expressionKinds) : Starts Symbol.operandStart d.tokens := by
  have hboth : ∀ kind ∈ Symbol.statementStart, kind ∈ .semi :: expressionKinds → kind ∈ Symbol.operandStart := by
    decide
  have hstatement := d.starts rfl
  cases htokens : d.tokens with
  | nil => exact absurd htokens (d.tokens_ne_nil rfl)
  | cons t rest =>
    rw [htokens] at hstatement hkinds
    exact hboth t.kind hstatement (hkinds t List.mem_cons_self)

/-- **A conditional that has only the tokens of expressions**, and a semicolon after them, is made of a condition and an
    expression, and these meet. -/
theorem not_joined_of_ifStatement {d : Derivation .ifStatement} (hd : d.Fits n) {word semi : Token}
    {more inner : List Token} (htokens : d.tokens ++ more = word :: (inner ++ [semi]))
    (hinner : ∀ t ∈ inner, t.kind ∈ expressionKinds) (hsemi : semi.kind = .semi) : ¬ Joined inner := by
  intro hjoined
  have hkinds : ∀ t ∈ inner ++ [semi], t.kind ∈ .semi :: expressionKinds :=
    List.forall_mem_append.mpr ⟨fun t ht => List.mem_cons_of_mem _ (hinner t ht),
      List.forall_mem_singleton.mpr (List.mem_cons.mpr (.inl hsemi))⟩
  cases d with
  | ifStatement word' condition thenWord thenBlock elsePart =>
    obtain ⟨-, hapart, -, hblock, -⟩ := hd
    simp only [Derivation.tokens, List.cons_append, List.append_assoc, List.cons.injEq] at htokens
    obtain ⟨-, htokens⟩ := htokens
    rw [← htokens] at hkinds
    have hnot : ∀ {kinds : List TokenKind} (t : Terminal kinds), (∀ kind ∈ kinds, kind ∉ .semi :: expressionKinds) →
        t.1 ∉ condition.tokens ++
          ((thenWord.map Subtype.val).toList ++ (thenBlock.tokens ++ (elsePart.tokens ++ more))) :=
      fun t ht hmem => ht _ t.2 (hkinds _ hmem)
    cases thenWord with
    | some thenWord => exact hnot thenWord (by decide) (by simp)
    | none =>
      cases thenBlock with
      | braced opening body closing => exact hnot opening (by decide) (by simp [Derivation.tokens])
      | bare only =>
        have hstart : Starts Symbol.operandStart only.tokens :=
          starts_operand_of_kinds only fun t ht => hkinds t (by simp [Derivation.tokens, ht])
        obtain ⟨value, semi', hvalue⟩ := expression_of_starts only hstart
        have hends : (condition.tokens ++ value.tokens) ++ semi'.1 :: (elsePart.tokens ++ more) = inner ++ [semi] := by
          rw [← htokens]
          simp [Derivation.tokens, hvalue]
        have hlast : semi'.1 ∉ inner := by
          intro hmem
          have hkind := hinner _ hmem
          rw [List.mem_singleton.mp semi'.2] at hkind
          exact absurd hkind (by decide)
        obtain rfl := eq_of_append_last hends hlast
        have hblock : (Derivation.bare only).tokens = value.tokens ++ [semi'.1] := hvalue
        obtain ⟨hminus, hparen⟩ := hapart
        rw [hblock] at hminus hparen
        obtain ⟨t, ht, u, hu, hmeets⟩ := exists_meets hminus hparen
        exact (List.isChain_append.mp hjoined.apart).2.2 t ht u hu hmeets

/-- **A statement that looks like more of the condition** makes no program without `then` and braces. -/
theorem ofTokens_ne_ok_of_looks (hC : comparison (expressionAt m) C = .ok c []) (hS : statementAt m S = .ok s [])
    (hlooks : Starts [.minus] S ∨ EndsInName C ∧ Starts [.lparen] S) (word : Terminal [.ifWord]) (program : Node) :
    Node.ofTokens (word.1 :: (C ++ S)) ≠ .ok program := by
  intro hok
  -- The condition and the statement on their own.
  obtain ⟨condition, -, -, hcondition, -⟩ := (finds_comparison (finds_expressionAt m)).mp hC
  obtain ⟨statement, -, -, hstatement, -⟩ := (finds_statementAt m).mp hS
  rw [List.append_nil] at hcondition hstatement
  subst hcondition hstatement
  have hstart : Starts Symbol.operandStart statement.tokens :=
    hlooks.elim (fun h => h.mono (by decide)) fun h => h.2.mono (by decide)
  obtain ⟨value, semi, hvalue⟩ := expression_of_starts statement hstart
  rw [hvalue] at hlooks hok
  simp only [starts_append, value.tokens_ne_nil rfl, false_and, or_false] at hlooks
  have hjoined : Joined (condition.tokens ++ value.tokens) := joined_of_looks hlooks
  -- The program that they make, if there is one.
  obtain ⟨d, hd, htokens, -⟩ := ofTokens_eq_ok_iff.mp hok
  cases d with
  | program body =>
    cases body with
    | noStatements => cases htokens
    | statements first more =>
      have hif : Starts [.ifWord] first.tokens := by
        have hword : Starts [.ifWord] (first.tokens ++ more.tokens) := by
          rw [show first.tokens ++ more.tokens = _ from htokens]
          exact word.2
        exact (starts_append.mp hword).resolve_right fun h => first.tokens_ne_nil rfl h.1
      obtain ⟨n, conditional, hfits, htokens'⟩ := ifStatement_of_starts hd.1 hif
      have hparts : conditional.tokens ++ more.tokens = word.1 :: ((condition.tokens ++ value.tokens) ++ [semi.1]) := by
        rw [← htokens', List.append_assoc]
        exact htokens
      exact not_joined_of_ifStatement hfits hparts hjoined.kinds (List.mem_singleton.mp semi.2) hjoined

/-! ## The four ways -/

omit [CharacterNames] in
/-- A condition ends where a statement starts that does not look like more of it. -/
theorem ends_of_not_looks (hstart : Starts Symbol.statementStart S)
    (hlooks : ¬ (Starts [.minus] S ∨ EndsInName C ∧ Starts [.lparen] S)) : Ends sumSigns C S := by
  have hminus : Starts sumSigns S ↔ Starts [.minus] S := hstart.congr (by decide)
  rw [Ends, hminus]
  exact ⟨fun h => hlooks (.inl h), fun hname hopening => hlooks (.inr ⟨hname, hopening⟩)⟩

/-- **`then` and braces may be left out**, but not both before what looks like more of the condition. Let some tokens
    be read as a condition and some as a statement, each on its own and to its end. Then a conditional made of them
    has the same tree, or none, with `then`, with braces and with both; and if it has a tree then this is the one that
    the condition and the statement make. It has the same tree or none without both, unless the statement starts with
    a minus, or with a parenthesis while the condition ends in a name. Then it has none without both. -/
theorem optional_words (hC : comparison (expressionAt maxLevels) C = .ok c [])
    (hS : statementAt maxLevels S = .ok s []) (word : Terminal [.ifWord]) (thenWord : Terminal [.thenWord])
    (opening : Terminal [.lbrace]) (closing : Terminal [.rbrace]) :
    (∀ program, Node.ofTokens (word.1 :: (C ++ thenWord.1 :: S)) = .ok program ↔
      Node.ofTokens (word.1 :: (C ++ thenWord.1 :: opening.1 :: (S ++ [closing.1]))) = .ok program) ∧
    (∀ program, Node.ofTokens (word.1 :: (C ++ thenWord.1 :: S)) = .ok program ↔
      Node.ofTokens (word.1 :: (C ++ opening.1 :: (S ++ [closing.1]))) = .ok program) ∧
    (∀ program, Node.ofTokens (word.1 :: (C ++ thenWord.1 :: S)) = .ok program →
      program = .program [.ifElse c (.block [s]) .absent]) ∧
    (¬ (Starts [.minus] S ∨ EndsInName C ∧ Starts [.lparen] S) →
      ∀ program, Node.ofTokens (word.1 :: (C ++ thenWord.1 :: S)) = .ok program ↔
        Node.ofTokens (word.1 :: (C ++ S)) = .ok program) ∧
    (Starts [.minus] S ∨ EndsInName C ∧ Starts [.lparen] S →
      ∀ program, Node.ofTokens (word.1 :: (C ++ S)) ≠ .ok program) := by
  have hle : maxLevels - 1 ≤ maxLevels := Nat.sub_le _ _
  have hstart := starts_of_statementAt hS
  have hbare := givesIf_bare hS hle
  have hbraced := givesIf_braced hS hle opening closing
  have hnotThen : ¬ Starts [.thenWord] S := hstart.not_of_disjoint (by decide)
  have hopening : Starts [.lbrace] (opening.1 :: (S ++ [closing.1])) := opening.2
  have hnotThen' : ¬ Starts [.thenWord] (opening.1 :: (S ++ [closing.1])) := hopening.not_of_disjoint (by decide)
  have hthen : ∀ B, Ends sumSigns C (thenWord.1 :: B) := by
    intro B
    have hword : Starts [.thenWord] (thenWord.1 :: B) := thenWord.2
    exact ends_of_starts hword (by decide)
  have hwithThen := ofTokens_ifStatement word (some thenWord) (givesIf_comparison hC hle (hthen S)) hnotThen hbare
  have hwithBoth := ofTokens_ifStatement word (some thenWord) (givesIf_comparison hC hle (hthen _)) hnotThen' hbraced
  have hwithBraces := ofTokens_ifStatement word none
    (givesIf_comparison hC hle (ends_of_starts hopening (by decide))) hnotThen' hbraced
  refine ⟨fun program => (hwithThen program).trans (hwithBoth program).symm,
    fun program => (hwithThen program).trans (hwithBraces program).symm,
    fun program hok => ((hwithThen program).mp hok).2, fun hlooks program => ?_,
    fun hlooks => ofTokens_ne_ok_of_looks hC hS hlooks word⟩
  have hends := ends_of_not_looks hstart hlooks
  exact (hwithThen program).trans (ofTokens_ifStatement word none (givesIf_comparison hC hle hends) hnotThen hbare
    program).symm

end

-- No character is called by its name from here on.
attribute [local instance] CharacterNames.unnamed

/-- `a < b` and `x;`, with all tokens at one place. -/
theorem optional_words_of_names :
    let C : List Token := [⟨.ident, "a", .start⟩, ⟨.lt, "<", .start⟩, ⟨.ident, "b", .start⟩]
    let S : List Token := [⟨.ident, "x", .start⟩, ⟨.semi, ";", .start⟩]
    comparison (expressionAt maxLevels) C = .ok (.comparison .lt (.ident (.str "a")) (.ident (.str "b"))) [] ∧
    statementAt maxLevels S = .ok (.expression (.ident (.str "x"))) [] ∧
    ∀ program, Node.ofTokens (⟨.ifWord, "if", .start⟩ :: (C ++ ⟨.thenWord, "then", .start⟩ :: S)) = .ok program ↔
      Node.ofTokens (⟨.ifWord, "if", .start⟩ :: (C ++ S)) = .ok program := by
  intro C S
  have hC : comparison (expressionAt maxLevels) C =
      .ok (.comparison .lt (.ident (.str "a")) (.ident (.str "b"))) [] := rfl
  have hS : statementAt maxLevels S = .ok (.expression (.ident (.str "x"))) [] := rfl
  have hlooks : ¬ (Starts [.minus] S ∨ EndsInName C ∧ Starts [.lparen] S) := by simp [S]
  exact ⟨hC, hS, (optional_words hC hS ⟨⟨.ifWord, "if", .start⟩, by decide⟩ ⟨⟨.thenWord, "then", .start⟩, by decide⟩
    ⟨⟨.lbrace, "\x7b", .start⟩, by decide⟩ ⟨⟨.rbrace, "\x7d", .start⟩, by decide⟩).2.2.2.1 hlooks⟩

/-- **A minus after a condition without `then`** subtracts: `if a < b then -x;` is a program, and `if a < b -x;` is
    none. -/
theorem minus_after_condition :
    let C : List Token := [⟨.ident, "a", .start⟩, ⟨.lt, "<", .start⟩, ⟨.ident, "b", .start⟩]
    let S : List Token := [⟨.minus, "-", .start⟩, ⟨.ident, "x", .start⟩, ⟨.semi, ";", .start⟩]
    comparison (expressionAt maxLevels) C = .ok (.comparison .lt (.ident (.str "a")) (.ident (.str "b"))) [] ∧
    statementAt maxLevels S = .ok (.expression (.arith .sub (.number (.int 0)) (.ident (.str "x")))) [] ∧
    Node.ofTokens (⟨.ifWord, "if", .start⟩ :: (C ++ ⟨.thenWord, "then", .start⟩ :: S)) =
      .ok (.program [.ifElse (.comparison .lt (.ident (.str "a")) (.ident (.str "b")))
        (.block [.expression (.arith .sub (.number (.int 0)) (.ident (.str "x")))]) .absent]) ∧
    Node.ofTokens (⟨.ifWord, "if", .start⟩ :: (C ++ S)) =
      .error (.refused ⟨.unexpected primaryStart (some ⟨.semi, ";", .start⟩), 1, 1⟩) :=
  ⟨rfl, rfl, rfl, rfl⟩

end Grammar

end LineaLang
