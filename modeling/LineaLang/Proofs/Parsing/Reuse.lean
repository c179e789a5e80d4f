import LineaLang.Proofs.Parsing.Following

/-!
# `LineaLang.Proofs.Parsing.Reuse` — a cursor can be used again

Whatever is asked of a cursor, and whether it is given or refused, the cursor then stands among the same tokens, not
further back, and has the same levels open. So it can be asked again, any number of times. That is so because of what
goes on in between: the steps that are made come to the same end as the reading in one go, and wherever they come by
the cursor is as it should be.

## Contents

* `Cursor.Usable` — a cursor inside its tokens, with no more levels open than may be.
* `Cursor.Keeps` — what a request keeps, and what it takes.
* `Cursor.usable_again` — after any requests a cursor is usable, and keeps all that on the next one.
-/

namespace LineaLang

open Grammar (maxLevels)

namespace Cursor

variable {c : Cursor}

/-! ## Ends -/

/-- **A cursor inside its tokens**, with no more levels open than may be. -/
structure Usable (c : Cursor) : Prop where
  inside : c.position ≤ c.tokens.length
  depth_le : c.depth ≤ maxLevels

/-- The end of a reading step by step that comes to an answer. -/
def endOf : Except ParseFailure Node × Cursor → (passed : List Cursor) → EStateM.Result Halt Trail Node
  | (.ok node, c), passed => .ok node ⟨c, passed⟩
  | (.error failure, c), passed => .error (.failed failure) ⟨c, passed⟩

section

variable [CharacterNames]

/-- **What a request keeps of a cursor**, whether it is given or refused. -/
structure Keeps (c : Cursor) (request : Request) : Prop where
  tokens_eq : (c.answer request).2.tokens = c.tokens
  depth_eq : (c.answer request).2.depth = c.depth
  forward : c.position ≤ (c.answer request).2.position
  inside : (c.answer request).2.position ≤ c.tokens.length
  /-- What is given takes a token, unless it is a program. -/
  takes : request ≠ .phrase .program →
    ∀ node, (c.answer request).1 = .ok node → c.position < (c.answer request).2.position
  /-- A program takes all tokens. -/
  takesAll : request = .phrase .program →
    ∀ node, (c.answer request).1 = .ok node → (c.answer request).2.position = c.tokens.length
  /-- Step by step the cursor comes to the same end without being cut short, and on the way it is among the same
      tokens, between its first place and its last, with the levels open that were open and no more than may be. -/
  steps : ∀ bound, c.tokens.length < bound → maxLevels < bound →
    ∃ passed, request.steps bound ⟨c, []⟩ = endOf (c.answer request) passed ∧
      ∀ p ∈ passed, Between c.depth c (c.answer request).2 p

omit [CharacterNames] in
theorem failure_congr {c' : Cursor} (h : c'.tokens = c.tokens) (fault : ReadingFault) :
    c'.failure fault = c.failure fault := by
  cases fault with
  | refused refusal =>
    have hfinish : c'.finish = c.finish := by
      unfold finish
      rw [h]
    simp only [failure, locate, hfinish]
  | numeral fault => rfl

omit [CharacterNames] in
/-- Where a trail stands among the tokens of a cursor, what is left puts the cursor there too. -/
theorem eq_of_stands {t : Trail} (h : t.Stands c.tokens c.depth) :
    { c with position := c.tokens.length - t.cursor.rest.length } = t.cursor := by
  have hposition := t.cursor.position_eq (h.tokens_eq ▸ h.inside)
  rw [h.tokens_eq] at hposition
  rw [hposition, ← h.tokens_eq, ← h.depth_eq]

/-- **The steps come to the end of the reading.** -/
theorem Usable.exists_trail (hc : c.Usable) (request : Request) {bound : Nat} (hrounds : c.tokens.length < bound)
    (hcalls : maxLevels < bound) :
    ∃ passed, Trail.Stands c.tokens c.depth ⟨(c.answer request).2, passed⟩ ∧
      Trail.Onward c.depth ⟨c, []⟩ ⟨(c.answer request).2, passed⟩ ∧
      request.steps bound ⟨c, []⟩ = endOf (c.answer request) passed := by
  have hlevels : c.levels + c.depth = maxLevels := Nat.sub_add_cancel hc.depth_le
  have hends := follows_request hrounds hcalls request hlevels ⟨c, []⟩ ⟨rfl, rfl, hc.inside, hc.depth_le⟩
  unfold answer read
  change Tracks c.tokens c.depth _ (request.reading c.levels c.rest) _ at hends
  generalize request.reading c.levels c.rest = outcome at hends ⊢
  generalize request.steps bound ⟨c, []⟩ = outcome' at hends ⊢
  cases hends with
  | @ok node t hstands honward =>
    refine ⟨t.passed, ?_⟩
    simp only
    rw [eq_of_stands hstands]
    exact ⟨hstands, honward, rfl⟩
  | @error fault t hstands honward =>
    refine ⟨t.passed, ?_⟩
    simp only
    rw [eq_of_stands hstands, failure_congr hstands.tokens_eq fault]
    exact ⟨hstands, honward, rfl⟩

/-! ## Progress -/

/-- The arguments of a call start with a parenthesis. -/
theorem takes_callOf (levels : Nat) (name : Text) :
    Grammar.Takes (Grammar.callOf (Grammar.expressionAt levels) name) := by
  intro ts node rest hok
  have hname : (⟨.ident, name, .start⟩ : Token).kind ∈ [TokenKind.ident] := List.mem_singleton_self _
  obtain ⟨d, -, htokens, -⟩ := (Grammar.callOf_eq_ok_iff (Grammar.finds_expressionAt levels) hname).mp hok
  cases d with
  | call name' opening args closing =>
    obtain ⟨-, rfl⟩ := List.cons.inj htokens
    simp only [List.append_eq, List.length_append, List.length_cons]
    omega

/-- **Every phrase but a program takes a token.** -/
theorem takes_request (levels : Nat) {request : Request} (h : request ≠ .phrase .program) :
    Grammar.Takes (request.reading levels) := by
  have hexpr := Grammar.finds_expressionAt levels
  have hstmt := Grammar.finds_statementAt levels
  cases request with
  | arguments name => exact takes_callOf levels name
  | phrase wanted =>
    cases wanted with
    | program => exact absurd rfl h
    | statement => exact hstmt.takes rfl
    | block => exact (Grammar.finds_block hstmt).takes rfl
    | ifStatement => exact (Grammar.finds_ifStatement hstmt hexpr).takes rfl
    | whileStatement => exact (Grammar.finds_whileStatement hstmt hexpr).takes rfl
    | functionDeclaration => exact (Grammar.finds_functionDeclaration hstmt).takes rfl
    | returnStatement => exact (Grammar.finds_returnStatement hexpr).takes rfl
    | variableDeclaration => exact (Grammar.finds_variableDeclaration hexpr).takes rfl
    | printStatement => exact (Grammar.finds_printStatement hexpr).takes rfl
    | comparison => exact (Grammar.finds_comparison hexpr).takes rfl
    | expression => exact hexpr.takes rfl
    | assignment => exact (Grammar.finds_assignment hexpr).takes rfl
    | additive => exact (Grammar.finds_additive hexpr).takes rfl
    | multiplicative => exact (Grammar.finds_multiplicative hexpr).takes rfl
    | unary => exact (Grammar.finds_unary hexpr).takes rfl
    | primary => exact (Grammar.finds_primary hexpr).takes rfl
    | call => exact Grammar.takes_after_expect fun token => takes_callOf levels token.lexeme

/-- A reading that gives a result says what is left. -/
theorem answer_eq_ok {request : Request} {node : Node} (h : (c.answer request).1 = .ok node) :
    ∃ rest, request.reading c.levels c.rest = .ok node rest ∧
      (c.answer request).2.position = c.tokens.length - rest.length := by
  unfold answer read at h ⊢
  cases hread : request.reading c.levels c.rest with
  | ok node' rest =>
    rw [hread] at h
    cases h
    exact ⟨rest, rfl, rfl⟩
  | error fault rest =>
    rw [hread] at h
    cases h

/-! ## Requests -/

/-- **What any request keeps**, and what it takes. -/
theorem Usable.keeps (hc : c.Usable) (request : Request) : c.Keeps request := by
  have hrounds : c.tokens.length < c.tokens.length + maxLevels + 1 := by omega
  obtain ⟨passed, hstands, honward, -⟩ := hc.exists_trail request hrounds (by omega)
  refine ⟨hstands.tokens_eq, hstands.depth_eq, honward.forward, hstands.inside, ?_, ?_, ?_⟩
  · intro hrequest node hok
    obtain ⟨rest, hread, hposition⟩ := answer_eq_ok hok
    have hlt : rest.length < c.rest.length := takes_request c.levels hrequest hread
    have hle : c.rest.length ≤ c.tokens.length := by
      rw [Cursor.rest, List.length_drop]
      exact Nat.sub_le _ _
    have hbefore := c.position_eq hc.inside
    rw [hposition]
    omega
  · rintro rfl node hok
    obtain ⟨rest, hread, hposition⟩ := answer_eq_ok hok
    obtain ⟨_, -, rfl, -⟩ := (Grammar.finds_programReading c.levels).mp hread
    exact hposition
  · intro bound hrounds hcalls
    obtain ⟨passed, -, honward, hsteps⟩ := hc.exists_trail request hrounds hcalls
    obtain ⟨new, hnew, hbetween⟩ := honward.passed
    obtain rfl : passed = new := hnew.trans (List.append_nil new)
    exact ⟨passed, hsteps, hbetween⟩

/-- **A cursor can be used again.** After any requests, given or refused, it stands among the same tokens and not
    further back, with the same levels open, and is as good for the next request as it was for the first. -/
theorem usable_again (hc : c.Usable) (requests : List Request) :
    (c.afterAll requests).Usable ∧ (c.afterAll requests).tokens = c.tokens ∧
      (c.afterAll requests).depth = c.depth ∧ c.position ≤ (c.afterAll requests).position ∧
      ∀ request, (c.afterAll requests).Keeps request := by
  induction requests generalizing c with
  | nil => exact ⟨hc, rfl, rfl, Nat.le_refl _, hc.keeps⟩
  | cons request requests ih =>
    have hkeeps := hc.keeps request
    have hnext : (c.answer request).2.Usable :=
      ⟨hkeeps.tokens_eq ▸ hkeeps.inside, hkeeps.depth_eq ▸ hc.depth_le⟩
    obtain ⟨husable, htokens, hdepth, hforward, hall⟩ := ih hnext
    exact ⟨husable, htokens.trans hkeeps.tokens_eq, hdepth.trans hkeeps.depth_eq,
      Nat.le_trans hkeeps.forward hforward, hall⟩

end

-- No character is called by its name from here on.
attribute [local instance] CharacterNames.unnamed

/-- `( return x ;`, with all tokens at one place. -/
def brokenParenthesis : Cursor :=
  .start [⟨.lparen, "(", .start⟩, ⟨.returnWord, "return", .start⟩, ⟨.ident, "x", .start⟩, ⟨.semi, ";", .start⟩]

/-- **A statement behind a refusal.** The parenthesis is taken and what follows it is refused; the level that was opened
    for it is closed again, and the statement that stands there is read. -/
theorem brokenParenthesis_usable_again :
    brokenParenthesis.Usable ∧ (brokenParenthesis.answer (.phrase .expression)).1 =
        .error (.refused (brokenParenthesis.locate
          (.unexpected Grammar.primaryStart (some ⟨.returnWord, "return", .start⟩)))) ∧
      (brokenParenthesis.afterAll [.phrase .expression]).depth = 0 ∧
      (brokenParenthesis.afterAll [.phrase .expression]).position <
        ((brokenParenthesis.afterAll [.phrase .expression]).answer (.phrase .statement)).2.position := by
  have husable : brokenParenthesis.Usable := ⟨by decide, by decide⟩
  obtain ⟨-, -, hdepth, -, hkeeps⟩ := usable_again husable [.phrase .expression]
  exact ⟨husable, rfl, hdepth, (hkeeps (.phrase .statement)).takes nofun (.ret (.ident (.str "x"))) rfl⟩

end Cursor

end LineaLang
