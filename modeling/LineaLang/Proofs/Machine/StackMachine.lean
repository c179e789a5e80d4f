import LineaLang.Proofs.Machine.Termination
import LineaLang.Proofs.Number.Operand
import LineaLang.Proofs.Parsing.Trees
import LineaLang.Proofs.Tree.Views
import LineaLang.Proofs.Tree.Within

/-!
# `LineaLang.Proofs.Machine.StackMachine` — the listing of an expression is its evaluation

A listing shows an expression as instructions for a stack machine. The machine that it has in mind is defined here:
it keeps its operands on a stack, works on the scope of a running program, and leaves calls to that program. Its run
of the listing of an expression does all that the evaluation of the expression does, step by step, and in the end the
value alone is on the stack.

Both walks take operands from left to right, and both do something with them only when all are there. So code and
evaluation go together however the code goes on and whatever lies on the stack below (`Computes`), with one rule for
each kind of expression. The evaluation of an expression may open too many levels where the stack machine, which does
not nest, opens none; nothing is said of it then, and there are always enough levels for it not to happen.

## Contents

* `StackMachine.step`, `StackMachine.exec` — the machine.
* `Run.FollowedBy` — runs that do the same, unless there are too few levels for the first.
* `StackMachine.Computes` — code that goes together with an expression, with a rule for each kind of expression.
* `Node.IsExpression.computes` — the listing of an expression.
* `listing_is_evaluation` — the expressions in sources.
-/

namespace LineaLang

open Run Meaning

/-! ## The machine -/

namespace StackMachine

section

variable (call : Value → List Value → Run Value)

/-- **One instruction** on a stack, whose top comes first, where `call` is what calls do. There is no new stack if
    operands are missing, if a literal cannot be made out, or if the instruction does not belong to expressions. -/
def step (i : Instruction) (stack : List Value) : Run (Option (List Value)) :=
  match i, stack with
  | .push literal, stack => return (Value.ofOperand? literal).map (· :: stack)
  | .load name, stack => do
    let v ← query (·.get name)
    return some (v :: stack)
  | .store name, v :: rest => do
    update (·.set name v)
    return some (v :: rest)
  | .arith op, b :: a :: rest => do
    let v ← ofCalculation (Calculation.arith op a b)
    return some (v :: rest)
  | .compare op, b :: a :: rest => do
    let answer ← ofCalculation (Calculation.compare op a b)
    return some (.bool answer :: rest)
  | .call callee count, stack =>
    if stack.length < count then return none
    else do
      let v ← call callee (stack.take count).reverse
      return some (v :: stack.drop count)
  | _, _ => return none

/-- **Instructions one after the other**: the stack that they leave, if all can be executed. -/
def exec : List Instruction → (stack : List Value) → Run (Option (List Value))
  | [], stack => return some stack
  | i :: rest, stack => do
    match ← step call i stack with
    | some next => exec rest next
    | none => return none

end

end StackMachine

/-! ## Runs that do the same -/

/-- **A run that another follows**: the other does the same on every machine, unless the first stops for want of
    levels. -/
def Run.FollowedBy {α : Type} (r₁ r₂ : Run α) : Prop :=
  ∀ m, r₂ m = r₁ m ∨ ∃ m', r₁ m = .error (.fault .tooDeep) m'

namespace Run.FollowedBy

variable {α β : Type} {r₁ r₂ r₃ : Run α}

theorem refl (r : Run α) : r.FollowedBy r := fun _ => .inl rfl

theorem trans (h : r₁.FollowedBy r₂) (h' : r₂.FollowedBy r₃) : r₁.FollowedBy r₃ := by
  intro m
  rcases h m with heq | hdeep
  · rw [← heq]
    exact h' m
  · exact .inr hdeep

/-- **One after the other**, where the second parts need only go together on what the first part gives. -/
theorem bind {f₁ f₂ : α → Run β} (h : r₁.FollowedBy r₂)
    (hf : ∀ a m m', r₁ m = .ok a m' → (f₁ a).FollowedBy (f₂ a)) : (r₁ >>= f₁).FollowedBy (r₂ >>= f₂) := by
  intro m
  simp only [Bind.bind, EStateM.bind]
  rcases h m with heq | ⟨m', hdeep⟩
  · rw [heq]
    cases hfirst : r₁ m with
    | ok a m' => exact hf a m m' hfirst m'
    | error e m' => exact .inl rfl
  · rw [hdeep]
    exact .inr ⟨m', rfl⟩

theorem of_agree (h : Run.Agree Eq Eq Eq (· = .fault .tooDeep) r₁ r₂) : r₁.FollowedBy r₂ := by
  intro m
  have hsame := @h m m rfl
  generalize r₁ m = first at hsame ⊢
  generalize r₂ m = second at hsame ⊢
  cases hsame with
  | ok heq => exact .inl (congrArg _ heq.symm)
  | error heq => exact .inl (congrArg _ heq.symm)
  | excused he =>
    subst he
    exact .inr ⟨_, rfl⟩

end Run.FollowedBy

/-! ## Code and expressions -/

namespace StackMachine

/-- **Code that computes an expression**, however it goes on and whatever lies on the stack, on a machine whose calls
    may open `most` levels: it does what the evaluation does, and leaves the value on the stack. -/
def Computes (most : Nat) (code : List Instruction) (expr : Node) : Prop :=
  ∀ levels, levels ≤ most → ∀ suffix stack,
    Run.FollowedBy ((withLevels levels).evaluate expr >>= fun v => exec (withLevels most).call suffix (v :: stack))
      (exec (withLevels most).call (code ++ suffix) stack)

/-- **Code that computes expressions side by side.** The values are on the stack in order, the last on top. -/
def ComputesAll (most : Nat) (code : List Instruction) (exprs : List Node) : Prop :=
  ∀ levels, levels ≤ most → ∀ suffix stack,
    Run.FollowedBy (evaluateAllBy (withLevels levels) exprs >>= fun values =>
        exec (withLevels most).call suffix (values.reverse ++ stack))
      (exec (withLevels most).call (code ++ suffix) stack)

variable {most : Nat}

/-- Where no level is left nothing has to be shown. -/
theorem computes_of_parts {code : List Instruction} {expr : Node}
    (h : ∀ levels, levels + 1 ≤ most → ∀ suffix stack,
      Run.FollowedBy (evaluateBy (withLevels levels) expr >>= fun v => exec (withLevels most).call suffix (v :: stack))
        (exec (withLevels most).call (code ++ suffix) stack)) : Computes most code expr := by
  intro levels hlevels suffix stack
  cases levels with
  | zero => exact fun m => .inr ⟨m, rfl⟩
  | succ levels => exact h levels hlevels suffix stack

/-- **A literal.** -/
theorem computes_push {expr : Node} {operand : Text} {v : Value} (hexpr : ∀ parts, evaluateBy parts expr = pure v)
    (hv : Value.ofOperand? operand = some v) : Computes most [.push operand] expr := by
  refine computes_of_parts fun levels _ suffix stack => ?_
  rw [hexpr]
  simp [exec, step, hv]
  exact .refl _

theorem computes_load (name : Value) : Computes most [.load name] (.ident name) := by
  refine computes_of_parts fun levels _ suffix stack => ?_
  simp [exec, step, evaluateBy]
  exact .refl _

/-- **An assignment**, whose value stays where it is. -/
theorem computes_store {code : List Instruction} {expr : Node} (h : Computes most code expr) (target : Value) :
    Computes most (code ++ [.store target]) (.assign target expr) := by
  refine computes_of_parts fun levels hlevels suffix stack => ?_
  have hexpr := h levels (Nat.le_of_succ_le hlevels) (.store target :: suffix) stack
  simpa [exec, step, evaluateBy] using hexpr

/-- **Two operands**, the left one first. -/
theorem computes_both {left right : Node} {first second : List Instruction} (h : Computes most first left)
    (h' : Computes most second right) {levels : Nat} (hlevels : levels ≤ most) (suffix : List Instruction)
    (stack : List Value) :
    Run.FollowedBy
      (do let a ← (withLevels levels).evaluate left
          let b ← (withLevels levels).evaluate right
          exec (withLevels most).call suffix (b :: a :: stack))
      (exec (withLevels most).call (first ++ (second ++ suffix)) stack) := by
  have hleft := h levels hlevels (second ++ suffix) stack
  refine Run.FollowedBy.trans ?_ hleft
  exact (Run.FollowedBy.refl _).bind fun a _ _ _ => h' levels hlevels suffix (a :: stack)

theorem computes_arith {left right : Node} {first second : List Instruction} (h : Computes most first left)
    (h' : Computes most second right) (op : ArithOp) :
    Computes most (first ++ (second ++ [.arith op])) (.arith op left right) := by
  refine computes_of_parts fun levels hlevels suffix stack => ?_
  have hboth := computes_both h h' (Nat.le_of_succ_le hlevels) (.arith op :: suffix) stack
  simpa [exec, step, evaluateBy] using hboth

theorem computes_comparison {left right : Node} {first second : List Instruction} (h : Computes most first left)
    (h' : Computes most second right) (op : CompareOp) :
    Computes most (first ++ (second ++ [.compare op])) (.comparison op left right) := by
  refine computes_of_parts fun levels hlevels suffix stack => ?_
  have hboth := computes_both h h' (Nat.le_of_succ_le hlevels) (.compare op :: suffix) stack
  simpa [exec, step, evaluateBy] using hboth

theorem computesAll_nil : ComputesAll most [] [] := by
  intro levels _ suffix stack
  simp [evaluateAllBy]
  exact .refl _

theorem computesAll_cons {arg : Node} {args : List Node} {first second : List Instruction}
    (h : Computes most first arg) (h' : ComputesAll most second args) :
    ComputesAll most (first ++ second) (arg :: args) := by
  intro levels hlevels suffix stack
  have hfirst := h levels hlevels (second ++ suffix) stack
  rw [List.append_assoc]
  refine Run.FollowedBy.trans ?_ hfirst
  have hmore := fun a => h' levels hlevels suffix (a :: stack)
  simpa [evaluateAllBy] using (Run.FollowedBy.refl _).bind fun a _ _ _ => hmore a

/-- As many values as expressions. -/
theorem length_of_evaluateAllBy {parts : Meaning} {exprs : List Node} {values : List Value} {m m' : Machine}
    (h : evaluateAllBy parts exprs m = .ok values m') : values.length = exprs.length := by
  induction exprs generalizing values m m' with
  | nil =>
    cases h
    rfl
  | cons expr rest ih =>
    simp only [evaluateAllBy, Bind.bind, EStateM.bind] at h
    cases hfirst : parts.evaluate expr m with
    | error e m₁ =>
      rw [hfirst] at h
      cases h
    | ok v m₁ =>
      rw [hfirst] at h
      cases hmore : evaluateAllBy parts rest m₁ with
      | error e m₂ =>
        simp only [hmore] at h
        cases h
      | ok more m₂ =>
        simp only [hmore] at h
        cases h
        rw [List.length_cons, List.length_cons, ih hmore]

/-- **The arguments of a call** are on top of the stack, the last one first. -/
theorem exec_call (call : Value → List Value → Run Value) (callee : Value) (args : List Value)
    (suffix : List Instruction) (stack : List Value) :
    exec call (.call callee args.length :: suffix) (args.reverse ++ stack) =
      call callee args >>= fun v => exec call suffix (v :: stack) := by
  have henough : ¬ (args.reverse ++ stack).length < args.length := by simp
  have htake : (args.reverse ++ stack).take args.length = args.reverse := by
    rw [← List.length_reverse, List.take_left]
  have hdrop : (args.reverse ++ stack).drop args.length = stack := by
    rw [← List.length_reverse, List.drop_left]
  rw [exec, step, if_neg henough, htake, hdrop, List.reverse_reverse]
  simp

/-- **A call.** The arguments come first, and the call opens its levels where the evaluation would. -/
theorem computes_call {args : List Node} {code : List Instruction} (h : ComputesAll most code args) (callee : Value) :
    Computes most (code ++ [.call callee args.length]) (.call callee args) := by
  refine computes_of_parts fun levels hlevels suffix stack => ?_
  cases levels with
  | zero => exact fun m => .inr ⟨m, rfl⟩
  | succ levels =>
    obtain ⟨more, rfl⟩ := Nat.exists_eq_add_of_le (Nat.le_of_succ_le hlevels)
    have hcall := agree_more_levels (levels + 1) more
    have hargs := h levels (by omega) (.call callee args.length :: suffix) stack
    rw [List.append_assoc]
    refine Run.FollowedBy.trans ?_ hargs
    simp only [evaluateBy, bind_assoc]
    refine (Run.FollowedBy.refl _).bind fun values m m' hvalues => ?_
    rw [← length_of_evaluateAllBy hvalues, exec_call]
    exact (Run.FollowedBy.of_agree (hcall.call (k := 0) callee values)).bind fun v _ _ _ => .refl _

end StackMachine

/-! ## Listings of expressions -/

namespace Node

open StackMachine

variable {L : Value → Prop} {most : Nat}

/-- **No literal in a tree is a double without a fraction**, which a listing shows as an integer. -/
def NoWholeDoubles (node : Node) : Prop := ∀ x, Within parts (.number (.float x)) node → x.toInt? = none

theorem NoWholeDoubles.part {part node : Node} (h : node.NoWholeDoubles) (hpart : part ∈ node.parts) :
    part.NoWholeDoubles := fun x hx => h x (.part hpart hx)

/-- Code that is listed for an expression and computes it. -/
def ListedAs (most : Nat) (expr : Node) (code : List Instruction) : Prop :=
  expr.expressionListing = .ok code ∧ Computes most code expr

theorem exists_computesAll {args : List Node} (h : ∀ arg ∈ args, ∃ code, ListedAs most arg code) :
    ∃ code, argumentListing args = .ok code ∧ ComputesAll most code args := by
  induction args with
  | nil => exact ⟨[], rfl, computesAll_nil⟩
  | cons arg rest ih =>
    rw [List.forall_mem_cons] at h
    obtain ⟨first, hfirst, hcomputes⟩ := h.1
    obtain ⟨more, hmore, hcomputesAll⟩ := ih h.2
    refine ⟨first ++ more, ?_, computesAll_cons hcomputes hcomputesAll⟩
    rw [argumentListing, hfirst, hmore]
    rfl

/-- **The listing of an expression computes it.** -/
theorem IsExpression.computes {expr : Node} (h : IsExpression L expr) (hdoubles : expr.NoWholeDoubles) :
    ∃ code, ListedAs most expr code := by
  induction h with
  | @number v hnumber _ =>
    have hread : Value.ofOperand? v.formatNumber = some v := by
      refine Value.ofOperand?_formatNumber ?_ ?_
      · cases v with
        | int _ | float _ => rfl
        | _ => exact hnumber.elim
      · rintro x rfl
        exact hdoubles x .self
    exact ⟨_, by rw [expressionListing]; rfl, computes_push (fun _ => rfl) hread⟩
  | @string text _ =>
    exact ⟨_, by rw [expressionListing]; rfl, computes_push (fun _ => rfl) (Value.ofOperand?_quoted text)⟩
  | @ident name _ => exact ⟨_, by rw [expressionListing]; rfl, computes_load name⟩
  | @assign target expr _ _ ih =>
    obtain ⟨code, hcode, hcomputes⟩ := ih (hdoubles.part (List.mem_singleton_self expr))
    refine ⟨code ++ [.store target], ?_, computes_store hcomputes target⟩
    rw [expressionListing, hcode]
    rfl
  | @arith op left right _ _ ih ih' =>
    obtain ⟨first, hfirst, hleft⟩ := ih (hdoubles.part (by simp [parts]))
    obtain ⟨second, hsecond, hright⟩ := ih' (hdoubles.part (by simp [parts]))
    refine ⟨first ++ (second ++ [.arith op]), ?_, computes_arith hleft hright op⟩
    rw [expressionListing, hfirst, hsecond]
    rfl
  | @call callee args _ _ ih =>
    obtain ⟨code, hcode, hcomputes⟩ := exists_computesAll fun arg hmem => ih arg hmem (hdoubles.part hmem)
    refine ⟨code ++ [.call callee args.length], ?_, computes_call hcomputes callee⟩
    rw [expressionListing, hcode]
    rfl

/-- **The listing of a condition computes it.** -/
theorem IsCondition.computes {condition : Node} (h : IsCondition L condition) (hdoubles : condition.NoWholeDoubles) :
    ∃ code, ListedAs most condition code := by
  cases h with
  | @comparison op left right hleft hright =>
    obtain ⟨first, hfirst, hleft⟩ := hleft.computes (hdoubles.part (by simp [parts]))
    obtain ⟨second, hsecond, hright⟩ := hright.computes (hdoubles.part (by simp [parts]))
    refine ⟨first ++ (second ++ [.compare op]), ?_, computes_comparison hleft hright op⟩
    rw [expressionListing, hfirst, hsecond]
    rfl

end Node

/-! ## Expressions in sources -/

/-- **The listing of an expression is its evaluation.** An expression or a condition in a source, in which no literal is
    a double without a fraction, has a listing; and on every machine the run of the listing from an empty stack is the
    evaluation, with its value alone on the stack, unless there are too few levels for the evaluation. There are always
    enough. -/
theorem listing_is_evaluation [CharacterNames] {source : Text} {program expr : Node}
    (h : Node.ofSource source = .ok program) (hwithin : Node.Within Node.parts expr program) (hexpr : expr.IsEvaluated) (hdoubles : expr.NoWholeDoubles) :
    ∃ code, expr.expressionListing = .ok code ∧
      (∀ levels more, Run.FollowedBy ((fun v => some [v]) <$> (withLevels levels).evaluate expr)
        (StackMachine.exec (withLevels (levels + more)).call code [])) ∧
      ∀ m, ∃ enough, ∀ levels, enough ≤ levels → StackMachine.exec (withLevels levels).call code [] m =
        ((fun v => some [v]) <$> (withLevels levels).evaluate expr) m := by
  obtain ⟨tokens, hscan, hread⟩ := Node.tokens_of_source h
  have hprogram := Node.isProgram_of_tokens (Token.wellSpelled_of_scan hscan) hread
  have hlisted : ∀ most, ∃ code, expr.ListedAs most code := by
    intro most
    rcases hprogram.evaluated hwithin hexpr with hexpr | hcondition
    · exact hexpr.computes hdoubles
    · exact hcondition.computes hdoubles
  obtain ⟨code, hcode, -⟩ := hlisted 0
  have hfollowed : ∀ levels more, Run.FollowedBy ((fun v => some [v]) <$> (withLevels levels).evaluate expr)
      (StackMachine.exec (withLevels (levels + more)).call code []) := by
    intro levels more
    obtain ⟨code', hcode', hcomputes⟩ := hlisted (levels + more)
    obtain rfl : code = code' := Except.ok.inj (hcode.symm.trans hcode')
    simpa [StackMachine.exec] using hcomputes levels (Nat.le_add_right _ _) [] []
  refine ⟨code, hcode, hfollowed, fun m => ?_⟩
  -- A run that has come to its end did not stop for want of levels.
  obtain ⟨enough, outcome, hfinished, henough⟩ :=
    (Meaning.settlesWithin maxCalls).evaluate expr m (Nat.le_add_left _ _)
  refine ⟨enough, fun levels hlevels => ?_⟩
  rcases hfollowed levels 0 m with heq | ⟨m', hdeep⟩
  · exact heq
  · have hend : (withLevels levels).evaluate expr m = outcome := henough levels hlevels
    simp only [Functor.map, EStateM.map] at hdeep
    rw [hend] at hdeep
    cases hfinished with
    | ok _ => cases hdeep
    | error hne =>
      cases hdeep
      exact absurd rfl hne

-- No character is called by its name from here on.
attribute [local instance] CharacterNames.unnamed

/-- The tokens of `f(x = 1, "a" / x);`. -/
def assigningTokens : List Token :=
  [⟨.ident, "f", ⟨1, 1, 0⟩⟩, ⟨.lparen, "(", ⟨1, 2, 1⟩⟩, ⟨.ident, "x", ⟨1, 3, 2⟩⟩, ⟨.assign, "=", ⟨1, 5, 4⟩⟩,
    ⟨.number, "1", ⟨1, 7, 6⟩⟩, ⟨.comma, ",", ⟨1, 8, 7⟩⟩, ⟨.string, "\"a\"", ⟨1, 10, 9⟩⟩, ⟨.div, "/", ⟨1, 14, 13⟩⟩,
    ⟨.ident, "x", ⟨1, 16, 15⟩⟩, ⟨.rparen, ")", ⟨1, 17, 16⟩⟩, ⟨.semi, ";", ⟨1, 18, 17⟩⟩]

/-- The call in `f(x = 1, "a" / x);`. -/
def assigningCall : Node :=
  .call (.str "f") [.assign (.str "x") (.number (.int 1)), .arith .div (.string (.str "a")) (.ident (.str "x"))]

/-- **A call that is not reached**: its arguments are evaluated, and the second one fails after the first has been
    assigned. -/
theorem assigningCall_listed : ∃ code, assigningCall.expressionListing = .ok code ∧
    ∀ m, ∃ enough, ∀ levels, enough ≤ levels → StackMachine.exec (withLevels levels).call code [] m =
      ((fun v => some [v]) <$> (withLevels levels).evaluate assigningCall) m := by
  have hscan : Token.scan "f(x = 1, \"a\" / x);" = .ok assigningTokens := rfl
  have htree : Node.ofTokens assigningTokens = .ok (.program [.expression assigningCall]) := rfl
  have hread : Node.ofSource "f(x = 1, \"a\" / x);" = .ok (.program [.expression assigningCall]) := by
    rw [Node.ofSource_of_scan hscan, htree]
    rfl
  have hwithin : Node.Within Node.parts assigningCall (.program [.expression assigningCall]) :=
    .part (List.mem_singleton_self _) (.part (List.mem_singleton_self _) .self)
  have hdoubles : assigningCall.NoWholeDoubles := by
    have hall : assigningCall.All fun n => ∀ x, n = .number (.float x) → x.toInt? = none := by
      simp [assigningCall, Node.All, Node.AllOf]
    exact fun x hx => Node.all_iff_within.mp hall _ hx x rfl
  obtain ⟨code, hcode, -, henough⟩ := listing_is_evaluation hread hwithin trivial hdoubles
  exact ⟨code, hcode, henough⟩

end LineaLang
