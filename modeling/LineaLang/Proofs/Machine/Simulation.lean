import LineaLang.Proofs.Machine.Matching

/-!
# `LineaLang.Proofs.Machine.Simulation` — rewritten trees are run alike

A rule for literals replaces a literal by an expression that, at every level, comes to a value alike to the literal's
or ends in an error that is excused. A program in which such a rule has been applied in any number of places runs like
the program itself. As the meaning of a whole is one clause over the meaning of its parts, this is shown clause by
clause (`Meaning.Simulates.ofParts`), and levels are opened one by one (`simulates_withLevels`).

The program is well-formed: a literal stands only where a value is asked for, and there it does not matter which
expression gives it.

## Contents

* `Meaning.Simulates` — two meanings of which the second runs what is rewritten as the first runs what it is from.
* `Node.ReplacesLiterals` — rules for literals.
* `Meaning.Simulates.ofParts`, `simulates_withLevels` — wholes, and all trees.
-/

namespace LineaLang

open Run Meaning Node

/-- Signals alike: both go on, or both return values that are alike. -/
inductive Signal.Alike : Signal → Signal → Prop where
  | normal : Alike .normal .normal
  | returned {v v' : Value} (h : v.Alike v') : Alike (.returned v) (.returned v')

theorem Signal.Alike.value {signal signal' : Signal} (h : signal.Alike signal') : signal.value.Alike signal'.value := by
  cases h with
  | normal => exact .refl _
  | returned h => exact h

/-- **One meaning simulates another** on well-formed trees that have been rewritten. -/
structure Meaning.Simulates (rule : Node → Node → Prop) (excused : RunFailure → Prop) (M M' : Meaning) : Prop where
  evaluate : ∀ {expr expr'}, expr.IsExpression Value.Any → expr.Rewritten rule expr' →
    Run.Simulates rule excused Value.Alike (M.evaluate expr) (M'.evaluate expr')
  condition : ∀ {expr expr'}, expr.IsCondition Value.Any → expr.Rewritten rule expr' →
    Run.Simulates rule excused Value.Alike (M.evaluate expr) (M'.evaluate expr')
  evaluateAll : ∀ {exprs exprs'}, (∀ expr ∈ exprs, expr.IsExpression Value.Any) →
    List.Forall₂ (Rewritten rule) exprs exprs' →
    Run.Simulates rule excused (List.Forall₂ Value.Alike) (M.evaluateAll exprs) (M'.evaluateAll exprs')
  execute : ∀ {statement statement'}, statement.IsStatement Value.Any → statement.Rewritten rule statement' →
    Run.Simulates rule excused Signal.Alike (M.execute statement) (M'.execute statement')
  block : ∀ {body body'}, body.IsBlock Value.Any → body.Rewritten rule body' →
    Run.Simulates rule excused Signal.Alike (M.execute body) (M'.execute body')
  executeAll : ∀ {statements statements'}, (∀ statement ∈ statements, statement.IsStatement Value.Any) →
    List.Forall₂ (Rewritten rule) statements statements' →
    Run.Simulates rule excused Signal.Alike (M.executeAll statements) (M'.executeAll statements')
  loop : ∀ {condition condition' body body'}, condition.IsCondition Value.Any → body.IsBlock Value.Any →
    condition.Rewritten rule condition' → body.Rewritten rule body' →
    Run.Simulates rule excused Signal.Alike (M.loop condition body) (M'.loop condition' body')
  call : ∀ name {args args'}, List.Forall₂ Value.Alike args args' →
    Run.Simulates rule excused Value.Alike (M.call name args) (M'.call name args')

/-- **A rule for literals**, with what it gives evaluated by a meaning: only number literals are replaced, each by what
    comes to a value alike. -/
def Node.ReplacesLiterals (rule : Node → Node → Prop) (excused : RunFailure → Prop) (M : Meaning) : Prop :=
  ∀ {node node'}, rule node node' →
    ∃ v, node = .number v ∧ Run.Simulates rule excused Value.Alike (pure v) (M.evaluate node')

variable {rule : Node → Node → Prop} {excused : RunFailure → Prop} {P P' : Meaning}

/-! ## Expressions -/

theorem simulates_ofCalculation {α : Type} (calculated : Except RuntimeError α) :
    Run.Simulates rule excused Eq (ofCalculation calculated) (ofCalculation calculated) := by
  cases calculated with
  | ok a => exact .pure rfl
  | error e => exact .throw _

theorem simulates_arith (op : ArithOp) {a a' b b' : Value} (ha : a.Alike a') (hb : b.Alike b') :
    Run.Simulates rule excused Value.Alike (ofCalculation (Calculation.arith op a b))
      (ofCalculation (Calculation.arith op a' b')) := by
  have halike := Calculation.arith_alike op ha hb
  generalize Calculation.arith op a b = result at halike ⊢
  generalize Calculation.arith op a' b' = result' at halike ⊢
  cases halike with
  | ok h => exact .pure h
  | error e => exact .throw _

theorem simulates_evaluateBy (h : P.Simulates rule excused P') (hrule : ReplacesLiterals rule excused (ofParts P'))
    {expr expr' : Node} (hexpr : expr.IsExpression Value.Any) (hr : expr.Rewritten rule expr') :
    Run.Simulates rule excused Value.Alike (evaluateBy P expr) (evaluateBy P' expr') := by
  cases hr with
  | rule happlied =>
    obtain ⟨v, rfl, hv⟩ := hrule happlied
    exact hv
  | number v => exact .pure (.refl v)
  | string v => exact .pure (.refl v)
  | ident name => exact simulates_get name
  | assign target hr =>
    cases hexpr with
    | assign _ hexpr =>
      refine (h.evaluate hexpr hr).bind fun v v' hv => ?_
      refine (Run.Simulates.update fun key s s' hs => hs.assign key hv).bind fun _ _ _ => ?_
      exact .pure hv
  | arith op hleft hright =>
    cases hexpr with
    | arith _ hexpr hexpr' =>
      refine (h.evaluate hexpr hleft).bind fun a a' ha => (h.evaluate hexpr' hright).bind fun b b' hb => ?_
      exact simulates_arith op ha hb
  | call callee hargs =>
    cases hexpr with
    | call _ hexprs => exact (h.evaluateAll hexprs hargs).bind fun args args' hvalues => h.call callee hvalues
  | _ => cases hexpr

/-- A condition is evaluated like an expression, and comes to the same answer. -/
theorem simulates_conditionBy (h : P.Simulates rule excused P') (hrule : ReplacesLiterals rule excused (ofParts P'))
    {expr expr' : Node} (hexpr : expr.IsCondition Value.Any) (hr : expr.Rewritten rule expr') :
    Run.Simulates rule excused Value.Alike (evaluateBy P expr) (evaluateBy P' expr') := by
  cases hr with
  | rule happlied =>
    obtain ⟨v, rfl, hv⟩ := hrule happlied
    cases hexpr
  | comparison op hleft hright =>
    cases hexpr with
    | comparison _ hexpr hexpr' =>
      refine (h.evaluate hexpr hleft).bind fun a a' ha => (h.evaluate hexpr' hright).bind fun b b' hb => ?_
      rw [Calculation.compare_alike op ha hb]
      refine (simulates_ofCalculation _).bind fun answer answer' hanswer => ?_
      rw [hanswer]
      exact .pure (.refl _)
  | _ => cases hexpr

theorem simulates_evaluateAllBy (h : P.Simulates rule excused P') {exprs exprs' : List Node}
    (hexprs : ∀ expr ∈ exprs, expr.IsExpression Value.Any) (hr : List.Forall₂ (Rewritten rule) exprs exprs') :
    Run.Simulates rule excused (List.Forall₂ Value.Alike) (evaluateAllBy P exprs) (evaluateAllBy P' exprs') := by
  induction hr with
  | nil => exact .pure .nil
  | cons hfirst _ ih =>
    rw [List.forall_mem_cons] at hexprs
    refine (h.evaluate hexprs.1 hfirst).bind fun v v' hv => (ih hexprs.2).bind fun more more' hmore => ?_
    exact .pure (.cons hv hmore)

/-! ## Statements -/

theorem simulates_loopBy (h : P.Simulates rule excused P') {condition condition' body body' : Node}
    (hcondition : condition.IsCondition Value.Any) (hbody : body.IsBlock Value.Any)
    (hr : condition.Rewritten rule condition') (hr' : body.Rewritten rule body') :
    Run.Simulates rule excused Signal.Alike (loopBy P condition body) (loopBy P' condition' body') := by
  unfold loopBy
  -- Both loops ask, note and repeat alike, so they run into the bound at once.
  induction maxIterations with
  | zero =>
    refine (h.condition hcondition hr).bind fun v v' hv => ?_
    rw [hv.isTruthy]
    split
    · exact .throw _
    · exact .pure .normal
  | succ remaining ih =>
    refine (h.condition hcondition hr).bind fun v v' hv => ?_
    rw [hv.isTruthy]
    split
    · refine (simulates_note rfl rfl).bind fun _ _ _ => (h.block hbody hr').bind fun signal signal' hsignal => ?_
      cases hsignal with
      | normal => exact ih
      | returned hv => exact .pure (.returned hv)
    · exact .pure .normal

/-- The branch of a conditional that may be missing. -/
theorem isAbsent_of_rewritten (hrule : ReplacesLiterals rule excused (ofParts P')) {node node' : Node}
    (hnode : node = .absent ∨ node.IsBlock Value.Any) (hr : node.Rewritten rule node') :
    node.isAbsent = node'.isAbsent := by
  cases hr with
  | rule happlied =>
    obtain ⟨v, rfl, -⟩ := hrule happlied
    rcases hnode with hnode | ⟨_, hnode, -⟩ <;> cases hnode
  | number v => rcases hnode with hnode | ⟨_, hnode, -⟩ <;> cases hnode
  | _ => rfl

/-- **A conditional**: both machines note the condition and take the same branch. -/
theorem simulates_ifElse (h : P.Simulates rule excused P') (hrule : ReplacesLiterals rule excused (ofParts P'))
    {condition condition' thens thens' elses elses' : Node} (hcondition : condition.IsCondition Value.Any)
    (hthens : thens.IsBlock Value.Any) (helses : elses = .absent ∨ elses.IsBlock Value.Any)
    (hr : condition.Rewritten rule condition') (hr' : thens.Rewritten rule thens')
    (hr'' : elses.Rewritten rule elses') :
    Run.Simulates rule excused Signal.Alike (executeBy P (.ifElse condition thens elses))
      (executeBy P' (.ifElse condition' thens' elses')) := by
  refine (h.condition hcondition hr).bind fun v v' hv => ?_
  have hnote : Run.Simulates rule excused Eq (note (.branched v)) (note (.branched v')) :=
    simulates_note rfl (congrArg (Text.ofString "if condition -> " ++ ·) hv.display)
  refine hnote.bind fun _ _ _ => ?_
  rw [hv.isTruthy, isAbsent_of_rewritten hrule helses hr'']
  split
  · exact h.block hthens hr'
  · split
    · exact .pure .normal
    · rename_i hpresent
      refine h.block (helses.resolve_left ?_) hr''
      rintro rfl
      rw [← isAbsent_of_rewritten hrule helses hr''] at hpresent
      exact hpresent rfl

theorem simulates_executeBy (h : P.Simulates rule excused P') (hrule : ReplacesLiterals rule excused (ofParts P'))
    {statement statement' : Node} (hstatement : statement.IsStatement Value.Any)
    (hr : statement.Rewritten rule statement') :
    Run.Simulates rule excused Signal.Alike (executeBy P statement) (executeBy P' statement') := by
  cases hr with
  | rule happlied =>
    obtain ⟨v, rfl, -⟩ := hrule happlied
    cases hstatement
  | expression hr =>
    cases hstatement with
    | expression hexpr => exact (h.evaluate hexpr hr).bind fun _ _ _ => .pure .normal
  | print hr =>
    cases hstatement with
    | print hexpr =>
      refine (h.evaluate hexpr hr).bind fun v v' hv => ?_
      exact (simulates_print hv).bind fun _ _ _ => .pure .normal
  | ret hr =>
    cases hstatement with
    | ret hexpr => exact (h.evaluate hexpr hr).bind fun v v' hv => .pure (.returned hv)
  | declare name hr =>
    cases hstatement with
    | declare _ hinit =>
      refine (h.evaluate hinit hr).bind fun v v' hv => ?_
      refine (Run.Simulates.update fun key s s' hs => hs.declare key hv).bind fun _ _ _ => ?_
      have hnote : Run.Simulates rule excused Eq (note (.declared name v)) (note (.declared name v')) := by
        refine simulates_note rfl ?_
        rw [Note.line, Note.line, hv.kind, hv.display]
      exact hnote.bind fun _ _ _ => .pure .normal
  | function name params hr =>
    cases hstatement with
    | function _ _ hbody =>
      refine (Run.Simulates.update fun key s s' hs => hs.define key (.function name params ⟨_, rfl, hbody⟩ hr)).bind
        fun _ _ _ => ?_
      exact (simulates_noteDefined name params).bind fun _ _ _ => .pure .normal
  | ifElse hr hr' hr'' =>
    cases hstatement with
    | ifThen hcondition hthens =>
      exact simulates_ifElse h hrule hcondition ⟨_, rfl, hthens⟩ (.inl rfl) hr hr' hr''
    | ifElse hcondition hthens helses =>
      exact simulates_ifElse h hrule hcondition ⟨_, rfl, hthens⟩ (.inr ⟨_, rfl, helses⟩) hr hr' hr''
  | whileLoop hr hr' =>
    cases hstatement with
    | whileLoop hcondition hbody => exact h.loop hcondition ⟨_, rfl, hbody⟩ hr hr'
  | _ => cases hstatement

theorem simulates_blockBy (h : P.Simulates rule excused P') (hrule : ReplacesLiterals rule excused (ofParts P'))
    {body body' : Node} (hbody : body.IsBlock Value.Any) (hr : body.Rewritten rule body') :
    Run.Simulates rule excused Signal.Alike (executeBy P body) (executeBy P' body') := by
  obtain ⟨statements, rfl, hstatements⟩ := hbody
  cases hr with
  | rule happlied =>
    obtain ⟨v, hv, -⟩ := hrule happlied
    cases hv
  | block hr => exact h.executeAll hstatements hr

theorem simulates_executeAllBy (h : P.Simulates rule excused P') {statements statements' : List Node}
    (hstatements : ∀ statement ∈ statements, statement.IsStatement Value.Any)
    (hr : List.Forall₂ (Rewritten rule) statements statements') :
    Run.Simulates rule excused Signal.Alike (executeAllBy P statements) (executeAllBy P' statements') := by
  induction hr with
  | nil => exact .pure .normal
  | cons hfirst _ ih =>
    rw [List.forall_mem_cons] at hstatements
    refine (h.execute hstatements.1 hfirst).bind fun signal signal' hsignal => ?_
    cases hsignal with
    | normal => exact ih hstatements.2
    | returned hv => exact .pure (.returned hv)

/-! ## Calls -/

/-- The parameters and the body of a function: the parameters are the same, and the body is rewritten. -/
inductive CalleeRewritten (rule : Node → Node → Prop) : List Value × Node → List Value × Node → Prop where
  | found (params : List Value) {body body' : Node} (hbody : body.IsBlock Value.Any) (h : body.Rewritten rule body') :
      CalleeRewritten rule (params, body) (params, body')

theorem simulates_calleeBy (name : Value) (count : Nat) :
    Run.Simulates rule excused (CalleeRewritten rule) (Meaning.callee name count) (Meaning.callee name count) := by
  unfold Meaning.callee
  refine (simulates_callee name).bind fun f f' hf => ?_
  cases hf with
  | function _ params hbody hr =>
    show Run.Simulates _ _ _ (if count = params.length then _ else _) (if count = params.length then _ else _)
    split
    · exact .pure (.found params hbody hr)
    · exact .throw _

/-- **Calls.** The arguments are bound to the same parameters, and the bodies are executed in frames that match. -/
theorem simulates_callBy (h : P.Simulates rule excused P') (name : Value) {args args' : List Value}
    (hargs : List.Forall₂ Value.Alike args args') :
    Run.Simulates rule excused Value.Alike (callBy P name args) (callBy P' name args') := by
  have hshown : args.map Value.display = args'.map Value.display := by
    induction hargs with
    | nil => rfl
    | cons hv _ ih => rw [List.map_cons, List.map_cons, hv.display, ih]
  have hnote : Run.Simulates rule excused Eq (note (.called name args)) (note (.called name args')) := by
    refine simulates_note rfl ?_
    rw [Note.line, Note.line, hshown]
  unfold callBy
  rw [hargs.length_eq]
  refine (simulates_calleeBy name _).bind fun found found' hfound => ?_
  cases hfound with
  | found params hbody hr =>
    refine (simulates_checkCalls name).bind fun _ _ _ => hnote.bind fun _ _ _ => ?_
    have hframe : Run.Simulates rule excused (Table.Matched Value.Alike) (query fun _ => frameOf params args)
        (query fun _ => frameOf params args') := by
      refine .query fun _ _ _ => ?_
      unfold frameOf
      cases parameterKeys params with
      | error e => exact .inr ⟨e, rfl, rfl⟩
      | ok keys => exact .inl ⟨_, _, rfl, rfl, Table.matched_ofPairs keys hargs⟩
    refine hframe.bind fun frame frame' hframe => ?_
    exact (Run.Simulates.inFrame hframe (h.block hbody hr)).bind fun signal signal' hsignal => .pure hsignal.value

/-! ## All trees -/

/-- **Wholes are simulated if their parts are.** -/
theorem Meaning.Simulates.ofParts (h : P.Simulates rule excused P')
    (hrule : ReplacesLiterals rule excused (Meaning.ofParts P')) :
    (Meaning.ofParts P).Simulates rule excused (Meaning.ofParts P') where
  evaluate := simulates_evaluateBy h hrule
  condition := simulates_conditionBy h hrule
  evaluateAll := simulates_evaluateAllBy h
  execute := simulates_executeBy h hrule
  block := simulates_blockBy h hrule
  executeAll := simulates_executeAllBy h
  loop := simulates_loopBy h
  call := simulates_callBy h

/-- Where no level is left, both runs end. -/
theorem simulates_exhausted : exhausted.Simulates rule excused exhausted where
  evaluate _ _ := .throw _
  condition _ _ := .throw _
  evaluateAll _ _ := .throw _
  execute _ _ := .throw _
  block _ _ := .throw _
  executeAll _ _ := .throw _
  loop _ _ _ _ := .throw _
  call _ _ _ _ := .throw _

/-- **Rewritten trees are run alike**, however many levels may be opened. -/
theorem simulates_withLevels (hrule : ∀ levels, ReplacesLiterals rule excused (withLevels (levels + 1)))
    (levels : Nat) : (withLevels levels).Simulates rule excused (withLevels levels) := by
  induction levels with
  | zero => exact simulates_exhausted
  | succ levels ih => exact ih.ofParts (hrule levels)

end LineaLang
