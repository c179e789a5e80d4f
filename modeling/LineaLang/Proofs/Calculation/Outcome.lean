import LineaLang.Proofs.Calculation.Order
import LineaLang.Proofs.Number.Overflow
import LineaLang.Proofs.Number.Position
import Mathlib.Algebra.Order.Field.Basic
import Mathlib.Algebra.Order.Field.Rat

/-!
# `LineaLang.Proofs.Calculation.Outcome` — what arithmetic comes to

Every application of an arithmetic operator comes to one of five things, and the first case that applies decides which:
a text where `+` meets a string, a refusal of operands that are no numbers, a refusal to divide by zero, and else an
overflow or a number in range. On integers it is decided exactly what overflows. A sum, a difference or a product is
kept up to the greatest double. A quotient is rounded first, so it is kept up to the midpoint between the greatest
double and the power of two beyond it; its operands may be as large as they like.

## Contents

* `Calculation.Outcome`, `Calculation.outcome_arithWith` — the five outcomes.
* `Calculation.ExactOutcome`, `Calculation.QuotientOutcome` — those of integers.
* `Calculation.arithmetic_outcomes` — all of them.
-/

namespace LineaLang.Calculation

attribute [local instance (2000)] instPowNat

/-! ## The outcomes -/

/-- An addition with a string. -/
def Concatenates (op : ArithOp) (a b : Value) : Prop := op = .add ∧ (a.isText = true ∨ b.isText = true)

/-- Two numbers; a truth value is no number. -/
def BothNumbers (a b : Value) : Prop := a.isNumber = true ∧ b.isNumber = true

/-- A division by what is equal to zero. -/
def DividesByZero (op : ArithOp) (b : Value) : Prop := op = .div ∧ compare .eq b (.int 0) = .ok true

/-- **What an operator comes to** on two values, of which the first case that applies. -/
inductive Outcome (op : ArithOp) (a b : Value) : Except Fault Value → Prop where
  | concatenated : Concatenates op a b → Outcome op a b (.ok (.str (a.display ++ b.display)))
  | mismatched : ¬ Concatenates op a b → ¬ BothNumbers a b →
      Outcome op a b (.error (.runtime (.operandKinds op a.kind b.kind)))
  | dividedByZero : BothNumbers a b → DividesByZero op b → Outcome op a b (.error (.runtime .divisionByZero))
  | overflow : BothNumbers a b → ¬ DividesByZero op b → Outcome op a b (.error (.runtime (.numericOverflow op)))
  | number {v : Value} : BothNumbers a b → ¬ DividesByZero op b → v.isNumber = true → v.inRange? = .ok true →
      Outcome op a b (.ok v)

/-- The exact result of an operator on integers, where it is an integer. -/
def exactResult? : ArithOp → Int → Int → Option Int
  | .add, m, n => some (m + n)
  | .sub, m, n => some (m - n)
  | .mul, m, n => some (m * n)
  | .div, _, _ => none

/-- **What an exact result comes to**: it is kept up to the greatest double. -/
inductive ExactOutcome (op : ArithOp) (r : Int) : Except Fault Value → Prop where
  | kept : r.natAbs ≤ 2 ^ (1024 : Nat) - 2 ^ (971 : Nat) → ExactOutcome op r (.ok (.int r))
  | overflow : 2 ^ (1024 : Nat) - 2 ^ (971 : Nat) < r.natAbs →
      ExactOutcome op r (.error (.runtime (.numericOverflow op)))

/-- **What a quotient of integers comes to**: it is rounded to a double, unless that would be an infinity. -/
inductive QuotientOutcome (m n : Int) : Except Fault Value → Prop where
  | finite : |(m : ℚ) / n| < 2 ^ 1024 - 2 ^ 970 → (Binary64.ofQuotient m n).isFinite = true →
      QuotientOutcome m n (.ok (.float (Binary64.ofQuotient m n)))
  | overflow : 2 ^ 1024 - 2 ^ 970 ≤ |(m : ℚ) / n| → QuotientOutcome m n (.error (.runtime (.numericOverflow .div)))

/-! ## Operands -/

theorem isSome_ofValue? (v : Value) : (Number.ofValue? v).isSome = v.isNumber := by
  cases v <;> rfl

/-- **Zero of either kind and sign** is what is equal to zero. -/
theorem isZero_iff {v : Value} {x : Number} (h : Number.ofValue? v = some x) :
    x.isZero = true ↔ compare .eq v (.int 0) = .ok true := by
  have hzero : StandsAt (.int 0) (Rank.ofInt 0) := ⟨rfl, rfl⟩
  have hequal : ∀ {v : Value} {r : Rank}, StandsAt v r → (compare .eq v (.int 0) = .ok true ↔ r = Rank.ofInt 0) := by
    intro v r hv
    rw [(comparesAs_of_standsAt hv hzero).compare_eq.1, Except.ok.injEq, decide_eq_true_eq]
  cases v with
  | int n =>
    cases h
    rw [hequal (r := Rank.ofInt n) ⟨rfl, rfl⟩]
    show decide (n = 0) = true ↔ _
    rw [decide_eq_true_eq]
    exact ⟨congrArg Rank.ofInt, Rank.ofInt_inj⟩
  | float d =>
    cases h
    show d.isZero = true ↔ _
    rw [Binary64.isZero_iff_rank?]
    cases hd : d.rank? with
    | some r => rw [hequal (v := .float d) (r := r) ⟨rfl, hd⟩, Option.some.injEq]
    | none =>
      have hnan : Value.isNan (.float d) = true := by
        rw [isNan_iff_shape]
        simp only [Value.shape, hd]
      rw [(compare_of_isNan (.inl hnan)).1]
      exact ⟨fun h => absurd h (Option.some_ne_none _).symm, fun h => absurd (Except.ok.inj h) Bool.false_ne_true⟩
  | _ => cases h

theorem inRange?_toValue (r : Number) : r.toValue.isNumber = true ∧ r.toValue.inRange? = .ok r.inRange := by
  cases r <;> exact ⟨rfl, rfl⟩

/-! ## Any operands -/

/-- **The first case that applies decides**, whatever the operands. -/
theorem outcome_arithWith (op : ArithOp) (a b : Value) : Outcome op a b (arithWith (some op) a b) := by
  have hnumbers : BothNumbers a b ↔ (Number.ofValue? a).isSome = true ∧ (Number.ofValue? b).isSome = true := by
    rw [isSome_ofValue?, isSome_ofValue?, BothNumbers]
  show Outcome op a b ((arith op a b).mapError .runtime)
  unfold arith
  split
  · rename_i htext
    exact .concatenated htext
  · rename_i htext
    split
    · rename_i x y hx hy
      have hboth : BothNumbers a b := by
        rw [hnumbers, hx, hy]
        exact ⟨rfl, rfl⟩
      have hzero : (op = .div ∧ y.isZero = true) ↔ DividesByZero op b := by
        rw [DividesByZero, isZero_iff hy]
      split
      · rename_i hdivides
        exact .dividedByZero hboth (hzero.mp hdivides)
      · rename_i hdivides
        have hdivides := mt hzero.mpr hdivides
        split
        · rename_i r hr
          obtain ⟨hnumber, hrange⟩ := inRange?_toValue r
          split
          · rename_i hin
            rw [hin] at hrange
            exact .number hboth hdivides hnumber hrange
          · exact .overflow hboth hdivides
        · exact .overflow hboth hdivides
    · rename_i hnone
      refine .mismatched htext fun hboth => ?_
      obtain ⟨hx, hy⟩ := hnumbers.mp hboth
      obtain ⟨x, hx⟩ := Option.isSome_iff_exists.mp hx
      obtain ⟨y, hy⟩ := Option.isSome_iff_exists.mp hy
      exact hnone x y hx hy

/-! ## Integers -/

theorem maxNumber_eq : Value.maxNumber = 2 ^ (1024 : Nat) - 2 ^ (971 : Nat) := by
  have hpow : ∀ e : Nat, (2 ^ (53 : Nat) - 1) * 2 ^ e = 2 ^ (53 + e) - 2 ^ e := by
    intro e
    rw [Nat.pow_add, Nat.sub_mul, Nat.one_mul]
  simp only [Value.maxNumber, hpow 971, Nat.reduceAdd]

/-- On integers an operator gives its exact or rounded result, if that is in range. -/
theorem arithWith_int {op : ArithOp} {m n : Int} (h : ¬ (op = .div ∧ n = 0)) :
    arithWith (some op) (.int m) (.int n) =
      if (onInts op m n).inRange then .ok (onInts op m n).toValue else .error (.runtime (.numericOverflow op)) := by
  have hzero : ¬ (op = .div ∧ (Number.int n).isZero = true) := by
    simpa [Number.isZero] using h
  rw [arithWith, arith_of_onNumbers? rfl rfl hzero rfl]
  split <;> rfl

/-- **A sum, a difference or a product** of integers is kept up to the greatest double. -/
theorem exactOutcome_arithWith {op : ArithOp} {m n r : Int} (h : exactResult? op m n = some r) :
    ExactOutcome op r (arithWith (some op) (.int m) (.int n)) := by
  have hints : onInts op m n = .int r ∧ op ≠ .div := by
    cases op <;> cases h <;> exact ⟨rfl, nofun⟩
  rw [arithWith_int (fun hdiv => hints.2 hdiv.1), hints.1]
  show ExactOutcome op r (if decide (r.natAbs ≤ Value.maxNumber) = true then .ok (.int r) else _)
  by_cases hle : r.natAbs ≤ Value.maxNumber
  · rw [if_pos (decide_eq_true hle)]
    exact .kept (hle.trans_eq maxNumber_eq)
  · rw [if_neg (mt of_decide_eq_true hle)]
    exact .overflow (maxNumber_eq.symm.trans_lt (Nat.not_le.mp hle))

/-- **A quotient of integers is rounded to infinity** from the midpoint beyond the greatest double on. -/
theorem isInfinite_ofQuotient_iff (m : Int) {n : Int} (hn : n ≠ 0) :
    (Binary64.ofQuotient m n).isInfinite = true ↔ 2 ^ 1024 - 2 ^ 970 ≤ |(m : ℚ) / n| := by
  have hcast : ∀ k : Int, |(k : ℚ)| = (k.natAbs : ℚ) := by
    intro k
    rw [Nat.cast_natAbs, Int.cast_abs]
  have hlimit : ∀ e f : Nat, e ≤ f → ((2 ^ f - 2 ^ e : Nat) : ℚ) = 2 ^ f - 2 ^ e := by
    intro e f hle
    rw [Nat.cast_sub (Nat.pow_le_pow_right (by decide) hle), Nat.cast_pow, Nat.cast_pow, Nat.cast_ofNat]
  have hpos : (0 : ℚ) < n.natAbs := Nat.cast_pos.mpr (Int.natAbs_pos.mpr hn)
  unfold Binary64.ofQuotient
  rw [Binary64.isInfinite_ofRatio_iff _ (Int.natAbs_pos.mpr hn), abs_div, hcast, hcast, le_div_iff₀ hpos,
    ← hlimit 970 1024 (by decide), ← Nat.cast_mul, Nat.cast_le]

/-- **A quotient of integers** is a finite double up to there. -/
theorem quotientOutcome_arithWith (m : Int) {n : Int} (hn : n ≠ 0) :
    QuotientOutcome m n (arithWith (some .div) (.int m) (.int n)) := by
  have hiff := isInfinite_ofQuotient_iff m hn
  have hnan : Binary64.ofQuotient m n ≠ .nan := Binary64.ofRatio_ne_nan _ _ _
  rw [arithWith_int (fun hdiv => hn hdiv.2)]
  show QuotientOutcome m n (if (!(Binary64.ofQuotient m n).isInfinite) = true then
    .ok (.float (Binary64.ofQuotient m n)) else .error (.runtime (.numericOverflow .div)))
  cases hinf : (Binary64.ofQuotient m n).isInfinite with
  | true => exact .overflow (hiff.mp hinf)
  | false =>
    have hfinite : (Binary64.ofQuotient m n).isFinite = true := by
      cases hx : Binary64.ofQuotient m n with
      | finite _ _ _ => rfl
      | nan => exact absurd hx hnan
      | infinite _ =>
        rw [hx] at hinf
        cases hinf
    exact .finite (not_le.mp fun hle => absurd (hinf.symm.trans (hiff.mpr hle)) Bool.false_ne_true) hfinite

/-! ## All outcomes -/

/-- **The outcomes of arithmetic**: on any values, and exactly on integers of any size. -/
theorem arithmetic_outcomes :
    (∀ op a b, Outcome op a b (arithWith (some op) a b)) ∧
      (∀ op m n r, exactResult? op m n = some r → ExactOutcome op r (arithWith (some op) (.int m) (.int n))) ∧
      ∀ m n : Int, n ≠ 0 → QuotientOutcome m n (arithWith (some .div) (.int m) (.int n)) :=
  ⟨outcome_arithWith, fun _ _ _ _ => exactOutcome_arithWith, fun m _ => quotientOutcome_arithWith m⟩

/-- **Beyond the doubles**: a product that no double could hold overflows, and a quotient with it as the dividend is a
    finite double. -/
theorem giants_divided :
    ExactOutcome .mul (10 ^ 200 * 10 ^ 200) (arithWith (some .mul) (.int (10 ^ 200)) (.int (10 ^ 200))) ∧
      Value.intInRange (10 ^ 200 * 10 ^ 200) = false ∧
      QuotientOutcome (10 ^ 200 * 10 ^ 200) (10 ^ 200)
        (arithWith (some .div) (.int (10 ^ 200 * 10 ^ 200)) (.int (10 ^ 200))) ∧
      (Binary64.ofQuotient (10 ^ 200 * 10 ^ 200) (10 ^ 200)).isFinite = true := by
  refine ⟨arithmetic_outcomes.2.1 _ _ _ _ rfl, ?_, arithmetic_outcomes.2.2 _ _ (by decide), ?_⟩
  · decide +kernel
  · decide +kernel

end LineaLang.Calculation
