import LineaLang.Proofs.Number.Position
import LineaLang.Proofs.Number.Rounding
import LineaLang.Value.Display

/-!
# `LineaLang.Proofs.Calculation.Congruence` — what does not see the sign of a zero

Zero has a sign, but almost nothing depends on it. Two values are alike if they are the same or both a zero of some
sign; they print the same, are taken for true alike, are of one kind, and compare alike. Arithmetic on values that are
alike comes to values that are alike, or to the same error. Only a division by zero would tell the signs apart, and it
is refused.

Subtracting a number from zero and changing its sign come to numbers that are alike: they differ for a zero only. So a
negative literal means what the subtraction would mean.

## Contents

* `Binary64.Alike`, `Value.Alike` — the same, but perhaps for the sign of a zero.
* `Value.Alike.display`, `Calculation.compare_alike`, `Calculation.arith_alike` — what sees no difference.
* `Calculation.arith_zero_sub` — zero less a number, and the number with its sign changed.
-/

namespace LineaLang

/-! ## Doubles -/

namespace Binary64

/-- **The same double, or two zeros.** -/
inductive Alike : Binary64 → Binary64 → Prop where
  | refl (x : Binary64) : Alike x x
  | zeros (s t : Bool) : Alike (zero s) (zero t)

theorem signed_zero (negative : Bool) : signed negative 0 = 0 := by
  cases negative <;> rfl

theorem ofUnits_zero (negative : Bool) (den : Nat) : ofUnits negative 0 den = zero negative := by
  have hround : roundUnits 0 den = 0 := by
    simp [roundUnits, roundHalfEven]
  simp only [ofUnits, hround, unitsBound_pos, dif_pos]
  rfl

namespace Alike

variable {x x' y y' : Binary64}

theorem neg (h : Alike x y) : Alike x.neg y.neg := by
  cases h with
  | refl x => exact .refl _
  | zeros s t => exact .zeros _ _

/-- A zero on the left of a sum is seen only where the sum is a zero. -/
theorem zero_add (s t : Bool) (y : Binary64) : Alike ((zero s).add y) ((zero t).add y) := by
  cases y with
  | nan => exact .refl _
  | infinite _ => exact .refl _
  | finite r v hv =>
    simp only [zero, add, signed_zero]
    split
    · exact .zeros _ _
    · exact .refl _

theorem add_zero (x : Binary64) (s t : Bool) : Alike (x.add (zero s)) (x.add (zero t)) := by
  cases x with
  | nan => exact .refl _
  | infinite _ => exact .refl _
  | finite r u hu =>
    simp only [zero, add, signed_zero]
    split
    · exact .zeros _ _
    · exact .refl _

theorem trans {z : Binary64} (h : Alike x y) (h' : Alike y z) : Alike x z := by
  cases h with
  | refl _ => exact h'
  | zeros s t =>
    cases h' with
    | refl _ => exact .zeros _ _
    | zeros t u => exact .zeros _ _

theorem isInfinite (h : Alike x y) : x.isInfinite = y.isInfinite := by
  cases h with
  | refl _ => rfl
  | zeros s t => rfl

theorem isZero (h : Alike x y) : x.isZero = y.isZero := by
  cases h with
  | refl _ => rfl
  | zeros s t => rfl

theorem add (hx : Alike x x') (hy : Alike y y') : Alike (x.add y) (x'.add y') := by
  have hleft : Alike (x.add y) (x'.add y) := by
    cases hx with
    | refl x => exact .refl _
    | zeros s t => exact zero_add s t y
  have hright : Alike (x'.add y) (x'.add y') := by
    cases hy with
    | refl y => exact .refl _
    | zeros s t => exact add_zero x' s t
  exact hleft.trans hright

/-- A zero factor is seen in the sign of the product only, which is a zero or not-a-number. -/
theorem zero_mul (s t : Bool) (y : Binary64) : Alike ((zero s).mul y) ((zero t).mul y) := by
  cases y with
  | nan => exact .refl _
  | infinite _ => exact .refl _
  | finite r v hv =>
    simp only [zero, Binary64.mul, Nat.zero_mul, ofUnits_zero]
    exact .zeros _ _

theorem mul_zero (x : Binary64) (s t : Bool) : Alike (x.mul (zero s)) (x.mul (zero t)) := by
  cases x with
  | nan => exact .refl _
  | infinite _ => exact .refl _
  | finite r u hu =>
    simp only [zero, Binary64.mul, Nat.mul_zero, ofUnits_zero]
    exact .zeros _ _

theorem mul (hx : Alike x x') (hy : Alike y y') : Alike (x.mul y) (x'.mul y') := by
  have hleft : Alike (x.mul y) (x'.mul y) := by
    cases hx with
    | refl x => exact .refl _
    | zeros s t => exact zero_mul s t y
  have hright : Alike (x'.mul y) (x'.mul y') := by
    cases hy with
    | refl y => exact .refl _
    | zeros s t => exact mul_zero x' s t
  exact hleft.trans hright

/-- **Only a divisor that is a zero** would tell the signs of zeros apart. -/
theorem div (hx : Alike x x') (hy : Alike y y') (hzero : y.isZero = false) : Alike (x.div y) (x'.div y') := by
  cases hy with
  | zeros s t => cases hzero
  | refl y =>
    cases hx with
    | refl x => exact .refl _
    | zeros s t =>
      cases y with
      | nan => exact .refl _
      | infinite _ => exact .zeros _ _
      | finite r v hv =>
        have hv0 : v ≠ 0 := of_decide_eq_false hzero
        simp only [zero, Binary64.div, if_neg hv0, Nat.zero_mul, ofUnits_zero]
        exact .zeros _ _

end Alike

end Binary64

/-! ## Values -/

/-- **Values alike**: the same, but perhaps for the sign of a zero. -/
inductive Value.Alike : Value → Value → Prop where
  | refl (v : Value) : Alike v v
  | float {x y : Binary64} (h : x.Alike y) : Alike (.float x) (.float y)

namespace Value.Alike

variable {v w : Value}

/-- **Values alike print the same**: zero has no sign in print. -/
theorem display (h : v.Alike w) : v.display = w.display := by
  cases h with
  | refl v => rfl
  | float h =>
    cases h with
    | refl x => rfl
    | zeros s t =>
      have hzero : ∀ s, (Binary64.zero s).toInt? = some 0 := by
        intro s
        rw [Binary64.toInt?_eq_some_iff, ← Binary64.isZero_iff_rank?]
        rfl
      simp only [Value.display, Binary64.display, hzero]

theorem isTruthy (h : v.Alike w) : v.isTruthy = w.isTruthy := by
  cases h with
  | refl v => rfl
  | float h => exact congrArg (!·) h.isZero

theorem kind (h : v.Alike w) : v.kind = w.kind := by
  cases h <;> rfl

theorem isText (h : v.Alike w) : v.isText = w.isText := by
  cases h <;> rfl

theorem isNumber (h : v.Alike w) : v.isNumber = w.isNumber := by
  cases h <;> rfl

/-- **They stand at the same position.** -/
theorem rank? (h : v.Alike w) : v.rank? = w.rank? := by
  cases h with
  | refl v => rfl
  | float h =>
    cases h with
    | refl x => rfl
    | zeros s t => cases s <;> cases t <;> rfl

theorem isNan (h : v.Alike w) : v.isNan = w.isNan := by
  cases h with
  | refl v => rfl
  | float h =>
    cases h with
    | refl x => rfl
    | zeros s t => rfl

theorem shape (h : v.Alike w) : v.shape = w.shape := by
  cases h with
  | refl v => rfl
  | float h => exact congrArg (Shape.atom ∘ Key.number) (Alike.float h).rank?

end Value.Alike

namespace Calculation

variable {a a' b b' : Value}

/-! ## Comparison -/

/-- Only two texts are compared as texts. -/
theorem isLess?_of_not_text (h : ¬ (a.isText = true ∧ b.isText = true)) :
    isLess? a b = if a.isNumber = true ∧ b.isNumber = true then
      match a.rank?, b.rank? with
      | some x, some y => some (decide (x < y))
      | _, _ => some false
    else none := by
  unfold isLess?
  split
  · exact absurd ⟨rfl, rfl⟩ h
  · rfl

theorem isLess?_alike (ha : a.Alike a') (hb : b.Alike b') : isLess? a b = isLess? a' b' := by
  by_cases htext : a.isText = true ∧ b.isText = true
  · cases ha with
    | float _ => cases htext.1
    | refl a =>
      cases hb with
      | float _ => cases htext.2
      | refl b => rfl
  · have htext' : ¬ (a'.isText = true ∧ b'.isText = true) := by
      rwa [← ha.isText, ← hb.isText]
    rw [isLess?_of_not_text htext, isLess?_of_not_text htext', ha.isNumber, hb.isNumber, ha.rank?, hb.rank?]

/-- **No comparison sees the sign of a zero**, and a refusal names the same kinds. -/
theorem compare_alike (op : CompareOp) (ha : a.Alike a') (hb : b.Alike b') : compare op a b = compare op a' b' := by
  have hequal : a.equal b = a'.equal b' := by
    rw [Value.equal, Value.equal, ha.shape, hb.shape, ha.isNan]
  cases op <;>
    simp only [compare, compare.order, hequal, isLess?_alike ha hb, isLess?_alike hb ha, ha.kind, hb.kind]

/-! ## Arithmetic -/

/-- Two calculations come to values that are alike, or to the same error. -/
inductive ComesAlike : Except RuntimeError Value → Except RuntimeError Value → Prop where
  | ok {v w : Value} (h : v.Alike w) : ComesAlike (.ok v) (.ok w)
  | error (e : RuntimeError) : ComesAlike (.error e) (.error e)

theorem ComesAlike.refl (r : Except RuntimeError Value) : ComesAlike r r := by
  cases r with
  | ok v => exact .ok (.refl v)
  | error e => exact .error e

/-- Numbers alike: the same integer, or doubles alike. -/
inductive Number.Alike : Number → Number → Prop where
  | int (n : Int) : Alike (.int n) (.int n)
  | float {x y : Binary64} (h : x.Alike y) : Alike (.float x) (.float y)

namespace Number.Alike

variable {x y : Number}

theorem isZero (h : x.Alike y) : x.isZero = y.isZero := by
  cases h with
  | int n => rfl
  | float h => exact h.isZero

theorem inRange (h : x.Alike y) : x.inRange = y.inRange := by
  cases h with
  | int n => rfl
  | float h => exact congrArg (!·) h.isInfinite

theorem toValue (h : x.Alike y) : x.toValue.Alike y.toValue := by
  cases h with
  | int n => exact .refl _
  | float h => exact .float h

end Number.Alike

/-- The double of a number is a zero only if the number is. -/
theorem isZero_of_toBinary64? {x : Number} {d : Binary64} (h : x.toBinary64? = some d) (hzero : x.isZero = false) :
    d.isZero = false := by
  cases x with
  | float x =>
    cases h
    exact hzero
  | int n =>
    rw [Number.toBinary64?] at h
    split at h
    · cases h
    · rw [← Option.some.inj h]
      exact Binary64.isZero_ofInt (of_decide_eq_false hzero)

theorem onDoubles_alike (op : ArithOp) {x x' y y' : Binary64} (hx : x.Alike x') (hy : y.Alike y')
    (hzero : op = .div → y.isZero = false) : (onDoubles op x y).Alike (onDoubles op x' y') := by
  cases op with
  | add => exact hx.add hy
  | sub => exact hx.add hy.neg
  | mul => exact hx.mul hy
  | div => exact hx.div hy (hzero rfl)

theorem toBinary64?_alike {x y : Number} (h : x.Alike y) :
    Option.Rel Binary64.Alike x.toBinary64? y.toBinary64? := by
  cases h with
  | float h => exact .some h
  | int n =>
    cases (Number.int n).toBinary64? with
    | none => exact .none
    | some d => exact .some (.refl d)

/-- **The results on numbers alike are alike**, where no zero is a divisor. -/
theorem onNumbers?_alike (op : ArithOp) {x x' y y' : Number} (hx : x.Alike x') (hy : y.Alike y')
    (hzero : ¬ (op = .div ∧ y.isZero = true)) :
    Option.Rel Number.Alike (onNumbers? op x y) (onNumbers? op x' y') := by
  have hmixed : Option.Rel Number.Alike
      (do let a ← x.toBinary64?; let b ← y.toBinary64?; return .float (onDoubles op a b))
      (do let a ← x'.toBinary64?; let b ← y'.toBinary64?; return .float (onDoubles op a b)) := by
    have hdivisor : ∀ b, y.toBinary64? = some b → op = .div → b.isZero = false := fun b hb hdiv =>
      isZero_of_toBinary64? hb (Bool.eq_false_iff.mpr fun hy0 => hzero ⟨hdiv, hy0⟩)
    have hleft := toBinary64?_alike hx
    have hright := toBinary64?_alike hy
    generalize x.toBinary64? = left at hleft
    generalize x'.toBinary64? = left' at hleft
    generalize y.toBinary64? = right at hright hdivisor
    generalize y'.toBinary64? = right' at hright
    cases hleft with
    | none => exact .none
    | some ha =>
      cases hright with
      | none => exact .none
      | some hb => exact .some (.float (onDoubles_alike op ha hb (hdivisor _ rfl)))
  cases hx with
  | float _ => exact hmixed
  | int m =>
    cases hy with
    | float _ => exact hmixed
    | int n =>
      cases onNumbers? op (.int m) (.int n) with
      | none => exact .none
      | some r =>
        cases r with
        | int k => exact .some (.int k)
        | float d => exact .some (.float (.refl d))

theorem ofValue?_alike {v w : Value} (h : v.Alike w) :
    Option.Rel Number.Alike (Number.ofValue? v) (Number.ofValue? w) := by
  cases h with
  | float h => exact .some (.float h)
  | refl v =>
    cases v with
    | int n => exact .some (.int n)
    | float x => exact .some (.float (.refl x))
    | _ => exact .none

/-- **Arithmetic on values alike comes to values alike**, or to the same error. -/
theorem arith_alike (op : ArithOp) (ha : a.Alike a') (hb : b.Alike b') :
    ComesAlike (arith op a b) (arith op a' b') := by
  unfold arith
  rw [← ha.isText, ← hb.isText, ← ha.display, ← hb.display, ← ha.kind, ← hb.kind]
  have hleft := ofValue?_alike ha
  have hright := ofValue?_alike hb
  split
  · exact .refl _
  · generalize Number.ofValue? a = x at hleft
    generalize Number.ofValue? a' = x' at hleft
    generalize Number.ofValue? b = y at hright
    generalize Number.ofValue? b' = y' at hright
    cases hleft with
    | none => exact .refl _
    | some hx =>
      cases hright with
      | none => exact .refl _
      | some hy =>
        simp only [← hy.isZero]
        split
        · exact .refl _
        · rename_i hzero
          have hresult := onNumbers?_alike op hx hy hzero
          generalize onNumbers? op _ _ = r at hresult ⊢
          generalize onNumbers? op _ _ = r' at hresult ⊢
          cases hresult with
          | none => exact .refl _
          | some hr =>
            simp only [← hr.inRange]
            split
            · exact .ok hr.toValue
            · exact .refl _

/-! ## Zero less a number -/

/-- **Zero added to a double** leaves it, but perhaps for the sign of a zero. -/
theorem alike_zero_add (s : Bool) (y : Binary64) : y.Alike ((Binary64.zero s).add y) := by
  cases y with
  | nan => exact .refl _
  | infinite _ => exact .refl _
  | finite r v hv =>
    simp only [Binary64.zero, Binary64.add, Binary64.signed_zero, Int.zero_add]
    split
    · rename_i hsum
      obtain rfl : v = 0 := by
        rw [← Binary64.natAbs_signed r v, hsum]
        rfl
      exact .zeros _ _
    · rename_i hsum
      have hsign : decide (Binary64.signed r v < 0) = r := by
        cases r with
        | false => exact decide_eq_false (Int.not_lt.mpr (Int.natCast_nonneg v))
        | true =>
          have hv0 : v ≠ 0 := by
            rintro rfl
            exact hsum rfl
          exact decide_eq_true (Int.neg_neg_of_pos (Int.natCast_pos.mpr (Nat.pos_of_ne_zero hv0)))
      rw [hsign, Binary64.natAbs_signed, Binary64.ofUnits_self r hv]
      exact .refl _

theorem toBinary64?_zero : (Number.int 0).toBinary64? = some (Binary64.zero false) := by
  have hzero : Binary64.ofInt 0 = .zero false := by
    rw [Binary64.ofInt, Binary64.ofRatio, Int.natAbs_zero, Nat.zero_mul, Binary64.ofUnits_zero,
      decide_eq_false (Int.lt_irrefl 0)]
  have hfinite : (Binary64.zero false).isInfinite = false := rfl
  simp only [Number.toBinary64?, hzero, hfinite, Bool.false_eq_true, if_false]

/-- **Zero less a number** in range comes to the number with its sign changed, but perhaps for the sign of a zero. -/
theorem arith_zero_sub {v : Value} (hnumber : v.isNumber = true) (hrange : v.inRange? = .ok true) :
    ∃ w, arith .sub (.int 0) v = .ok w ∧ v.negated.Alike w := by
  have hsub : ∀ y : Number, ¬ (ArithOp.sub = .div ∧ y.isZero = true) := fun _ h => ArithOp.noConfusion h.1
  cases v with
  | int n =>
    have hkept : (onInts .sub 0 n).inRange = true := by
      have hin : n.natAbs ≤ Value.maxNumber := of_decide_eq_true (Except.ok.inj hrange)
      refine decide_eq_true ?_
      rwa [Int.zero_sub, Int.natAbs_neg]
    refine ⟨.int (0 - n), ?_, ?_⟩
    · rw [arith_of_onNumbers? (y := .int n) rfl rfl (hsub _) rfl, if_pos hkept]
      rfl
    · rw [Int.zero_sub]
      exact .refl _
  | float x =>
    have halike := alike_zero_add false x.neg
    have hfinite : x.neg.isInfinite = false := by
      have hx : (!x.isInfinite) = true := Except.ok.inj hrange
      cases x with
      | infinite _ => cases hx
      | nan | finite _ _ _ => rfl
    have hresult : onNumbers? .sub (.int 0) (.float x) = some (.float ((Binary64.zero false).add x.neg)) := by
      show ((Number.int 0).toBinary64?.bind fun a => some (Number.float (a.sub x))) = _
      rw [toBinary64?_zero]
      rfl
    have hkept : (Number.float ((Binary64.zero false).add x.neg)).inRange = true := by
      rw [Number.inRange, ← halike.isInfinite, hfinite]
      rfl
    refine ⟨.float ((Binary64.zero false).add x.neg), ?_, .float halike⟩
    rw [arith_of_onNumbers? rfl rfl (hsub _) hresult, if_pos hkept]
    rfl
  | _ => cases hnumber

end Calculation

end LineaLang
