import LineaLang.Calculation

/-!
# `LineaLang.Proofs.Number.Range` — the range of calculated numbers

What arithmetic gives is a text or a number in range. A number in range may still be no number at all: the range check
lets it through. It cannot come about, though, where both operands are finite, since rounding gives a finite double or
an infinity, and a zero divisor is refused before any division. So from bounded operands arithmetic makes bounded
values, with the greatest double as the bound of integers and doubles alike.

## Contents

* `Binary64.units_le_maxNumber` — the greatest finite double.
* `Calculation.onDoubles_ne_nan` — operations on finite doubles.
* `Calculation.arith_ok`, `Calculation.arith_of_onNumbers?` — what arithmetic gives.
* `Value.InDomain`, `Value.Bounded`, with `inDomain_arith`, `inRange_arith` and `bounded_arith`.
-/

namespace LineaLang

attribute [local instance (2000)] instPowNat

/-! ## Doubles -/

namespace Binary64

/-- A multiple of `2 ^ e` below `2 ^ (k + e)` is at most the greatest such multiple. -/
theorem le_of_dvd_of_lt {units k e : Nat} (hdvd : 2 ^ e ∣ units) (hlt : units < 2 ^ (k + e)) :
    units ≤ (2 ^ k - 1) * 2 ^ e := by
  obtain ⟨m, rfl⟩ := hdvd
  have hm : m < 2 ^ k := by
    rw [Nat.pow_add, Nat.mul_comm] at hlt
    exact Nat.lt_of_mul_lt_mul_right hlt
  rw [Nat.mul_comm]
  exact Nat.mul_le_mul_right _ (Nat.le_sub_one_of_lt hm)

/-- **A multiple of its spacing** below `2 ^ (53 + e)` is at most the greatest one with 53 significant bits. -/
theorem le_of_spacing {units k e : Nat} (hk : k = 53 + e) (hbound : units < 2 ^ k)
    (hspacing : units % spacing units = 0) : units ≤ (2 ^ (53 : Nat) - 1) * 2 ^ e := by
  subst hk
  by_cases hsmall : units < 2 ^ (52 + e)
  · -- Below the last power of two the bound is far away.
    have hhalf : 2 ^ (52 + e) ≤ (2 ^ (53 : Nat) - 1) * 2 ^ e := by
      rw [Nat.pow_add]
      exact Nat.mul_le_mul_right _ (by decide)
    exact Nat.le_trans (Nat.le_of_lt hsmall) hhalf
  · -- Between the last two powers the spacing is `2 ^ e`.
    have hge := Nat.le_of_not_lt hsmall
    have hne : units ≠ 0 := Nat.ne_of_gt (Nat.lt_of_lt_of_le (Nat.two_pow_pos (52 + e)) hge)
    have hlog : 52 + e ≤ units.log2 := (Nat.le_log2 hne).2 hge
    have hdvd : 2 ^ e ∣ units :=
      Nat.dvd_trans (Nat.pow_dvd_pow 2 (by omega)) (Nat.dvd_of_mod_eq_zero hspacing)
    exact le_of_dvd_of_lt hdvd hbound

theorem mul_pow_pow (a m n : Nat) : a * 2 ^ m * 2 ^ n = a * 2 ^ (m + n) := by
  rw [Nat.mul_assoc, ← Nat.pow_add]

/-- **The greatest finite double** bounds the units of all. -/
theorem units_le_maxNumber {units : Nat} (h : Representable units) : units ≤ Value.maxNumber * unitsPerOne := by
  have hmax : Value.maxNumber * unitsPerOne = (2 ^ (53 : Nat) - 1) * 2 ^ (2045 : Nat) := by
    simp only [Value.maxNumber, unitsPerOne, mul_pow_pow, Nat.reduceAdd]
  obtain ⟨hbound, hspacing⟩ := h
  unfold unitsBound at hbound
  have hle := le_of_spacing (k := 2098) (e := 2045) rfl hbound hspacing
  rw [hmax]
  exact hle

theorem unitsPerOne_pos : 0 < unitsPerOne := by
  unfold unitsPerOne
  generalize 1074 = exponent
  exact Nat.two_pow_pos exponent

/-- Rounding gives a finite double or an infinity. -/
theorem ofUnits_ne_nan (negative : Bool) (num den : Nat) : ofUnits negative num den ≠ .nan := by
  unfold ofUnits
  split <;> exact nofun

theorem ofRatio_ne_nan (negative : Bool) (num den : Nat) : ofRatio negative num den ≠ .nan := by
  unfold ofRatio
  exact ofUnits_ne_nan _ _ _

/-- A magnitude of at least one unit is not rounded to zero. -/
theorem roundUnits_ne_zero {units : Nat} (h : units ≠ 0) : roundUnits units 1 ≠ 0 := by
  unfold roundUnits
  rw [Nat.div_one, Nat.one_mul]
  have hspacing : spacing units ≤ units :=
    Nat.le_trans (Nat.pow_le_pow_right (by decide) (Nat.sub_le _ _)) (Nat.log2_self_le h)
  have hpos : 0 < spacing units := Nat.two_pow_pos _
  have hone : 1 ≤ roundHalfEven units (spacing units) :=
    Nat.le_trans ((Nat.le_div_iff_mul_le hpos).2 (by rw [Nat.one_mul]; exact hspacing)) (le_roundHalfEven _ _)
  exact Nat.ne_of_gt (Nat.mul_pos hone hpos)

/-- **Only zero is rounded to a zero.** -/
theorem isZero_ofInt {n : Int} (h : n ≠ 0) : (ofInt n).isZero = false := by
  have hunits : n.natAbs * unitsPerOne ≠ 0 :=
    Nat.mul_ne_zero (Int.natAbs_ne_zero.2 h) (Nat.ne_of_gt unitsPerOne_pos)
  have hround := roundUnits_ne_zero hunits
  unfold ofInt ofRatio ofUnits
  split
  · exact decide_eq_false hround
  · rfl

end Binary64

namespace Calculation

open Binary64

/-- **Operations on finite doubles** give a number, but for division by zero. -/
theorem onDoubles_ne_nan {op : ArithOp} {x y : Binary64} (hx : x.isFinite = true) (hy : y.isFinite = true)
    (hzero : op = .div → y.isZero = false) : onDoubles op x y ≠ .nan := by
  obtain ⟨s, u, hu, rfl⟩ : ∃ s u hu, x = .finite s u hu := by
    cases x with
    | finite s u hu => exact ⟨s, u, hu, rfl⟩
    | nan | infinite _ => cases hx
  obtain ⟨t, v, hv, rfl⟩ : ∃ t v hv, y = .finite t v hv := by
    cases y with
    | finite t v hv => exact ⟨t, v, hv, rfl⟩
    | nan | infinite _ => cases hy
  have hadd : ∀ (t : Bool), Binary64.add (.finite s u hu) (.finite t v hv) ≠ .nan := by
    intro t
    unfold Binary64.add
    simp only
    split
    · exact nofun
    · exact ofUnits_ne_nan _ _ _
  cases op with
  | add => exact hadd t
  | sub => exact hadd !t
  | mul =>
    simp only [onDoubles, Binary64.mul]
    exact ofUnits_ne_nan _ _ _
  | div =>
    have hv0 : v ≠ 0 := of_decide_eq_false (hzero rfl)
    simp only [onDoubles, Binary64.div, if_neg hv0]
    exact ofUnits_ne_nan _ _ _

/-! ## Numbers -/

/-- **A finite number**: an integer, or a finite double. -/
def Number.IsFinite : Number → Prop
  | .int _ => True
  | .float x => x.isFinite = true

/-- The double of a finite number is finite, and zero only if the number is. -/
theorem Number.finite_toBinary64 {x : Number} {d : Binary64} (hx : x.IsFinite) (h : x.toBinary64? = some d) :
    d.isFinite = true ∧ (x.isZero = false → d.isZero = false) := by
  cases x with
  | float x =>
    cases h
    exact ⟨hx, id⟩
  | int n =>
    have hnan : Binary64.ofInt n ≠ .nan := by
      unfold Binary64.ofInt
      exact ofRatio_ne_nan _ _ _
    have hzero : (Number.int n).isZero = false → (Binary64.ofInt n).isZero = false :=
      fun hzero => isZero_ofInt (of_decide_eq_false hzero)
    simp only [Number.toBinary64?] at h
    generalize Binary64.ofInt n = d' at h hnan hzero
    cases d' with
    | finite _ _ _ =>
      cases h
      exact ⟨rfl, hzero⟩
    | nan => exact absurd rfl hnan
    | infinite _ => cases h

/-- **A result in range of finite numbers is finite.** -/
theorem finite_of_inRange {op : ArithOp} {x y r : Number} (hx : x.IsFinite) (hy : y.IsFinite)
    (hzero : ¬ (op = .div ∧ y.isZero = true)) (hr : onNumbers? op x y = some r) (hrange : r.inRange = true) :
    r.IsFinite := by
  -- What is no number is neither finite nor infinite; all else in range is finite.
  have hfinite : ∀ d : Binary64, d ≠ .nan → Number.inRange (.float d) = true → Number.IsFinite (.float d) := by
    intro d hnan hrange
    cases d with
    | finite _ _ _ => rfl
    | nan => exact absurd rfl hnan
    | infinite _ => cases hrange
  have hdoubles : ∀ {a b : Binary64}, x.toBinary64? = some a → y.toBinary64? = some b →
      onDoubles op a b ≠ .nan := by
    intro a b ha hb
    refine onDoubles_ne_nan (Number.finite_toBinary64 hx ha).1 (Number.finite_toBinary64 hy hb).1 fun hdiv => ?_
    refine (Number.finite_toBinary64 hy hb).2 ?_
    exact Bool.eq_false_iff.2 fun hyzero => hzero ⟨hdiv, hyzero⟩
  have hmixed : (do let a ← x.toBinary64?; let b ← y.toBinary64?; return Number.float (onDoubles op a b)) = some r →
      r.IsFinite := by
    intro h
    obtain ⟨a, ha, h⟩ := Option.bind_eq_some_iff.mp h
    obtain ⟨b, hb, h⟩ := Option.bind_eq_some_iff.mp h
    cases h
    exact hfinite _ (hdoubles ha hb) hrange
  cases x with
  | float a => exact hmixed hr
  | int a =>
    cases y with
    | float b => exact hmixed hr
    | int b =>
      cases hr
      cases op with
      | add | sub | mul => trivial
      | div =>
        refine hfinite _ ?_ hrange
        unfold ofQuotient
        exact ofRatio_ne_nan _ _ _

/-! ## Arithmetic -/

/-- **What arithmetic gives**: a text, or a number in range. -/
theorem arith_ok {op : ArithOp} {a b v : Value} (h : arith op a b = .ok v) :
    (∃ text, v = .str text) ∨ ∃ x y r, Number.ofValue? a = some x ∧ Number.ofValue? b = some y ∧
      ¬ (op = .div ∧ y.isZero = true) ∧ onNumbers? op x y = some r ∧ r.inRange = true ∧ v = r.toValue := by
  unfold arith at h
  split at h
  · cases h
    exact .inl ⟨_, rfl⟩
  · split at h
    · rename_i x y hx hy
      split at h
      · cases h
      · rename_i hzero
        split at h
        · rename_i r hr
          split at h
          · rename_i hrange
            cases h
            exact .inr ⟨x, y, r, hx, hy, hzero, hr, hrange, rfl⟩
          · cases h
        · cases h
    · cases h

/-- **The other way round**: numbers come to what the operator gives, if that is in range. -/
theorem arith_of_onNumbers? {op : ArithOp} {a b : Value} {x y r : Number} (hx : Number.ofValue? a = some x)
    (hy : Number.ofValue? b = some y) (hzero : ¬ (op = .div ∧ y.isZero = true)) (hr : onNumbers? op x y = some r) :
    arith op a b = if r.inRange then .ok r.toValue else .error (.numericOverflow op) := by
  have htext : ∀ {v : Value} {x : Number}, Number.ofValue? v = some x → v.isText = false := by
    intro v x hx
    cases v with
    | str _ => cases hx
    | _ => rfl
  have hconcatenation : ¬ (op = .add ∧ (a.isText = true ∨ b.isText = true)) := by
    simp [htext hx, htext hy]
  simp only [arith, if_neg hconcatenation, hx, hy, if_neg hzero, hr]

end Calculation

/-! ## Values -/

namespace Value

open Calculation

/-- **A value of the language proper**: the absent value, a number or a string. Truth values are not among them. -/
def InDomain : Value → Prop
  | .none => True
  | .int _ => True
  | .float _ => True
  | .str _ => True
  | _ => False

/-- **A bounded value**: a number is finite, and its magnitude is at most that of the greatest double. -/
def Bounded : Value → Prop
  | .none => True
  | .int n => n.natAbs ≤ maxNumber
  | .float (.finite _ units _) => units ≤ maxNumber * Binary64.unitsPerOne
  | .str _ => True
  | _ => False

theorem inDomain_arith {op : ArithOp} {a b v : Value} (h : arith op a b = .ok v) : v.InDomain := by
  obtain ⟨text, rfl⟩ | ⟨_, _, r, -, -, -, -, -, rfl⟩ := arith_ok h
  · trivial
  · cases r <;> trivial

/-- **A calculated number is in range.** -/
theorem inRange_arith {op : ArithOp} {a b v : Value} (h : arith op a b = .ok v) (hnumber : v.isNumber = true) :
    v.inRange? = .ok true := by
  obtain ⟨text, rfl⟩ | ⟨_, _, r, -, -, -, -, hrange, rfl⟩ := arith_ok h
  · cases hnumber
  · cases r with
    | int n => exact congrArg Except.ok hrange
    | float x => exact congrArg Except.ok hrange

/-- A bounded number is finite. -/
theorem Bounded.isFinite {v : Value} (h : v.Bounded) {x : Number} (hx : Number.ofValue? v = some x) : x.IsFinite := by
  cases v with
  | int n =>
    cases hx
    trivial
  | float d =>
    cases hx
    cases d with
    | finite _ _ _ => rfl
    | nan | infinite _ => exact h.elim
  | _ => cases hx

/-- A finite number in range is bounded. -/
theorem bounded_toValue {r : Number} (hfinite : r.IsFinite) (hrange : r.inRange = true) : r.toValue.Bounded := by
  cases r with
  | int n =>
    simp only [Number.inRange, intInRange, decide_eq_true_eq] at hrange
    exact hrange
  | float d =>
    cases d with
    | finite _ _ hrep => exact Binary64.units_le_maxNumber hrep
    | nan | infinite _ => cases hfinite

/-- **From bounded values arithmetic makes bounded values.** -/
theorem bounded_arith {op : ArithOp} {a b v : Value} (ha : a.Bounded) (hb : b.Bounded) (h : arith op a b = .ok v) :
    v.Bounded := by
  obtain ⟨text, rfl⟩ | ⟨x, y, r, hx, hy, hzero, hr, hrange, rfl⟩ := arith_ok h
  · trivial
  · exact bounded_toValue (finite_of_inRange (ha.isFinite hx) (hb.isFinite hy) hzero hr hrange) hrange

end Value

end LineaLang
