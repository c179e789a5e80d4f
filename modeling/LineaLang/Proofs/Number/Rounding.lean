import LineaLang.Number.Shortest
import LineaLang.Proofs.Text.Written

/-!
# `LineaLang.Proofs.Number.Rounding` — decimals that denote the same double

Rounding looks at a quotient and not at how it is written, so a factor of ten may stand in the digits of a
decimal or in its exponent. Both bounds of the place respect that, since a zero at the end of the digits
moves the place as much as one more in the exponent. A double that is written with its shortest digits is
therefore denoted by every other spelling of them, and where no short spelling denotes it the exact expansion
does: it has one place for each halving of a unit, and rounding leaves it alone.

## Contents

* `Binary64.ofRatio_congr`, `Binary64.ofUnits_self` — what rounding depends on, and what it keeps.
* `Decimal.toBinary64_mul_pow` — factors of ten.
* `Binary64.toBinary64_exactDecimal`, `Binary64.toBinary64_shortest` — the decimals of a double denote it.
-/

namespace LineaLang

attribute [local instance (2000)] instPowNat

/-! ## Quotients -/

section Rounding

variable {num den k : Nat}

/-- Rounding looks at the quotient alone. -/
theorem roundHalfEven_mul_right (num den : Nat) (hk : 0 < k) :
    roundHalfEven (num * k) (den * k) = roundHalfEven num den := by
  unfold roundHalfEven
  have hlt : 2 * (num * k % (den * k)) < den * k ↔ 2 * (num % den) < den := by
    rw [Nat.mul_mod_mul_right, ← Nat.mul_assoc]
    exact Nat.mul_lt_mul_right hk
  have hgt : den * k < 2 * (num * k % (den * k)) ↔ den < 2 * (num % den) := by
    rw [Nat.mul_mod_mul_right, ← Nat.mul_assoc]
    exact Nat.mul_lt_mul_right hk
  simp only [hlt, hgt, Nat.mul_div_mul_right num den hk]

namespace Binary64

theorem roundUnits_mul_right (num den : Nat) (hk : 0 < k) :
    roundUnits (num * k) (den * k) = roundUnits num den := by
  rw [roundUnits, roundUnits, Nat.mul_div_mul_right num den hk, Nat.mul_right_comm,
    roundHalfEven_mul_right _ _ hk]

theorem ofUnits_mul_right (negative : Bool) (num den : Nat) (hk : 0 < k) :
    ofUnits negative (num * k) (den * k) = ofUnits negative num den := by
  simp only [ofUnits, roundUnits_mul_right num den hk]

/-- **Equal quotients denote the same double.** -/
theorem ofRatio_congr {negative : Bool} {a b c d : Nat} (h : a * d = c * b) (hb : 0 < b) (hd : 0 < d) :
    ofRatio negative a b = ofRatio negative c d := by
  have hleft := ofUnits_mul_right negative (a * unitsPerOne) b hd
  have hright := ofUnits_mul_right negative (c * unitsPerOne) d hb
  rw [ofRatio, ofRatio, ← hleft, ← hright, Nat.mul_right_comm a, h, Nat.mul_right_comm c, Nat.mul_comm b d]

/-- **A double is the double nearest to its value.** -/
theorem ofUnits_self (negative : Bool) {units : Nat} (h : Representable units) :
    ofUnits negative units 1 = .finite negative units h := by
  have hround : roundUnits units 1 = units := by
    rw [roundUnits, Nat.div_one, Nat.one_mul, roundHalfEven, h.2]
    have hpos : 0 < spacing units := Nat.two_pow_pos _
    simp only [Nat.mul_zero, if_pos hpos]
    exact Nat.div_mul_cancel (Nat.dvd_of_mod_eq_zero h.2)
  simp only [ofUnits, hround, dif_pos h.1]

end Binary64

end Rounding

/-! ## Decimals -/

namespace Decimal

open Binary64

/-- **The double nearest to a decimal**, where neither bound of the place applies. -/
theorem toBinary64_eq_ofRatio {negative : Bool} {d : Decimal} (h : d.digits ≠ 0) (hmin : minPlace ≤ d.place)
    (hmax : d.place ≤ maxPlace) :
    d.toBinary64 negative =
      ofRatio negative (d.digits * 10 ^ d.exponent.toNat) (10 ^ (-d.exponent).toNat) := by
  have hlow : ¬ (d.digits = 0 ∨ d.place < minPlace) := by simp [h, Int.not_lt.mpr hmin]
  rw [toBinary64, if_neg hlow, if_neg (Int.not_lt.mpr hmax)]
  cases d.exponent with
  | ofNat e => simp
  | negSucc e => simp [Int.neg_negSucc]

theorem place_mul_pow {n : Nat} (h : n ≠ 0) (e : Int) (k : Nat) :
    place ⟨n * 10 ^ k, e⟩ = place ⟨n, e + k⟩ := by
  simp only [place, Numeral.ofNat_mul_pow h, List.length_append, List.length_replicate]
  omega

/-- **A factor of ten goes into the exponent.** -/
theorem toBinary64_mul_pow (negative : Bool) (n : Nat) (e : Int) (k : Nat) :
    toBinary64 negative ⟨n * 10 ^ k, e⟩ = toBinary64 negative ⟨n, e + k⟩ := by
  have hpos : 0 < 10 ^ k := Nat.pow_pos (by decide)
  by_cases hn : n = 0
  · subst hn
    simp [toBinary64]
  have hn' : n * 10 ^ k ≠ 0 := Nat.mul_ne_zero hn (Nat.ne_of_gt hpos)
  have hplace := place_mul_pow hn e k
  by_cases hmin : minPlace ≤ place ⟨n, e + k⟩
  · by_cases hmax : place ⟨n, e + k⟩ ≤ maxPlace
    · rw [toBinary64_eq_ofRatio hn' (by rwa [hplace]) (by rwa [hplace]), toBinary64_eq_ofRatio hn hmin hmax]
      refine ofRatio_congr ?_ (Nat.pow_pos (by decide)) (Nat.pow_pos (by decide))
      -- The exponents of ten on both sides are the same.
      have hexp : k + e.toNat + (-(e + k)).toNat = (e + k).toNat + (-e).toNat := by omega
      simp only [Nat.mul_assoc, ← Nat.pow_add, hexp]
    · simp [toBinary64, hn, hn', hplace, Int.not_lt.mpr hmin, Int.not_le.mp hmax]
  · simp [toBinary64, hplace, Int.not_le.mp hmin]

end Decimal

/-! ## The shortest digits -/

namespace Binary64

/-- The exact expansion of a double is in the range where it is not rounded for its size alone. -/
theorem place_exactDecimal {units : Nat} (h : units ≠ 0) (hb : units < unitsBound) :
    Decimal.minPlace ≤ (exactDecimal units).place ∧ (exactDecimal units).place ≤ Decimal.maxPlace := by
  -- Between these powers of ten lies every exact expansion.
  have hlow : 10 ^ 744 ≤ 5 ^ 1074 := by decide +kernel
  have hhigh : unitsBound * 5 ^ 1074 ≤ 10 ^ 1384 := by decide +kernel
  have hpos : ∀ e, 0 < 5 ^ e := fun e => Nat.pow_pos (by decide)
  have hleast : 5 ^ 1074 ≤ units * 5 ^ 1074 := Nat.le_mul_of_pos_left _ (Nat.pos_of_ne_zero h)
  have hmost : units * 5 ^ 1074 < unitsBound * 5 ^ 1074 := Nat.mul_lt_mul_of_pos_right hb (hpos 1074)
  have hshort := (Numeral.length_ofNat_le_iff (n := units * 5 ^ 1074) (k := 1384) (by decide)).mpr
    (Nat.lt_of_lt_of_le hmost hhigh)
  have hlong := mt (Numeral.length_ofNat_le_iff (n := units * 5 ^ 1074) (k := 744) (by decide)).mp
    (Nat.not_lt.mpr (Nat.le_trans hlow hleast))
  simp only [Decimal.place, exactDecimal, Decimal.minPlace, Decimal.maxPlace]
  omega

/-- In units of `2 ^ -e` a decimal with `e` places is exact. -/
theorem ofRatio_five_pow (negative : Bool) (units : Nat) {e : Nat} (he : unitsPerOne = 2 ^ e) :
    ofRatio negative (units * 5 ^ e) (10 ^ e) = ofUnits negative units 1 := by
  have hten : 10 ^ e = 5 ^ e * 2 ^ e := Nat.mul_pow 5 2 e
  have hcancel := ofUnits_mul_right negative units 1 (Nat.pow_pos (n := e) (show 0 < 10 by decide))
  rw [ofRatio, he, Nat.mul_assoc, ← hten, ← hcancel, Nat.one_mul]

/-- **The exact expansion of a double denotes it.** -/
theorem toBinary64_exactDecimal (negative : Bool) {units : Nat} (h : units ≠ 0) (hr : Representable units) :
    (exactDecimal units).toBinary64 negative = .finite negative units hr := by
  have hdigits : ∀ e, units * 5 ^ e ≠ 0 := by
    intro e
    exact Nat.mul_ne_zero h (Nat.ne_of_gt (Nat.pow_pos (by decide)))
  -- The number of places is a variable here, so that no power of it is ever computed.
  have hratio : ∀ e : Nat, unitsPerOne = 2 ^ e → ∀ d : Decimal, d = ⟨units * 5 ^ e, -e⟩ →
      Decimal.minPlace ≤ d.place ∧ d.place ≤ Decimal.maxPlace →
      d.toBinary64 negative = ofUnits negative units 1 := by
    rintro e he d rfl ⟨hmin, hmax⟩
    rw [Decimal.toBinary64_eq_ofRatio (hdigits e) hmin hmax, ← ofRatio_five_pow negative units he]
    simp
  rw [hratio 1074 rfl (exactDecimal units) rfl (place_exactDecimal h hr.1), ofUnits_self negative hr]

theorem neg_ofUnits (negative : Bool) (num den : Nat) :
    (ofUnits negative num den).neg = ofUnits (!negative) num den := by
  unfold ofUnits
  split <;> rfl

/-- The sign of a decimal is that of the double. -/
theorem neg_toBinary64 (negative : Bool) (d : Decimal) :
    (d.toBinary64 negative).neg = d.toBinary64 (!negative) := by
  unfold Decimal.toBinary64
  split
  · rfl
  · split
    · rfl
    · split <;> exact neg_ofUnits _ _ _

/-- A decimal that denotes a double denotes its opposite under a minus. -/
theorem toBinary64_of_readsBack {units : Nat} {d : Decimal} (h : readsBack units d = true) (negative : Bool)
    (hr : Representable units) : d.toBinary64 negative = .finite negative units hr := by
  unfold readsBack at h
  split at h
  · rename_i u hu hd
    obtain rfl : u = units := of_decide_eq_true h
    cases negative with
    | false => exact hd
    | true =>
      rw [← Bool.not_false, ← neg_toBinary64, hd]
      rfl
  · cases h

/-- **The shortest digits denote the double.** -/
theorem toBinary64_shortest (negative : Bool) {units : Nat} (h : units ≠ 0) (hr : Representable units) :
    (shortest units).toBinary64 negative = .finite negative units hr := by
  unfold shortest
  simp only
  cases hfound : (List.range 17).findSome? fun n => withDigits? units (leadingPlace units) (n + 1) with
  | none => exact toBinary64_exactDecimal negative h hr
  | some d =>
    obtain ⟨n, -, hn⟩ := List.exists_of_findSome?_eq_some hfound
    exact toBinary64_of_readsBack (withDigits?_readsBack hn) negative hr

theorem shortest_digits_ne_zero {units : Nat} (h : units ≠ 0) (hr : Representable units) :
    (shortest units).digits ≠ 0 := by
  intro hzero
  have hdouble := toBinary64_shortest false h hr
  rw [Decimal.toBinary64, if_pos (.inl hzero)] at hdouble
  exact h (Binary64.finite.inj hdouble).2.symm

end Binary64

end LineaLang
