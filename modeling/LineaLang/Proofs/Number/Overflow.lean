import LineaLang.Proofs.Number.Range

/-!
# `LineaLang.Proofs.Number.Overflow` — where a quotient is rounded to infinity

The greatest double has `2 ^ 53 - 1` as its significant bits, and the next number on its grid is the bound that no
double reaches. A quotient is rounded to that bound, and so to infinity, from the midpoint of the two on: the midpoint
itself is a tie, and the bits of the greatest double are odd. Up to a factor the same holds at every power of two.

## Contents

* `succ_le_roundHalfEven_iff` — what is rounded up from an odd number.
* `Binary64.pow_le_roundUnits_iff` — what is rounded up to a power of two.
* `Binary64.isInfinite_ofRatio_iff` — what is rounded to infinity.
-/

namespace LineaLang

attribute [local instance (2000)] instPowNat

/-- **From an odd number up**: everything from the midpoint on, which is a tie. -/
theorem succ_le_roundHalfEven_iff {num den k : Nat} (hden : 0 < den) (hodd : k % 2 = 1) :
    k + 1 ≤ roundHalfEven num den ↔ (2 * k + 1) * den ≤ 2 * num := by
  have hlow := le_roundHalfEven num den
  have hhigh := roundHalfEven_le num den
  have hrest := Nat.mod_lt num hden
  have hnum := Nat.div_add_mod num den
  generalize hwhole : num / den = whole at hlow hhigh hnum
  have hdouble : (2 * k + 1) * den = 2 * (k * den) + den := by
    rw [Nat.add_mul, Nat.mul_assoc, Nat.one_mul]
  rcases Nat.lt_trichotomy whole k with hlt | heq | hgt
  · -- Too far below to be rounded up to `k + 1`, and below the midpoint.
    have hmul : (whole + 1) * den ≤ k * den := Nat.mul_le_mul_right den hlt
    rw [Nat.add_mul, Nat.one_mul, Nat.mul_comm whole] at hmul
    omega
  · -- Between the two: the rest decides, and a tie goes up.
    subst heq
    unfold roundHalfEven
    rw [hwhole, hdouble, Nat.mul_comm whole]
    simp only
    split
    · omega
    · split
      · omega
      · split <;> omega
  · have hmul : (k + 1) * den ≤ whole * den := Nat.mul_le_mul_right den hgt
    rw [Nat.add_mul, Nat.one_mul, Nat.mul_comm whole] at hmul
    omega

namespace Binary64

/-- Above `2 ^ (53 + e)` nothing is rounded below it. -/
theorem pow_le_roundUnits {num den e : Nat} (h : 2 ^ (53 + e) ≤ num / den) : 2 ^ (53 + e) ≤ roundUnits num den := by
  unfold roundUnits
  generalize hq : num / den = q at h ⊢
  have hq0 : q ≠ 0 := Nat.ne_of_gt (Nat.lt_of_lt_of_le (Nat.two_pow_pos _) h)
  have hlog : 53 + e ≤ q.log2 := (Nat.le_log2 hq0).2 h
  have hspacing : spacing q ∣ 2 ^ q.log2 := Nat.pow_dvd_pow 2 (Nat.sub_le _ _)
  calc 2 ^ (53 + e) ≤ 2 ^ q.log2 := Nat.pow_le_pow_right (by decide) hlog
    _ = 2 ^ q.log2 / spacing q * spacing q := (Nat.div_mul_cancel hspacing).symm
    _ ≤ q / spacing q * spacing q :=
      Nat.mul_le_mul_right _ (Nat.div_le_div_right (Nat.log2_self_le hq0))
    _ = num / (den * spacing q) * spacing q := by rw [← hq, Nat.div_div_eq_div_mul]
    _ ≤ roundHalfEven num (den * spacing q) * spacing q := Nat.mul_le_mul_right _ (le_roundHalfEven _ _)

/-- Below `2 ^ (52 + e)` nothing is rounded far above it. -/
theorem roundUnits_lt_pow {num den e : Nat} (h : num / den < 2 ^ (52 + e)) : roundUnits num den < 2 ^ (53 + e) := by
  unfold roundUnits
  generalize hq : num / den = q at h ⊢
  have hspacing : spacing q ≤ 2 ^ e := by
    refine Nat.pow_le_pow_right (by decide) ?_
    by_cases hq0 : q = 0
    · rw [hq0, Nat.log2_zero]
      exact Nat.zero_le e
    · have hlog : q.log2 < 52 + e := (Nat.log2_lt hq0).2 h
      omega
  have hpow : 2 ^ e ≤ 2 ^ (52 + e) := Nat.pow_le_pow_right (by decide) (Nat.le_add_left _ _)
  have hdouble : 2 ^ (53 + e) = 2 ^ (52 + e) * 2 := by
    rw [← Nat.pow_succ]
    exact congrArg (2 ^ ·) (by omega)
  calc roundHalfEven num (den * spacing q) * spacing q
      ≤ (num / (den * spacing q) + 1) * spacing q := Nat.mul_le_mul_right _ (roundHalfEven_le _ _)
    _ = q / spacing q * spacing q + spacing q := by rw [← Nat.div_div_eq_div_mul, hq, Nat.add_mul, Nat.one_mul]
    _ ≤ q + spacing q := Nat.add_le_add_right (Nat.div_mul_le_self _ _) _
    _ < 2 ^ (53 + e) := by omega

/-- **What is rounded up to a power of two** with its significant bits: everything from the midpoint below it on. -/
theorem pow_le_roundUnits_iff {num den : Nat} (hden : 0 < den) (e : Nat) :
    2 ^ (53 + e) ≤ roundUnits num den ↔ (2 * (2 ^ (53 : Nat) - 1) + 1) * (den * 2 ^ e) ≤ 2 * num := by
  have hscaled : ∀ k, num / den < 2 ^ (k + e) ↔ num < 2 ^ k * (den * 2 ^ e) := by
    intro k
    rw [Nat.div_lt_iff_lt_mul hden, Nat.pow_add, Nat.mul_assoc, Nat.mul_comm (2 ^ e)]
  by_cases hlow : num / den < 2 ^ (52 + e)
  · have hbelow := roundUnits_lt_pow hlow
    rw [hscaled] at hlow
    omega
  · by_cases hhigh : num / den < 2 ^ (53 + e)
    · -- Here the grid is that of the multiples of `2 ^ e`.
      have hspacing : spacing (num / den) = 2 ^ e := by
        have hne : num / den ≠ 0 := Nat.ne_of_gt (Nat.lt_of_lt_of_le (Nat.two_pow_pos _) (Nat.not_lt.mp hlow))
        have hlog : 52 + e ≤ (num / den).log2 := (Nat.le_log2 hne).2 (Nat.not_lt.mp hlow)
        have hlog' : (num / den).log2 < 53 + e := (Nat.log2_lt hne).2 hhigh
        exact congrArg (2 ^ ·) (by omega)
      have hpos : 0 < 2 ^ e := Nat.two_pow_pos e
      rw [roundUnits, hspacing, Nat.pow_add, Nat.mul_le_mul_right_iff hpos,
        ← succ_le_roundHalfEven_iff (Nat.mul_pos hden hpos) (by decide)]
    · have habove := pow_le_roundUnits (Nat.not_lt.mp hhigh)
      rw [hscaled] at hhigh
      omega

/-- **Where the doubles end**: a quotient is rounded to infinity from `2 ^ 1024 - 2 ^ 970` on. -/
theorem isInfinite_ofRatio_iff (negative : Bool) {num den : Nat} (hden : 0 < den) :
    (ofRatio negative num den).isInfinite = true ↔ (2 ^ (1024 : Nat) - 2 ^ (970 : Nat)) * den ≤ num := by
  have hinfinite : (ofRatio negative num den).isInfinite = true ↔ unitsBound ≤ roundUnits (num * unitsPerOne) den := by
    unfold ofRatio ofUnits
    split
    · rename_i hlt
      exact ⟨fun h => absurd h Bool.false_ne_true, fun hle => absurd hlt (Nat.not_lt.mpr hle)⟩
    · rename_i hge
      exact ⟨fun _ => Nat.not_lt.mp hge, fun _ => rfl⟩
  have hbound : unitsBound = 2 ^ (53 + (970 + 1 + 1074)) := by
    simp only [unitsBound, Nat.reduceAdd]
  have hgrid : ∀ m n : Nat, 2 ^ (m + 1 + n) = 2 * 2 ^ m * 2 ^ n := by
    intro m n
    rw [Nat.pow_add, Nat.pow_succ']
  have hmidpoint : ∀ e : Nat, 2 ^ (54 + e) - 2 ^ e = (2 * (2 ^ (53 : Nat) - 1) + 1) * 2 ^ e := by
    intro e
    rw [Nat.pow_add]
    omega
  have hlimit := hmidpoint 970
  simp only [Nat.reduceAdd] at hlimit
  rw [hinfinite, hbound, pow_le_roundUnits_iff hden (970 + 1 + 1074), hgrid 970 1074, hlimit, ← unitsPerOne]
  have hpos := unitsPerOne_pos
  generalize unitsPerOne = units at hpos ⊢
  generalize 2 ^ (970 : Nat) = p
  generalize 2 * (2 ^ (53 : Nat) - 1) + 1 = k
  have hleft : k * (den * (2 * p * units)) = 2 * units * (k * p * den) := by ac_rfl
  have hright : 2 * (num * units) = 2 * units * num := by ac_rfl
  rw [hleft, hright, Nat.mul_le_mul_left_iff (Nat.mul_pos Nat.two_pos hpos)]

end Binary64

end LineaLang
