import LineaLang.Proofs.Number.Range

/-!
# `LineaLang.Proofs.Number.Position` — where doubles stand on the number line

The position of a double is the number of its units under its sign. An integer stands at a multiple of the units of
one, so a double is an integer exactly if it stands where that integer does, and a zero exactly if it stands where zero
does. Any other double is alone at its position.

## Contents

* `Binary64.toInt?_eq_some_iff`, `Binary64.isZero_iff_rank?` — the doubles that are integers, and that are zero.
* `Binary64.eq_of_rank?` — all others are told by their positions.
-/

namespace LineaLang

theorem Rank.ofInt_inj {m n : Int} (h : Rank.ofInt m = Rank.ofInt n) : m = n := by
  have hunits : m * (Binary64.unitsPerOne : Int) = n * Binary64.unitsPerOne := by
    injection h
  exact Int.eq_of_mul_eq_mul_right (Int.natCast_ne_zero.mpr (Nat.ne_of_gt Binary64.unitsPerOne_pos)) hunits

namespace Binary64

theorem natAbs_signed (negative : Bool) (units : Nat) : (signed negative units).natAbs = units := by
  cases negative with
  | false => exact Int.natAbs_natCast units
  | true =>
    show (-(units : Int)).natAbs = units
    rw [Int.natAbs_neg, Int.natAbs_natCast]

theorem signed_mul (negative : Bool) (units factor : Nat) :
    signed negative (units * factor) = signed negative units * factor := by
  cases negative with
  | false => exact Int.natCast_mul units factor
  | true =>
    show -((units * factor : Nat) : Int) = -(units : Int) * factor
    rw [Int.natCast_mul, Int.neg_mul]

/-- The sign of a magnitude other than zero is its sign as an integer. -/
theorem signed_inj {s t : Bool} {u v : Nat} (hu : u ≠ 0) (h : signed s u = signed t v) : s = t ∧ u = v := by
  obtain rfl : u = v := by
    rw [← natAbs_signed s u, h, natAbs_signed]
  refine ⟨?_, rfl⟩
  cases s <;> cases t <;> simp [signed] at h ⊢ <;> omega

/-- **A double is an integer exactly if it stands where the integer does.** -/
theorem toInt?_eq_some_iff {x : Binary64} {n : Int} : x.toInt? = some n ↔ x.rank? = some (Rank.ofInt n) := by
  cases x with
  | nan => exact ⟨nofun, nofun⟩
  | infinite negative =>
    refine ⟨nofun, fun h => ?_⟩
    cases negative <;> cases h
  | finite negative units hrep =>
    have hpos := unitsPerOne_pos
    simp only [toInt?, rank?, Rank.ofInt, Option.some.injEq, Rank.at.injEq]
    constructor
    · intro h
      split at h
      · rename_i hmod
        rw [← Option.some.inj h, ← signed_mul, Nat.div_mul_cancel (Nat.dvd_of_mod_eq_zero hmod)]
      · cases h
    · intro h
      have hunits : units = n.natAbs * unitsPerOne := by
        rw [← natAbs_signed negative units, h, Int.natAbs_mul, Int.natAbs_natCast]
      have hsigned : signed negative n.natAbs = n := by
        apply Rank.ofInt_inj
        rw [Rank.ofInt, ← signed_mul, ← hunits, h, Rank.ofInt]
      rw [hunits, if_pos (Nat.mul_mod_left _ _), Nat.mul_div_cancel _ hpos, hsigned]

/-- **Which double it is**, its position says, unless it is a zero. -/
theorem eq_of_rank? {x y : Binary64} (hx : x.toInt? = none) (h : x.rank? = y.rank?) : x = y := by
  cases x with
  | nan =>
    cases y with
    | nan => rfl
    | infinite _ | finite _ _ _ => cases h
  | infinite s =>
    cases y with
    | infinite t =>
      obtain rfl : s = t := by
        cases s <;> cases t <;> simp [rank?] at h ⊢
      rfl
    | nan => cases h
    | finite _ _ _ => cases s <;> cases h
  | finite s u hu =>
    cases y with
    | nan => cases h
    | infinite t => cases t <;> cases h
    | finite t v hv =>
      have hu0 : u ≠ 0 := by
        rintro rfl
        simp [toInt?] at hx
      have hsigned : signed s u = signed t v := by
        injection h with h
        injection h
      obtain ⟨rfl, rfl⟩ := signed_inj hu0 hsigned
      rfl

/-- **A double is a zero exactly if it stands where zero does**, whichever sign it has. -/
theorem isZero_iff_rank? {x : Binary64} : x.isZero = true ↔ x.rank? = some (Rank.ofInt 0) := by
  cases x with
  | nan => exact ⟨nofun, nofun⟩
  | infinite negative =>
    refine ⟨nofun, fun h => ?_⟩
    cases negative <;> cases h
  | finite negative units hrep =>
    have hsigned : units = 0 ↔ signed negative units = 0 := by
      rw [← Int.natAbs_eq_zero, natAbs_signed]
    simp only [isZero, rank?, Rank.ofInt, Int.zero_mul, decide_eq_true_eq, Option.some.injEq, Rank.at.injEq]
    exact hsigned

end Binary64

end LineaLang
