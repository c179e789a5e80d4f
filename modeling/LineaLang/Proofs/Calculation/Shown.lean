import LineaLang.Proofs.Calculation.Order
import LineaLang.Proofs.Number.Operand
import LineaLang.Proofs.Number.Position

/-!
# `LineaLang.Proofs.Calculation.Shown` — numbers are equal if they print the same

Three spellings of numbers meet in what a program prints: the digits of an integer, the digits of a double without a
fraction, and the shortest decimal of any other double. A double without a fraction prints as the integer that it is,
so it can be replaced by that integer (`Value.simplest`), which changes neither its text nor its position on the number
line. Among the simplest numbers text and position both say which number it is: the text because it is read back, the
position because a double at the position of an integer is that integer. So two numbers print the same if and only if
they stand at the same position, which is what equality asks.

## Contents

* `Value.simplest`, `Value.IsSimplest` — the integer of a double that is one, and the numbers left alone by that.
* `Value.display_eq_iff` — equal text, equal number.
-/

namespace LineaLang

/-! ## The simplest number at a position -/

namespace Value

open Calculation

/-- **The simplest number** of the same value: the integer that a double is, if it is one. -/
def simplest : Value → Value
  | .float x =>
    match x.toInt? with
    | some n => .int n
    | .none => .float x
  | v => v

theorem simplest_of_toInt? {x : Binary64} {n : Int} (h : x.toInt? = some n) : (Value.float x).simplest = .int n := by
  simp only [simplest, h]

theorem simplest_of_fraction {x : Binary64} (h : x.toInt? = Option.none) : (Value.float x).simplest = .float x := by
  simp only [simplest, h]

/-- A number that is simplest: no double that is an integer. -/
structure IsSimplest (v : Value) : Prop where
  isNumber : v.isNumber = true
  fraction : ∀ x, v = .float x → x.toInt? = Option.none

theorem isSimplest_int (n : Int) : (Value.int n).IsSimplest where
  isNumber := rfl
  fraction _ h := Value.noConfusion h

theorem isSimplest_simplest {v : Value} (h : v.isNumber = true) : v.simplest.IsSimplest := by
  cases v with
  | int n => exact isSimplest_int n
  | float x =>
    cases hx : x.toInt? with
    | some n =>
      rw [simplest_of_toInt? hx]
      exact isSimplest_int n
    | none =>
      rw [simplest_of_fraction hx]
      refine ⟨rfl, fun y hy => ?_⟩
      obtain rfl : x = y := by injection hy
      exact hx
  | _ => cases h

/-- A double without a fraction prints as the integer that it is. -/
theorem display_simplest (v : Value) : v.simplest.display = v.display := by
  cases v with
  | float x =>
    cases hx : x.toInt? with
    | some n =>
      rw [simplest_of_toInt? hx]
      simp only [display, plain, repr, Binary64.display, hx]
    | none => rw [simplest_of_fraction hx]
  | _ => rfl

/-- And it stands where that integer does. -/
theorem standsAt_simplest {v : Value} {x : Rank} (h : StandsAt v x) : StandsAt v.simplest x := by
  cases v with
  | float d =>
    cases hd : d.toInt? with
    | some n =>
      rw [simplest_of_toInt? hd]
      refine ⟨rfl, ?_⟩
      rw [← h.rank]
      exact (Binary64.toInt?_eq_some_iff.mp hd).symm
    | none =>
      rw [simplest_of_fraction hd]
      exact h
  | _ => exact h

/-- **A simplest number is told by its text**, from which it is read back. -/
theorem IsSimplest.eq_of_display {v w : Value} (hv : v.IsSimplest) (hw : w.IsSimplest) (h : v.display = w.display) :
    v = w := by
  have hshown : ∀ {v : Value}, v.IsSimplest → ofOperand? v.display = some v := by
    intro v hv
    have hformat : v.display = v.formatNumber := by
      cases v with
      | int n | float x => rfl
      | _ => cases hv.isNumber
    rw [hformat, ofOperand?_formatNumber hv.isNumber hv.fraction]
  have hread := hshown hv
  rw [h, hshown hw] at hread
  exact (Option.some.inj hread).symm

/-- **A simplest number is told by its position.** -/
theorem IsSimplest.eq_of_standsAt {v w : Value} (hv : v.IsSimplest) (hw : w.IsSimplest) {x : Rank}
    (hx : StandsAt v x) (hx' : StandsAt w x) : v = w := by
  have hrank : v.rank? = w.rank? := hx.rank.trans hx'.rank.symm
  -- No double that is simplest stands where an integer does.
  have hapart : ∀ {m : Int} {d : Binary64}, d.toInt? = Option.none → ¬ some (Rank.ofInt m) = d.rank? := by
    intro m d hd h
    rw [Binary64.toInt?_eq_some_iff.mpr h.symm] at hd
    cases hd
  cases v with
  | int m =>
    cases w with
    | int n => rw [Rank.ofInt_inj (Option.some.inj hrank)]
    | float d => exact absurd hrank (hapart (hw.fraction d rfl))
    | _ => cases hw.isNumber
  | float c =>
    cases w with
    | int n => exact absurd hrank.symm (hapart (hv.fraction c rfl))
    | float d => rw [Binary64.eq_of_rank? (hv.fraction c rfl) hrank]
    | _ => cases hw.isNumber
  | _ => cases hv.isNumber

/-! ## Text and equality -/

/-- **Two numbers print the same exactly if they are equal**, whichever kinds they are of. -/
theorem display_eq_iff {a b : Value} (ha : a.isNumber = true) (hb : b.isNumber = true) (ha' : a.isNan = false)
    (hb' : b.isNan = false) : a.display = b.display ↔ compare .eq a b = .ok true := by
  obtain ⟨x, hx⟩ := exists_standsAt ha ha'
  obtain ⟨y, hy⟩ := exists_standsAt hb hb'
  have hsimplest := isSimplest_simplest ha
  have hsimplest' := isSimplest_simplest hb
  have hcompare : compare .eq a b = .ok true ↔ x = y := by
    rw [(comparesAs_of_standsAt hx hy).compare_eq.1, Except.ok.injEq, decide_eq_true_eq]
  rw [hcompare]
  constructor
  · intro h
    rw [← display_simplest a, ← display_simplest b] at h
    have hsame := hsimplest.eq_of_display hsimplest' h
    have hrank := (standsAt_simplest hx).rank
    rw [hsame, (standsAt_simplest hy).rank] at hrank
    exact (Option.some.inj hrank).symm
  · rintro rfl
    rw [← display_simplest a, ← display_simplest b,
      hsimplest.eq_of_standsAt hsimplest' (standsAt_simplest hx) (standsAt_simplest hy)]

/-- **A double with more digits than it can hold**: the double nearest to `10 ^ 23` is another integer, as which it
    prints and to which it is equal; `10 ^ 23` itself it is not. -/
theorem display_eq_iff_power_of_ten :
    (display (.float (Binary64.ofInt 100000000000000000000000)) = display (.int 99999999999999991611392) ↔
        compare .eq (.float (Binary64.ofInt 100000000000000000000000)) (.int 99999999999999991611392) = .ok true) ∧
      (display (.float (Binary64.ofInt 100000000000000000000000)) = display (.int 100000000000000000000000) ↔
        compare .eq (.float (Binary64.ofInt 100000000000000000000000)) (.int 100000000000000000000000) = .ok true) ∧
      Value.equal (.float (Binary64.ofInt 100000000000000000000000)) (.int 99999999999999991611392) = true ∧
      Value.equal (.float (Binary64.ofInt 100000000000000000000000)) (.int 100000000000000000000000) = false := by
  have hnan : isNan (.float (Binary64.ofInt 100000000000000000000000)) = false := by decide +kernel
  refine ⟨display_eq_iff rfl rfl hnan rfl, display_eq_iff rfl rfl hnan rfl, ?_, ?_⟩
  · decide +kernel
  · decide +kernel

end Value

end LineaLang
