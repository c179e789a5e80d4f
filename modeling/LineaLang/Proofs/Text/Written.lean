import LineaLang.Proofs.Text.Numeral

/-!
# `LineaLang.Proofs.Text.Written` — numerals as they are written

A numeral is written with the ten digits, without zeros in front, and is read back as its number. Its length
tells between which powers of ten the number lies, and a factor of ten is one more zero at the end; the
decimals of `LineaLang.Number` are compared by these two facts.

## Contents

* `Numeral.isRun_ofNat`, `Numeral.head?_ofNat` — what a numeral looks like.
* `Numeral.value?_ofNat` — what it denotes.
* `Numeral.length_ofNat_le_iff`, `Numeral.ofNat_mul_pow` — its length, and factors of ten.
* `Numeral.value?_zeros_append`, `Numeral.value?_append_zeros` — more zeros in front of digits, or after them.
-/

namespace LineaLang

attribute [local instance (2000)] instPowNat

/-! ## The ten digits -/

namespace CodePoint

theorem isAsciiDigit_ofDigit (n : Nat) : (ofDigit n).isAsciiDigit = true := by
  have hn : n % 10 < 10 := Nat.mod_lt n (by decide)
  have hlow : 0x30 ≤ (ofDigit n).val := Nat.le_add_right 0x30 _
  have hhigh : (ofDigit n).val ≤ 0x39 := Nat.add_le_add_left (Nat.le_of_lt_succ hn) 0x30
  simp [isAsciiDigit, within, hlow, hhigh]

/-- The ten digits are digits of a script. -/
theorem digit?_of_isAsciiDigit {c : CodePoint} (h : c.isAsciiDigit = true) : c.digit? = some (c.val - 0x30) := by
  have hfind : (Digit.zeros.find? fun first => c.within first (first + 9)) = some 0x30 := by
    rw [Digit.zeros]
    exact List.find?_cons_of_pos h
  rw [digit?, hfind, Option.map_some]

theorem isDigit_of_isAsciiDigit {c : CodePoint} (h : c.isAsciiDigit = true) : c.isDigit = true := by
  rw [isDigit, digit?_of_isAsciiDigit h, Option.isSome_some]

theorem digit?_ofDigit (n : Nat) : (ofDigit n).digit? = some (n % 10) := by
  rw [digit?_of_isAsciiDigit (isAsciiDigit_ofDigit n)]
  simp [ofDigit]

end CodePoint

theorem Text.IsRun.isDigit {text : Text} (h : text.IsRun CodePoint.isAsciiDigit) :
    text.IsRun CodePoint.isDigit :=
  ⟨h.1, fun c hc => CodePoint.isDigit_of_isAsciiDigit (h.2 c hc)⟩

namespace Numeral

/-! ## Numerals -/

theorem natOnto_eq (n : Nat) (tail : Text) : natOnto n tail = ofNat n ++ tail := by
  induction n using Nat.strongRecOn generalizing tail with
  | ind n ih =>
    by_cases h : n < 10
    · rw [ofNat, natOnto, if_pos h, natOnto, if_pos h, List.singleton_append]
    · rw [ofNat, natOnto, if_neg h, ih (n / 10) (by omega), natOnto, if_neg h, ih (n / 10) (by omega) [_],
        List.append_assoc, List.singleton_append]

theorem ofNat_of_lt {n : Nat} (h : n < 10) : ofNat n = [CodePoint.ofDigit n] := by
  rw [ofNat, natOnto, if_pos h]

theorem ofNat_of_le {n : Nat} (h : 10 ≤ n) : ofNat n = ofNat (n / 10) ++ [CodePoint.ofDigit n] := by
  rw [ofNat, natOnto, if_neg (Nat.not_lt.mpr h), natOnto_eq]

/-- A numeral consists of the ten digits. -/
theorem isRun_ofNat (n : Nat) : (ofNat n).IsRun CodePoint.isAsciiDigit := by
  induction n using Nat.strongRecOn with
  | ind n ih =>
    have hlast : Text.IsRun CodePoint.isAsciiDigit [CodePoint.ofDigit n] :=
      ⟨List.cons_ne_nil _ _, by simp [CodePoint.isAsciiDigit_ofDigit]⟩
    by_cases h : n < 10
    · rw [ofNat_of_lt h]
      exact hlast
    · rw [ofNat_of_le (by omega)]
      exact (ih (n / 10) (by omega)).append hlast

/-- Digits in two parts are read one part after the other. -/
theorem valueFrom_append (acc : Nat) (a b : Text) :
    valueFrom acc (a ++ b) = (valueFrom acc a).bind fun n => valueFrom n b := by
  induction a generalizing acc with
  | nil => rfl
  | cons c rest ih =>
    rw [List.cons_append, valueFrom, valueFrom]
    cases c.digit? with
    | none => rfl
    | some d => exact ih (10 * acc + d)

theorem valueFrom_zero_ofNat (n : Nat) : valueFrom 0 (ofNat n) = some n := by
  induction n using Nat.strongRecOn with
  | ind n ih =>
    by_cases h : n < 10
    · rw [ofNat_of_lt h, valueFrom, CodePoint.digit?_ofDigit, Nat.mod_eq_of_lt h]
      simp [valueFrom]
    · rw [ofNat_of_le (by omega), valueFrom_append, ih (n / 10) (by omega), Option.bind_some, valueFrom,
        CodePoint.digit?_ofDigit]
      simp only [valueFrom]
      rw [Nat.div_add_mod]

/-- **A numeral denotes its number.** -/
theorem value?_ofNat (n : Nat) : value? (ofNat n) = some n := by
  rw [value?, if_neg (by simpa using (isRun_ofNat n).1), valueFrom_zero_ofNat]

/-- **How many digits a number has.** -/
theorem length_ofNat_le_iff {n k : Nat} (hk : 0 < k) : (ofNat n).length ≤ k ↔ n < 10 ^ k := by
  induction n using Nat.strongRecOn generalizing k with
  | ind n ih =>
    by_cases h : n < 10
    · have hpow : 10 ^ 1 ≤ 10 ^ k := Nat.pow_le_pow_right (by decide) hk
      rw [ofNat_of_lt h, List.length_singleton]
      omega
    · obtain ⟨j, rfl⟩ := Nat.exists_eq_add_one_of_ne_zero (Nat.ne_of_gt hk)
      rw [ofNat_of_le (by omega), List.length_append, List.length_singleton, Nat.add_le_add_iff_right,
        Nat.pow_succ]
      cases j with
      | zero =>
        have hpos := List.length_pos_iff.mpr (isRun_ofNat (n / 10)).1
        omega
      | succ j =>
        rw [ih (n / 10) (by omega) (Nat.succ_pos j)]
        exact Nat.div_lt_iff_lt_mul (by decide)

theorem ofNat_mul_ten {n : Nat} (h : n ≠ 0) : ofNat (n * 10) = ofNat n ++ [CodePoint.ofDigit 0] := by
  rw [ofNat_of_le (by omega), Nat.mul_div_cancel n (by decide)]
  congr 2
  exact CodePoint.ext_val (by simp [CodePoint.ofDigit])

/-- A factor of ten is a zero at the end. -/
theorem ofNat_mul_pow {n : Nat} (h : n ≠ 0) (k : Nat) :
    ofNat (n * 10 ^ k) = ofNat n ++ List.replicate k (CodePoint.ofDigit 0) := by
  induction k with
  | zero => simp
  | succ k ih =>
    have hne : n * 10 ^ k ≠ 0 := Nat.mul_ne_zero h (Nat.ne_of_gt (Nat.pow_pos (by decide)))
    rw [Nat.pow_succ, ← Nat.mul_assoc, ofNat_mul_ten hne, ih, List.append_assoc, List.replicate_succ']

/-- Only zero is written with a zero in front. -/
theorem head?_ofNat {n : Nat} (h : n ≠ 0) : (ofNat n).head? ≠ some (CodePoint.ofDigit 0) := by
  induction n using Nat.strongRecOn with
  | ind n ih =>
    by_cases hn : n < 10
    · rw [ofNat_of_lt hn]
      intro heq
      have hval := congrArg CodePoint.val (Option.some.inj heq)
      simp only [CodePoint.ofDigit] at hval
      omega
    · obtain ⟨c, rest, hc⟩ := List.exists_cons_of_ne_nil (isRun_ofNat (n / 10)).1
      have hhead := ih (n / 10) (by omega) (by omega)
      rw [ofNat_of_le (by omega), hc, List.cons_append]
      rwa [hc] at hhead

/-! ## Zeros at either end -/

/-- Zeros in front do not count. -/
theorem valueFrom_zeros_append (k : Nat) (text : Text) :
    valueFrom 0 (List.replicate k (CodePoint.ofDigit 0) ++ text) = valueFrom 0 text := by
  induction k with
  | zero => rfl
  | succ k ih =>
    rw [List.replicate_succ, List.cons_append, valueFrom, CodePoint.digit?_ofDigit]
    exact ih

/-- Zeros at the end are factors of ten. -/
theorem valueFrom_zeros (n k : Nat) :
    valueFrom n (List.replicate k (CodePoint.ofDigit 0)) = some (n * 10 ^ k) := by
  induction k generalizing n with
  | zero => simp [valueFrom]
  | succ k ih =>
    rw [List.replicate_succ, valueFrom, CodePoint.digit?_ofDigit]
    simp only [Nat.zero_mod, Nat.add_zero]
    rw [ih, Nat.pow_succ', Nat.mul_comm 10 n, Nat.mul_assoc]

theorem value?_zeros_append {k : Nat} {text : Text} (h : text ≠ []) :
    value? (List.replicate k (CodePoint.ofDigit 0) ++ text) = value? text := by
  rw [value?, value?, if_neg (by simp [h]), if_neg (by simpa using h), valueFrom_zeros_append]

theorem value?_append_zeros {text : Text} {n : Nat} (h : value? text = some n) (k : Nat) :
    value? (text ++ List.replicate k (CodePoint.ofDigit 0)) = some (n * 10 ^ k) := by
  rw [value?] at h ⊢
  split at h
  · cases h
  · rename_i hne
    rw [if_neg (by simp_all), valueFrom_append, h, Option.bind_some, valueFrom_zeros]

end Numeral

end LineaLang
