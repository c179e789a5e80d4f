import LineaLang.Proofs.Number.Rounding

/-!
# `LineaLang.Proofs.Number.Spelling` — decimals as they are written

A decimal is written as digits, a fraction and an exponent, the last two perhaps missing. `Decimal.Spelling`
has these parts, so that whoever reads the text can take them one after the other; `Spelling.decimal` is the
decimal that they make up, which reading finds.

A literal of a double is such a spelling. Its layout moves the point and adds zeros, but the value stays that
of the shortest digits.

## Contents

* `Decimal.Spelling`, with `text` and `decimal` — the parts, their text and their value.
* `Decimal.Spelling.readUnsigned?_text` — the text is read as the decimal.
* `Binary64.belowOne`, `aboveOne`, `across`, `scientific` — the four layouts of a literal.
* `Binary64.exists_spelling` — the literal of a magnitude is a spelling that denotes it.
-/

namespace LineaLang

attribute [local instance (2000)] instPowNat

/-! ## Spellings -/

namespace Decimal

/-- **The parts of a decimal as it is written**, with the ten digits and no sign: digits without a zero in
    front, unless it is the only one; perhaps a fraction; perhaps an exponent. -/
structure Spelling where
  whole : Text
  fraction : Text
  /-- The sign and the digits of an exponent. -/
  power? : Option (Bool × Text)
  whole_isRun : whole.IsRun CodePoint.isAsciiDigit
  whole_head : whole.head? = some (CodePoint.ofDigit 0) → whole = [CodePoint.ofDigit 0]
  fraction_isDigit : ∀ c ∈ fraction, c.isAsciiDigit = true
  power_isRun : ∀ power ∈ power?, power.2.IsRun CodePoint.isAsciiDigit

namespace Spelling

/-- A fraction after its point, unless it is empty. -/
def pointText (s : Spelling) : Text := if s.fraction = [] then [] else CodePoint.ofChar '.' :: s.fraction

/-- An exponent after its mark and its sign. -/
def powerText (s : Spelling) : Text :=
  match s.power? with
  | none => []
  | some (negative, digits) =>
    CodePoint.ofChar 'e' :: (if negative then CodePoint.ofChar '-' else CodePoint.ofChar '+') :: digits

/-- **The text of a spelling.** -/
def text (s : Spelling) : Text := s.whole ++ (s.pointText ++ s.powerText)

/-- The exponent of a spelling. -/
def power (s : Spelling) : Int :=
  match s.power? with
  | none => 0
  | some (negative, digits) => Binary64.signed negative ((Numeral.value? digits).getD 0)

/-- **The decimal of a spelling**: all its digits, and the exponent that puts the point in its place. -/
def decimal (s : Spelling) : Decimal :=
  ⟨(Numeral.value? (s.whole ++ s.fraction)).getD 0, s.power - s.fraction.length⟩

/-- Has it a fraction or an exponent? -/
def IsFractional (s : Spelling) : Prop := s.fraction ≠ [] ∨ s.power?.isSome

variable (s : Spelling)

theorem digits_isRun : Text.IsRun CodePoint.isDigit (s.whole ++ s.fraction) := by
  refine ⟨List.append_ne_nil_of_left_ne_nil s.whole_isRun.1 _, ?_⟩
  intro c hc
  rcases List.mem_append.mp hc with h | h
  · exact CodePoint.isDigit_of_isAsciiDigit (s.whole_isRun.2 c h)
  · exact CodePoint.isDigit_of_isAsciiDigit (s.fraction_isDigit c h)

theorem value?_digits : Numeral.value? (s.whole ++ s.fraction) = some s.decimal.digits := by
  obtain ⟨n, hn⟩ := Numeral.value?_of_isRun s.digits_isRun
  rw [decimal, hn, Option.getD_some]

theorem not_mem_mantissa {mark : CodePoint} (hm : mark.isDigit = false) (hpoint : mark ≠ CodePoint.ofChar '.') :
    mark ∉ s.whole ++ s.pointText := by
  have hdigits := s.digits_isRun.not_mem mark hm
  unfold pointText
  split
  · simp_all
  · simp_all

theorem readMantissa?_eq :
    readMantissa? (s.whole ++ s.pointText) = some ⟨s.decimal.digits, -(s.fraction.length : Int)⟩ := by
  have hpoint : CodePoint.ofChar '.' ∉ s.whole := s.whole_isRun.isDigit.not_mem '.' (by decide)
  have hvalue := s.value?_digits
  unfold pointText
  by_cases hf : s.fraction = []
  · rw [hf, List.append_nil] at hvalue
    rw [if_pos hf, List.append_nil, readMantissa?, Text.splitAt?_eq_none hpoint]
    simp [hvalue, hf]
  · rw [if_neg hf, readMantissa?, Text.splitAt?_append hpoint]
    simp [hvalue]

theorem readExponent?_eq {negative : Bool} {digits : Text} (h : s.power? = some (negative, digits)) :
    readExponent? ((if negative then CodePoint.ofChar '-' else CodePoint.ofChar '+') :: digits) = some s.power := by
  obtain ⟨n, hn⟩ := Numeral.value?_of_isRun (s.power_isRun _ h).isDigit
  have hsign : Text.splitSign ((if negative then CodePoint.ofChar '-' else CodePoint.ofChar '+') :: digits) =
      (negative, digits) := by
    cases negative <;> rfl
  simp [readExponent?, hsign, hn, power, h]

/-- **A spelling is read as its decimal.** -/
theorem readUnsigned?_text : readUnsigned? s.text = some s.decimal := by
  have hlower : CodePoint.ofChar 'e' ∉ s.whole ++ s.pointText := s.not_mem_mantissa (by decide) (by decide)
  have hupper : CodePoint.ofChar 'E' ∉ s.whole ++ s.pointText := s.not_mem_mantissa (by decide) (by decide)
  rw [text, ← List.append_assoc, powerText]
  cases hpower : s.power? with
  | none =>
    simp only [List.append_nil]
    rw [readUnsigned?, Text.splitAt?_eq_none hlower, Text.splitAt?_eq_none hupper]
    simp [readMantissa?_eq, decimal, power, hpower]
  | some entry =>
    obtain ⟨negative, digits⟩ := entry
    simp only
    rw [readUnsigned?, Text.splitAt?_append hlower]
    simp [readMantissa?_eq, s.readExponent?_eq hpower, decimal, Int.sub_eq_add_neg, Int.add_comm]

end Spelling

end Decimal

/-! ## Digits -/

namespace Binary64

open Decimal

/-- Without its zeros at the end a numeral is that of a number without factors of ten. -/
theorem stripZeros_ofNat {n : Nat} (h : n ≠ 0) :
    ∃ m k : Nat, m ≠ 0 ∧ n = m * 10 ^ k ∧ stripZeros (Numeral.ofNat n) = Numeral.ofNat m := by
  induction n using Nat.strongRecOn with
  | ind n ih =>
    -- A zero at the end is a factor of ten; without one the numeral stays.
    by_cases hten : n % 10 = 0
    · obtain ⟨m, k, hm, hn, hstrip⟩ := ih (n / 10) (by omega) (by omega)
      refine ⟨m, k + 1, hm, by rw [Nat.pow_succ, ← Nat.mul_assoc, ← hn]; omega, ?_⟩
      rw [← hstrip, Numeral.ofNat_of_le (by omega), stripZeros, stripZeros, List.reverse_append]
      have hzero : CodePoint.ofDigit n = CodePoint.ofDigit 0 := CodePoint.ext_val (by simp [CodePoint.ofDigit, hten])
      simp [hzero]
    · refine ⟨n, 0, h, by simp, ?_⟩
      have hne : CodePoint.ofDigit n ≠ CodePoint.ofDigit 0 := by
        intro heq
        have hval := congrArg CodePoint.val heq
        simp only [CodePoint.ofDigit] at hval
        omega
      have hlast : ∃ front, Numeral.ofNat n = front ++ [CodePoint.ofDigit n] := by
        by_cases hn : n < 10
        · exact ⟨[], Numeral.ofNat_of_lt hn⟩
        · exact ⟨_, Numeral.ofNat_of_le (by omega)⟩
      obtain ⟨front, hfront⟩ := hlast
      simp [hfront, stripZeros, hne]

/-- A numeral has no zero in front, unless it is that of zero. -/
theorem whole_head {n : Nat} (h : n ≠ 0) {rest : Text} :
    (Numeral.ofNat n ++ rest).head? = some (CodePoint.ofDigit 0) →
      Numeral.ofNat n ++ rest = [CodePoint.ofDigit 0] := by
  obtain ⟨c, more, hc⟩ := List.exists_cons_of_ne_nil (Numeral.isRun_ofNat n).1
  have hhead := Numeral.head?_ofNat h
  rw [hc] at hhead ⊢
  intro heq
  exact absurd heq hhead

theorem isAsciiDigit_of_mem_zeros {k : Nat} {c : CodePoint} (h : c ∈ List.replicate k (CodePoint.ofDigit 0)) :
    c.isAsciiDigit = true := by
  rw [List.eq_of_mem_replicate h]
  rfl

/-! ## Layouts -/

/-- **Does a spelling have the value `m * 10 ^ e`**, perhaps with more zeros in its digits? -/
def Spells (s : Spelling) (m : Nat) (e : Int) : Prop :=
  ∃ k : Nat, s.decimal.digits = m * 10 ^ k ∧ s.decimal.exponent + k = e

theorem Spells.toBinary64 {s : Spelling} {m : Nat} {e : Int} (h : Spells s m e) (negative : Bool) :
    s.decimal.toBinary64 negative = Decimal.toBinary64 negative ⟨m, e⟩ := by
  obtain ⟨k, hdigits, hexponent⟩ := h
  rw [← hexponent, ← toBinary64_mul_pow, ← hdigits]

section Layouts

variable (m : Nat)

/-- The digits of `m` behind the point, after `k` zeros. -/
def belowOne (k : Nat) : Spelling where
  whole := [CodePoint.ofDigit 0]
  fraction := List.replicate k (CodePoint.ofDigit 0) ++ Numeral.ofNat m
  power? := none
  whole_isRun := ⟨List.cons_ne_nil _ _, by simp [CodePoint.isAsciiDigit_ofDigit]⟩
  whole_head := fun _ => rfl
  fraction_isDigit := by
    intro c hc
    rcases List.mem_append.mp hc with h | h
    · exact isAsciiDigit_of_mem_zeros h
    · exact (Numeral.isRun_ofNat m).2 c h
  power_isRun := fun _ h => by cases h

theorem spells_belowOne (k : Nat) : Spells (belowOne m k) m (-(k : Int) - (Numeral.ofNat m).length) := by
  have hvalue : Numeral.value? ([CodePoint.ofDigit 0] ++ (List.replicate k (CodePoint.ofDigit 0) ++ Numeral.ofNat m))
      = some m := by
    rw [← List.append_assoc, ← List.replicate_one, List.replicate_append_replicate,
      Numeral.value?_zeros_append (Numeral.isRun_ofNat m).1, Numeral.value?_ofNat]
  refine ⟨0, ?_, ?_⟩
  · simp only [Spelling.decimal, belowOne, hvalue, Option.getD_some, Nat.pow_zero, Nat.mul_one]
  · simp [Spelling.decimal, Spelling.power, belowOne]
    omega

/-- The digits of `m` in front of the point, and zeros after them. -/
def aboveOne (hm : m ≠ 0) (k : Nat) : Spelling where
  whole := Numeral.ofNat m ++ List.replicate k (CodePoint.ofDigit 0)
  fraction := [CodePoint.ofDigit 0]
  power? := none
  whole_isRun := by
    refine ⟨List.append_ne_nil_of_left_ne_nil (Numeral.isRun_ofNat m).1 _, ?_⟩
    intro c hc
    rcases List.mem_append.mp hc with h | h
    · exact (Numeral.isRun_ofNat m).2 c h
    · exact isAsciiDigit_of_mem_zeros h
  whole_head := whole_head hm
  fraction_isDigit := by simp [CodePoint.isAsciiDigit_ofDigit]
  power_isRun := fun _ h => by cases h

theorem spells_aboveOne (hm : m ≠ 0) (k : Nat) : Spells (aboveOne m hm k) m k := by
  have hvalue : Numeral.value? (Numeral.ofNat m ++ List.replicate k (CodePoint.ofDigit 0) ++ [CodePoint.ofDigit 0])
      = some (m * 10 ^ (k + 1)) := by
    rw [List.append_assoc, ← List.replicate_succ', Numeral.value?_append_zeros (Numeral.value?_ofNat m)]
  refine ⟨k + 1, ?_, ?_⟩
  · simp only [Spelling.decimal, aboveOne, hvalue, Option.getD_some]
  · show (0 : Int) - ((1 : Nat) : Int) + ((k + 1 : Nat) : Int) = k
    omega

/-- The digits of `m` on both sides of the point, `k` of them in front of it. -/
def across (hm : m ≠ 0) (k : Nat) (hk : 0 < k) : Spelling where
  whole := (Numeral.ofNat m).take k
  fraction := (Numeral.ofNat m).drop k
  power? := none
  whole_isRun := by
    refine ⟨?_, ?_⟩
    · simp [(Numeral.isRun_ofNat m).1, Nat.ne_of_gt hk]
    · intro c hc
      exact (Numeral.isRun_ofNat m).2 c (List.mem_of_mem_take hc)
  whole_head := by
    rw [List.head?_take, if_neg (Nat.ne_of_gt hk)]
    intro heq
    exact absurd heq (Numeral.head?_ofNat hm)
  fraction_isDigit := fun c hc => (Numeral.isRun_ofNat m).2 c (List.mem_of_mem_drop hc)
  power_isRun := fun _ h => by cases h

theorem spells_across (hm : m ≠ 0) {k : Nat} (hk : 0 < k) (hlen : k ≤ (Numeral.ofNat m).length) :
    Spells (across m hm k hk) m (k - (Numeral.ofNat m).length) := by
  refine ⟨0, ?_, ?_⟩
  · simp [Spelling.decimal, across, Numeral.value?_ofNat]
  · simp [Spelling.decimal, Spelling.power, across]
    omega

/-- The digits of `m` with a point after the first, if there are more, and an exponent of at least `width`
    digits. -/
def scientific (hm : m ≠ 0) (width : Nat) (exponent : Int) : Spelling where
  whole := (Numeral.ofNat m).take 1
  fraction := (Numeral.ofNat m).drop 1
  power? := some (decide (exponent < 0),
    padding width (Numeral.ofNat exponent.natAbs) ++ Numeral.ofNat exponent.natAbs)
  whole_isRun := (across m hm 1 Nat.one_pos).whole_isRun
  whole_head := (across m hm 1 Nat.one_pos).whole_head
  fraction_isDigit := (across m hm 1 Nat.one_pos).fraction_isDigit
  power_isRun := by
    rintro _ ⟨⟩
    refine ⟨List.append_ne_nil_of_right_ne_nil _ (Numeral.isRun_ofNat _).1, ?_⟩
    intro c hc
    rcases List.mem_append.mp hc with h | h
    · exact isAsciiDigit_of_mem_zeros h
    · exact (Numeral.isRun_ofNat _).2 c h

theorem spells_scientific (hm : m ≠ 0) (width : Nat) (exponent : Int) :
    Spells (scientific m hm width exponent) m (exponent + 1 - (Numeral.ofNat m).length) := by
  have hpos := List.length_pos_iff.mpr (Numeral.isRun_ofNat m).1
  have hpower : Numeral.value? (padding width (Numeral.ofNat exponent.natAbs) ++ Numeral.ofNat exponent.natAbs)
      = some exponent.natAbs := by
    rw [padding, Numeral.value?_zeros_append (Numeral.isRun_ofNat _).1, Numeral.value?_ofNat]
  have hsigned : signed (decide (exponent < 0)) exponent.natAbs = exponent := by
    unfold signed
    by_cases hneg : exponent < 0
    · rw [if_pos (decide_eq_true hneg)]
      omega
    · rw [if_neg (by simpa using hneg)]
      omega
  refine ⟨0, ?_, ?_⟩
  · simp only [Spelling.decimal, scientific, List.take_append_drop, Numeral.value?_ofNat, Option.getD_some,
      Nat.pow_zero, Nat.mul_one]
  · simp [Spelling.decimal, Spelling.power, scientific, hpower, hsigned]
    omega

end Layouts

theorem zeroPoint : Text.ofString "0." = [CodePoint.ofDigit 0, CodePoint.ofChar '.'] := by decide

theorem point : Text.ofString "." = [CodePoint.ofChar '.'] := by decide

theorem text_belowOne (m k : Nat) :
    (belowOne m k).text = Text.ofString "0." ++ List.replicate k (CodePoint.ofDigit 0) ++ Numeral.ofNat m := by
  rw [zeroPoint]
  simp [Spelling.text, Spelling.pointText, Spelling.powerText, belowOne, (Numeral.isRun_ofNat m).1]

theorem text_aboveOne {m : Nat} (hm : m ≠ 0) {n : Nat} (h : (Numeral.ofNat m).length ≤ n + 1) :
    (aboveOne m hm (n + 1 - (Numeral.ofNat m).length)).text =
      Layout.writePoint (Numeral.ofNat m) (.ofNat (n + 1)) := by
  simp [Spelling.text, Spelling.pointText, Spelling.powerText, aboveOne, Layout.writePoint, point,
    List.take_of_length_le h, List.drop_eq_nil_of_le h]

theorem text_across {m : Nat} (hm : m ≠ 0) {n : Nat} (h : n + 1 < (Numeral.ofNat m).length) :
    (across m hm (n + 1) (Nat.succ_pos n)).text = Layout.writePoint (Numeral.ofNat m) (.ofNat (n + 1)) := by
  have hrest : (Numeral.ofNat m).drop (n + 1) ≠ [] := by simp [h]
  have htaken : ((Numeral.ofNat m).take (n + 1)).length = n + 1 := by simp; omega
  simp [Spelling.text, Spelling.pointText, Spelling.powerText, across, Layout.writePoint, point, hrest, htaken]

theorem text_scientific {m : Nat} (hm : m ≠ 0) (l : Layout) (hl : l.mark = CodePoint.ofChar 'e') {place : Int}
    (h : ¬ (l.leastPlace ≤ place ∧ place ≤ l.greatestPlace)) :
    (scientific m hm l.exponentWidth (place - 1)).text = l.write (Numeral.ofNat m) place := by
  obtain ⟨first, rest, hc⟩ := List.exists_cons_of_ne_nil (Numeral.isRun_ofNat m).1
  unfold Layout.write
  rw [if_neg h, hc]
  cases rest <;>
    simp [Spelling.text, Spelling.pointText, Spelling.powerText, scientific, Layout.writeExponent, hc, hl]

/-- **The literal layout is a spelling** of the value that it lays out. -/
theorem exists_spelling_write {m : Nat} (hm : m ≠ 0) (place : Int) :
    ∃ s : Spelling, s.text = literalLayout.write (Numeral.ofNat m) place ∧ s.IsFractional ∧
      Spells s m (place - (Numeral.ofNat m).length) := by
  have hne := (Numeral.isRun_ofNat m).1
  by_cases hpoint : literalLayout.leastPlace ≤ place ∧ place ≤ literalLayout.greatestPlace
  · have hwrite : literalLayout.write (Numeral.ofNat m) place = Layout.writePoint (Numeral.ofNat m) place := by
      unfold Layout.write
      rw [if_pos hpoint]
    rw [hwrite]
    rcases place with (_ | n) | n
    · refine ⟨belowOne m 0, ?_, .inl (by simp [belowOne, hne]), by simpa using spells_belowOne m 0⟩
      rw [text_belowOne, List.replicate_zero, List.append_nil]
      rfl
    · -- Either the digits end in front of the point, or some are left for the fraction.
      by_cases hlen : (Numeral.ofNat m).length ≤ n + 1
      · refine ⟨aboveOne m hm _, text_aboveOne hm hlen, .inl (List.cons_ne_nil _ _), ?_⟩
        have h := spells_aboveOne m hm (n + 1 - (Numeral.ofNat m).length)
        rwa [Int.ofNat_sub hlen] at h
      · have hlen' := Nat.not_le.mp hlen
        exact ⟨across m hm (n + 1) (Nat.succ_pos n), text_across hm hlen', .inl (by simp [across, hlen']),
          spells_across m hm (Nat.succ_pos n) (Nat.le_of_lt hlen')⟩
    · exact ⟨belowOne m (n + 1), text_belowOne m (n + 1), .inl (by simp [belowOne, hne]), spells_belowOne m (n + 1)⟩
  · refine ⟨scientific m hm literalLayout.exponentWidth (place - 1), text_scientific hm literalLayout rfl hpoint,
      .inr rfl, ?_⟩
    have h := spells_scientific m hm literalLayout.exponentWidth (place - 1)
    rwa [Int.sub_add_cancel] at h

/-- **A decimal in the literal layout** is a spelling that denotes the same double. -/
theorem exists_spelling_decimal {d : Decimal} (h : d.digits ≠ 0) :
    ∃ s : Spelling, s.text = literalLayout.write (stripZeros (Numeral.ofNat d.digits)) d.place ∧
      s.IsFractional ∧ ∀ negative, s.decimal.toBinary64 negative = d.toBinary64 negative := by
  obtain ⟨digits, exponent⟩ := d
  obtain ⟨m, k, hm, rfl, hstrip⟩ := stripZeros_ofNat h
  obtain ⟨s, htext, hs, hvalue⟩ := exists_spelling_write hm (place ⟨m * 10 ^ k, exponent⟩)
  refine ⟨s, by rw [htext, hstrip], hs, fun negative => ?_⟩
  have hplace : place ⟨m * 10 ^ k, exponent⟩ - (Numeral.ofNat m).length = exponent + k := by
    rw [place_mul_pow hm]
    exact Int.add_sub_cancel _ _
  rw [hvalue.toBinary64, hplace, ← toBinary64_mul_pow]

/-- **The literal of a magnitude** is a spelling of a decimal that denotes it. -/
theorem exists_spelling {units : Nat} (hr : Representable units) :
    ∃ s : Spelling, s.text = (if units = 0 then Text.ofString "0.0" else writeMagnitude units) ∧
      s.IsFractional ∧ ∀ negative, s.decimal.toBinary64 negative = .finite negative units hr := by
  by_cases h : units = 0
  · subst h
    refine ⟨belowOne 0 0, ?_, .inl (by simp [belowOne, (Numeral.isRun_ofNat 0).1]), fun negative => ?_⟩
    · rw [text_belowOne, if_pos rfl, Numeral.ofNat_of_lt (by decide)]
      decide
    · rw [(spells_belowOne 0 0).toBinary64, Decimal.toBinary64, if_pos (.inl rfl)]
      rfl
  · obtain ⟨s, htext, hs, hvalue⟩ := exists_spelling_decimal (shortest_digits_ne_zero h hr)
    refine ⟨s, ?_, hs, fun negative => ?_⟩
    · rw [if_neg h, htext, writeMagnitude]
    · rw [hvalue, toBinary64_shortest negative h hr]

end Binary64

end LineaLang
