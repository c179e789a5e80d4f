import LineaLang.Proofs.Number.Spelling
import LineaLang.Value.Display

/-!
# `LineaLang.Proofs.Number.Operand` — the literals that listings push

A listing shows a literal as text: a string between quotation marks, which are not escaped, and a number as a program
prints it. The text says which literal it was, but for one thing: a double without a fraction is shown as the integer
that it is. So all other literals can be read off the operand of the instruction that pushes them.

## Contents

* `Value.ofOperand?` — the literal that an operand denotes.
* `Value.ofOperand?_quoted`, `Value.ofOperand?_formatNumber` — strings and numbers denote themselves.
* `Value.head_formatNumber_ne` — a number of any kind is told from a string.
-/

namespace LineaLang

open Decimal

namespace Value

/-- **The literal that the operand of a push denotes**: behind a quotation mark the text up to the last one, else an
    integer if there are only digits under the sign, else a double. -/
def ofOperand? (operand : Text) : Option Value :=
  if operand.head? = some (CodePoint.ofChar '"') then some (.str operand.tail.dropLast)
  else
    match Numeral.value? operand.splitSign.2 with
    | some magnitude => some (.int (Binary64.signed operand.splitSign.1 magnitude))
    | .none => (Binary64.read? operand).map .float

/-- A string is read back, whatever it contains. -/
theorem ofOperand?_quoted (text : Text) :
    ofOperand? (Text.ofString "\"" ++ text ++ Text.ofString "\"") = some (.str text) := by
  have hquote : Text.ofString "\"" = [CodePoint.ofChar '"'] := by decide
  simp [ofOperand?, hquote]

end Value

/-! ## Signs -/

/-- A sign in front of a digit is split off. -/
theorem Text.splitSign_signText (negative : Bool) {text : Text} (h : text.head?.all CodePoint.isDigit) :
    Text.splitSign (Binary64.signText negative ++ text) = (negative, text) := by
  cases negative with
  | false => exact Text.splitSign_of_isDigit h
  | true => rfl

/-- A number under a sign does not begin with a quotation mark. -/
theorem Text.head_signed_ne {text : Text} (h : text.head?.all CodePoint.isDigit) (negative : Bool) (mark : CodePoint)
    (hdigit : mark.isDigit = false) (hsign : mark ≠ CodePoint.ofChar '-') :
    (Binary64.signText negative ++ text).head? ≠ some mark := by
  intro hhead
  cases negative with
  | false =>
    replace hhead : text.head? = some mark := hhead
    rw [hhead] at h
    exact absurd (hdigit.symm.trans h) Bool.false_ne_true
  | true => exact hsign (Option.some.inj hhead).symm

/-- The numeral of an integer is that of its magnitude under its sign. -/
theorem Numeral.ofInt_eq (n : Int) :
    Numeral.ofInt n = Binary64.signText (decide (n < 0)) ++ Numeral.ofNat n.natAbs := by
  cases n with
  | ofNat n =>
    rw [show decide (Int.ofNat n < 0) = false from decide_eq_false (Int.not_lt.mpr (Int.natCast_nonneg n))]
    rfl
  | negSucc n =>
    rw [decide_eq_true (Int.negSucc_lt_zero n)]
    rfl

theorem Binary64.signed_natAbs (n : Int) : Binary64.signed (decide (n < 0)) n.natAbs = n := by
  unfold Binary64.signed
  by_cases hn : n < 0
  · rw [if_pos (decide_eq_true hn), Int.ofNat_natAbs_of_nonpos (Int.le_of_lt hn), Int.neg_neg]
  · rw [if_neg (by rw [decide_eq_false hn]; exact Bool.false_ne_true), Int.natAbs_of_nonneg (Int.not_lt.mp hn)]

/-! ## Doubles -/

/-- **Only digits denote an integer.** -/
theorem Numeral.value?_eq_none {text : Text} (mark : CodePoint) (hmark : mark ∈ text) (hdigit : mark.digit? = none) :
    Numeral.value? text = none := by
  have hfrom : ∀ {text : Text} (acc : Nat), mark ∈ text → valueFrom acc text = none := by
    intro text
    induction text with
    | nil => exact fun _ h => absurd h List.not_mem_nil
    | cons c rest ih =>
      intro acc h
      rw [valueFrom]
      rcases List.mem_cons.mp h with rfl | hrest
      · rw [hdigit]
      · cases c.digit? with
        | none => rfl
        | some d => exact ih _ hrest
  rw [value?, hfrom 0 hmark]
  exact ite_self _

/-- A decimal with a fraction or an exponent is no integer numeral. -/
theorem Decimal.Spelling.value?_text {s : Spelling} (h : s.IsFractional) : Numeral.value? s.text = none := by
  rcases h with hfraction | hpower
  · refine Numeral.value?_eq_none (CodePoint.ofChar '.') ?_ (by decide)
    simp [Spelling.text, Spelling.pointText, hfraction]
  · obtain ⟨⟨negative, digits⟩, hsome⟩ := Option.isSome_iff_exists.mp hpower
    refine Numeral.value?_eq_none (CodePoint.ofChar 'e') ?_ (by decide)
    simp [Spelling.text, Spelling.powerText, hsome]

theorem Decimal.Spelling.head_text (s : Spelling) : s.text.head?.all CodePoint.isDigit := by
  obtain ⟨c, more, hc⟩ := List.exists_cons_of_ne_nil s.whole_isRun.1
  have hdigit := s.whole_isRun.isDigit.2 c (by simp [hc])
  simp [Spelling.text, hc, hdigit]

namespace Value

/-- **The literal of a finite double** is read back. -/
theorem ofOperand?_spelling (negative : Bool) {s : Spelling} (h : s.IsFractional) :
    ofOperand? (Binary64.signText negative ++ s.text) = some (.float (s.decimal.toBinary64 negative)) := by
  have hsplit := Text.splitSign_signText negative s.head_text
  have hinf : s.text ≠ Text.ofString "inf" := by
    intro heq
    have hhead := s.head_text
    rw [heq] at hhead
    exact absurd hhead (by decide)
  have hnan : Binary64.signText negative ++ s.text ≠ Text.ofString "nan" := by
    intro heq
    exact Text.head_signed_ne s.head_text negative _ (by decide) (by decide) (congrArg List.head? heq)
  have hquote := Text.head_signed_ne s.head_text negative (CodePoint.ofChar '"') (by decide) (by decide)
  rw [ofOperand?, if_neg hquote, hsplit, Spelling.value?_text h]
  simp [Binary64.read?, hsplit, hinf, hnan, s.readUnsigned?_text]

/-- **A number is read back** from how it is shown, unless it is a double without a fraction. -/
theorem ofOperand?_formatNumber {v : Value} (hnumber : v.isNumber = true)
    (hfraction : ∀ x, v = .float x → x.toInt? = Option.none) : ofOperand? v.formatNumber = some v := by
  cases v with
  | int n =>
    have hdigit : (Numeral.ofNat n.natAbs).head?.all CodePoint.isDigit := (Numeral.isRun_ofNat _).isDigit.head
    have hsplit := Text.splitSign_signText (decide (n < 0)) hdigit
    have hquote := Text.head_signed_ne hdigit (decide (n < 0)) (CodePoint.ofChar '"') (by decide) (by decide)
    show ofOperand? (Numeral.ofInt n) = _
    rw [Numeral.ofInt_eq, ofOperand?, if_neg hquote, hsplit, Numeral.value?_ofNat]
    simp only [Binary64.signed_natAbs]
  | float x =>
    have hdisplay : (Value.float x).formatNumber = x.repr := by
      simp [formatNumber, Binary64.display, hfraction x rfl]
    rw [hdisplay]
    cases x with
    | nan => rfl
    | infinite negative => cases negative <;> rfl
    | finite negative units hrep =>
      have hunits : units ≠ 0 := by
        rintro rfl
        have hnone := hfraction _ rfl
        simp [Binary64.toInt?] at hnone
      obtain ⟨s, htext, hs, hvalue⟩ := Binary64.exists_spelling hrep
      have hrepr : (Binary64.finite negative units hrep).repr = Binary64.signText negative ++ s.text := by
        rw [htext]
        rfl
      rw [hrepr, ofOperand?_spelling negative hs, hvalue]
  | _ => cases hnumber

/-- **A number is not taken for a string**: it is not shown with a quotation mark in front. -/
theorem head_formatNumber_ne {v : Value} (hnumber : v.isNumber = true) :
    v.formatNumber.head? ≠ some (CodePoint.ofChar '"') := by
  have hint : ∀ n, (Numeral.ofInt n).head? ≠ some (CodePoint.ofChar '"') := by
    intro n
    rw [Numeral.ofInt_eq]
    exact Text.head_signed_ne (Numeral.isRun_ofNat _).isDigit.head _ _ (by decide) (by decide)
  cases v with
  | int n => exact hint n
  | float x =>
    show x.display.head? ≠ _
    rw [Binary64.display]
    cases x.toInt? with
    | some n => exact hint n
    | none =>
      cases x with
      | nan => decide
      | infinite negative => cases negative <;> decide
      | finite negative units hrep =>
        obtain ⟨s, htext, -, -⟩ := Binary64.exists_spelling hrep
        rw [Binary64.repr, ← htext]
        exact Text.head_signed_ne s.head_text _ _ (by decide) (by decide)
  | _ => cases hnumber

end Value

end LineaLang
