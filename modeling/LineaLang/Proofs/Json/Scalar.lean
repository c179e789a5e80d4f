import LineaLang.Json.Reader
import LineaLang.Json.Writer
import LineaLang.Proofs.Number.Spelling

/-!
# `LineaLang.Proofs.Json.Scalar` — numbers, words and strings as they are written are read back

Whatever follows a scalar in a written text must not go on with it. Only a number can go on, so `EndsNumber` is
asked of what stands behind a number; a string ends with its mark and a word is as long as it is. A double is
written in one of the forms of a spelling, and every spelling that has a fraction or an exponent is read as the
double next to its value; a numeral without either stays an integer.

## Contents

* `EndsNumber` — what can stand behind a number.
* `magnitude_spelling`, `magnitude_ofNat` — the two kinds of numbers, without their signs.
* `scalar_int`, `scalar_double`, `scalar_word` — what is no string.
* `stringFrom_escaped`, `stringFrom_flatMap_escaped` — one code point of a string, and all of them.
-/

namespace LineaLang

attribute [local instance (2000)] instPowNat

/-- Hexadecimal digits are read as the number they are written for. -/
theorem Text.foldl_hexDigits (width n acc : Nat) :
    (Text.hexDigits width n).foldl (fun acc c => do return 16 * (← acc) + (← c.hexDigit?)) (some acc) =
      some (16 ^ width * acc + n % 16 ^ width) := by
  induction width generalizing n with
  | zero => simp [Text.hexDigits, Nat.mod_one]
  | succ width ih =>
    rw [Text.hexDigits, List.foldl_append, ih, List.foldl_cons, List.foldl_nil]
    simp only [CodePoint.hexDigit?_ofHexDigit, Option.bind_eq_bind, Option.bind_some, Option.pure_def]
    rw [Nat.pow_succ', Nat.mod_mul, Nat.mul_add, Nat.mul_assoc, Nat.add_assoc, Nat.add_comm (n % 16)]

namespace Json

open Decimal (Spelling)

/-- **Does a text not go on with a number** that stands in front of it? -/
def EndsNumber (rest : Text) : Prop :=
  ∀ c ∈ rest.head?, c.isAsciiDigit = false ∧ c ≠ CodePoint.ofChar '.' ∧ c ≠ CodePoint.ofChar 'e' ∧
    c ≠ CodePoint.ofChar 'E'

/-! ## Parts of a number -/

section Parts

variable {digits rest : Text}

/-- Digits are taken up to the first code point that is none. -/
theorem digitsAt_append (hd : ∀ c ∈ digits, c.isAsciiDigit = true)
    (hr : ∀ c ∈ rest.head?, c.isAsciiDigit = false) : digitsAt (digits ++ rest) = digits := by
  rw [digitsAt, List.takeWhile_append_of_pos hd]
  cases rest with
  | nil => simp
  | cons c more => simp [hr c rfl]

theorem wholeLength_append (hd : digits.IsRun CodePoint.isAsciiDigit)
    (hzero : digits.head? = some (CodePoint.ofDigit 0) → digits = [CodePoint.ofDigit 0])
    (hr : ∀ c ∈ rest.head?, c.isAsciiDigit = false) : wholeLength (digits ++ rest) = digits.length := by
  obtain ⟨c, more, rfl⟩ := List.exists_cons_of_ne_nil hd.1
  rw [List.cons_append, wholeLength]
  -- A zero in front ends the digits at once, so it must be the only one.
  by_cases hc : c = CodePoint.ofChar '0'
  · subst hc
    rw [if_pos rfl, hzero rfl]
    rfl
  · rw [if_neg hc, if_pos (hd.2 c List.mem_cons_self),
      digitsAt_append (fun d h => hd.2 d (List.mem_cons_of_mem c h)) hr, List.length_cons]

theorem fractionLength_append (hne : digits ≠ []) (hd : ∀ c ∈ digits, c.isAsciiDigit = true)
    (hr : ∀ c ∈ rest.head?, c.isAsciiDigit = false) :
    fractionLength (CodePoint.ofChar '.' :: digits ++ rest) = digits.length + 1 := by
  rw [List.cons_append, fractionLength, digitsAt_append hd hr, if_pos ⟨rfl, hne⟩]

theorem fractionLength_eq_zero (hr : ∀ c ∈ rest.head?, c ≠ CodePoint.ofChar '.') : fractionLength rest = 0 := by
  cases rest with
  | nil => rfl
  | cons c more => rw [fractionLength, if_neg fun h => hr c rfl h.1]

theorem exponentLength_append {sign : CodePoint}
    (hs : sign = CodePoint.ofChar '+' ∨ sign = CodePoint.ofChar '-') (hne : digits ≠ [])
    (hd : ∀ c ∈ digits, c.isAsciiDigit = true) (hr : ∀ c ∈ rest.head?, c.isAsciiDigit = false) :
    exponentLength (CodePoint.ofChar 'e' :: sign :: digits ++ rest) = digits.length + 2 := by
  have hsign : signLength (sign :: digits ++ rest) = 1 := by
    rw [List.cons_append, signLength, if_pos hs]
  rw [List.cons_append, exponentLength]
  simp only [hsign]
  rw [List.cons_append, List.drop_succ_cons, List.drop_zero, digitsAt_append hd hr,
    if_pos ⟨Or.inl trivial, by simpa using hne⟩]
  omega

theorem exponentLength_eq_zero
    (hr : ∀ c ∈ rest.head?, c ≠ CodePoint.ofChar 'e' ∧ c ≠ CodePoint.ofChar 'E') : exponentLength rest = 0 := by
  cases rest with
  | nil => rfl
  | cons c more =>
    have hc := hr c rfl
    simp [exponentLength, hc.1, hc.2]

end Parts

/-! ## Numbers without signs -/

section Spellings

variable (s : Spelling) {rest : Text}

/-- What follows the digits of a spelling is no digit, and behind the point there is no other. -/
theorem head_powerText (hr : EndsNumber rest) :
    ∀ c ∈ (s.powerText ++ rest).head?, c.isAsciiDigit = false ∧ c ≠ CodePoint.ofChar '.' := by
  unfold Spelling.powerText
  split
  · intro c hc
    exact ⟨(hr c hc).1, (hr c hc).2.1⟩
  · rintro _ ⟨⟩
    decide

theorem head_pointText (hr : EndsNumber rest) :
    ∀ c ∈ (s.pointText ++ (s.powerText ++ rest)).head?, c.isAsciiDigit = false := by
  unfold Spelling.pointText
  split
  · intro c hc
    exact (head_powerText s hr c hc).1
  · rintro _ ⟨⟩
    decide

theorem fractionLength_spelling (hr : EndsNumber rest) :
    fractionLength (s.pointText ++ (s.powerText ++ rest)) = s.pointText.length := by
  have hend := head_powerText s hr
  unfold Spelling.pointText
  split
  · exact fractionLength_eq_zero fun c hc => (hend c hc).2
  · rename_i hne
    exact fractionLength_append hne s.fraction_isDigit fun c hc => (hend c hc).1

theorem exponentLength_spelling (hr : EndsNumber rest) :
    exponentLength (s.powerText ++ rest) = s.powerText.length := by
  unfold Spelling.powerText
  split
  · exact exponentLength_eq_zero fun c hc => (hr c hc).2.2
  · rename_i negative digits hpower
    have hdigits := s.power_isRun _ hpower
    refine exponentLength_append ?_ hdigits.1 hdigits.2 fun c hc => (hr c hc).1
    cases negative
    · exact .inl rfl
    · exact .inr rfl

theorem wholeLength_spelling (hr : EndsNumber rest) : wholeLength (s.text ++ rest) = s.whole.length := by
  rw [Spelling.text, List.append_assoc, List.append_assoc]
  exact wholeLength_append s.whole_isRun s.whole_head (head_pointText s hr)

/-- **A spelling with a fraction or an exponent is read as a double.** -/
theorem magnitude_spelling (negative : Bool) (hr : EndsNumber rest) (hs : s.IsFractional) :
    magnitude negative (s.text ++ rest) = .ok (some (.float (s.decimal.toBinary64 negative), rest)) := by
  -- Each part is looked for behind the one before it.
  have hwhole := wholeLength_spelling s hr
  have hafter : (s.text ++ rest).drop s.whole.length = s.pointText ++ (s.powerText ++ rest) := by
    simp [Spelling.text]
  have hfraction := fractionLength_spelling s hr
  have hbehind : (s.text ++ rest).drop (s.whole.length + s.pointText.length) = s.powerText ++ rest := by
    rw [← List.drop_drop, hafter, List.drop_left]
  have hexponent := exponentLength_spelling s hr
  have htotal : s.whole.length + s.pointText.length + s.powerText.length = s.text.length := by
    simp [Spelling.text, Nat.add_assoc]
  have hsome : s.pointText.length + s.powerText.length ≠ 0 := by
    rcases hs with h | h
    · simp [Spelling.pointText, h]
    · obtain ⟨power, hpower⟩ := Option.isSome_iff_exists.mp h
      simp [Spelling.powerText, hpower]
  have hpos : s.whole.length ≠ 0 := by simpa using s.whole_isRun.1
  rw [magnitude]
  simp only [hwhole, hafter, hfraction, hbehind, hexponent, htotal, if_neg hpos, if_neg hsome, List.take_left,
    List.drop_left, s.readUnsigned?_text]

/-- **A numeral is read as an integer**, unless it is too long. -/
theorem magnitude_ofNat (negative : Bool) (hr : EndsNumber rest) {n : Nat}
    (hn : (Numeral.ofNat n).length ≤ Numeral.limit) :
    magnitude negative (Numeral.ofNat n ++ rest) = .ok (some (.int (Binary64.signed negative n), rest)) := by
  have hrun := Numeral.isRun_ofNat n
  have hzero : (Numeral.ofNat n).head? = some (CodePoint.ofDigit 0) → Numeral.ofNat n = [CodePoint.ofDigit 0] := by
    by_cases h : n = 0
    · intro _
      rw [h]
      exact Numeral.ofNat_of_lt (by decide)
    · intro heq
      exact absurd heq (Numeral.head?_ofNat h)
  have hwhole := wholeLength_append hrun hzero fun c hc => (hr c hc).1
  have hfraction : fractionLength rest = 0 := fractionLength_eq_zero fun c hc => (hr c hc).2.1
  have hexponent : exponentLength rest = 0 := exponentLength_eq_zero fun c hc => (hr c hc).2.2
  have hpos : (Numeral.ofNat n).length ≠ 0 := by simpa using hrun.1
  have hread : Numeral.read (Numeral.ofNat n) = .ok n := by
    rw [Numeral.read, Numeral.value?_ofNat]
    exact if_neg (Nat.not_lt.mpr hn)
  rw [magnitude]
  simp only [hwhole, List.drop_left, List.take_left, hfraction, Nat.add_zero, hexponent, hread, if_neg hpos,
    if_true]

end Spellings

/-! ## Words -/

/-- Does a word start with something that no number starts with? -/
def startsNoNumber : Text → Bool
  | a :: b :: _ => !a.isAsciiDigit && (a ≠ CodePoint.ofChar '-' || !b.isAsciiDigit)
  | _ => false

theorem words_startNoNumber : ∀ entry ∈ words, startsNoNumber entry.1 = true := by decide

/-- No word stands where a number stands. -/
theorem wordAt?_number (negative : Bool) {c : CodePoint} (h : c.isAsciiDigit = true) (rest : Text) :
    wordAt? ((if negative then [CodePoint.ofChar '-'] else []) ++ c :: rest) = none := by
  rw [wordAt?, List.findSome?_eq_none_iff]
  rintro ⟨word, value⟩ hentry
  have hword := words_startNoNumber _ hentry
  -- A word starts with no digit, and if with a minus then with no digit behind it.
  rcases word with _ | ⟨a, _ | ⟨b, word⟩⟩
  · cases hword
  · cases hword
  · simp only [startsNoNumber, Bool.and_eq_true, Bool.not_eq_true', Bool.or_eq_true, decide_eq_true_eq] at hword
    have hne : ∀ d : CodePoint, d.isAsciiDigit = false → d ≠ c := by
      rintro d hd rfl
      rw [h] at hd
      cases hd
    cases negative with
    | false => simp [Text.dropStart?, hne a hword.1]
    | true =>
      by_cases ha : a = CodePoint.ofChar '-'
      · simp [Text.dropStart?, ha, hne b (hword.2.resolve_left (not_not_intro ha))]
      · simp [Text.dropStart?, ha]

/-- **A number under a sign** is read as its magnitude is. -/
theorem scalar_number (negative : Bool) {text : Text} {result : Value × Text}
    (hc : ∃ c ∈ text.head?, c.isAsciiDigit = true) (h : magnitude negative text = .ok (some result)) :
    scalar ((if negative then [CodePoint.ofChar '-'] else []) ++ text) = .ok result := by
  obtain ⟨c, hhead, hc⟩ := hc
  obtain ⟨rest, rfl⟩ := List.head?_eq_some_iff.mp hhead
  have hsign : c ≠ CodePoint.ofChar '-' := by
    rintro rfl
    cases hc
  have hnumber : numberAt? ((if negative then [CodePoint.ofChar '-'] else []) ++ c :: rest) = .ok (some result) := by
    cases negative with
    | false => simpa [numberAt?, hsign] using h
    | true => simpa [numberAt?] using h
  simp only [scalar, wordAt?_number negative hc, hnumber]

theorem scalar_int {n : Int} {rest : Text} (hr : EndsNumber rest)
    (hn : (Numeral.ofNat n.natAbs).length ≤ Numeral.limit) :
    scalar (Numeral.ofInt n ++ rest) = .ok (.int n, rest) := by
  have hhead : ∀ m, ∃ c ∈ (Numeral.ofNat m ++ rest).head?, c.isAsciiDigit = true := by
    intro m
    obtain ⟨c, more, hc⟩ := List.exists_cons_of_ne_nil (Numeral.isRun_ofNat m).1
    exact ⟨c, by simp [hc], (Numeral.isRun_ofNat m).2 c (by simp [hc])⟩
  cases n with
  | ofNat n => exact scalar_number false (hhead n) (magnitude_ofNat false hr hn)
  | negSucc n => exact scalar_number true (hhead (n + 1)) (magnitude_ofNat true hr hn)

theorem scalar_word {word : Text} {value : Value} {rest : Text}
    (h : words.findSome? (fun entry => (Text.dropStart? entry.1 (word ++ rest)).map (entry.2, ·)) =
      some (value, rest)) :
    scalar (word ++ rest) = .ok (value, rest) := by
  have hword : wordAt? (word ++ rest) = some (value, rest) := h
  simp only [scalar, hword]

theorem scalar_double {x : Binary64} {rest : Text} (hr : EndsNumber rest) :
    scalar (writeDouble x ++ rest) = .ok (.float x, rest) := by
  -- The doubles that are not finite are words; the others have a spelling.
  rcases x with _ | negative | ⟨negative, units, hrep⟩
  · exact scalar_word rfl
  · cases negative with
    | false => exact scalar_word rfl
    | true => exact scalar_word rfl
  · obtain ⟨s, htext, hs, hvalue⟩ := Binary64.exists_spelling hrep
    have hhead : ∃ c ∈ (s.text ++ rest).head?, c.isAsciiDigit = true := by
      obtain ⟨c, more, hc⟩ := List.exists_cons_of_ne_nil s.whole_isRun.1
      exact ⟨c, by simp [Spelling.text, hc], s.whole_isRun.2 c (by simp [hc])⟩
    have hread := scalar_number negative hhead (magnitude_spelling s negative hr hs)
    rw [hvalue, htext] at hread
    cases negative with
    | false => exact hread
    | true => exact hread

/-! ## Strings -/

theorem fourDigits?_hexDigits {n : Nat} {rest : Text} (hn : n < 0x10000) (hr : rest ≠ []) :
    fourDigits? (Text.hexDigits 4 n ++ rest) = some n := by
  have hdrop : (Text.hexDigits 4 n ++ rest).drop 4 = rest := List.drop_left' (Text.length_hexDigits 4 n)
  have htake : (Text.hexDigits 4 n ++ rest).take 4 = Text.hexDigits 4 n :=
    List.take_left' (Text.length_hexDigits 4 n)
  rw [fourDigits?, hdrop, htake, if_neg (by simpa using hr), Text.foldl_hexDigits, Nat.mul_zero, Nat.zero_add,
    Nat.mod_eq_of_lt (show n < 16 ^ 4 from hn)]

variable {opening : Text}

/-- What an escape has used is passed over. -/
theorem stringFrom_eq_drop (opening : Text) (skip : Nat) (text : Text) :
    stringFrom opening skip text = stringFrom opening 0 (text.drop skip) := by
  induction skip generalizing text with
  | zero => rfl
  | succ skip ih =>
    cases text with
    | nil => rfl
    | cons c rest => exact ih rest

/-- An escape stands for the code point that it means. -/
theorem stringFrom_escape {text : Text} {meaning : CodePoint} {used : Nat}
    (h : escapeAt opening (CodePoint.ofChar '\\' :: text) = .ok (meaning, used)) :
    stringFrom opening 0 (CodePoint.ofChar '\\' :: text) =
      (stringFrom opening 0 (text.drop used)).map fun (more, left) => (meaning :: more, left) := by
  rw [stringFrom, if_neg (by decide), if_pos rfl, h]
  simp only [stringFrom_eq_drop opening used]

theorem escapeAt_letter (letter : Char) {c : CodePoint} {rest : Text}
    (h : (letterEscapes.find? fun entry => CodePoint.ofChar entry.1 = CodePoint.ofChar letter).map
      (fun entry => CodePoint.ofChar entry.2) = some c)
    (hu : CodePoint.ofChar letter ≠ CodePoint.ofChar 'u') :
    escapeAt opening (CodePoint.ofChar '\\' :: CodePoint.ofChar letter :: rest) = .ok (c, 1) := by
  obtain ⟨entry, hentry, rfl⟩ := Option.map_eq_some_iff.mp h
  rw [escapeAt]
  simp only [List.drop_succ_cons, List.drop_zero, if_neg hu, hentry]

theorem escapeAt_number (opening : Text) {c : CodePoint} {rest : Text} (hc : c.val < 0xD800) (hr : rest ≠ []) :
    escapeAt opening (CodePoint.ofChar '\\' :: CodePoint.ofChar 'u' :: (Text.hexDigits 4 c.val ++ rest)) =
      .ok (c, 5) := by
  have hsurrogate : ¬ (0xD800 ≤ c.val ∧ c.val ≤ 0xDBFF) := by omega
  rw [escapeAt]
  simp only [List.drop_succ_cons, List.drop_zero, if_true, numericEscape, if_neg hsurrogate,
    fourDigits?_hexDigits (Nat.lt_trans hc (by decide)) hr, CodePoint.ofNat_val]

/-- **A code point is read back from its escape**, or from itself. -/
theorem stringFrom_escaped (c : CodePoint) {rest : Text} (hr : rest ≠ []) :
    stringFrom opening 0 (escaped c ++ rest) =
      (stringFrom opening 0 rest).map fun (more, left) => (c :: more, left) := by
  -- The writer tries these in turn: the two marks, five letters, and the other controls by their numbers.
  unfold escaped
  split
  · rename_i h
    have hescape : escapeAt opening (CodePoint.ofChar '\\' :: c :: rest) = .ok (c, 1) := by
      rcases h with rfl | rfl
      · exact escapeAt_letter '"' rfl (by decide)
      · exact escapeAt_letter '\\' rfl (by decide)
    exact stringFrom_escape hescape
  split
  · subst c
    exact stringFrom_escape (escapeAt_letter 'n' rfl (by decide))
  split
  · subst c
    exact stringFrom_escape (escapeAt_letter 'r' rfl (by decide))
  split
  · subst c
    exact stringFrom_escape (escapeAt_letter 't' rfl (by decide))
  split
  · subst c
    exact stringFrom_escape (escapeAt_letter 'f' rfl (by decide))
  split
  · subst c
    exact stringFrom_escape (escapeAt_letter 'b' rfl (by decide))
  split
  · rename_i hcontrol
    have hread := stringFrom_escape (escapeAt_number opening (Nat.lt_trans hcontrol (by decide)) hr)
    have hdrop : (CodePoint.ofChar 'u' :: (Text.hexDigits 4 c.val ++ rest)).drop 5 = rest :=
      List.drop_left' (Text.length_hexDigits 4 c.val)
    rw [hdrop] at hread
    exact hread
  · rename_i hmark _ _ _ _ _ hcontrol
    rw [List.singleton_append, stringFrom, if_neg fun h => hmark (.inl h), if_neg fun h => hmark (.inr h),
      if_neg hcontrol]

/-- **A string is read back.** -/
theorem stringFrom_flatMap_escaped (opening text rest : Text) :
    stringFrom opening 0 (text.flatMap escaped ++ CodePoint.ofChar '"' :: rest) = .ok (text, rest) := by
  induction text with
  | nil => rw [List.flatMap_nil, List.nil_append, stringFrom, if_pos rfl]
  | cons c text ih =>
    have hne : text.flatMap escaped ++ CodePoint.ofChar '"' :: rest ≠ [] := by simp
    rw [List.flatMap_cons, List.append_assoc, stringFrom_escaped c hne, ih]
    rfl

end Json

end LineaLang
