import LineaLang.Number.Decimal

/-!
# `LineaLang.Proofs.Text.Numeral` — which numerals are read

A run of decimal digits, of any script, is read as an integer unless it is too long, and two runs with a point
between them are always read as a decimal. Neither whitespace nor a sign nor an underscore is a digit, so the
steps of reading that look for these find nothing.

## Contents

* `CodePoint.isWhitespace_of_isDigit` — digits are no whitespace.
* `Text.splitAt?_append`, `Text.ungrouped?_eq_self` — where a mark does or does not occur.
* `Text.IsRun` — one or more code points of one sort.
* `Numeral.readInteger_eq_of_isRun`, `Decimal.readGrouped?_of_isRun` — what is read.
-/

namespace LineaLang

/-! ## Digits -/

namespace CodePoint

theorem ofNat_val (c : CodePoint) : ofNat c.val = c := ext_val (val_ofNat c.isLt)

/-- A digit is one of the ten that follow a zero. -/
theorem exists_zero_of_isDigit {c : CodePoint} (h : c.isDigit = true) :
    ∃ first ∈ Digit.zeros, ∃ d ∈ List.range 10, c = ofNat (first + d) := by
  simp only [isDigit, digit?, Option.isSome_map, List.find?_isSome, within, Bool.and_eq_true,
    decide_eq_true_eq] at h
  obtain ⟨first, hfirst, hlow, hhigh⟩ := h
  refine ⟨first, hfirst, c.val - first, List.mem_range.mpr (by omega), ?_⟩
  rw [Nat.add_sub_of_le hlow, ofNat_val]

/-- **Digits are no whitespace.** -/
theorem isWhitespace_of_isDigit {c : CodePoint} (h : c.isDigit = true) : c.isWhitespace = false := by
  have hnone : ∀ first ∈ Digit.zeros, ∀ d ∈ List.range 10, (ofNat (first + d)).isWhitespace = false := by
    decide +kernel
  obtain ⟨first, hfirst, d, hd, rfl⟩ := exists_zero_of_isDigit h
  exact hnone first hfirst d hd

/-- A code point that is no digit differs from every digit. -/
theorem ne_of_isDigit {c other : CodePoint} (h : c.isDigit = true) (ho : other.isDigit = false) :
    c ≠ other := by
  rintro rfl
  rw [ho] at h
  exact Bool.false_ne_true h

end CodePoint

/-! ## Runs and marks -/

namespace Text

/-- One or more code points that all satisfy `p`. -/
def IsRun (p : CodePoint → Bool) (text : Text) : Prop := text ≠ [] ∧ ∀ c ∈ text, p c = true

variable {p : CodePoint → Bool} {a b text : Text} {mark : CodePoint}

theorem IsRun.append (ha : a.IsRun p) (hb : b.IsRun p) : IsRun p (a ++ b) := by
  refine ⟨List.append_ne_nil_of_left_ne_nil ha.1 b, fun c hc => ?_⟩
  rcases List.mem_append.mp hc with h | h
  · exact ha.2 c h
  · exact hb.2 c h

theorem IsRun.not_mem (h : text.IsRun CodePoint.isDigit) (mark : CodePoint) (hm : mark.isDigit = false) :
    mark ∉ text :=
  fun hmem => CodePoint.ne_of_isDigit (h.2 mark hmem) hm rfl

/-- Where all satisfy `p` all are taken. -/
theorem takeWhile_eq_self (h : ∀ c ∈ text, p c = true) : text.takeWhile p = text := by
  have htaken : (text ++ []).takeWhile p = text ++ List.takeWhile p [] := List.takeWhile_append_of_pos h
  rwa [List.append_nil, List.takeWhile_nil, List.append_nil] at htaken

theorem splitAt?_eq_none (h : mark ∉ text) : splitAt? mark text = none := by
  induction text with
  | nil => rfl
  | cons c rest ih =>
    have hc := List.ne_of_not_mem_cons h
    rw [splitAt?, if_neg (Ne.symm hc), ih (List.not_mem_of_not_mem_cons h)]
    rfl

/-- **The first mark is where a text is split.** -/
theorem splitAt?_append (h : mark ∉ a) : splitAt? mark (a ++ mark :: b) = some (a, b) := by
  induction a with
  | nil => rw [List.nil_append, splitAt?, if_pos rfl]
  | cons c rest ih =>
    have hc := List.ne_of_not_mem_cons h
    rw [List.cons_append, splitAt?, if_neg (Ne.symm hc), ih (List.not_mem_of_not_mem_cons h)]
    rfl

/-- Without underscores there are none to remove. -/
theorem ungrouped?_eq_self {isDigit : CodePoint → Bool} (h : groupMark ∉ text) :
    text.ungrouped? isDigit = some text := by
  have hfrom : ∀ afterDigit, ungroupedFrom? isDigit afterDigit text = some text := by
    induction text with
    | nil => exact fun _ => rfl
    | cons c rest ih =>
      intro afterDigit
      have hc := List.ne_of_not_mem_cons h
      rw [ungroupedFrom?, if_neg (Ne.symm hc), ih (List.not_mem_of_not_mem_cons h)]
      rfl
  exact hfrom false

/-- Nothing is trimmed between two digits. -/
theorem trim_of_isDigit (hhead : text.head?.all CodePoint.isDigit)
    (hlast : text.getLast?.all CodePoint.isDigit) : text.trim = text := by
  refine trim_eq_self ?_ ?_
  · cases h : text.head? with
    | none => rfl
    | some c => simp_all [CodePoint.isWhitespace_of_isDigit]
  · cases h : text.getLast? with
    | none => rfl
    | some c => simp_all [CodePoint.isWhitespace_of_isDigit]

/-- There is no sign in front of a digit. -/
theorem splitSign_of_isDigit (h : text.head?.all CodePoint.isDigit) : text.splitSign = (false, text) := by
  cases text with
  | nil => rfl
  | cons c rest =>
    have hc : c.isDigit = true := h
    rw [splitSign, if_neg (CodePoint.ne_of_isDigit hc (by decide)),
      if_neg (CodePoint.ne_of_isDigit hc (by decide))]

theorem IsRun.head (h : text.IsRun p) : text.head?.all p := by
  cases text with
  | nil => rfl
  | cons c rest => exact h.2 c List.mem_cons_self

theorem IsRun.last (h : text.IsRun p) : text.getLast?.all p := by
  rw [List.getLast?_eq_some_getLast h.1]
  exact h.2 _ (List.getLast_mem h.1)

end Text

/-! ## Numerals -/

namespace Numeral

theorem valueFrom_of_isDigit {text : Text} (h : ∀ c ∈ text, c.isDigit = true) (acc : Nat) :
    ∃ n, valueFrom acc text = some n := by
  induction text generalizing acc with
  | nil => exact ⟨acc, rfl⟩
  | cons c rest ih =>
    obtain ⟨d, hd⟩ := Option.isSome_iff_exists.mp (h c List.mem_cons_self)
    obtain ⟨n, hn⟩ := ih (fun c hc => h c (List.mem_cons_of_mem _ hc)) (10 * acc + d)
    refine ⟨n, ?_⟩
    rw [valueFrom, hd]
    exact hn

/-- A run of digits denotes a number. -/
theorem value?_of_isRun {text : Text} (h : text.IsRun CodePoint.isDigit) : ∃ n, value? text = some n := by
  obtain ⟨n, hn⟩ := valueFrom_of_isDigit h.2 0
  exact ⟨n, by rw [value?, if_neg (by simpa using h.1), hn]⟩

/-- **A run of digits is read as the number that it denotes**, unless it is too long. -/
theorem readInteger_of_value? {text : Text} (h : text.IsRun CodePoint.isDigit) {n : Nat} (hn : value? text = some n) :
    readInteger text = if text.length > limit then .error (.tooLong text.length) else .ok (n : Int) := by
  have hall : text.takeWhile (fun c => c.isDigit || c = Text.groupMark) = text :=
    Text.takeWhile_eq_self fun c hc => by simp [h.2 c hc]
  rw [readInteger, Text.trim_of_isDigit h.head h.last, Text.splitSign_of_isDigit h.head]
  simp [hall, Text.ungrouped?_eq_self (h.not_mem Text.groupMark (by decide)), hn]

theorem readInteger_eq_of_isRun {text : Text} (h : text.IsRun CodePoint.isDigit) :
    ∃ n : Int, readInteger text = if text.length > limit then .error (.tooLong text.length) else .ok n := by
  obtain ⟨n, hn⟩ := value?_of_isRun h
  exact ⟨n, readInteger_of_value? h hn⟩

theorem readInteger_of_isRun {text : Text} (h : text.IsRun CodePoint.isDigit) :
    (∃ n, readInteger text = .ok n) ↔ text.length ≤ limit := by
  obtain ⟨n, hn⟩ := readInteger_eq_of_isRun h
  rw [hn]
  by_cases hlong : text.length > limit
  · simp [hlong]
  · simp [hlong]
    omega

/-- The fault of a run of digits is its length. -/
theorem eq_tooLong_of_isRun {text : Text} {fault : NumeralFault} (h : text.IsRun CodePoint.isDigit)
    (hfault : readInteger text = .error fault) : limit < text.length ∧ fault = .tooLong text.length := by
  obtain ⟨n, hn⟩ := readInteger_eq_of_isRun h
  rw [hn] at hfault
  split at hfault
  · rename_i hlong
    cases hfault
    exact ⟨hlong, rfl⟩
  · cases hfault

end Numeral

/-- **Two runs of digits with a point between them are read.** -/
theorem Decimal.readGrouped?_of_isRun {whole fraction : Text} (hw : whole.IsRun CodePoint.isDigit)
    (hf : fraction.IsRun CodePoint.isDigit) :
    ∃ d, Decimal.readGrouped? (whole ++ CodePoint.ofChar '.' :: fraction) = some (false, d) := by
  have hhead : (whole ++ CodePoint.ofChar '.' :: fraction).head?.all CodePoint.isDigit := by
    obtain ⟨c, rest, rfl⟩ := List.exists_cons_of_ne_nil hw.1
    exact hw.head
  have hlast : (whole ++ CodePoint.ofChar '.' :: fraction).getLast?.all CodePoint.isDigit := by
    rw [List.getLast?_append, List.getLast?_cons_of_ne_nil hf.1, List.getLast?_eq_some_getLast hf.1]
    exact hf.2 _ (List.getLast_mem hf.1)
  have hmarks : ∀ mark : CodePoint, mark.isDigit = false → mark ≠ CodePoint.ofChar '.' →
      mark ∉ whole ++ CodePoint.ofChar '.' :: fraction := by
    intro mark hm hpoint
    simp [hw.not_mem mark hm, hf.not_mem mark hm, hpoint]
  obtain ⟨n, hn⟩ := Numeral.value?_of_isRun (hw.append hf)
  rw [readGrouped?, Text.trim_of_isDigit hhead hlast,
    Text.ungrouped?_eq_self (hmarks Text.groupMark (by decide) (by decide))]
  simp [read?, Text.splitSign_of_isDigit hhead, readUnsigned?,
    Text.splitAt?_eq_none (hmarks 'e' (by decide) (by decide)),
    Text.splitAt?_eq_none (hmarks 'E' (by decide) (by decide)), readMantissa?,
    Text.splitAt?_append (hw.not_mem '.' (by decide)), hn]

end LineaLang
