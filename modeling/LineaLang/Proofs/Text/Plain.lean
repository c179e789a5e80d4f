import LineaLang.Proofs.Number.Spelling
import LineaLang.Proofs.Parsing.Terminal
import LineaLang.Text.Quoted

/-!
# `LineaLang.Proofs.Text.Plain` — plain code points and surrogates

Whatever the language writes of its own, numerals, words and the texts of its reports, is made of plain code points:
line feeds and printable ASCII, and a numeral has no line feed. Only the strings of a program may hold anything else.
A text can be written to a file if it holds no surrogate; neither a plain text nor a string does, and texts that hold
none can be put together.

## Contents

* `CodePoint.isVisible`, `CodePoint.isPlain` — printable ASCII, and line feeds besides; numerals are visible.
* `Text.SurrogateFree` — a text that a file takes, with `ofString`, `append`, `join` and `ofLines`.
-/

namespace LineaLang

/-! ## Plain code points -/

/-- **A line feed or a printable code point of ASCII.** -/
def CodePoint.isPlain (c : CodePoint) : Bool := c = Text.newline || c.within 0x20 0x7E

/-- A printable code point of ASCII. -/
def CodePoint.isVisible (c : CodePoint) : Bool := c.within 0x20 0x7E

namespace CodePoint

theorem isVisible_of_isAsciiDigit {c : CodePoint} (h : c.isAsciiDigit = true) : c.isVisible = true := by
  simp only [isAsciiDigit, isVisible, within, Bool.and_eq_true, decide_eq_true_eq] at h ⊢
  omega

theorem isVisible_of_isWordPart {c : CodePoint} (h : c.isWordPart = true) : c.isVisible = true := by
  simp only [isWordPart, isWordStart, isLetter, isAsciiDigit, isVisible, within, Bool.or_eq_true, Bool.and_eq_true,
    decide_eq_true_eq] at h ⊢
  omega

end CodePoint

namespace Text

variable {text : Text}

theorem isPlain_of_isVisible (h : ∀ c ∈ text, c.isVisible = true) : ∀ c ∈ text, c.isPlain = true :=
  fun c hc => (Bool.or_eq_true _ _).mpr (.inr (h c hc))

theorem newline_notMem_of_isVisible (h : ∀ c ∈ text, c.isVisible = true) : newline ∉ text :=
  fun hmem => absurd (h newline hmem) (by decide)

/-- What holds of all code points of some pieces and of what separates them holds of the pieces joined. -/
theorem forall_mem_join {p : CodePoint → Prop} {separator : Text} (hseparator : ∀ c ∈ separator, p c)
    {pieces : List Text} (h : ∀ piece ∈ pieces, ∀ c ∈ piece, p c) : ∀ c ∈ join separator pieces, p c := by
  induction pieces with
  | nil => exact List.forall_mem_nil _
  | cons piece rest ih =>
    rw [List.forall_mem_cons] at h
    cases rest with
    | nil => exact h.1
    | cons next rest =>
      exact List.forall_mem_append.mpr ⟨List.forall_mem_append.mpr ⟨h.1, hseparator⟩, ih h.2⟩

end Text

theorem WordLexeme.isVisible {word : Text} (h : WordLexeme word) : ∀ c ∈ word, c.isVisible = true :=
  fun c hc => CodePoint.isVisible_of_isWordPart (h.isWordPart c hc)

theorem Numeral.isVisible_ofNat (n : Nat) : ∀ c ∈ ofNat n, c.isVisible = true :=
  fun c hc => CodePoint.isVisible_of_isAsciiDigit ((isRun_ofNat n).2 c hc)

theorem Numeral.isVisible_ofInt (n : Int) : ∀ c ∈ ofInt n, c.isVisible = true := by
  cases n with
  | ofNat n => exact isVisible_ofNat n
  | negSucc n => exact List.forall_mem_cons.mpr ⟨by decide, isVisible_ofNat (n + 1)⟩

theorem Decimal.Spelling.isVisible_text (s : Decimal.Spelling) : ∀ c ∈ s.text, c.isVisible = true := by
  have hpoint : ∀ c ∈ s.pointText, c.isVisible = true := by
    unfold Spelling.pointText
    split
    · exact List.forall_mem_nil _
    · exact List.forall_mem_cons.mpr ⟨by decide, fun c hc => c.isVisible_of_isAsciiDigit (s.fraction_isDigit c hc)⟩
  have hpower : ∀ c ∈ s.powerText, c.isVisible = true := by
    unfold Spelling.powerText
    split
    · exact List.forall_mem_nil _
    · rename_i negative digits h
      refine List.forall_mem_cons.mpr ⟨by decide, List.forall_mem_cons.mpr ⟨?_, fun c hc => ?_⟩⟩
      · cases negative <;> decide
      · exact c.isVisible_of_isAsciiDigit ((s.power_isRun _ h).2 c hc)
  intro c hc
  simp only [Spelling.text, List.mem_append] at hc
  rcases hc with h | h | h
  · exact c.isVisible_of_isAsciiDigit (s.whole_isRun.2 c h)
  · exact hpoint c h
  · exact hpower c h

namespace Binary64

theorem isVisible_signText (negative : Bool) : ∀ c ∈ signText negative, c.isVisible = true := by
  cases negative <;> decide

/-- The literal of a double is visible. -/
theorem isVisible_repr (x : Binary64) : ∀ c ∈ x.repr, c.isVisible = true := by
  rcases x with _ | negative | ⟨negative, units, h⟩
  · decide
  · exact List.forall_mem_append.mpr ⟨isVisible_signText negative, by decide⟩
  · obtain ⟨s, htext, -⟩ := exists_spelling h
    have hrepr : repr (.finite negative units h) = signText negative ++ s.text := by
      rw [htext]
      rfl
    rw [hrepr]
    exact List.forall_mem_append.mpr ⟨isVisible_signText negative, s.isVisible_text⟩

theorem isVisible_display (x : Binary64) : ∀ c ∈ x.display, c.isVisible = true := by
  unfold display
  cases x.toInt? with
  | none => exact x.isVisible_repr
  | some n => exact Numeral.isVisible_ofInt n

end Binary64

theorem Text.isWordPart_hexDigits (width n : Nat) : ∀ c ∈ hexDigits width n, c.isWordPart = true := by
  induction width generalizing n with
  | zero => exact List.forall_mem_nil _
  | succ width ih =>
    intro c hc
    rcases List.mem_append.mp hc with h | h
    · exact ih _ c h
    · obtain rfl := List.mem_singleton.mp h
      have hlt : n % 16 < 16 := Nat.mod_lt n (by decide)
      have hall : ∀ d < 16, (CodePoint.ofHexDigit d).isWordPart = true := by decide
      have hmod : CodePoint.ofHexDigit n = CodePoint.ofHexDigit (n % 16) := by simp [CodePoint.ofHexDigit]
      rw [hmod]
      exact hall _ hlt

theorem Text.isVisible_hexDigits (width n : Nat) : ∀ c ∈ hexDigits width n, c.isVisible = true :=
  fun c hc => CodePoint.isVisible_of_isWordPart (isWordPart_hexDigits width n c hc)

/-! ## Surrogates -/

/-- A text that a file takes. -/
def Text.SurrogateFree (text : Text) : Prop := ∀ c ∈ text, c.isSurrogate = false

theorem isSurrogate_of_lt {c : CodePoint} (h : c.val < 0xD800) : c.isSurrogate = false := by
  have hlow : ¬ 0xD800 ≤ c.val := Nat.not_le.mpr h
  simp [CodePoint.isSurrogate, CodePoint.within, hlow]

theorem isSurrogate_of_isPlain {c : CodePoint} (h : c.isPlain = true) : c.isSurrogate = false := by
  apply isSurrogate_of_lt
  simp only [CodePoint.isPlain, CodePoint.within, Bool.or_eq_true, Bool.and_eq_true, decide_eq_true_eq] at h
  rcases h with rfl | h
  · decide
  · omega

/-- What is visible is none of the code points that text formats single out. -/
theorem CodePoint.clean_of_isVisible {c : CodePoint} (h : c.isVisible = true) :
    c.isControl = false ∧ c.isSurrogate = false := by
  refine ⟨?_, isSurrogate_of_isPlain ((Bool.or_eq_true _ _).mpr (.inr h))⟩
  simp only [isVisible, isControl, within, Bool.and_eq_true, decide_eq_true_eq, Bool.or_eq_false_iff,
    Bool.and_eq_false_iff, decide_eq_false_iff_not] at h ⊢
  omega

theorem surrogateFree_of_wordLexeme {word : Text} (h : WordLexeme word) : word.SurrogateFree :=
  fun c hc => isSurrogate_of_isPlain (Text.isPlain_of_isVisible h.isVisible c hc)

namespace Text.SurrogateFree

variable {a b : Text}

theorem of_isPlain (h : ∀ c ∈ a, c.isPlain = true) : a.SurrogateFree :=
  fun c hc => isSurrogate_of_isPlain (h c hc)

theorem of_isVisible (h : ∀ c ∈ a, c.isVisible = true) : a.SurrogateFree := of_isPlain (isPlain_of_isVisible h)

/-- **A string holds characters**, and these are no surrogates. -/
theorem ofString {s : String} : (Text.ofString s).SurrogateFree := by
  intro c hc
  obtain ⟨char, -, rfl⟩ := List.mem_map.mp hc
  have hvalid : char.toNat < 0xD800 ∨ 0xDFFF < char.toNat := char.valid.imp_right And.left
  simp only [CodePoint.isSurrogate, CodePoint.within, Bool.and_eq_false_iff, decide_eq_false_iff_not]
  exact hvalid.imp Nat.not_le.mpr Nat.not_le.mpr

theorem append (ha : a.SurrogateFree) (hb : b.SurrogateFree) : Text.SurrogateFree (a ++ b) :=
  List.forall_mem_append.mpr ⟨ha, hb⟩

theorem join {separator : Text} (hseparator : separator.SurrogateFree) {pieces : List Text}
    (h : ∀ piece ∈ pieces, piece.SurrogateFree) : (Text.join separator pieces).SurrogateFree :=
  forall_mem_join hseparator h

theorem ofLines {lines : List Text} (h : ∀ line ∈ lines, line.SurrogateFree) : (Text.ofLines lines).SurrogateFree := by
  intro c hc
  obtain ⟨line, hline, hc⟩ := List.mem_flatMap.mp hc
  have hnewline : Text.SurrogateFree [newline] := List.forall_mem_singleton.mpr (by decide)
  exact (h line hline).append hnewline c hc

end Text.SurrogateFree

end LineaLang
