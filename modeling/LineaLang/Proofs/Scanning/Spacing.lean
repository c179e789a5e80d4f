import LineaLang.Proofs.Scanning.Layout

/-!
# `LineaLang.Proofs.Scanning.Spacing` — tokens may be moved apart

Between tokens a source may have blanks and comments, and how many of them there are makes no difference. So a gap can
be put in front of a token or behind it: the places of the tokens change, their words do not. That the gap begins with a
blank is what keeps lexemes apart. No lexeme goes on over a blank but what is skipped, and strings, which end at their
closing quote; and no comment can come about at a slash if a blank follows the slash.

## Contents

* `Text.IsSpacing`, `Text.Separates`, `Text.inserted` — what may stand between tokens.
* `Token.scanFrom_spacing`, `Token.exists_scanFrom_words` — the scanner passes over spacing, and places do not matter.
* `LongestLexeme.widen` — a lexeme is still the longest if a gap is put in behind it.
* `ScanReaches.inserted` — how far a scan comes with a gap put in.
* `scan_inserted`, `scan_joined` — a gap in a source, and a source made of lexemes.
-/

namespace LineaLang

/-! ## Spacing -/

namespace Text

/-- **Spacing**: blanks, and comments with the line feed behind them. -/
inductive IsSpacing : Text → Prop where
  | nil : IsSpacing []
  | blank {c : CodePoint} {rest : Text} (hc : c.isBlank = true) (h : IsSpacing rest) : IsSpacing (c :: rest)
  | comment {body rest : Text} (hbody : newline ∉ body) (h : IsSpacing rest) :
      IsSpacing (ofString "//" ++ body ++ newline :: rest)

/-- **Spacing that begins with a blank.** -/
def Separates (gap : Text) : Prop := IsSpacing gap ∧ ∃ c rest, gap = c :: rest ∧ c.isBlank = true

/-- A text with a gap put in at an offset. -/
def inserted (source : Text) (offset : Nat) (gap : Text) : Text := source.take offset ++ gap ++ source.drop offset

theorem IsSpacing.append {first second : Text} (h : IsSpacing first) (h' : IsSpacing second) :
    IsSpacing (first ++ second) := by
  induction h with
  | nil => exact h'
  | blank hc _ ih => exact .blank hc ih
  | comment hbody _ ih =>
    rw [List.append_assoc, List.cons_append]
    exact .comment hbody ih

theorem IsSpacing.of_isRun {run : Text} (h : ∀ c ∈ run, c.isBlank = true) : IsSpacing run := by
  induction run with
  | nil => exact .nil
  | cons c rest ih =>
    rw [List.forall_mem_cons] at h
    exact .blank h.1 (ih h.2)

end Text

/-! ## The scanner passes over spacing -/

namespace Token

/-- **A blank is passed over**, and what is behind it is scanned as if it stood alone. -/
theorem scanFrom_blank (p : Position) {c : CodePoint} (hc : c.isBlank = true) (text : Text) :
    scanFrom p 0 (c :: text) = scanFrom (p.advance c) 0 text := by
  have hskipped : ∀ (p : Position) {c : CodePoint} (text : Text), c.isBlank = true →
      scanFrom p 0 (c :: text) = scanFrom (p.advance c) (blankLength text) text := by
    intro p c text hc
    have hlength : blankLength (c :: text) = blankLength text + 1 := by
      rw [blankLength, runLength, List.takeWhile_cons_of_pos hc]
      rfl
    have hfound : lexemeAt? (c :: text) = some ⟨blankLength text + 1, none⟩ := by
      rw [lexemeAt?, hlength, if_pos (Nat.succ_ne_zero _)]
    rw [scanFrom, hfound]
    rfl
  rw [hskipped p text hc]
  -- The run of blanks goes on or not, and what is left of it is passed over in both cases.
  cases text with
  | nil => rfl
  | cons d more =>
    by_cases hd : d.isBlank = true
    · have hlength : blankLength (d :: more) = blankLength more + 1 := by
        rw [blankLength, runLength, List.takeWhile_cons_of_pos hd]
        rfl
      rw [hskipped _ more hd, hlength]
      rfl
    · rw [blankLength_eq_zero (Bool.eq_false_iff.mpr hd)]

/-- A comment is passed over up to the line feed behind it. -/
theorem scanFrom_comment (p : Position) {body : Text} (hbody : Text.newline ∉ body) (text : Text) :
    scanFrom p 0 (Text.ofString "//" ++ body ++ Text.newline :: text) =
      scanFrom (p.after (Text.ofString "//" ++ body)) 0 (Text.newline :: text) := by
  have hlongest : LongestLexeme none (Text.ofString "//" ++ body)
      (Text.ofString "//" ++ body ++ Text.newline :: text) := by
    refine longestLexeme_iff.mpr ⟨List.prefix_append _ _, ?_⟩
    have hblank : blankLength (Text.ofString "//" ++ body ++ Text.newline :: text) = 0 :=
      blankLength_eq_zero (by decide)
    have hline : ∀ c ∈ Text.ofString "//" ++ body, decide (c ≠ Text.newline) = true := by
      intro c hc
      rcases List.mem_append.mp hc with hslash | hbody'
      · have hslashes : ∀ c ∈ Text.ofString "//", decide (c ≠ Text.newline) = true := by decide
        exact hslashes c hslash
      · exact decide_eq_true fun heq => hbody (heq ▸ hbody')
    have hend : runLength (fun c => decide (c ≠ Text.newline)) (Text.newline :: text) = 0 := by
      rw [runLength, List.takeWhile_cons_of_neg (by simp)]
      rfl
    have hcomment : commentLength (Text.ofString "//" ++ body ++ Text.newline :: text) =
        (Text.ofString "//" ++ body).length := by
      rw [commentLength, if_pos (by simp [List.append_assoc]), runLength_append hline, hend, Nat.add_zero]
    have hpositive : (Text.ofString "//" ++ body).length ≠ 0 := by
      rw [List.length_append]
      exact Nat.ne_of_gt (Nat.lt_of_lt_of_le (by decide : 0 < (Text.ofString "//").length) (Nat.le_add_right _ _))
    rw [lexemeAt?, hblank, if_neg (by simp), hcomment, if_pos hpositive]
  rw [scanFrom_lexeme p hlongest, List.drop_left]
  cases scanFrom (p.after (Text.ofString "//" ++ body)) 0 (Text.newline :: text) <;> rfl

/-- **Spacing is passed over.** -/
theorem scanFrom_spacing (p : Position) {gap : Text} (h : gap.IsSpacing) (text : Text) :
    scanFrom p 0 (gap ++ text) = scanFrom (p.after gap) 0 text := by
  induction h generalizing p with
  | nil => rfl
  | blank hc _ ih =>
    rw [List.cons_append, scanFrom_blank p hc, ih]
    rfl
  | @comment body rest hbody _ ih =>
    rw [List.append_assoc, List.cons_append, scanFrom_comment p hbody, scanFrom_blank _ (by decide), ih,
      Position.after_append _ (Text.ofString "//" ++ body)]
    rfl

/-- **The words of a text do not depend on where it begins.** -/
theorem exists_scanFrom_words {p : Position} {skip : Nat} {text : Text} {tokens : List Token}
    (h : scanFrom p skip text = .ok tokens) (q : Position) :
    ∃ tokens', scanFrom q skip text = .ok tokens' ∧ tokens'.map word = tokens.map word := by
  induction text generalizing p q skip tokens with
  | nil =>
    cases h
    exact ⟨[], rfl, rfl⟩
  | cons c rest ih =>
    cases skip with
    | succ skip => exact ih h (q.advance c)
    | zero =>
      rw [scanFrom] at h ⊢
      cases hfound : lexemeAt? (c :: rest) with
      | none =>
        rw [hfound] at h
        cases h
      | some found =>
        obtain ⟨length, kind?⟩ := found
        rw [hfound] at h
        cases kind? with
        | none => exact ih h (q.advance c)
        | some kind =>
          cases hmore : scanFrom (p.advance c) (length - 1) rest with
          | error e =>
            simp only [hmore] at h
            cases h
          | ok more =>
            simp only [hmore] at h
            cases h
            obtain ⟨more', hmore', hwords⟩ := ih hmore (q.advance c)
            simp only [hmore']
            exact ⟨_, rfl, congrArg (_ :: ·) hwords⟩

end Token

/-! ## Lexemes and blanks -/

section Boundary

variable {kind? : Option TokenKind} {lexeme before rest : Text} {c : CodePoint}

/-- **What of a lexeme stands before a blank** is skipped, unless the lexeme is a string. -/
theorem IsLexeme.skipped_before_blank (h : IsLexeme kind? (before ++ c :: rest)) (hc : c.isBlank = true)
    (hbefore : before ≠ []) : StringLexeme (before ++ c :: rest) ∨ SkippedLexeme before := by
  have hmem : c ∈ before ++ c :: rest := by simp
  have hdigit : c.isDigit = false := by
    refine Bool.eq_false_iff.mpr fun hdigit => ?_
    have hlow := CodePoint.val_of_isBlank hc
    have hhigh := CodePoint.val_of_isDigit hdigit
    omega
  generalize htext : before ++ c :: rest = text at h hmem
  have hnumber : ∀ {number : Text}, NumberLexeme number → c ∉ number := by
    intro number hnumber
    cases hnumber with
    | whole h => exact h.not_mem c hdigit
    | fraction hw hf =>
      have hpoint : c ≠ CodePoint.ofChar '.' := by
        rintro rfl
        exact absurd hc (by decide)
      simp [hw.not_mem c hdigit, hf.not_mem c hdigit, hpoint]
  have hpart : c.isWordPart = false := by
    refine Bool.eq_false_iff.mpr fun hpart => ?_
    have hlow := CodePoint.val_of_isBlank hc
    simp only [CodePoint.isWordPart, CodePoint.isWordStart, CodePoint.isLetter, CodePoint.isAsciiDigit,
      CodePoint.within, Bool.or_eq_true, Bool.and_eq_true, decide_eq_true_eq] at hpart
    omega
  cases h with
  | skipped h =>
    refine .inr ?_
    cases h with
    | blanks h =>
      subst htext
      exact .blanks ⟨hbefore, fun d hd => h.2 d (List.mem_append_left _ hd)⟩
    | @comment body hbody =>
      -- The blank is neither of the slashes, so both stand before it.
      cases before with
      | nil => exact absurd rfl hbefore
      | cons first before =>
        cases before with
        | nil =>
          obtain ⟨-, hsecond⟩ := List.cons.inj htext
          obtain ⟨rfl, -⟩ := List.cons.inj hsecond
          exact absurd hc (by decide)
        | cons second before =>
          obtain ⟨rfl, hsecond⟩ := List.cons.inj htext
          obtain ⟨rfl, rfl⟩ := List.cons.inj hsecond
          exact .comment fun hmem => hbody (List.mem_append_left _ hmem)
  | number h => exact absurd hmem (hnumber h)
  | string h => exact .inl h
  | keyword h => exact absurd hmem ((wordLexeme_keyword h).notMem hpart)
  | name h _ => exact absurd hmem (h.notMem hpart)
  | symbol h =>
    have htable : ∀ entry ∈ symbols, ∀ d ∈ entry.1, d.isBlank = false := by decide
    rw [htable _ h c hmem] at hc
    cases hc

theorem StringLexeme.isQuote_head (h : StringLexeme (c :: rest)) : c.isQuote = true := by
  cases h with
  | quoted hquote _ => exact hquote

/-- A lexeme that begins with a quote is a string. -/
theorem IsLexeme.string_of_isQuote {quote : CodePoint} (h : IsLexeme kind? (quote :: rest))
    (hquote : quote.isQuote = true) : StringLexeme (quote :: rest) := by
  obtain ⟨hblank, hslash, hdigit, hstart⟩ := CodePoint.isQuote_excludes hquote
  have hword : ¬ WordLexeme (quote :: rest) := by
    rintro ⟨hc, -⟩
    rw [hstart] at hc
    cases hc
  generalize htext : quote :: rest = text at h hword ⊢
  cases h with
  | skipped h =>
    cases h with
    | blanks h =>
      rw [h.2 quote (htext ▸ List.mem_cons_self)] at hblank
      cases hblank
    | comment _ => exact absurd (List.cons.inj htext).1 hslash
  | number h =>
    have hrun : ∀ {run more : Text}, run.IsRun CodePoint.isDigit → quote :: rest ≠ run ++ more := by
      intro run more hrun heq
      obtain ⟨d, digits, rfl⟩ := List.exists_cons_of_ne_nil hrun.1
      rw [(List.cons.inj heq).1, hrun.2 d List.mem_cons_self] at hdigit
      cases hdigit
    cases h with
    | whole h => exact absurd (htext.trans (List.append_nil _).symm) (hrun h)
    | fraction hw _ => exact absurd htext (hrun hw)
  | string h => exact h
  | keyword h => exact absurd (wordLexeme_keyword h) hword
  | name h _ => exact absurd h hword
  | symbol h =>
    have hheads : ∀ entry ∈ symbols, entry.1.head?.all (!·.isQuote) = true := by decide
    have hhead := hheads _ h
    rw [← htext] at hhead
    simp [hquote] at hhead

/-- **A lexeme is still the longest with a gap put in behind it**, or farther behind. Right behind it a gap belongs to
    what is skipped, so the lexeme must be a token's. -/
theorem LongestLexeme.widen {between more : Text} (h : LongestLexeme kind? lexeme (lexeme ++ (between ++ rest)))
    (hc : c.isBlank = true) (hapart : between ≠ [] ∨ kind? ≠ none) :
    LongestLexeme kind? lexeme (lexeme ++ (between ++ (c :: more ++ rest))) := by
  refine ⟨h.isLexeme, List.prefix_append _ _, fun kind?' other hother hhead => Nat.le_of_not_lt fun hlonger => ?_⟩
  rw [← List.append_assoc] at hhead
  by_cases hshort : other.length ≤ (lexeme ++ between).length
  · -- The other lexeme does not come to the gap, so it was there before.
    have hbefore := List.prefix_of_prefix_length_le hhead (List.prefix_append _ _) hshort
    have hold : other <+: lexeme ++ (between ++ rest) := by
      rw [← List.append_assoc]
      exact hbefore.trans (List.prefix_append _ _)
    exact absurd (h.longest _ _ hother hold) (Nat.not_le_of_lt hlonger)
  · -- It goes on over the first blank of the gap.
    obtain ⟨last, rfl⟩ := List.prefix_of_prefix_length_le (List.prefix_append _ _) hhead
      (Nat.le_of_lt (Nat.lt_of_not_le hshort))
    obtain ⟨d, last, rfl⟩ : ∃ d others, last = d :: others := by
      cases last with
      | nil => simp at hshort
      | cons d others => exact ⟨d, others, rfl⟩
    obtain rfl : d = c := (List.cons_prefix_cons.mp ((List.prefix_append_right_inj _).mp hhead)).1
    obtain ⟨first, others, rfl⟩ := List.exists_cons_of_ne_nil h.isLexeme.ne_nil
    rcases hother.skipped_before_blank hc (by simp) with hstring | hskipped
    · -- Both are strings then, and a string ends at its closing quote.
      have hquote : first.isQuote = true := hstring.isQuote_head
      have hlexeme := stringLength?_append (h.isLexeme.string_of_isQuote hquote) (between ++ d :: last)
      have hother := stringLength?_append hstring []
      rw [List.append_nil, List.append_assoc] at hother
      rw [hlexeme] at hother
      exact absurd (Option.some.inj hother) (Nat.ne_of_lt (by simpa using hlonger))
    · -- What is skipped up to the gap would have been longer before.
      have hlonger := h.longest none _ (.skipped hskipped) (by rw [← List.append_assoc]; exact List.prefix_append _ _)
      have hempty : between = [] := by
        rw [List.length_append] at hlonger
        exact List.length_eq_zero_iff.mp (by omega)
      subst hempty
      rw [List.append_nil] at hskipped
      have hskipped : LongestLexeme none (first :: others) (first :: others ++ ([] ++ rest)) :=
        ⟨.skipped hskipped, h.atHead, h.longest⟩
      have hsame := (longestLexeme_iff.mp h).2.symm.trans (longestLexeme_iff.mp hskipped).2
      cases hsame
      exact hapart.elim (absurd rfl) (absurd rfl)

end Boundary

/-! ## A gap in a source -/

section Inserted

variable {source gap lexeme : Text} {offset k : Nat} {kind? : Option TokenKind} {tokens : List Token}

/-- What comes after an offset, up to the gap and from there on. -/
theorem drop_inserted (hk : k ≤ offset) (hoffset : offset ≤ source.length) :
    (source.inserted offset gap).drop k = source.slice k offset ++ (gap ++ source.drop offset) := by
  have hlength : k ≤ (source.take offset).length := by
    rw [List.length_take, Nat.min_eq_left hoffset]
    exact hk
  rw [Text.inserted, List.append_assoc, List.drop_append_of_le_length hlength, Text.slice]

theorem drop_eq_slice_append (hk : k ≤ offset) (hoffset : offset ≤ source.length) :
    source.drop k = source.slice k offset ++ source.drop offset := by
  have hnothing : (source.inserted offset []).drop k = source.slice k offset ++ ([] ++ source.drop offset) :=
    drop_inserted hk hoffset
  rwa [Text.inserted, List.append_nil, List.take_append_drop, List.nil_append] at hnothing

/-- In front of the gap nothing moves. -/
theorem positionAt_inserted (hk : k ≤ offset) (hoffset : offset ≤ source.length) :
    (source.inserted offset gap).positionAt k = source.positionAt k := by
  have htake : (source.inserted offset gap).take k = source.take k := by
    have hlength : k ≤ (source.take offset).length := by
      rw [List.length_take, Nat.min_eq_left hoffset]
      exact hk
    rw [Text.inserted, List.append_assoc, List.take_append_of_le_length hlength, List.take_take, Nat.min_eq_left hk]
  rw [Text.positionAt, Text.positionAt, htake]

variable (hgap : gap.Separates) (hoffset : offset ≤ source.length)
include hgap hoffset

/-- A lexeme in front of a gap is the longest there as well. -/
theorem LongestLexeme.inserted (h : LongestLexeme kind? lexeme (source.drop k)) (hle : k + lexeme.length ≤ offset)
    (hapart : k + lexeme.length < offset ∨ kind? ≠ none) :
    LongestLexeme kind? lexeme ((source.inserted offset gap).drop k) := by
  have hk : k ≤ offset := Nat.le_trans (Nat.le_add_right _ _) hle
  have hlength : (source.slice k offset).length = offset - k := by
    rw [Text.slice, List.length_drop, List.length_take, Nat.min_eq_left hoffset]
  rw [drop_eq_slice_append hk hoffset] at h
  rw [drop_inserted hk hoffset]
  -- The lexeme is the beginning of what stands between it and the gap.
  obtain ⟨between, hbetween⟩ := List.prefix_of_prefix_length_le h.atHead (List.prefix_append _ _) (by omega)
  rw [← hbetween, List.append_assoc] at h ⊢
  obtain ⟨-, c, blanks, rfl, hc⟩ := hgap
  refine h.widen hc (hapart.imp_left ?_)
  rintro hlt rfl
  rw [List.append_nil] at hbetween
  rw [hbetween, hlength] at hlt
  omega

/-- **A scan comes to each place in front of the gap**, as it did before. -/
theorem ScanReaches.inserted (h : ScanReaches source k tokens) (hk : k < offset) :
    ScanReaches (source.inserted offset gap) k tokens := by
  induction h with
  | start => exact .start
  | @step k tokens kind? lexeme _ hlongest ih =>
    have hle : k ≤ offset := by omega
    rw [← positionAt_inserted hle hoffset]
    exact (ih (by omega)).step (hlongest.inserted hgap hoffset (by omega) (.inl hk))

/-- **And to the gap itself**, if a token stands in front of it. -/
theorem ScanReaches.inserted_behind {kind : TokenKind} (h : ScanReaches source k tokens)
    (hlongest : LongestLexeme (some kind) lexeme (source.drop k)) (hbehind : k + lexeme.length = offset) :
    ScanReaches (source.inserted offset gap) offset (tokens ++ [⟨kind, lexeme, source.positionAt k⟩]) := by
  have hpositive := List.length_pos_iff.mpr hlongest.isLexeme.ne_nil
  have hstep := (h.inserted hgap hoffset (by omega)).step
    (hlongest.inserted hgap hoffset (Nat.le_of_eq hbehind) (.inr nofun))
  rwa [hbehind, positionAt_inserted (by omega) hoffset] at hstep

omit hgap hoffset in
/-- A comment goes on to the end of its line. -/
theorem LongestLexeme.comment_end {body rest : Text} {c : CodePoint}
    (h : LongestLexeme none (Text.ofString "//" ++ body) (Text.ofString "//" ++ body ++ c :: rest))
    (hbody : Text.newline ∉ body) : c = Text.newline := by
  refine Classical.byContradiction fun hc => ?_
  have hnewline : Text.newline ∉ body ++ [c] := by
    simp [hbody, Ne.symm hc]
  have hlonger := h.longest none (Text.ofString "//" ++ (body ++ [c])) (.skipped (.comment hnewline))
    ⟨rest, by simp⟩
  simp only [List.length_append, List.length_cons, List.length_nil] at hlonger
  omega

/-- **A gap in front of a token**: a scan comes to the gap, or to blanks in front of it. -/
theorem ScanReaches.inserted_before (h : ScanReaches source offset tokens) {kind : TokenKind} {next : Text}
    (hnext : LongestLexeme (some kind) next (source.drop offset)) :
    ∃ k, ScanReaches (source.inserted offset gap) k tokens ∧ k ≤ offset ∧ (source.slice k offset).IsSpacing := by
  have hempty : source.slice offset offset = [] := List.drop_eq_nil_of_le (List.length_take_le _ _)
  have hthere : ScanReaches (source.inserted offset gap) offset tokens →
      ∃ k, ScanReaches (source.inserted offset gap) k tokens ∧ k ≤ offset ∧ (source.slice k offset).IsSpacing :=
    fun h => ⟨offset, h, Nat.le_refl _, hempty ▸ .nil⟩
  cases h with
  | start => exact hthere .start
  | @step k before kind? lexeme hreach hlongest =>
    cases kind? with
    | some previous => exact hthere (hreach.inserted_behind hgap hoffset hlongest rfl)
    | none =>
      rw [Token.ofLexeme, List.append_nil]
      have hpositive := List.length_pos_iff.mpr hlongest.isLexeme.ne_nil
      refine ⟨k, hreach.inserted hgap hoffset (by omega), Nat.le_add_right _ _, ?_⟩
      have hslice : source.slice k (k + lexeme.length) = lexeme := by
        rw [slice_add (Nat.le_refl _) hreach.offset_le hlongest.atHead, Text.slice,
          List.drop_eq_nil_of_le (List.length_take_le _ _), List.nil_append]
      rw [hslice]
      cases hlongest.isLexeme with
      | skipped hskipped =>
        cases hskipped with
        | blanks hrun => exact .of_isRun hrun.2
        | @comment body hbody =>
          -- Behind a comment the line ends, and a token does not begin with a line feed.
          obtain ⟨c, more, rfl⟩ := List.exists_cons_of_ne_nil hnext.isLexeme.ne_nil
          obtain ⟨rest, hrest⟩ := hnext.atHead
          rw [← List.drop_drop] at hrest
          have hdrop : source.drop k = Text.ofString "//" ++ body ++ c :: (more ++ rest) := by
            rw [← List.cons_append, hrest]
            exact List.prefix_iff_eq_append.mp hlongest.atHead |>.symm
          rw [hdrop] at hlongest
          obtain rfl := hlongest.comment_end hbody
          exact absurd List.mem_cons_self hnext.isLexeme.newline_not_mem

/-- Behind spacing and a gap the words are those that were there before. -/
theorem ScanReaches.exists_scan_inserted {rest : List Token}
    (h : ScanReaches (source.inserted offset gap) k tokens) (hk : k ≤ offset)
    (hspacing : (source.slice k offset).IsSpacing) (hrest : scanAt source offset = .ok rest) :
    ∃ tokens', Token.scan (source.inserted offset gap) = .ok tokens' ∧
      tokens'.map Token.word = (tokens ++ rest).map Token.word := by
  obtain ⟨rest', hrest', hwords⟩ := Token.exists_scanFrom_words hrest
    (((source.inserted offset gap).positionAt k).after (source.slice k offset ++ gap))
  rw [← Token.scanFrom_spacing _ (hspacing.append hgap.1), List.append_assoc, ← drop_inserted hk hoffset] at hrest'
  refine ⟨tokens ++ rest', ?_, by rw [List.map_append, List.map_append, hwords]⟩
  rw [h.scan_eq, scanAt, hrest']
  rfl

end Inserted

/-- A scan that comes by a token. -/
theorem ScanReaches.split {source : Text} {offset : Nat} {tokens : List Token} {t : Token}
    (h : ScanReaches source offset tokens) (ht : t ∈ tokens) :
    ∃ before after, tokens = before ++ t :: after ∧ ScanReaches source t.position.offset before ∧
      LongestLexeme (some t.kind) t.lexeme (source.drop t.position.offset) ∧
      t.position = source.positionAt t.position.offset := by
  induction h with
  | start => cases ht
  | @step offset tokens kind? lexeme hreach hlongest ih =>
    rcases List.mem_append.mp ht with ht | ht
    · obtain ⟨before, after, rfl, hbefore⟩ := ih ht
      exact ⟨before, after ++ Token.ofLexeme kind? lexeme (source.positionAt offset), by simp, hbefore⟩
    · cases kind? with
      | none => cases ht
      | some kind =>
        obtain rfl := List.mem_singleton.mp ht
        exact ⟨tokens, [], rfl, hreach, hlongest, rfl⟩

/-- **A gap in front of a token or behind it changes no word.** -/
theorem scan_inserted {source gap : Text} {tokens : List Token} (hscan : Token.scan source = .ok tokens)
    (hgap : gap.Separates) {t : Token} (ht : t ∈ tokens) {offset : Nat}
    (hoffset : offset = t.position.offset ∨ offset = t.finish) :
    ∃ tokens', Token.scan (source.inserted offset gap) = .ok tokens' ∧
      tokens'.map Token.word = tokens.map Token.word := by
  have hreach := scan_eq_ok_iff.mp hscan
  have hlaidOut := hreach.laidOut
  have hfinish : t.finish ≤ source.length := hlaidOut.finish_le t ht
  obtain ⟨before, after, rfl, hbefore, hlongest, hposition⟩ := hreach.split ht
  have hfirst : t.position.offset ≤ source.length := Nat.le_trans (Nat.le_add_right _ _) hfinish
  -- From the token on a scan gives the token and what is behind it.
  have hrest : scanAt source t.position.offset = .ok (t :: after) := by
    have hwhole := hbefore.scan_eq
    rw [hscan] at hwhole
    cases hat : scanAt source t.position.offset with
    | error e =>
      rw [hat] at hwhole
      cases hwhole
    | ok rest =>
      rw [hat] at hwhole
      exact congrArg Except.ok (List.append_cancel_left (Except.ok.inj hwhole)).symm
  rcases hoffset with rfl | rfl
  · obtain ⟨k, hk, hle, hspacing⟩ := hbefore.inserted_before hgap hfirst hlongest
    exact hk.exists_scan_inserted hgap hfirst hle hspacing hrest
  · have hbehind := hbefore.inserted_behind hgap hfinish hlongest rfl
    have hempty : source.slice t.finish t.finish = [] := List.drop_eq_nil_of_le (List.length_take_le _ _)
    have hafter : scanAt source t.finish = .ok after := by
      rw [scanAt_lexeme hlongest] at hrest
      cases hat : scanAt source (t.position.offset + t.lexeme.length) with
      | error e =>
        rw [hat] at hrest
        cases hrest
      | ok rest =>
        rw [hat] at hrest
        rw [Token.finish, hat]
        exact congrArg Except.ok (List.cons.inj (Except.ok.inj hrest)).2
    obtain ⟨tokens', hscan', hwords⟩ :=
      hbehind.exists_scan_inserted hgap hfinish (Nat.le_refl _) (hempty ▸ .nil) hafter
    refine ⟨tokens', hscan', hwords.trans ?_⟩
    simp [Token.word]

/-! ## Lexemes side by side -/

/-- **A token's lexeme is taken alone** where it stands alone, or before a blank. -/
theorem LongestLexeme.of_isLexeme {kind : TokenKind} {lexeme rest : Text} (h : IsLexeme (some kind) lexeme)
    (hrest : rest = [] ∨ ∃ c more, rest = c :: more ∧ c.isBlank = true) :
    LongestLexeme (some kind) lexeme (lexeme ++ rest) := by
  have halone : LongestLexeme (some kind) lexeme (lexeme ++ ([] ++ [])) :=
    ⟨h, List.prefix_append _ _, fun _ other _ hother => by simpa using hother.length_le⟩
  rcases hrest with rfl | ⟨c, more, rfl, hc⟩
  · exact halone
  · have hbefore : LongestLexeme (some kind) lexeme (lexeme ++ ([] ++ (c :: more ++ []))) :=
      halone.widen hc (.inr nofun)
    simpa using hbefore

/-- Lexemes of tokens with spaces between them are those tokens again. -/
theorem Token.exists_scanFrom_joined {tokens : List Token} (h : ∀ t ∈ tokens, IsLexeme (some t.kind) t.lexeme)
    (p : Position) : ∃ tokens', scanFrom p 0 (Text.join " " (tokens.map lexeme)) = .ok tokens' ∧
      tokens'.map word = tokens.map word := by
  induction tokens generalizing p with
  | nil => exact ⟨[], rfl, rfl⟩
  | cons t rest ih =>
    rw [List.forall_mem_cons] at h
    cases rest with
    | nil =>
      have hlongest := LongestLexeme.of_isLexeme h.1 (.inl rfl)
      refine ⟨[⟨t.kind, t.lexeme, p⟩], ?_, rfl⟩
      have hscan := scanFrom_lexeme p hlongest
      rwa [List.drop_left, List.append_nil] at hscan
    | cons next others =>
      obtain ⟨more, hmore, hwords⟩ := ih h.2 ((p.after t.lexeme).advance (CodePoint.ofChar ' '))
      have hlongest : LongestLexeme (some t.kind) t.lexeme
          (t.lexeme ++ (CodePoint.ofChar ' ' :: Text.join " " ((next :: others).map lexeme))) :=
        .of_isLexeme h.1 (.inr ⟨_, _, rfl, by decide⟩)
      have hscan := scanFrom_lexeme p hlongest
      rw [List.drop_left, scanFrom_blank _ (by decide), hmore] at hscan
      refine ⟨⟨t.kind, t.lexeme, p⟩ :: more, ?_, congrArg (t.word :: ·) hwords⟩
      have hjoin : Text.join " " ((t :: next :: others).map lexeme) =
          t.lexeme ++ (CodePoint.ofChar ' ' :: Text.join " " ((next :: others).map lexeme)) := by
        simp only [List.map_cons, Text.join, List.append_assoc]
        rfl
      rw [hjoin, hscan]
      rfl

/-- **The lexemes of a source with single spaces between them** have the words of the source. -/
theorem scan_joined {source : Text} {tokens : List Token} (hscan : Token.scan source = .ok tokens) :
    ∃ tokens', Token.scan (Text.join " " (tokens.map Token.lexeme)) = .ok tokens' ∧
      tokens'.map Token.word = tokens.map Token.word := by
  refine Token.exists_scanFrom_joined (fun t ht => ?_) .start
  obtain ⟨_, _, -, -, hlongest, -⟩ := (scan_eq_ok_iff.mp hscan).split ht
  exact hlongest.isLexeme

end LineaLang
