import LineaLang.Proofs.Parsing.Scanned

/-!
# `LineaLang.Proofs.Scanning.LongestMatch` — the lexeme at one place is the longest

A scan decides by the first code point which terminal it tries, and takes what that terminal allows. It comes to
the same as trying all of them and taking the longest match: no code point can begin lexemes of two sorts, save
the slash, of which a comment is longer than a symbol; and what each terminal takes is as long as it can be.

## Contents

* `CodePoint.isDigit_excludes` and its like — how lexemes begin.
* `runLength_append`, `le_numberLength`, `stringRestLength?_append`, `find?_longest` — each terminal takes all
  that it can.
* `LongestLexeme` — the longest lexeme at the head of a text.
* `IsLexeme.within` — every lexeme at the head of a text is within the one that is taken.
* `longestLexeme_iff`, `lexemeAt?_eq_none_iff` — the longest lexeme is taken; where there is none, none.
* `LongestLexeme.string`, `LongestLexeme.digits` — what is taken is not changed by what comes after it.
-/

namespace LineaLang

/-! ## How lexemes begin -/

namespace CodePoint

variable {c : CodePoint}

theorem val_of_isDigit (h : c.isDigit = true) : 0x30 ≤ c.val ∧ c.val ≤ 0x39 ∨ 0x660 ≤ c.val := by
  simp only [isDigit, digit?, Option.isSome_map, List.find?_isSome, within, Bool.and_eq_true,
    decide_eq_true_eq] at h
  obtain ⟨first, hfirst, hlow, hhigh⟩ := h
  have hzeros : ∀ first ∈ Digit.zeros, first = 0x30 ∨ 0x660 ≤ first := by decide
  have hzero := hzeros first hfirst
  omega

theorem val_of_isBlank (h : c.isBlank = true) : c.val ≤ 0x20 := by
  simp only [isBlank, Bool.or_eq_true, decide_eq_true_eq] at h
  omega

theorem val_of_isWordStart (h : c.isWordStart = true) :
    0x41 ≤ c.val ∧ c.val ≤ 0x5A ∨ c.val = 0x5F ∨ 0x61 ≤ c.val ∧ c.val ≤ 0x7A := by
  simp only [isWordStart, isLetter, within, Bool.or_eq_true, Bool.and_eq_true, decide_eq_true_eq] at h
  omega

/-- A digit begins nothing that is tried before a number. -/
theorem isDigit_excludes (h : c.isDigit = true) : c.isBlank = false ∧ c ≠ ofChar '/' := by
  have hdigit := val_of_isDigit h
  refine ⟨Bool.eq_false_iff.mpr fun hblank => ?_, ?_⟩
  · have hlow := val_of_isBlank hblank
    omega
  · rintro rfl
    exact absurd h (by decide)

/-- The start of a word begins nothing that is tried before a word. -/
theorem isWordStart_excludes (h : c.isWordStart = true) :
    c.isBlank = false ∧ c ≠ ofChar '/' ∧ c.isDigit = false := by
  have hword := val_of_isWordStart h
  refine ⟨Bool.eq_false_iff.mpr fun hblank => ?_, ?_, Bool.eq_false_iff.mpr fun hdigit => ?_⟩
  · have hlow := val_of_isBlank hblank
    omega
  · rintro rfl
    exact absurd h (by decide)
  · have hdigit' := val_of_isDigit hdigit
    omega

/-- A quote begins nothing that is tried before a string. -/
theorem isQuote_excludes (h : c.isQuote = true) :
    c.isBlank = false ∧ c ≠ ofChar '/' ∧ c.isDigit = false ∧ c.isWordStart = false := by
  rcases eq_of_isQuote h with rfl | rfl <;> decide

end CodePoint

section Heads

variable {c : CodePoint} {rest : Text}

theorem blankLength_eq_zero (h : c.isBlank = false) : blankLength (c :: rest) = 0 := by
  rw [blankLength, runLength, List.takeWhile_cons_of_neg (by simp [h])]
  rfl

theorem commentLength_eq_zero (h : c ≠ CodePoint.ofChar '/') : commentLength (c :: rest) = 0 := by
  unfold commentLength
  split
  · rename_i hslashes
    exact absurd (List.cons_prefix_cons.mp hslashes).1.symm h
  · rfl

theorem numberLength_eq_zero (h : c.isDigit = false) : numberLength (c :: rest) = 0 := by
  have hrun : runLength CodePoint.isDigit (c :: rest) = 0 := by
    rw [runLength, List.takeWhile_cons_of_neg (by simp [h])]
    rfl
  unfold numberLength
  simp [hrun]

theorem wordLength_eq_zero (h : c.isWordStart = false) : wordLength (c :: rest) = 0 := by
  rw [wordLength, if_neg (by simp [h])]

theorem stringLength?_eq_none (h : c.isQuote = false) : stringLength? (c :: rest) = none := by
  rw [stringLength?, if_neg (by simp [h])]

end Heads

/-! ## What each terminal takes -/

variable {p : CodePoint → Bool} {text rest : Text}

/-- **A run is taken as far as it goes.** -/
theorem runLength_append {run : Text} (h : ∀ c ∈ run, p c = true) (rest : Text) :
    runLength p (run ++ rest) = run.length + runLength p rest := by
  rw [runLength, List.takeWhile_append_of_pos h, List.length_append, runLength]

theorem runLength_le (p : CodePoint → Bool) (text : Text) : runLength p text ≤ text.length :=
  (List.takeWhile_prefix p).length_le

theorem le_blankLength {run : Text} (h : run.IsRun CodePoint.isBlank) (rest : Text) :
    run.length ≤ blankLength (run ++ rest) := by
  rw [blankLength, runLength_append h.2]
  exact Nat.le_add_right _ _

theorem le_commentLength {body : Text} (h : Text.newline ∉ body) (rest : Text) :
    (Text.ofString "//" ++ body).length ≤ commentLength (Text.ofString "//" ++ body ++ rest) := by
  have hline : ∀ c ∈ Text.ofString "//" ++ body, decide (c ≠ Text.newline) = true := by
    intro c hc
    rcases List.mem_append.mp hc with hslash | hbody
    · have hslashes : ∀ c ∈ Text.ofString "//", decide (c ≠ Text.newline) = true := by decide
      exact hslashes c hslash
    · exact decide_eq_true fun heq => h (heq ▸ hbody)
  rw [commentLength, if_pos (by simp [List.append_assoc]), runLength_append hline]
  exact Nat.le_add_right _ _

theorem two_le_commentLength (h : commentLength text ≠ 0) : 2 ≤ commentLength text := by
  have hslashes : Text.ofString "//" <+: text := Classical.byContradiction fun hnot => h (if_neg hnot)
  obtain ⟨rest, rfl⟩ := hslashes
  exact le_commentLength List.not_mem_nil _

/-- **A number is taken with its fraction**, if it has one, and with all its digits. -/
theorem le_numberLength {number : Text} (h : NumberLexeme number) (rest : Text) :
    number.length ≤ numberLength (number ++ rest) := by
  unfold numberLength
  cases h with
  | whole hdigits =>
    have hrun := runLength_append hdigits.2 rest
    have hpositive := List.length_pos_iff.mpr hdigits.1
    simp only
    rw [if_neg (by omega)]
    split
    · omega
    · split <;> omega
  | @fraction whole fraction hwhole hfraction =>
    have hpoint : runLength CodePoint.isDigit (CodePoint.ofChar '.' :: fraction ++ rest) = 0 := by
      rw [List.cons_append, runLength, List.takeWhile_cons_of_neg (by decide)]
      rfl
    have hrun := runLength_append hwhole.2 (CodePoint.ofChar '.' :: fraction ++ rest)
    rw [hpoint, Nat.add_zero] at hrun
    have hpositive := List.length_pos_iff.mpr hwhole.1
    have hfractionRun := runLength_append hfraction.2 rest
    have hfractionPositive := List.length_pos_iff.mpr hfraction.1
    rw [List.append_assoc]
    simp only
    rw [hrun, if_neg (by omega), List.drop_left]
    simp only [List.cons_append]
    rw [if_pos (by simp; omega), hfractionRun, List.length_append, List.length_cons]
    omega

theorem le_wordLength {word : Text} (h : WordLexeme word) (rest : Text) :
    word.length ≤ wordLength (word ++ rest) := by
  cases h with
  | word hc hr =>
    rw [List.cons_append, wordLength, if_pos hc, runLength_append hr, List.length_cons]
    omega

/-- A code point inside a string, which is not the last. -/
theorem stringRestLength?_cons {quote c : CodePoint} (hquote : c ≠ quote) (hbackslash : c ≠ CodePoint.ofChar '\\')
    (hnewline : c ≠ Text.newline) (hrest : rest ≠ []) :
    stringRestLength? quote (c :: rest) = (stringRestLength? quote rest).map (· + 1) := by
  obtain ⟨d, more, rfl⟩ := List.exists_cons_of_ne_nil hrest
  rw [stringRestLength?, if_neg hquote, if_neg hnewline, if_neg hbackslash]

/-- **A string ends at the first quote that is not escaped.** -/
theorem stringRestLength?_append {quote : CodePoint} (hquote : quote.isQuote = true) {body : Text}
    (h : StringBody quote body) :
    stringRestLength? quote (body ++ quote :: rest) = some (body.length + 1) := by
  induction h with
  | nil =>
    rw [List.nil_append]
    cases rest <;> simp [stringRestLength?]
  | @plain c body hc hbackslash hnewline _ ih =>
    rw [List.cons_append, stringRestLength?_cons hc hbackslash hnewline (by simp), ih]
    rfl
  | @escape c body hnewline _ ih =>
    have hbackslash : CodePoint.ofChar '\\' ≠ quote := by
      rintro rfl
      exact absurd hquote (by decide)
    rw [List.cons_append, List.cons_append, stringRestLength?, if_neg hbackslash, if_neg (by decide), if_pos rfl,
      if_neg hnewline, ih]
    rfl

theorem stringLength?_append {string : Text} (h : StringLexeme string) (rest : Text) :
    stringLength? (string ++ rest) = some string.length := by
  cases h with
  | @quoted quote body hquote hbody =>
    rw [List.cons_append, stringLength?, if_pos hquote, List.append_assoc, List.singleton_append,
      stringRestLength?_append hquote hbody]
    simp

/-- Among entries that get no longer, the first that fits is the longest that fits. -/
theorem find?_longest {entries : List (Text × TokenKind)} {fits : Text × TokenKind → Bool}
    (hsorted : entries.Pairwise fun a b => b.1.length ≤ a.1.length) {entry : Text × TokenKind}
    (hmem : entry ∈ entries) (hfits : fits entry = true) :
    ∃ found, entries.find? fits = some found ∧ entry.1.length ≤ found.1.length := by
  induction entries with
  | nil => cases hmem
  | cons first others ih =>
    rw [List.pairwise_cons] at hsorted
    by_cases hfirst : fits first = true
    · refine ⟨first, List.find?_cons_of_pos hfirst, ?_⟩
      rcases List.mem_cons.mp hmem with rfl | hothers
      · exact Nat.le_refl _
      · exact hsorted.1 entry hothers
    · rw [List.find?_cons_of_neg hfirst]
      rcases List.mem_cons.mp hmem with rfl | hothers
      · exact absurd hfits hfirst
      · exact ih hsorted.2 hothers

/-- **The symbol that is taken is the longest**, and of symbols of one length only one can stand there. -/
theorem symbolAt?_append {symbol : Text} {kind : TokenKind} (h : (symbol, kind) ∈ symbols) :
    ∃ found, symbolAt? (symbol ++ rest) = some found ∧ symbol.length ≤ found.length ∧
      (symbol.length = found.length → found.kind? = some kind) := by
  have hsorted : symbols.Pairwise fun a b => b.1.length ≤ a.1.length := by decide
  obtain ⟨⟨symbol', kind'⟩, hfind, hlength⟩ :=
    @find?_longest _ (fun entry => entry.1.isPrefixOf (symbol ++ rest)) hsorted _ h (by simp)
  refine ⟨⟨symbol'.length, some kind'⟩, by rw [symbolAt?, hfind]; rfl, hlength, ?_⟩
  intro hsame
  -- Two symbols of one length at one place are the same text, and no text has two kinds.
  have hprefix := List.find?_some hfind
  simp only [List.isPrefixOf_iff_prefix] at hprefix
  have heq : symbol' = symbol :=
    (List.prefix_of_prefix_length_le hprefix (List.prefix_append symbol rest) (Nat.le_of_eq hsame.symm)).eq_of_length
      hsame.symm
  have hkinds : ∀ a ∈ symbols, ∀ b ∈ symbols, a.1 = b.1 → a.2 = b.2 := by decide
  exact congrArg some (hkinds _ (List.mem_of_find?_eq_some hfind) _ h heq)

/-! ## The longest lexeme -/

/-- **The longest lexeme at the head of a text.** -/
structure LongestLexeme (kind? : Option TokenKind) (lexeme text : Text) : Prop where
  isLexeme : IsLexeme kind? lexeme
  atHead : lexeme <+: text
  longest : ∀ kind?' other, IsLexeme kind?' other → other <+: text → other.length ≤ lexeme.length

/-- Nothing is taken where there is nothing. -/
theorem IsLexeme.ne_nil {kind? : Option TokenKind} (h : IsLexeme kind? text) : text ≠ [] := by
  have htables : ∀ entry ∈ symbols ++ keywords, entry.1 ≠ [] := by decide
  cases h with
  | skipped h =>
    cases h with
    | blanks h => exact h.1
    | comment h => exact List.cons_ne_nil _ _
  | number h =>
    cases h with
    | whole h => exact h.1
    | fraction h => exact List.append_ne_nil_of_left_ne_nil h.1 _
  | string h =>
    cases h with
    | quoted => exact List.cons_ne_nil _ _
  | name h =>
    cases h with
    | word => exact List.cons_ne_nil _ _
  | keyword h => exact htables _ (List.mem_append_right _ h)
  | symbol h => exact htables _ (List.mem_append_left _ h)

theorem wordLexeme_keyword {kind : TokenKind} (h : (text, kind) ∈ keywords) : WordLexeme text := by
  have hwords : ∀ entry ∈ keywords,
      entry.1.head?.any CodePoint.isWordStart = true ∧ entry.1.tail.all CodePoint.isWordPart = true := by decide
  obtain ⟨hhead, htail⟩ := hwords _ h
  cases text with
  | nil => cases hhead
  | cons c rest => exact .word hhead (List.all_eq_true.mp htail)

theorem wordKind_keyword {kind : TokenKind} (h : (text, kind) ∈ keywords) : wordKind text = kind := by
  have htable : ∀ entry ∈ keywords, wordKind entry.1 = entry.2 := by decide
  exact htable _ h

theorem wordKind_name (h : ∀ kind, (text, kind) ∉ keywords) : wordKind text = .ident := by
  rw [wordKind]
  cases hfind : keywords.find? fun entry => entry.1 = text with
  | none => rfl
  | some entry =>
    have hmem := List.mem_of_find?_eq_some hfind
    have hentry := List.find?_some hfind
    simp only [decide_eq_true_eq] at hentry
    subst hentry
    exact absurd hmem (h entry.2)

/-! ## What is taken -/

section Taken

variable {c : CodePoint}

/-- Where a number begins one is taken. -/
theorem lexemeAt?_number (h : c.isDigit = true) (hnumber : numberLength (c :: rest) ≠ 0) :
    lexemeAt? (c :: rest) = some ⟨numberLength (c :: rest), some .number⟩ := by
  obtain ⟨hblank, hslash⟩ := CodePoint.isDigit_excludes h
  simp [lexemeAt?, blankLength_eq_zero hblank, commentLength_eq_zero hslash, hnumber]

/-- Where a word begins one is taken. -/
theorem lexemeAt?_word (h : c.isWordStart = true) (hword : wordLength (c :: rest) ≠ 0) :
    lexemeAt? (c :: rest) = some ⟨wordLength (c :: rest),
      some (wordKind ((c :: rest).take (wordLength (c :: rest))))⟩ := by
  obtain ⟨hblank, hslash, hdigit⟩ := CodePoint.isWordStart_excludes h
  simp [lexemeAt?, blankLength_eq_zero hblank, commentLength_eq_zero hslash, numberLength_eq_zero hdigit, hword]

/-- Where a closed string begins it is taken. -/
theorem lexemeAt?_string (h : c.isQuote = true) {length : Nat} (hstring : stringLength? (c :: rest) = some length) :
    lexemeAt? (c :: rest) = some ⟨length, some .string⟩ := by
  obtain ⟨hblank, hslash, hdigit, hword⟩ := CodePoint.isQuote_excludes h
  simp [lexemeAt?, blankLength_eq_zero hblank, commentLength_eq_zero hslash, numberLength_eq_zero hdigit,
    wordLength_eq_zero hword, hstring]

end Taken

/-- **What is taken at the head of a text reaches as far as a lexeme**, and if no further it has the same kind. -/
def Within (kind? : Option TokenKind) (length : Nat) (text : Text) : Prop :=
  ∃ found, lexemeAt? text = some found ∧ length ≤ found.length ∧ (length = found.length → found.kind? = kind?)

theorem within_skipped {skipped : Text} (h : SkippedLexeme skipped) :
    Within none skipped.length (skipped ++ rest) := by
  have hne := (IsLexeme.skipped h).ne_nil
  have hpositive := List.length_pos_iff.mpr hne
  cases h with
  | blanks hrun =>
    have hlength := le_blankLength hrun rest
    exact ⟨_, by rw [lexemeAt?, if_pos (by omega)], hlength, fun _ => rfl⟩
  | @comment body hbody =>
    have hlength := le_commentLength hbody rest
    have hblank : blankLength (Text.ofString "//" ++ body ++ rest) = 0 := blankLength_eq_zero (by decide)
    exact ⟨_, by rw [lexemeAt?, if_neg (by omega), if_pos (by omega)], hlength, fun _ => rfl⟩

theorem within_number {number : Text} (h : NumberLexeme number) :
    Within (some .number) number.length (number ++ rest) := by
  have hlength := le_numberLength h rest
  have hne := (IsLexeme.number h).ne_nil
  obtain ⟨c, more, rfl⟩ := List.exists_cons_of_ne_nil hne
  have hdigit : c.isDigit = true := by
    generalize hnumber : c :: more = number at h
    cases h with
    | whole h => exact h.2 c (hnumber ▸ List.mem_cons_self)
    | @fraction whole fraction hw hf =>
      obtain ⟨d, digits, rfl⟩ := List.exists_cons_of_ne_nil hw.1
      cases hnumber
      exact hw.2 c List.mem_cons_self
  exact ⟨_, lexemeAt?_number hdigit (by simp at hlength ⊢; omega), hlength, fun _ => rfl⟩

theorem within_word {word : Text} {kind : TokenKind} (h : WordLexeme word) (hkind : wordKind word = kind) :
    Within (some kind) word.length (word ++ rest) := by
  have hlength := le_wordLength h rest
  cases h with
  | @word c more hc hr =>
    refine ⟨_, lexemeAt?_word hc (by simp at hlength ⊢; omega), hlength, ?_⟩
    intro hsame
    have htaken : (c :: more ++ rest).take (wordLength (c :: more ++ rest)) = c :: more := by
      rw [← show (c :: more).length = wordLength (c :: more ++ rest) from hsame, List.take_left]
    show some (wordKind ((c :: more ++ rest).take (wordLength (c :: more ++ rest)))) = some kind
    rw [htaken, hkind]

theorem within_string {string : Text} (h : StringLexeme string) :
    Within (some .string) string.length (string ++ rest) := by
  have hstring := stringLength?_append h rest
  cases h with
  | quoted hquote _ => exact ⟨_, lexemeAt?_string hquote hstring, Nat.le_refl _, fun _ => rfl⟩

/-- A slash begins a comment if another follows it. -/
theorem within_symbol {symbol : Text} {kind : TokenKind} (h : (symbol, kind) ∈ symbols) :
    Within (some kind) symbol.length (symbol ++ rest) := by
  have hheads : ∀ entry ∈ symbols, entry.1.head?.all (fun c =>
      !c.isBlank && !c.isDigit && !c.isWordStart && !c.isQuote) = true ∧
      (entry.1.head? = some (CodePoint.ofChar '/') → entry.1.length = 1) := by decide
  obtain ⟨hhead, hslash⟩ := hheads _ h
  obtain ⟨c, more, rfl⟩ := List.exists_cons_of_ne_nil (IsLexeme.symbol h).ne_nil
  simp only [List.head?_cons, Option.all_some, Bool.and_eq_true, Bool.not_eq_true'] at hhead
  obtain ⟨⟨⟨hblank, hdigit⟩, hword⟩, hquote⟩ := hhead
  unfold Within lexemeAt?
  rw [List.cons_append, blankLength_eq_zero hblank, if_neg (by simp)]
  by_cases hcomment : commentLength (c :: (more ++ rest)) ≠ 0
  · rw [if_pos hcomment]
    -- The symbol is a single slash, and the comment has two.
    have hc : c = CodePoint.ofChar '/' := Classical.byContradiction fun hc => hcomment (commentLength_eq_zero hc)
    have hone : (c :: more).length = 1 := hslash (congrArg some hc)
    have htwo := two_le_commentLength hcomment
    exact ⟨_, rfl, by simp only; omega, fun hsame => by simp only at hsame; omega⟩
  · rw [if_neg hcomment, numberLength_eq_zero hdigit, if_neg (by simp), wordLength_eq_zero hword,
      if_neg (by simp), stringLength?_eq_none hquote]
    exact symbolAt?_append h

/-- **Every lexeme at the head of a text is within the one that is taken.** -/
theorem IsLexeme.within {kind? : Option TokenKind} {lexeme : Text} (h : IsLexeme kind? lexeme)
    (hhead : lexeme <+: text) : Within kind? lexeme.length text := by
  obtain ⟨rest, rfl⟩ := hhead
  cases h with
  | skipped h => exact within_skipped h
  | number h => exact within_number h
  | string h => exact within_string h
  | keyword h => exact within_word (wordLexeme_keyword h) (wordKind_keyword h)
  | name h hkeyword => exact within_word h (wordKind_name hkeyword)
  | symbol h => exact within_symbol h

/-! ## No more than there is -/

theorem commentLength_le (text : Text) : commentLength text ≤ text.length := by
  unfold commentLength
  split
  · exact runLength_le _ text
  · exact Nat.zero_le _

theorem numberLength_le (text : Text) : numberLength text ≤ text.length := by
  have hwhole := runLength_le CodePoint.isDigit text
  unfold numberLength
  simp only
  split
  · exact Nat.zero_le _
  · split
    · exact hwhole
    · rename_i point rest hdrop
      have hlength := congrArg List.length hdrop
      rw [List.length_drop, List.length_cons] at hlength
      have hfraction := runLength_le CodePoint.isDigit rest
      split <;> omega

theorem wordLength_le (text : Text) : wordLength text ≤ text.length := by
  cases text with
  | nil => exact Nat.le_refl _
  | cons c rest =>
    have hrest := runLength_le CodePoint.isWordPart rest
    rw [wordLength, List.length_cons]
    split <;> omega

theorem stringRestLength?_le {quote : CodePoint} {length : Nat} (h : stringRestLength? quote text = some length) :
    length ≤ text.length := by
  fun_induction stringRestLength? quote text generalizing length with
  | case1 | case3 | case5 | case6 => cases h
  | case2 | case4 =>
    obtain rfl := Option.some.inj h
    simp
  | case7 d rest _ _ _ ih | case8 c d rest _ _ _ ih =>
    obtain ⟨length, hlength, rfl⟩ := Option.map_eq_some_iff.mp h
    have hrest := ih hlength
    simp only [List.length_cons] at hrest ⊢
    omega

theorem stringLength?_le {length : Nat} (h : stringLength? text = some length) : length ≤ text.length := by
  cases text with
  | nil => cases h
  | cons quote rest =>
    rw [stringLength?] at h
    split at h
    · obtain ⟨length, hlength, rfl⟩ := Option.map_eq_some_iff.mp h
      exact Nat.succ_le_succ (stringRestLength?_le hlength)
    · cases h

/-- **No more is taken than there is.** -/
theorem length_lexemeAt_le {found : Lexeme} (h : lexemeAt? text = some found) : found.length ≤ text.length := by
  unfold lexemeAt? at h
  split at h
  · cases h
    exact runLength_le _ text
  split at h
  · cases h
    exact commentLength_le text
  split at h
  · cases h
    exact numberLength_le text
  split at h
  · cases h
    exact wordLength_le text
  split at h
  · rename_i hstring
    cases h
    exact stringLength?_le hstring
  · obtain ⟨entry, hfind, rfl⟩ := Option.map_eq_some_iff.mp h
    have hprefix := List.find?_some hfind
    simp only [List.isPrefixOf_iff_prefix] at hprefix
    exact hprefix.length_le

/-! ## Longest match -/

/-- **The longest lexeme is what is taken.** -/
theorem longestLexeme_iff {kind? : Option TokenKind} {lexeme : Text} :
    LongestLexeme kind? lexeme text ↔ lexeme <+: text ∧ lexemeAt? text = some ⟨lexeme.length, kind?⟩ := by
  constructor
  · rintro ⟨hlexeme, hhead, hlongest⟩
    refine ⟨hhead, ?_⟩
    obtain ⟨⟨length, found?⟩, hfound, hle, hkind⟩ := hlexeme.within hhead
    have htaken := hlongest _ _ (isLexeme_lexemeAt hfound) (List.take_prefix _ _)
    have hbound := length_lexemeAt_le hfound
    have hsame : lexeme.length = length := by
      rw [List.length_take, Nat.min_eq_left hbound] at htaken
      exact Nat.le_antisymm hle htaken
    rw [hfound, ← hkind hsame, hsame]
  · rintro ⟨hhead, hfound⟩
    have hlexeme := isLexeme_lexemeAt hfound
    rw [← List.prefix_iff_eq_take.mp hhead] at hlexeme
    refine ⟨hlexeme, hhead, ?_⟩
    intro kind?' other hother hotherHead
    obtain ⟨found, hfound', hle, -⟩ := hother.within hotherHead
    rw [hfound] at hfound'
    cases hfound'
    exact hle

/-- A string is taken as it is, whatever comes after it. -/
theorem LongestLexeme.string {lexeme : Text} (h : StringLexeme lexeme) (rest : Text) :
    LongestLexeme (some .string) lexeme (lexeme ++ rest) := by
  have hlength := stringLength?_append h rest
  refine longestLexeme_iff.mpr ⟨List.prefix_append _ _, ?_⟩
  cases h with
  | quoted hquote _ => exact lexemeAt?_string hquote hlength

/-- Digits are taken up to what is neither a digit nor a point. -/
theorem LongestLexeme.digits {digits : Text} (h : digits.IsRun CodePoint.isDigit) {c : CodePoint}
    (hdigit : c.isDigit = false) (hpoint : c ≠ CodePoint.ofChar '.') (rest : Text) :
    LongestLexeme (some .number) digits (digits ++ c :: rest) := by
  have hrun : runLength CodePoint.isDigit (digits ++ c :: rest) = digits.length := by
    rw [runLength_append h.2, runLength, List.takeWhile_cons_of_neg (by simp [hdigit])]
    rfl
  have hpositive := List.length_pos_iff.mpr h.1
  have hlength : numberLength (digits ++ c :: rest) = digits.length := by
    unfold numberLength
    simp only [hrun, List.drop_left]
    rw [if_neg (by omega), if_neg fun hfraction => hpoint hfraction.1]
  refine longestLexeme_iff.mpr ⟨List.prefix_append _ _, ?_⟩
  rw [← hlength]
  have htaken : numberLength (digits ++ c :: rest) ≠ 0 := by omega
  obtain ⟨d, more, rfl⟩ := List.exists_cons_of_ne_nil h.1
  exact lexemeAt?_number (h.2 d List.mem_cons_self) htaken

/-- **Nothing is taken only where no lexeme begins.** -/
theorem lexemeAt?_eq_none_iff :
    lexemeAt? text = none ↔ ∀ kind? lexeme, IsLexeme kind? lexeme → ¬ lexeme <+: text := by
  constructor
  · intro hnone kind? lexeme hlexeme hhead
    obtain ⟨found, hfound, -⟩ := hlexeme.within hhead
    rw [hnone] at hfound
    cases hfound
  · intro hnever
    cases hfound : lexemeAt? text with
    | none => rfl
    | some found => exact absurd (List.take_prefix _ _) (hnever _ _ (isLexeme_lexemeAt hfound))

end LineaLang
