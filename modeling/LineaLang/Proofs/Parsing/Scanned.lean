import LineaLang.Proofs.Parsing.Terminal

/-!
# `LineaLang.Proofs.Parsing.Scanned` — the tokens of a source are well spelled

Whatever scanning takes for a number, a word, a string or a symbol is one: each terminal is taken as far as
it goes, and what has been taken is in the set of texts that `TokenKind.Matches` names. A word that is a
keyword has the kind of the keyword.

## Contents

* `numberLexeme_take`, `wordLexeme_take`, `stringLexeme_take`, `skippedLexeme_take` — the terminals.
* `isLexeme_lexemeAt`, `IsLexeme.matches` — what is taken at one place, and its kind.
* `Token.wellSpelled_of_scan` — the tokens of a source.
-/

namespace LineaLang

variable {p : CodePoint → Bool} {text : Text}

/-! ## Runs -/

theorem take_runLength (p : CodePoint → Bool) (text : Text) : text.take (runLength p text) = text.takeWhile p :=
  (List.prefix_iff_eq_take.mp (List.takeWhile_prefix p)).symm

theorem of_mem_takeWhile {c : CodePoint} (h : c ∈ text.takeWhile p) : p c = true := by
  induction text with
  | nil => cases h
  | cons d rest ih =>
    rw [List.takeWhile_cons] at h
    split at h
    · rename_i hd
      rcases List.mem_cons.mp h with rfl | h
      · exact hd
      · exact ih h
    · cases h

theorem isRun_take (h : runLength p text ≠ 0) : Text.IsRun p (text.take (runLength p text)) := by
  rw [take_runLength]
  exact ⟨fun hnil => h (by rw [runLength, hnil, List.length_nil]), fun c hc => of_mem_takeWhile hc⟩

/-! ## The terminals -/

/-- **What is taken for a number is one.** -/
theorem numberLexeme_take (h : numberLength text ≠ 0) : NumberLexeme (text.take (numberLength text)) := by
  unfold numberLength at h ⊢
  simp only at h ⊢
  split
  · rename_i hwhole
    simp [hwhole] at h
  · rename_i hwhole
    have hrun := isRun_take hwhole
    split
    · exact .whole hrun
    · rename_i point rest hdrop
      split
      · rename_i hpoint
        obtain ⟨rfl, hfraction⟩ := hpoint
        rw [Nat.add_assoc, List.take_add, hdrop, Nat.add_comm 1, List.take_succ_cons]
        exact .fraction hrun (isRun_take hfraction)
      · exact .whole hrun

/-- What is taken for a word is one. -/
theorem wordLexeme_take (h : wordLength text ≠ 0) : WordLexeme (text.take (wordLength text)) := by
  cases text with
  | nil => exact absurd rfl h
  | cons c rest =>
    rw [wordLength] at h ⊢
    split
    · rename_i hc
      rw [List.take_succ_cons, take_runLength]
      exact .word hc fun d hd => of_mem_takeWhile hd
    · rename_i hc
      simp [hc] at h

/-- What is taken for the rest of a string is a body and a quote. -/
theorem stringBody_take {quote : CodePoint} {length : Nat} (h : stringRestLength? quote text = some length) :
    ∃ body, text.take length = body ++ [quote] ∧ StringBody quote body := by
  -- The cases in which the string ends are those of its quote; a backslash takes two code points.
  fun_induction stringRestLength? quote text generalizing length with
  | case1 | case3 | case5 | case6 => cases h
  | case2 | case4 =>
    obtain rfl := Option.some.inj h
    exact ⟨[], rfl, .nil⟩
  | case7 d rest hd hquote hnewline ih =>
    obtain ⟨length, hlength, rfl⟩ := Option.map_eq_some_iff.mp h
    obtain ⟨body, hbody, hvalid⟩ := ih hlength
    refine ⟨CodePoint.ofChar '\\' :: d :: body, ?_, .escape hd hvalid⟩
    rw [List.take_succ_cons, List.take_succ_cons, hbody]
    rfl
  | case8 c d rest hquote hnewline hbackslash ih =>
    obtain ⟨length, hlength, rfl⟩ := Option.map_eq_some_iff.mp h
    obtain ⟨body, hbody, hvalid⟩ := ih hlength
    refine ⟨c :: body, ?_, .plain hquote hbackslash hnewline hvalid⟩
    rw [List.take_succ_cons, hbody, List.cons_append]

theorem stringLexeme_take {length : Nat} (h : stringLength? text = some length) :
    StringLexeme (text.take length) := by
  cases text with
  | nil => cases h
  | cons quote rest =>
    rw [stringLength?] at h
    split at h
    · rename_i hquote
      obtain ⟨length, hlength, rfl⟩ := Option.map_eq_some_iff.mp h
      obtain ⟨body, hbody, hvalid⟩ := stringBody_take hlength
      rw [List.take_succ_cons, hbody]
      exact .quoted hquote hvalid
    · cases h

/-- What is taken for a comment is one. -/
theorem skippedLexeme_take (h : commentLength text ≠ 0) : SkippedLexeme (text.take (commentLength text)) := by
  unfold commentLength at h ⊢
  split
  · rename_i hslashes
    obtain ⟨rest, rfl⟩ := hslashes
    have hrun : ∀ c ∈ Text.ofString "//", decide (c ≠ Text.newline) = true := by decide
    rw [take_runLength, List.takeWhile_append_of_pos hrun]
    refine .comment fun hmem => ?_
    simpa using of_mem_takeWhile hmem
  · rename_i hslashes
    simp [hslashes] at h

/-- The kind of a word is that of a keyword, or the word is a name. -/
theorem isLexeme_word (h : WordLexeme text) : IsLexeme (some (wordKind text)) text := by
  rw [wordKind]
  cases hfind : keywords.find? fun entry => entry.1 = text with
  | none =>
    refine .name h fun kind hmem => ?_
    have hnone := List.find?_eq_none.mp hfind _ hmem
    simp at hnone
  | some entry =>
    obtain ⟨keyword, kind⟩ := entry
    have hmem := List.mem_of_find?_eq_some hfind
    have hkeyword := List.find?_some hfind
    simp only [decide_eq_true_eq] at hkeyword
    subst hkeyword
    exact .keyword hmem

theorem isLexeme_symbol {lexeme : Lexeme} (h : symbolAt? text = some lexeme) :
    IsLexeme lexeme.kind? (text.take lexeme.length) := by
  obtain ⟨entry, hfind, rfl⟩ := Option.map_eq_some_iff.mp h
  obtain ⟨symbol, kind⟩ := entry
  have hmem := List.mem_of_find?_eq_some hfind
  have hprefix := List.find?_some hfind
  simp only [List.isPrefixOf_iff_prefix] at hprefix
  simp only
  rw [← List.prefix_iff_eq_take.mp hprefix]
  exact .symbol hmem

/-- **What is taken for a lexeme is one.** -/
theorem isLexeme_lexemeAt {lexeme : Lexeme} (h : lexemeAt? text = some lexeme) :
    IsLexeme lexeme.kind? (text.take lexeme.length) := by
  unfold lexemeAt? at h
  split at h
  · rename_i hblank
    cases h
    exact .skipped (.blanks (isRun_take hblank))
  split at h
  · rename_i hcomment
    cases h
    exact .skipped (skippedLexeme_take hcomment)
  split at h
  · rename_i hnumber
    cases h
    exact .number (numberLexeme_take hnumber)
  split at h
  · rename_i hword
    cases h
    exact isLexeme_word (wordLexeme_take hword)
  split at h
  · rename_i hstring
    cases h
    exact .string (stringLexeme_take hstring)
  · exact isLexeme_symbol h

/-! ## Kinds -/

/-- A spelling of the tables is one of its kind. -/
theorem matches_of_mem {kind : TokenKind} (h : (text, kind) ∈ symbols ++ keywords) : kind.Matches text := by
  have hfixed : ∀ entry ∈ symbols ++ keywords,
      entry.2 ≠ .number ∧ entry.2 ≠ .string ∧ entry.2 ≠ .ident := by decide
  obtain ⟨hnumber, hstring, hident⟩ := hfixed _ h
  cases kind <;> first | exact h | contradiction

/-- **A lexeme is one of the kind of its token.** -/
theorem IsLexeme.matches {kind : TokenKind} (h : IsLexeme (some kind) text) : kind.Matches text := by
  cases h with
  | number h | string h => exact h
  | name hword => exact hword
  | keyword h => exact matches_of_mem (List.mem_append_right _ h)
  | symbol h => exact matches_of_mem (List.mem_append_left _ h)

/-! ## Sources -/

/-- **The tokens of a source are well spelled.** -/
theorem Token.wellSpelled_of_scan {source : Text} {tokens : List Token} (h : scan source = .ok tokens) :
    ∀ t ∈ tokens, t.WellSpelled := by
  -- What a lexeme covers is passed over, so the induction is over every skip.
  have hfrom : ∀ p skip tokens, scanFrom p skip source = .ok tokens → ∀ t ∈ tokens, t.WellSpelled := by
    clear h
    induction source with
    | nil =>
      intro p skip tokens h
      cases skip <;> cases h <;> exact List.forall_mem_nil _
    | cons c rest ih =>
      intro p skip tokens h
      cases skip with
      | succ skip => exact ih _ _ _ h
      | zero =>
        rw [scanFrom] at h
        cases hlexeme : lexemeAt? (c :: rest) with
        | none =>
          rw [hlexeme] at h
          cases h
        | some lexeme =>
          obtain ⟨length, kind?⟩ := lexeme
          rw [hlexeme] at h
          cases kind? with
          | none => exact ih _ _ _ h
          | some kind =>
            cases hmore : scanFrom (p.advance c) (length - 1) rest with
            | error e =>
              simp only [hmore] at h
              cases h
            | ok more =>
              simp only [hmore] at h
              cases h
              exact List.forall_mem_cons.mpr ⟨(isLexeme_lexemeAt hlexeme).matches, ih _ _ _ hmore⟩
  exact hfrom _ _ _ h

end LineaLang
