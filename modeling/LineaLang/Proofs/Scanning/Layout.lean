import LineaLang.Proofs.Scanning.LongestMatch
import LineaLang.Tree.Cursor

/-!
# `LineaLang.Proofs.Scanning.Layout` — tokens and where they stand

A scan goes through a source from its beginning and takes the longest lexeme wherever it comes. Told without the
scanner this is a relation (`ScanReaches`); it either comes to the end, and then the tokens met on the way are
those of the source, or to a place where no lexeme begins, and that place is the error. The line and the column of
an offset are counted in the text before it, which is what moving a position over the text amounts to.

From the relation the layout of tokens is read off: each lexeme is the text at its offset, lexemes do not overlap,
and all that stands between them is blanks and comments.

## Contents

* `Text.positionAt` — the line and the column of an offset, counted in the text before it.
* `ScanReaches`, `StuckAt` — how far a scan comes, and where it can go no further.
* `ScanReaches.scan_eq`, `ScanReaches.proceeds` — the scanner goes the same way, and to the end of it.
* `LaidOut` — where tokens stand in a source.
* `scan_takes_longest` — the tokens of a source, the error that it has instead, and the layout.
-/

namespace LineaLang

/-! ## Lines and columns -/

namespace Text

/-- The line that comes after a text. -/
def lineAfter (before : Text) : Nat := 1 + before.count newline

/-- The column that comes after a text: the code points since the last line feed are counted. -/
def columnAfter (before : Text) : Nat := 1 + (before.reverse.takeWhile (· ≠ newline)).length

/-- **The position of an offset.** -/
def positionAt (source : Text) (offset : Nat) : Position where
  line := lineAfter (source.take offset)
  column := columnAfter (source.take offset)
  offset := offset

/-- The text between two offsets. -/
def slice (source : Text) (first last : Nat) : Text := (source.take last).drop first

end Text

section Positions

variable {source text lexeme : Text} {offset : Nat}

/-- **Moving over a text counts its lines and columns.** -/
theorem Position.after_eq (before text : Text) (offset : Nat) :
    Position.after ⟨before.lineAfter, before.columnAfter, offset⟩ text =
      ⟨(before ++ text).lineAfter, (before ++ text).columnAfter, offset + text.length⟩ := by
  induction text generalizing before offset with
  | nil => rw [List.append_nil, Position.after_nil, List.length_nil, Nat.add_zero]
  | cons c rest ih =>
    have hstep : Position.advance ⟨before.lineAfter, before.columnAfter, offset⟩ c =
        ⟨(before ++ [c]).lineAfter, (before ++ [c]).columnAfter, offset + 1⟩ := by
      unfold Position.advance Text.lineAfter Text.columnAfter
      by_cases hc : c = Text.newline
      · simp [hc, Nat.add_assoc]
      · simp [hc, Nat.add_comm]
    rw [Position.after_cons, hstep, ih, List.append_assoc, List.singleton_append, List.length_cons]
    congr 1
    omega

/-- On one line only the column changes. -/
theorem Position.after_of_not_mem (p : Position) (h : Text.newline ∉ text) :
    p.after text = ⟨p.line, p.column + text.length, p.offset + text.length⟩ := by
  induction text generalizing p with
  | nil => rfl
  | cons c rest ih =>
    have hc : c ≠ Text.newline := Ne.symm (List.ne_of_not_mem_cons h)
    rw [Position.after_cons, ih _ (List.not_mem_of_not_mem_cons h), Position.advance, if_neg hc, List.length_cons]
    simp only [Position.mk.injEq, true_and]
    omega

theorem take_add_of_prefix (h : lexeme <+: source.drop offset) :
    source.take (offset + lexeme.length) = source.take offset ++ lexeme := by
  rw [List.take_add, ← List.prefix_iff_eq_take.mp h]

/-- **The position behind a lexeme.** -/
theorem positionAt_add (h : lexeme <+: source.drop offset) :
    source.positionAt (offset + lexeme.length) = (source.positionAt offset).after lexeme := by
  rw [Text.positionAt, Text.positionAt, Position.after_eq, take_add_of_prefix h]

/-- What comes after an offset in two parts. -/
theorem slice_add {first : Nat} (hfirst : first ≤ offset) (hoffset : offset ≤ source.length)
    (h : lexeme <+: source.drop offset) :
    source.slice first (offset + lexeme.length) = source.slice first offset ++ lexeme := by
  rw [Text.slice, take_add_of_prefix h, List.drop_append_of_le_length, Text.slice]
  rw [List.length_take, Nat.min_eq_left hoffset]
  exact hfirst

end Positions

/-! ## How far a scan comes -/

/-- The token of a lexeme; there is none if the lexeme has no kind. -/
def Token.ofLexeme (kind? : Option TokenKind) (lexeme : Text) (position : Position) : List Token :=
  match kind? with
  | none => []
  | some kind => [⟨kind, lexeme, position⟩]

/-- **A scan comes to an offset**, with the tokens that it has met on the way. It begins at the beginning, and
    goes on by the longest lexeme, which is a token unless it is passed over. -/
inductive ScanReaches (source : Text) : (offset : Nat) → List Token → Prop where
  | start : ScanReaches source 0 []
  | step {offset : Nat} {tokens : List Token} {kind? : Option TokenKind} {lexeme : Text}
      (h : ScanReaches source offset tokens) (hlongest : LongestLexeme kind? lexeme (source.drop offset)) :
      ScanReaches source (offset + lexeme.length)
        (tokens ++ Token.ofLexeme kind? lexeme (source.positionAt offset))

/-- **No lexeme begins at an offset**, and the error says what stands there instead. -/
structure StuckAt (source : Text) (offset : Nat) (e : LexError) : Prop where
  char : source[offset]? = some e.char
  position : e.position = source.positionAt offset
  stuck : ∀ kind? lexeme, IsLexeme kind? lexeme → ¬ lexeme <+: source.drop offset

/-! ## The scanner -/

namespace Token

/-- What a lexeme covers is passed over. -/
theorem scanFrom_skip (p : Position) {skip : Nat} {text : Text} (h : skip ≤ text.length) :
    scanFrom p skip text = scanFrom (p.after (text.take skip)) 0 (text.drop skip) := by
  induction text generalizing p skip with
  | nil =>
    obtain rfl := Nat.le_zero.mp h
    rfl
  | cons c rest ih =>
    cases skip with
    | zero => rfl
    | succ skip => exact ih (p.advance c) (Nat.le_of_succ_le_succ h)

/-- **One lexeme and what comes after it.** -/
theorem scanFrom_lexeme (p : Position) {text lexeme : Text} {kind? : Option TokenKind}
    (h : LongestLexeme kind? lexeme text) :
    scanFrom p 0 text =
      (scanFrom (p.after lexeme) 0 (text.drop lexeme.length)).map (ofLexeme kind? lexeme p ++ ·) := by
  have hne := h.isLexeme.ne_nil
  obtain ⟨hhead, hfound⟩ := longestLexeme_iff.mp h
  obtain ⟨rest, rfl⟩ := hhead
  obtain ⟨c, more, rfl⟩ := List.exists_cons_of_ne_nil hne
  have hskip : scanFrom (p.advance c) more.length (more ++ rest) = scanFrom (p.after (c :: more)) 0 rest := by
    rw [scanFrom_skip _ (by simp), List.take_left, List.drop_left]
    rfl
  rw [List.drop_left, List.cons_append, scanFrom]
  rw [List.cons_append] at hfound
  rw [hfound]
  cases kind? with
  | none =>
    simp only [List.length_cons, Nat.add_sub_cancel]
    rw [hskip]
    cases scanFrom (p.after (c :: more)) 0 rest <;> rfl
  | some kind =>
    have htaken : (c :: (more ++ rest)).take (more.length + 1) = c :: more := by simp
    simp only [List.length_cons, Nat.add_sub_cancel]
    rw [hskip, htaken]
    cases scanFrom (p.after (c :: more)) 0 rest <;> rfl

end Token

/-- The scan of a source from an offset on. -/
def scanAt (source : Text) (offset : Nat) : Except LexError (List Token) :=
  Token.scanFrom (source.positionAt offset) 0 (source.drop offset)

section Scanner

variable {source lexeme : Text} {offset : Nat} {tokens : List Token}

theorem scanAt_lexeme {kind? : Option TokenKind} (h : LongestLexeme kind? lexeme (source.drop offset)) :
    scanAt source offset = (scanAt source (offset + lexeme.length)).map
      (Token.ofLexeme kind? lexeme (source.positionAt offset) ++ ·) := by
  rw [scanAt, Token.scanFrom_lexeme _ h, scanAt, positionAt_add h.atHead, List.drop_drop]

theorem scanAt_length (source : Text) : scanAt source source.length = .ok [] := by
  rw [scanAt, List.drop_length]
  rfl

theorem scanAt_stuck {e : LexError} (h : StuckAt source offset e) : scanAt source offset = .error e := by
  obtain ⟨hlt, hchar⟩ := List.getElem?_eq_some_iff.mp h.char
  have hnone := lexemeAt?_eq_none_iff.mpr h.stuck
  rw [List.drop_eq_getElem_cons hlt] at hnone
  rw [scanAt, List.drop_eq_getElem_cons hlt, Token.scanFrom, hnone, ← h.position, hchar]

/-- **The scanner goes the same way.** -/
theorem ScanReaches.scan_eq (h : ScanReaches source offset tokens) :
    Token.scan source = (scanAt source offset).map (tokens ++ ·) := by
  induction h with
  | start =>
    show scanAt source 0 = (scanAt source 0).map ([] ++ ·)
    cases scanAt source 0 <;> rfl
  | @step offset tokens kind? lexeme _ hlongest ih =>
    rw [ih, scanAt_lexeme hlongest]
    cases scanAt source (offset + lexeme.length) with
    | error e => rfl
    | ok more => exact congrArg Except.ok (List.append_assoc _ _ _).symm

theorem ScanReaches.offset_le (h : ScanReaches source offset tokens) : offset ≤ source.length := by
  induction h with
  | start => exact Nat.zero_le _
  | step _ hlongest ih =>
    have hlength := hlongest.atHead.length_le
    rw [List.length_drop] at hlength
    omega

/-- **A scan goes on to the end, or until no lexeme begins.** -/
theorem ScanReaches.proceeds (h : ScanReaches source offset tokens) :
    (∃ tokens, ScanReaches source source.length tokens) ∨
      ∃ offset tokens e, ScanReaches source offset tokens ∧ StuckAt source offset e := by
  -- Every lexeme leaves less to be scanned.
  generalize hleft : source.length - offset = left
  induction left using Nat.strongRecOn generalizing offset tokens with
  | ind left ih =>
    by_cases hend : offset = source.length
    · exact .inl ⟨tokens, hend ▸ h⟩
    · have hlt : offset < source.length := Nat.lt_of_le_of_ne h.offset_le hend
      cases hfound : lexemeAt? (source.drop offset) with
      | none =>
        exact .inr ⟨offset, tokens, ⟨source[offset], source.positionAt offset⟩, h,
          ⟨List.getElem?_eq_getElem hlt, rfl, lexemeAt?_eq_none_iff.mp hfound⟩⟩
      | some found =>
        have hbound := length_lexemeAt_le hfound
        have hlength : ((source.drop offset).take found.length).length = found.length := by
          rw [List.length_take, Nat.min_eq_left hbound]
        have hlongest : LongestLexeme found.kind? ((source.drop offset).take found.length) (source.drop offset) := by
          rw [longestLexeme_iff, hlength]
          exact ⟨List.take_prefix _ _, hfound⟩
        have hpositive := List.length_pos_iff.mpr hlongest.isLexeme.ne_nil
        exact ih _ (by omega) (h.step hlongest) rfl

theorem scan_eq_ok_iff : Token.scan source = .ok tokens ↔ ScanReaches source source.length tokens := by
  have hend : ∀ {tokens}, ScanReaches source source.length tokens → Token.scan source = .ok tokens := by
    intro tokens h
    rw [h.scan_eq, scanAt_length]
    exact congrArg Except.ok (List.append_nil tokens)
  refine ⟨fun hscan => ?_, hend⟩
  rcases ScanReaches.start.proceeds with ⟨tokens', h⟩ | ⟨offset, tokens', e, h, hstuck⟩
  · rw [hend h] at hscan
    cases hscan
    exact h
  · rw [h.scan_eq, scanAt_stuck hstuck] at hscan
    cases hscan

theorem scan_eq_error_iff {e : LexError} :
    Token.scan source = .error e ↔ ∃ offset tokens, ScanReaches source offset tokens ∧ StuckAt source offset e := by
  have hstop : ∀ {offset tokens e}, ScanReaches source offset tokens → StuckAt source offset e →
      Token.scan source = .error e := by
    intro offset tokens e h hstuck
    rw [h.scan_eq, scanAt_stuck hstuck]
    rfl
  refine ⟨fun hscan => ?_, fun ⟨offset, tokens, h, hstuck⟩ => hstop h hstuck⟩
  rcases ScanReaches.start.proceeds with ⟨tokens', h⟩ | ⟨offset, tokens', e', h, hstuck⟩
  · rw [scan_eq_ok_iff.mpr h] at hscan
    cases hscan
  · rw [hstop h hstuck] at hscan
    cases hscan
    exact ⟨offset, tokens', h, hstuck⟩

end Scanner

/-! ## Layout -/

/-- **A gap**: blanks and comments, one after the other, or nothing. -/
def IsGap (text : Text) : Prop := ∃ pieces : List Text, (∀ piece ∈ pieces, SkippedLexeme piece) ∧ text = pieces.flatten

theorem IsGap.nil : IsGap [] := ⟨[], List.forall_mem_nil _, rfl⟩

theorem IsGap.append {gap piece : Text} (h : IsGap gap) (hpiece : SkippedLexeme piece) : IsGap (gap ++ piece) := by
  obtain ⟨pieces, hpieces, rfl⟩ := h
  refine ⟨pieces ++ [piece], ?_, ?_⟩
  · intro other hother
    rcases List.mem_append.mp hother with h | h
    · exact hpieces other h
    · exact List.mem_singleton.mp h ▸ hpiece
  · rw [List.flatten_append, List.flatten_singleton]

namespace Token

/-- The offset behind a token. -/
def finish (t : Token) : Nat := t.position.offset + t.lexeme.length

/-- The offset behind the last of some tokens; if there is none, where the source begins. -/
def lastFinish (tokens : List Token) : Nat := (tokens.getLast?.map finish).getD 0

theorem lastFinish_append (tokens : List Token) (t : Token) : lastFinish (tokens ++ [t]) = t.finish := by
  rw [lastFinish, List.getLast?_append, List.getLast?_singleton, Option.some_or]
  rfl

theorem lastFinish_le {tokens : List Token} {offset : Nat} (h : ∀ t ∈ tokens, t.finish ≤ offset) :
    lastFinish tokens ≤ offset := by
  rw [lastFinish]
  cases hlast : tokens.getLast? with
  | none => exact Nat.zero_le _
  | some t => exact h t (List.mem_of_getLast? hlast)

end Token

/-- **Where tokens stand in a source**, up to an offset: each is the text at its place, on one line and behind the
    ones before it; and all else is gaps, in front of each token and behind the last. -/
structure LaidOut (source : Text) (offset : Nat) (tokens : List Token) : Prop where
  position : ∀ t ∈ tokens, t.position = source.positionAt t.position.offset
  lexeme : ∀ t ∈ tokens, t.lexeme ≠ [] ∧ t.lexeme = source.slice t.position.offset t.finish
  oneLine : ∀ t ∈ tokens, Text.newline ∉ t.lexeme
  finish_le : ∀ t ∈ tokens, t.finish ≤ offset
  order : tokens.Pairwise fun a b => a.position.offset < b.position.offset ∧ a.finish ≤ b.position.offset
  gap : ∀ before t after, tokens = before ++ t :: after →
    IsGap (source.slice (Token.lastFinish before) t.position.offset)
  lastGap : IsGap (source.slice (Token.lastFinish tokens) offset)

/-- No lexeme of a token goes over the end of a line. -/
theorem IsLexeme.newline_not_mem {kind : TokenKind} {lexeme : Text} (h : IsLexeme (some kind) lexeme) :
    Text.newline ∉ lexeme := by
  have htables : ∀ entry ∈ symbols ++ keywords, Text.newline ∉ entry.1 := by decide
  cases h with
  | number h =>
    cases h with
    | whole h => exact h.not_mem _ (by decide)
    | fraction hw hf =>
      intro hmem
      rcases List.mem_append.mp hmem with hwhole | hpoint
      · exact hw.not_mem _ (by decide) hwhole
      · rcases List.mem_cons.mp hpoint with heq | hfraction
        · exact absurd heq (by decide)
        · exact hf.not_mem _ (by decide) hfraction
  | string h =>
    cases h with
    | @quoted quote body hquote hbody =>
      have hne : Text.newline ≠ quote := by
        rintro rfl
        exact absurd hquote (by decide)
      have hinside : Text.newline ∉ body := by
        induction hbody with
        | nil => exact List.not_mem_nil
        | plain _ _ hnewline _ ih => simp [Ne.symm hnewline, ih]
        | escape hnewline _ ih =>
          have hbackslash : Text.newline ≠ CodePoint.ofChar '\\' := by decide
          simp [Ne.symm hnewline, hbackslash, ih]
      simp [hne, hinside]
  | name h =>
    cases h with
    | @word c rest hc hr =>
      intro hmem
      rcases List.mem_cons.mp hmem with rfl | hrest
      · exact absurd hc (by decide)
      · exact absurd (hr _ hrest) (by decide)
  | keyword h => exact htables _ (List.mem_append_right _ h)
  | symbol h => exact htables _ (List.mem_append_left _ h)

namespace LaidOut

variable {source lexeme : Text} {offset : Nat} {tokens : List Token}

/-- Blanks and comments widen the last gap. -/
theorem skip (h : LaidOut source offset tokens) (hoffset : offset ≤ source.length)
    (hlongest : LongestLexeme none lexeme (source.drop offset)) :
    LaidOut source (offset + lexeme.length) tokens := by
  have hskipped : SkippedLexeme lexeme := by
    cases hlongest.isLexeme with
    | skipped h => exact h
  refine { h with finish_le := ?_, lastGap := ?_ }
  · intro t ht
    exact Nat.le_trans (h.finish_le t ht) (Nat.le_add_right _ _)
  · rw [slice_add (Token.lastFinish_le h.finish_le) hoffset hlongest.atHead]
    exact h.lastGap.append hskipped

/-- **A token stands behind the gap before it.** -/
theorem token (h : LaidOut source offset tokens) (hoffset : offset ≤ source.length) {kind : TokenKind}
    (hlongest : LongestLexeme (some kind) lexeme (source.drop offset)) :
    LaidOut source (offset + lexeme.length) (tokens ++ [⟨kind, lexeme, source.positionAt offset⟩]) := by
  have hslice : source.slice offset offset = [] := List.drop_eq_nil_of_le (List.length_take_le _ _)
  have hlexeme : lexeme = source.slice offset (offset + lexeme.length) := by
    rw [slice_add (Nat.le_refl _) hoffset hlongest.atHead, hslice, List.nil_append]
  have hmem : ∀ {p : Token → Prop}, (∀ t ∈ tokens, p t) → p ⟨kind, lexeme, source.positionAt offset⟩ →
      ∀ t ∈ tokens ++ [⟨kind, lexeme, source.positionAt offset⟩], p t := by
    intro p htokens hnew
    exact List.forall_mem_append.mpr ⟨htokens, List.forall_mem_singleton.mpr hnew⟩
  constructor
  case position => exact hmem h.position rfl
  case lexeme => exact hmem h.lexeme ⟨hlongest.isLexeme.ne_nil, hlexeme⟩
  case oneLine => exact hmem h.oneLine hlongest.isLexeme.newline_not_mem
  case finish_le => exact hmem (fun t ht => Nat.le_trans (h.finish_le t ht) (Nat.le_add_right _ _)) (Nat.le_refl _)
  case order =>
    rw [List.pairwise_append]
    refine ⟨h.order, List.pairwise_singleton _ _, ?_⟩
    intro a ha b hb
    obtain rfl := List.mem_singleton.mp hb
    have hfinish := h.finish_le a ha
    have hpositive := List.length_pos_iff.mpr (h.lexeme a ha).1
    have hlt : a.position.offset < a.finish := Nat.lt_add_of_pos_right hpositive
    exact ⟨Nat.lt_of_lt_of_le hlt hfinish, hfinish⟩
  case gap =>
    intro before t after heq
    rcases List.eq_nil_or_concat after with rfl | ⟨after, last, rfl⟩
    · -- The token is the new one, and before it is what was the last gap.
      obtain ⟨rfl, hlast⟩ := List.append_inj' heq rfl
      cases hlast
      exact h.lastGap
    · rw [List.concat_eq_append, ← List.cons_append, ← List.append_assoc] at heq
      exact h.gap before t after (List.append_inj' heq rfl).1
  case lastGap =>
    have hempty : source.slice (offset + lexeme.length) (offset + lexeme.length) = [] :=
      List.drop_eq_nil_of_le (List.length_take_le _ _)
    rw [Token.lastFinish_append]
    show IsGap (source.slice (offset + lexeme.length) (offset + lexeme.length))
    rw [hempty]
    exact .nil

/-- **The end of the tokens is the place behind the last one.** -/
theorem finish_eq (h : LaidOut source offset tokens) :
    (Cursor.start tokens).finish =
      ((source.positionAt (Token.lastFinish tokens)).line, (source.positionAt (Token.lastFinish tokens)).column) := by
  unfold Cursor.finish Token.lastFinish
  simp only [Cursor.start]
  cases hlast : tokens.getLast? with
  | none => rfl
  | some t =>
    have ht := List.mem_of_getLast? hlast
    have hhead : t.lexeme <+: source.drop t.position.offset := by
      rw [(h.lexeme t ht).2, Text.slice, List.drop_take]
      exact List.take_prefix _ _
    have hbehind : source.positionAt t.finish =
        ⟨t.position.line, t.position.column + t.lexeme.length, t.position.offset + t.lexeme.length⟩ := by
      rw [Token.finish, positionAt_add hhead, ← h.position t ht, Position.after_of_not_mem _ (h.oneLine t ht)]
    show _ = ((source.positionAt t.finish).line, (source.positionAt t.finish).column)
    rw [hbehind]

end LaidOut

/-- **What a scan has met is laid out** up to where it has come. -/
theorem ScanReaches.laidOut {source : Text} {offset : Nat} {tokens : List Token}
    (h : ScanReaches source offset tokens) : LaidOut source offset tokens := by
  induction h with
  | start =>
    refine ⟨List.forall_mem_nil _, List.forall_mem_nil _, List.forall_mem_nil _, List.forall_mem_nil _, .nil, ?_, .nil⟩
    intro before t after heq
    simp at heq
  | @step offset tokens kind? lexeme h hlongest ih =>
    cases kind? with
    | none =>
      rw [Token.ofLexeme, List.append_nil]
      exact ih.skip h.offset_le hlongest
    | some kind => exact ih.token h.offset_le hlongest

/-- **A scan takes the longest lexeme wherever it comes.** The tokens of a source are those of a scan that comes
    to its end, and the error of a source is where a scan comes to a place at which no lexeme begins. The tokens are
    laid out over all of the source, and the end of the tokens is the place behind the last. -/
theorem scan_takes_longest (source : Text) :
    (∀ tokens, Token.scan source = .ok tokens ↔ ScanReaches source source.length tokens) ∧
    (∀ e, Token.scan source = .error e ↔
      ∃ offset tokens, ScanReaches source offset tokens ∧ StuckAt source offset e) ∧
    ∀ tokens, Token.scan source = .ok tokens →
      LaidOut source source.length tokens ∧
      (Cursor.start tokens).finish =
        ((source.positionAt (Token.lastFinish tokens)).line,
          (source.positionAt (Token.lastFinish tokens)).column) := by
  refine ⟨fun tokens => scan_eq_ok_iff, fun e => scan_eq_error_iff, ?_⟩
  intro tokens hscan
  have hlaidOut := (scan_eq_ok_iff.mp hscan).laidOut
  exact ⟨hlaidOut, hlaidOut.finish_eq⟩

end LineaLang
