import LineaLang.Compilation
import LineaLang.Proofs.Parsing.Likeness
import LineaLang.Proofs.Parsing.Trees
import LineaLang.Proofs.Scanning.Spacing

/-!
# `LineaLang.Proofs.SameWords` — layout does not matter

Where tokens stand shows in reports and nowhere else. Token lists with the same words give the same tree, or they are
refused at the same token with the same kinds wanted, or at the same numeral. And sources that differ only in what
stands between their tokens have the same words; so all that comes of one comes of the other.

The argument has two halves that do not touch. For the scanner it is one about lexemes and blanks. For the grammar two
readings go side by side, and what they have in common is the number of tokens that have been taken.

## Contents

* `Likeness.places` — readings of token lists with the same words, after as many tokens.
* `ReadingFault.SameAt`, `ParseFailure.SameAt`, `Node.ReadAlike`, `Node.readAlike_of_words` — the trees of token lists.
* `Text.SameWords`, `Text.SameMeaning`, `Text.SameWords.sameMeaning` — what comes of sources.
* `layout_does_not_matter` — all of it together.
-/

namespace LineaLang

/-! ## Token lists with the same words -/

section

variable (tokens₁ tokens₂ : List Token)

/-- **The same fault of two readings**: the same was wanted at the same place among the tokens, which may be the end of
    them, or the same numeral has no value. -/
inductive ReadingFault.SameAt : ReadingFault → ReadingFault → Prop where
  | unexpected (kinds : List TokenKind) {index : Nat} (h : index ≤ tokens₁.length) :
      SameAt (.refused (.unexpected kinds tokens₁[index]?)) (.refused (.unexpected kinds tokens₂[index]?))
  | tooNested {index : Nat} (h : index ≤ tokens₁.length) :
      SameAt (.refused (.tooNested tokens₁[index]?)) (.refused (.tooNested tokens₂[index]?))
  | numeral (fault : NumeralFault) : SameAt (.numeral fault) (.numeral fault)

/-- **The same failure**, located among the tokens of each list. -/
inductive ParseFailure.SameAt : ParseFailure → ParseFailure → Prop where
  | located {fault₁ fault₂ : ReadingFault} (h : fault₁.SameAt tokens₁ tokens₂ fault₂) :
      SameAt ((Cursor.start tokens₁).failure fault₁) ((Cursor.start tokens₂).failure fault₂)

/-- **The same tree of two token lists**, or the same failure. -/
inductive Node.ReadAlike : Except ParseFailure Node → Except ParseFailure Node → Prop where
  | ok (program : Node) : ReadAlike (.ok program) (.ok program)
  | error {failure₁ failure₂ : ParseFailure} (h : failure₁.SameAt tokens₁ tokens₂ failure₂) :
      ReadAlike (.error failure₁) (.error failure₂)

/-- **Two readings that have taken as many tokens.** -/
def Likeness.places : Likeness where
  remaining rest₁ rest₂ := ∃ index ≤ tokens₁.length, rest₁ = tokens₁.drop index ∧ rest₂ = tokens₂.drop index
  token t₁ t₂ := ∃ index : Nat, tokens₁[index]? = some t₁ ∧ tokens₂[index]? = some t₂
  fault := ReadingFault.SameAt tokens₁ tokens₂

end

variable {tokens₁ tokens₂ : List Token}

theorem Likeness.lawful_places (hwords : tokens₁.map Token.word = tokens₂.map Token.word) :
    (places tokens₁ tokens₂).Lawful where
  next := by
    rintro _ _ ⟨index, hindex, rfl, rfl⟩
    have hlength : tokens₁.length = tokens₂.length := by simpa using congrArg List.length hwords
    by_cases hend : index = tokens₁.length
    · exact .inl ⟨List.drop_eq_nil_of_le (by omega), List.drop_eq_nil_of_le (by omega)⟩
    · have hlt₁ : index < tokens₁.length := by omega
      have hlt₂ : index < tokens₂.length := by omega
      exact .inr ⟨_, _, _, _, List.drop_eq_getElem_cons hlt₁, List.drop_eq_getElem_cons hlt₂,
        ⟨index, List.getElem?_eq_getElem hlt₁, List.getElem?_eq_getElem hlt₂⟩, index + 1, hlt₁, rfl, rfl⟩
  word := by
    rintro t₁ t₂ ⟨index, ht₁, ht₂⟩
    have hword := congrArg (·[index]?) hwords
    simpa [ht₁, ht₂] using hword
  unexpected := by
    rintro _ _ ⟨index, hindex, rfl, rfl⟩ kinds
    rw [List.head?_drop, List.head?_drop]
    exact .unexpected kinds hindex
  tooNested := by
    rintro _ _ ⟨index, hindex, rfl, rfl⟩
    rw [List.head?_drop, List.head?_drop]
    exact .tooNested hindex
  misfit := by
    rintro t₁ t₂ ⟨index, ht₁, ht₂⟩ kinds
    rw [← ht₁, ← ht₂]
    exact .unexpected kinds (Nat.le_of_lt (List.getElem?_eq_some_iff.mp ht₁).1)
  numeral _ _ _ := .numeral _

/-- **The tree of tokens depends on their words only**, and so does the place at which reading stops. -/
theorem Node.readAlike_of_words [CharacterNames] (hwords : tokens₁.map Token.word = tokens₂.map Token.word) :
    ReadAlike tokens₁ tokens₂ (ofTokens tokens₁) (ofTokens tokens₂) := by
  have hstart : (Likeness.places tokens₁ tokens₂).remaining (Cursor.start tokens₁).rest (Cursor.start tokens₂).rest :=
    ⟨0, Nat.zero_le _, rfl, rfl⟩
  have houtcome := Likeness.reads_programReading (Likeness.lawful_places hwords) Grammar.maxLevels hstart
  change ReadAlike tokens₁ tokens₂
    ((Cursor.start tokens₁).read (Grammar.programReading (Grammar.statementAt Grammar.maxLevels))).1
    ((Cursor.start tokens₂).read (Grammar.programReading (Grammar.statementAt Grammar.maxLevels))).1
  unfold Cursor.read
  generalize Grammar.programReading (Grammar.statementAt Grammar.maxLevels) (Cursor.start tokens₁).rest = outcome₁,
    Grammar.programReading (Grammar.statementAt Grammar.maxLevels) (Cursor.start tokens₂).rest = outcome₂ at houtcome ⊢
  cases houtcome with
  | ok _ heq =>
    subst heq
    exact .ok _
  | error _ h => exact .error (.located h)

/-! ## Sources with the same words -/

/-- **The same report**: there is none, or the run broke the same rule, or the same token was refused. -/
inductive Diagnostic.Alike (tokens₁ tokens₂ : List Token) : Option Diagnostic → Option Diagnostic → Prop where
  | none : Alike tokens₁ tokens₂ none none
  | runtime (e : RuntimeError) : Alike tokens₁ tokens₂ (some (.runtime e)) (some (.runtime e))
  | parse {e₁ e₂ : ParseError} (h : ParseFailure.SameAt tokens₁ tokens₂ (.refused e₁) (.refused e₂)) :
      Alike tokens₁ tokens₂ (some (.parse e₁)) (some (.parse e₂))

/-- **Two compilations that differ only in where tokens stand.** -/
structure Compilation.Alike (c₁ c₂ : Compilation) : Prop where
  words : c₁.tokens.map Token.word = c₂.tokens.map Token.word
  program? : c₁.program? = c₂.program?
  listing : c₁.listing = c₂.listing
  output : c₁.output = c₂.output
  returned : c₁.returned = c₂.returned
  diagnostic : Diagnostic.Alike c₁.tokens c₂.tokens c₁.diagnostic? c₂.diagnostic?

/-- The same end of two compilations. -/
inductive Compilation.SameEnd : Except Failure Compilation → Except Failure Compilation → Prop where
  | ok {c₁ c₂ : Compilation} (h : c₁.Alike c₂) : SameEnd (.ok c₁) (.ok c₂)
  | error (failure : Failure) : SameEnd (.error failure) (.error failure)

namespace Text

/-- **Two sources with the same words.** -/
def SameWords (source₁ source₂ : Text) : Prop :=
  ∃ tokens₁ tokens₂, Token.scan source₁ = .ok tokens₁ ∧ Token.scan source₂ = .ok tokens₂ ∧
    tokens₁.map Token.word = tokens₂.map Token.word

/-- **Two sources of which the same comes**: the same tree or none, compilations that are alike, and, if there is a
    tree, the same run at any verbosity and on any console, with the same result on the same machine. -/
structure SameMeaning [CharacterNames] (source₁ source₂ : Text) : Prop where
  tree : ∀ program, Node.ofSource source₁ = .ok program ↔ Node.ofSource source₂ = .ok program
  compilation : Compilation.SameEnd (Compilation.ofSource source₁) (Compilation.ofSource source₂)
  run : ∀ {program}, Node.ofSource source₁ = .ok program →
    ∀ verbosity console, Machine.runSource verbosity source₁ console = Machine.runSource verbosity source₂ console

end Text

/-- A run makes the same of compilations that are alike. -/
theorem Compilation.Alike.afterRun {c₁ c₂ : Compilation} (h : c₁.Alike c₂) {σ : Type} (caller? : Option (Sink σ))
    (outcome : EStateM.Result RunFailure Machine Value) :
    SameEnd (c₁.afterRun caller? outcome).1 (c₂.afterRun caller? outcome).1 := by
  cases outcome with
  | ok v m => exact .ok { h with output := rfl, returned := rfl }
  | error failure m =>
    cases failure with
    | error e => exact .ok { h with output := rfl, diagnostic := .runtime e }
    | fault fault => exact .error _
    | unwritable cause => exact .error _

/-- **Of sources with the same words the same comes.** -/
theorem Text.SameWords.sameMeaning [CharacterNames] {source₁ source₂ : Text} (h : source₁.SameWords source₂) :
    source₁.SameMeaning source₂ := by
  obtain ⟨tokens₁, tokens₂, hscan₁, hscan₂, hwords⟩ := h
  have htrees := Node.readAlike_of_words hwords
  have hsource₁ := Node.ofSource_of_scan hscan₁
  have hsource₂ := Node.ofSource_of_scan hscan₂
  generalize htree₁ : Node.ofTokens tokens₁ = tree₁ at htrees hsource₁
  generalize htree₂ : Node.ofTokens tokens₂ = tree₂ at htrees hsource₂
  cases htrees with
  | ok program =>
    replace hsource₁ : Node.ofSource source₁ = .ok program := hsource₁
    replace hsource₂ : Node.ofSource source₂ = .ok program := hsource₂
    refine ⟨fun _ => by rw [hsource₁, hsource₂], ?_, fun _ verbosity console => ?_⟩
    · simp only [Compilation.ofSource, Compilation.ofSourceInto, hscan₁, hscan₂, htree₁, htree₂]
      cases program.listingLines with
      | error fault => exact .error _
      | ok listing =>
        refine Compilation.Alike.afterRun ?_ none _
        exact { words := hwords, program? := rfl, listing := rfl, output := rfl, returned := rfl, diagnostic := .none }
    · rw [Machine.runSource, Machine.runSource, hsource₁, hsource₂]
  | @error failure₁ failure₂ h =>
    replace hsource₁ : Node.ofSource source₁ = .error (.ofParse failure₁) := hsource₁
    replace hsource₂ : Node.ofSource source₂ = .error (.ofParse failure₂) := hsource₂
    refine ⟨fun program => ?_, ?_, fun h => ?_⟩
    · rw [hsource₁, hsource₂]
      exact ⟨nofun, nofun⟩
    · simp only [Compilation.ofSource, Compilation.ofSourceInto, hscan₁, hscan₂, htree₁, htree₂]
      cases h with
      | located h =>
        cases h with
        | unexpected kinds h => exact .ok ⟨hwords, rfl, rfl, rfl, rfl, .parse (.located (.unexpected kinds h))⟩
        | tooNested h => exact .ok ⟨hwords, rfl, rfl, rfl, rfl, .parse (.located (.tooNested h))⟩
        | numeral fault => exact .error _
    · rw [hsource₁] at h
      cases h

/-- **Layout does not matter.** A gap that begins with a blank, in front of a token or behind it, leaves a source with
    the same words, and so do single spaces in the place of all that stands between its lexemes. Token lists with the
    same words give the same tree or fail alike, wherever their tokens stand. And of sources with the same words the
    same comes. -/
theorem layout_does_not_matter [CharacterNames] :
    (∀ {source tokens}, Token.scan source = .ok tokens →
      (∀ t ∈ tokens, ∀ {gap : Text}, gap.Separates →
        source.SameWords (source.inserted t.position.offset gap) ∧ source.SameWords (source.inserted t.finish gap)) ∧
      source.SameWords (Text.join " " (tokens.map Token.lexeme))) ∧
    (∀ {tokens₁ tokens₂ : List Token}, tokens₁.map Token.word = tokens₂.map Token.word →
      Node.ReadAlike tokens₁ tokens₂ (Node.ofTokens tokens₁) (Node.ofTokens tokens₂)) ∧
    ∀ {source₁ source₂ : Text}, source₁.SameWords source₂ → source₁.SameMeaning source₂ := by
  refine ⟨fun {source tokens} hscan => ⟨fun t ht gap hgap => ⟨?_, ?_⟩, ?_⟩, Node.readAlike_of_words,
    Text.SameWords.sameMeaning⟩
  · obtain ⟨tokens', hscan', hwords⟩ := scan_inserted hscan hgap ht (.inl rfl)
    exact ⟨tokens, tokens', hscan, hscan', hwords.symm⟩
  · obtain ⟨tokens', hscan', hwords⟩ := scan_inserted hscan hgap ht (.inr rfl)
    exact ⟨tokens, tokens', hscan, hscan', hwords.symm⟩
  · obtain ⟨tokens', hscan', hwords⟩ := scan_joined hscan
    exact ⟨tokens, tokens', hscan, hscan', hwords.symm⟩

-- No character is called by its name from here on.
attribute [local instance] CharacterNames.unnamed

/-- The tokens of `x=1/y;`. -/
def crowded : List Token :=
  [⟨.ident, "x", ⟨1, 1, 0⟩⟩, ⟨.assign, "=", ⟨1, 2, 1⟩⟩, ⟨.number, "1", ⟨1, 3, 2⟩⟩, ⟨.div, "/", ⟨1, 4, 3⟩⟩,
    ⟨.ident, "y", ⟨1, 5, 4⟩⟩, ⟨.semi, ";", ⟨1, 6, 5⟩⟩]

/-- **A comment behind a slash**: the slash is still an operator, and what the source does is the same. -/
theorem crowded_relaid : Text.SameMeaning "x=1/y;" "x=1/ //=\"\n y;" ∧
    Text.SameMeaning "x=1/y;" "x = 1 / y ;" := by
  have hscan : Token.scan "x=1/y;" = .ok crowded := rfl
  have hgap : Text.Separates " //=\"\n " := by
    have hcomment : Text.IsSpacing (Text.ofString "//" ++ "=\"" ++ Text.newline :: " ") :=
      .comment (by decide) (.blank (by decide) .nil)
    exact ⟨.blank (by decide) hcomment, _, _, rfl, by decide⟩
  obtain ⟨hinserted, hjoined⟩ := layout_does_not_matter.1 hscan
  have hslash : (⟨.div, "/", ⟨1, 4, 3⟩⟩ : Token) ∈ crowded := by decide
  exact ⟨layout_does_not_matter.2.2 (hinserted _ hslash hgap).2, layout_does_not_matter.2.2 hjoined⟩

end LineaLang
