import Mathlib.Computability.Language
import Mathlib.Order.CompletePartialOrder
import LineaLang.Proofs.Parsing.Statement

/-!
# `LineaLang.Proofs.Parsing.Blame.Reads` — which token a refusal blames

A reading that stops blames a token. The tokens before it begin a word of the language that is read, and no word of
the language begins with them and the blamed token: the reading does not look at anything behind. Both are properties
of a reading that its steps have too, so `Reads` puts them together and has one rule for each way in which a reading
is made of others.

## Contents

* `Begins` — tokens with which a word of a language begins.
* `Cause`, `Blames` — why a token is blamed, and what that says of the tokens before it and behind it.
* `Reads` — what is taken is a word, and what is blamed is the first token that fits none.
* `Reads.bind`, `Reads.lookingAt`, `Reads.repeatUntil` — the rules.
-/

namespace LineaLang.Grammar

open scoped Computability

variable {α β : Type} {L L' L₁ L₂ : Language Token} {P Q : List Token → Prop}
  {ts rest before left word : List Token} {kinds : List TokenKind} {found : Option Token}

/-! ## Languages -/

/-- **Tokens with which a word of a language begins.** -/
def Begins (L : Language Token) (before : List Token) : Prop := ∃ more, before ++ more ∈ L

theorem Begins.of_mem (h : word ∈ L) : Begins L word := ⟨[], by rwa [List.append_nil]⟩

theorem Begins.of_append {more : List Token} (h : Begins L (before ++ more)) : Begins L before := by
  obtain ⟨after, hafter⟩ := h
  exact ⟨more ++ after, by rwa [← List.append_assoc]⟩

theorem Begins.nil (h : Begins L before) : Begins L [] := by
  obtain ⟨more, hmore⟩ := h
  exact ⟨before ++ more, hmore⟩

/-- What begins one language begins another behind some tokens, if that is so of its words. -/
theorem Begins.lift (hL : ∀ q ∈ L₂, Begins L (word ++ q)) (h : Begins L₂ before) : Begins L (word ++ before) := by
  obtain ⟨more, hmore⟩ := h
  have hwhole := hL _ hmore
  rw [← List.append_assoc] at hwhole
  exact hwhole.of_append

/-- The words that are one token of some kinds. -/
def terminals (kinds : List TokenKind) : Language Token := {word | ∃ t : Terminal kinds, word = [t.1]}

/-! ## Blame -/

variable [CharacterNames]

/-- **Why a token is blamed**, and where that leaves the reading. -/
inductive Cause (L : Language Token) (kinds : List TokenKind) (before left rest : List Token) : Prop where
  /-- The next token is of none of the kinds, each of which could have gone on. -/
  | next (hrest : left = rest) (hkind : ¬ Starts kinds left)
      (hexpects : ∀ t : Token, t.kind ∈ kinds → t.Legible → Begins L (before ++ [t]))
  /-- A token of a right kind was taken, but its literal cannot be read. -/
  | literal {t : Token} (hrest : left = t :: rest) (hkind : t.kind ∈ kinds) (hillegible : ¬ t.Legible)
      (hexpects : ∀ t : Token, t.kind ∈ kinds → t.Legible → Begins L (before ++ [t]))
  /-- A `=` was taken, and what stands left of it is no name. -/
  | target {sign : Token} (hrest : left = sign :: rest) (hkind : sign.kind = .assign) (hkinds : kinds = [.ident])
      (hleft : ∃ d : Derivation .additive, d.tokens <:+ before ∧ ∀ name, d.tree ≠ .ident name)

/-- **A refusal blames the first of the tokens that are left.** -/
structure Blames (r : Reading α) (L : Language Token) (kinds : List TokenKind) (found : Option Token)
    (rest before left : List Token) : Prop where
  found_eq : left.head? = found
  /-- Nothing behind the blamed token plays a part. -/
  again : ∀ left', left'.head? = found →
    ∃ rest', r (before ++ left') = .error (.refused (.unexpected kinds found)) rest'
  begins : Begins L before
  cause : Cause L kinds before left rest
  /-- A minus is never missed: it is looked for before anything is expected. -/
  not_minus : .minus ∉ kinds

/-- **A reading of words, one token ahead**: what it takes is a word of the language, and it would take it too if other
    tokens stood behind the next one; and if it stops, it blames a token behind which it did not look either. -/
structure Reads (P : List Token → Prop) (r : Reading α) (L : Language Token) : Prop where
  inhabited : ∃ word, word ∈ L
  takes : ∀ ⦃ts a rest⦄, P ts → r ts = .ok a rest → ∃ word ∈ L, ts = word ++ rest ∧
    ∀ rest', rest'.head? = rest.head? → r (word ++ rest') = .ok a rest'
  stops : ∀ ⦃ts kinds found rest⦄, P ts → r ts = .error (.refused (.unexpected kinds found)) rest →
    ∃ before left, ts = before ++ left ∧ Blames r L kinds found rest before left

/-! ## Parts and wholes -/

omit [CharacterNames] in
theorem head?_append_congr (before : List Token) {left left' : List Token} (h : left'.head? = left.head?) :
    (before ++ left').head? = (before ++ left).head? := by
  rw [List.head?_append, List.head?_append, h]

theorem Cause.lift (hL : ∀ q ∈ L₂, Begins L (word ++ q)) (h : Cause L₂ kinds before left rest) :
    Cause L kinds (word ++ before) left rest := by
  have hbegins : ∀ t : Token, Begins L₂ (before ++ [t]) → Begins L (word ++ before ++ [t]) := by
    intro t ht
    rw [List.append_assoc]
    exact ht.lift hL
  cases h with
  | next hrest hkind hexpects => exact .next hrest hkind fun t hk ht => hbegins t (hexpects t hk ht)
  | literal hrest hkind hillegible hexpects =>
    exact .literal hrest hkind hillegible fun t hk ht => hbegins t (hexpects t hk ht)
  | target hrest hkind hkinds hleft =>
    obtain ⟨d, hd, hname⟩ := hleft
    exact .target hrest hkind hkinds ⟨d, hd.trans (List.suffix_append _ _), hname⟩

/-- **The refusal of a part is one of the whole**, if the whole comes to the part behind some tokens. -/
theorem Blames.lift {r : Reading α} {whole : Reading β} (h : Blames r L₂ kinds found rest before left)
    (word : List Token) (hL : ∀ q ∈ L₂, Begins L (word ++ q))
    (hwhole : ∀ ts', ts'.head? = (before ++ left).head? → ∀ fault rest', r ts' = .error fault rest' →
      whole (word ++ ts') = .error fault rest') :
    Blames whole L kinds found rest (word ++ before) left where
  found_eq := h.found_eq
  again left' hleft' := by
    obtain ⟨rest', hrest'⟩ := h.again left' hleft'
    rw [List.append_assoc]
    exact ⟨rest', hwhole _ (head?_append_congr before (hleft'.trans h.found_eq.symm)) _ _ hrest'⟩
  begins := h.begins.lift hL
  cause := h.cause.lift hL
  not_minus := h.not_minus

namespace Reads

variable {r : Reading α}

theorem mono (h : Reads P r L) (hP : ∀ ts, Q ts → P ts) (hL : L ≤ L') : Reads Q r L' where
  inhabited := h.inhabited.imp fun _ hword => hL hword
  takes ts a rest hts hok := by
    obtain ⟨word, hword, heq, hagain⟩ := h.takes (hP ts hts) hok
    exact ⟨word, hL hword, heq, hagain⟩
  stops ts kinds found rest hts herror := by
    obtain ⟨before, left, heq, hblames⟩ := h.stops (hP ts hts) herror
    exact ⟨before, left, heq, hblames.lift [] (fun q hq => .of_mem (hL hq)) fun _ _ _ _ h => h⟩

theorem le (h : Reads P r L) (hL : L ≤ L') : Reads P r L' := h.mono (fun _ => id) hL

theorem of_true (h : Reads (fun _ => True) r L) : Reads P r L := h.mono (fun _ _ => trivial) le_rfl

/-! ## Steps -/

theorem pure (a : α) : Reads P (pure a) 1 where
  inhabited := ⟨[], rfl⟩
  takes _ _ _ _ hok := by
    obtain ⟨rfl, rfl⟩ := pure_eq_ok_iff.mp hok
    exact ⟨[], rfl, rfl, fun _ _ => rfl⟩
  stops _ _ _ _ _ herror := nomatch herror

theorem refuseLevel (hL : ∃ word, word ∈ L) : Reads P (refuseLevel : Reading α) L where
  inhabited := hL
  takes _ _ _ _ hok := absurd hok refuseLevel_ne_ok
  stops _ _ _ _ _ herror := nomatch herror

end Reads

omit [CharacterNames] in
theorem begins_terminals {t : Token} (h : t.kind ∈ kinds) : Begins (terminals kinds) [t] :=
  .of_mem ⟨⟨t, h⟩, rfl⟩

/-- **A token that is expected.** A minus is expected only where there is one. -/
theorem reads_expect_of (hkinds : kinds ≠ []) (h : .minus ∈ kinds → ∀ ts, P ts → Starts kinds ts) :
    Reads P (expect kinds) (terminals kinds) := by
  obtain ⟨kind, hkind⟩ := List.exists_mem_of_ne_nil kinds hkinds
  refine ⟨⟨_, ⟨⟨kind, [], .start⟩, hkind⟩, rfl⟩, fun ts t rest _ hok => ?_, fun ts kinds' found rest hts herror => ?_⟩
  · obtain ⟨rfl, hkind⟩ := expect_eq_ok_iff.mp hok
    exact ⟨[t], ⟨⟨t, hkind⟩, rfl⟩, rfl, fun rest' _ => expect_eq_ok_iff.mpr ⟨rfl, hkind⟩⟩
  · obtain ⟨hstarts, hfault, rfl⟩ := expect_eq_error_iff.mp herror
    cases hfault
    refine ⟨[], rest, rfl, rfl, fun left' hleft' => ?_, ?_, .next rfl hstarts ?_,
      fun hminus => hstarts (h hminus _ hts)⟩
    · refine ⟨left', expect_eq_error_iff.mpr ⟨?_, by rw [List.nil_append, hleft'], rfl⟩⟩
      rwa [List.nil_append, starts_congr hleft']
    · exact (begins_terminals (t := ⟨kind, [], .start⟩) hkind).nil
    · exact fun t ht _ => begins_terminals ht

theorem reads_expect (h : kinds ≠ [] ∧ .minus ∉ kinds) : Reads P (expect kinds) (terminals kinds) :=
  reads_expect_of h.1 fun hminus => absurd hminus h.2

/-- A token that is there. -/
theorem reads_expect_next (hkinds : kinds ≠ []) (hP : ∀ ts, P ts → Starts kinds ts) :
    Reads P (expect kinds) (terminals kinds) :=
  reads_expect_of hkinds fun _ => hP

instance : Nonempty Token := ⟨⟨.semi, [], .start⟩⟩

namespace Reads

variable {r : Reading α}

/-! ## One after the other -/

/-- **One after the other**, when what follows depends on what was taken. -/
theorem bind_of {f : α → Reading β} (hr : Reads P r L₁) (hL : ∃ word, word ∈ L) (hbegins : ∀ word ∈ L₁, Begins L word)
    (hf : ∀ ts a word rest, P ts → r ts = .ok a rest → ts = word ++ rest → word ∈ L₁ →
      ∃ L₂ : Language Token, (∀ q ∈ L₂, word ++ q ∈ L) ∧ Reads (· = rest) (f a) L₂) :
    Reads P (r >>= f) L where
  inhabited := hL
  takes ts b rest hts hok := by
    obtain ⟨a, mid, ha, hb⟩ := bind_eq_ok_iff.mp hok
    obtain ⟨word, hword, heq, hagain⟩ := hr.takes hts ha
    obtain ⟨L₂, hL₂, hreads⟩ := hf ts a word mid hts ha heq hword
    obtain ⟨more, hmore, rfl, hagain'⟩ := hreads.takes rfl hb
    refine ⟨word ++ more, hL₂ more hmore, by rw [heq, List.append_assoc], fun rest' hrest' => ?_⟩
    rw [List.append_assoc]
    exact bind_eq_ok_iff.mpr ⟨a, _, hagain _ (head?_append_congr more hrest'), hagain' rest' hrest'⟩
  stops ts kinds found rest hts herror := by
    cases ha : r ts with
    | error fault mid =>
      rw [bind_of_error ha] at herror
      obtain ⟨rfl, rfl⟩ := EStateM.Result.error.inj herror
      obtain ⟨before, left, rfl, hblames⟩ := hr.stops hts ha
      exact ⟨before, left, rfl, hblames.lift [] hbegins fun _ _ _ _ h => bind_of_error h⟩
    | ok a mid =>
      rw [bind_of_ok ha] at herror
      obtain ⟨word, hword, rfl, hagain⟩ := hr.takes hts ha
      obtain ⟨L₂, hL₂, hreads⟩ := hf _ a word mid hts ha rfl hword
      obtain ⟨before, left, rfl, hblames⟩ := hreads.stops rfl herror
      refine ⟨word ++ before, left, by rw [List.append_assoc], ?_⟩
      refine hblames.lift word (fun q hq => .of_mem (hL₂ q hq)) fun ts' hts' fault rest' h => ?_
      rwa [bind_of_ok (hagain ts' hts')]

/-- **One after the other.** -/
theorem bind [Nonempty α] {f : α → Reading β} (hr : Reads P r L₁) (hf : ∀ a, Reads (fun _ => True) (f a) L₂) :
    Reads P (r >>= f) (L₁ * L₂) := by
  obtain ⟨word, hword⟩ := hr.inhabited
  obtain ⟨more, hmore⟩ := (hf (Classical.arbitrary α)).inhabited
  refine hr.bind_of ⟨_, Language.append_mem_mul hword hmore⟩ (fun _ h => ⟨more, Language.append_mem_mul h hmore⟩) ?_
  exact fun _ a word rest _ _ _ h => ⟨L₂, fun q hq => Language.append_mem_mul h hq, (hf a).of_true⟩

theorem map {g : α → β} (hr : Reads P r L) : Reads P (do let a ← r; return g a) L :=
  hr.bind_of hr.inhabited (fun _ h => .of_mem h) fun _ a word _ _ _ _ h =>
    ⟨1, fun q hq => by rwa [(Language.mem_one q).mp hq, List.append_nil], .pure (g a)⟩

/-- A reading may be looked at token list by token list. -/
theorem of_forall (hL : ∃ word, word ∈ L) (h : ∀ ts, P ts → Reads (· = ts) r L) : Reads P r L where
  inhabited := hL
  takes ts _ _ hts hok := (h ts hts).takes rfl hok
  stops ts _ _ _ hts herror := (h ts hts).stops rfl herror

/-- A reading may be another as long as the next token is the same. -/
theorem of_next {r' : Reading α} (h : Reads (· = ts) r' L) (heq : ∀ ts', ts'.head? = ts.head? → r ts' = r' ts') :
    Reads (· = ts) r L where
  inhabited := h.inhabited
  takes := by
    rintro _ a rest rfl hok
    rw [heq _ rfl] at hok
    obtain ⟨word, hword, rfl, hagain⟩ := h.takes rfl hok
    refine ⟨word, hword, rfl, fun rest' hrest' => ?_⟩
    rw [heq _ (head?_append_congr word hrest')]
    exact hagain rest' hrest'
  stops := by
    rintro _ kinds' found rest rfl herror
    rw [heq _ rfl] at herror
    obtain ⟨before, left, rfl, hblames⟩ := h.stops rfl herror
    refine ⟨before, left, rfl, hblames.lift [] (fun _ hq => .of_mem hq) fun ts' hts' fault rest' h => ?_⟩
    rwa [List.nil_append, heq _ hts']

/-- **As the next token says.** -/
theorem lookingAt {f : Bool → Reading α} (htrue : Reads (fun ts => P ts ∧ Starts kinds ts) (f true) L)
    (hfalse : Reads (fun ts => P ts ∧ ¬ Starts kinds ts) (f false) L) :
    Reads P (Grammar.lookingAt kinds >>= f) L := by
  refine of_forall htrue.inhabited fun ts hts => ?_
  have hbranch : Reads (· = ts) (f (decide (Starts kinds ts))) L := by
    by_cases hs : Starts kinds ts
    · rw [decide_eq_true hs]
      exact htrue.mono (fun _ h => h ▸ ⟨hts, hs⟩) le_rfl
    · rw [decide_eq_false hs]
      exact hfalse.mono (fun _ h => h ▸ ⟨hts, hs⟩) le_rfl
  refine of_next hbranch fun ts' hts' => ?_
  rw [lookingAt_bind]
  simp only [starts_congr hts']

/-! ## Repetition -/

/-- **Repetition**, and what comes after it. -/
theorem repeatUntil {done : Reading Bool} {item : Reading α} {g : List α → Reading β} (hasks : Asks done)
    (htakes : Takes item) (hdone : Reads (fun _ => True) done (1 + L'))
    (hitem : Reads (fun ts => done ts = .ok false ts) item L)
    (hg : ∀ as, Reads (fun ts => done ts = .ok true ts) (g as) L') :
    Reads P (repeatUntil done item >>= g) (L∗ * L') := by
  obtain ⟨last, hlast⟩ := (hg []).inhabited
  have hwords : ∀ q ∈ L', q ∈ L∗ * L' := fun q hq => Language.append_mem_mul (Language.nil_mem_kstar L) hq
  -- The tokens that are left get fewer with each round.
  have hrounds : ∀ length, ∀ g : List α → Reading β, (∀ as, Reads (fun ts => done ts = .ok true ts) (g as) L') →
      Reads (fun ts => ts.length < length) (Grammar.repeatUntil done item >>= g) (L∗ * L') := by
    intro length
    induction length with
    | zero =>
      exact fun g hg => of_forall ⟨last, hwords _ hlast⟩ fun ts hts => absurd hts (Nat.not_lt_zero _)
    | succ length ih =>
      intro g hg
      rw [repeatUntil_eq hasks htakes, bind_assoc]
      refine hdone.of_true.bind_of ⟨last, hwords _ hlast⟩ ?_ ?_
      · rintro word (rfl | hword)
        · exact ⟨last, hwords _ hlast⟩
        · exact .of_mem (hwords _ hword)
      · intro ts b word rest hts hok heq _
        obtain rfl := hasks.rest_eq hok
        obtain rfl : word = [] := by simpa using heq
        cases b with
        | true =>
          exact ⟨L', fun q hq => hwords q hq, (hg []).mono (fun ts h => h ▸ hok) le_rfl⟩
        | false =>
          simp only [Bool.false_eq_true, if_false, bind_assoc, pure_bind]
          have hone : L * (L∗ * L') ≤ L∗ * L' := by
            rw [← mul_assoc]
            exact mul_le_mul_left (mul_kstar_le_kstar (a := L)) L'
          have hround : Reads (· = rest) (item >>= fun first => Grammar.repeatUntil done item >>= fun more =>
              g (first :: more)) (L * (L∗ * L')) := by
            obtain ⟨first, hfirst⟩ := hitem.inhabited
            refine (hitem.mono (Q := (· = rest)) (fun ts h => h ▸ hok) le_rfl).bind_of
              ⟨_, Language.append_mem_mul hfirst (hwords _ hlast)⟩
              (fun _ h => ⟨last, Language.append_mem_mul h (hwords _ hlast)⟩) ?_
            rintro _ a word next rfl hok' - hword
            refine ⟨L∗ * L', fun q hq => Language.append_mem_mul hword hq, ?_⟩
            have hlt := htakes hok'
            exact (ih (fun more => g (a :: more)) fun as => hg (a :: as)).mono
              (fun ts h => by subst h; exact Nat.lt_of_lt_of_le hlt (Nat.lt_succ_iff.mp hts)) le_rfl
          exact ⟨L * (L∗ * L'), fun q hq => hone hq, hround⟩
  exact of_forall ⟨last, hwords _ hlast⟩ fun ts _ =>
    (hrounds (ts.length + 1) g hg).mono (fun ts' h => h ▸ Nat.lt_succ_self _) le_rfl

end Reads

theorem reads_notLookingAt (kinds : List TokenKind) : Reads P (notLookingAt kinds) 1 where
  inhabited := ⟨[], rfl⟩
  takes ts b rest _ hok := by
    rw [notLookingAt_eq] at hok
    obtain ⟨rfl, rfl⟩ := EStateM.Result.ok.inj hok
    refine ⟨[], rfl, rfl, fun rest' hrest' => ?_⟩
    rw [List.nil_append, notLookingAt_eq]
    simp only [starts_congr hrest']
  stops ts _ _ _ _ herror := by
    rw [notLookingAt_eq] at herror
    cases herror

theorem reads_atEnd : Reads P atEnd 1 where
  inhabited := ⟨[], rfl⟩
  takes ts b rest _ hok := by
    rw [atEnd_eq] at hok
    obtain ⟨rfl, rfl⟩ := EStateM.Result.ok.inj hok
    refine ⟨[], rfl, rfl, fun rest' hrest' => ?_⟩
    rw [List.nil_append, atEnd_eq]
    simp only [← List.head?_eq_none_iff, hrest']
  stops ts _ _ _ _ herror := by
    rw [atEnd_eq] at herror
    cases herror

theorem reads_refuse (hkinds : kinds ≠ []) (hminus : .minus ∉ kinds) (hP : ∀ ts, P ts → ¬ Starts kinds ts) :
    Reads P (refuse kinds : Reading α) (terminals kinds) := by
  obtain ⟨kind, hkind⟩ := List.exists_mem_of_ne_nil kinds hkinds
  refine ⟨⟨_, ⟨⟨kind, [], .start⟩, hkind⟩, rfl⟩, fun _ _ _ _ hok => absurd hok refuse_ne_ok, ?_⟩
  intro ts kinds' found rest hts herror
  cases herror
  refine ⟨[], ts, rfl, rfl, fun left' hleft' => ⟨left', ?_⟩, ?_, .next rfl (hP ts hts) ?_, hminus⟩
  · rw [← hleft']
    rfl
  · exact (begins_terminals (t := ⟨kind, [], .start⟩) hkind).nil
  · exact fun t ht _ => begins_terminals ht

/-- **The end of a block** is where a brace is, and there must be one. -/
theorem reads_closed : Reads P block.closed (1 + terminals [.rbrace]) := by
  have hone : (1 : Language Token) ≤ 1 + terminals [.rbrace] := le_self_add
  refine Reads.lookingAt ((Reads.pure true).le hone) ?_
  refine reads_atEnd.bind_of ⟨[], hone rfl⟩ (fun _ h => .of_mem (hone h)) ?_
  rintro ts atEnd word rest ⟨-, hstarts⟩ hok rfl hword
  obtain rfl := hword
  rw [atEnd_eq] at hok
  obtain ⟨rfl, -⟩ := EStateM.Result.ok.inj hok
  split
  · exact ⟨_, fun q hq => .inr hq, reads_refuse (by decide) (by decide) fun ts h => h ▸ hstarts⟩
  · exact ⟨1, fun q hq => .inl hq, .pure false⟩

namespace Reads

theorem repeatWhile {item : Reading α} (htakes : Takes item) (hitem : Reads (Starts kinds) item L) :
    Reads P (repeatWhile kinds item) L∗ := by
  have hloop : Reads P (Grammar.repeatUntil (notLookingAt kinds) item >>= Pure.pure) (L∗ * 1) := by
    refine Reads.repeatUntil (asks_notLookingAt kinds) htakes ((reads_notLookingAt kinds).le le_self_add) ?_
      fun _ => .pure _
    refine hitem.mono (fun ts h => ?_) le_rfl
    rw [notLookingAt_eq] at h
    simpa using h
  rwa [mul_one, bind_pure] at hloop

/-- **Items with commas between them.** -/
theorem commaList [Nonempty α] {item : Reading α} (htakes : Takes item) (hitem : Reads (fun _ => True) item L) :
    Reads P (commaList item) (1 + L * (terminals [.comma] * L)∗) := by
  have hmore : Reads (Starts [.comma]) (do let _ ← expect [.comma]; item) (terminals [.comma] * L) :=
    (reads_expect (by decide)).bind fun _ => hitem
  refine lookingAt ((pure []).le le_self_add) (Reads.le ?_ le_add_self)
  exact hitem.of_true.bind fun _ => (repeatWhile (takes_after_expect fun _ => htakes) hmore).map

end Reads

end LineaLang.Grammar
